import CampusNet.Homework8.FewestFragments
import CampusNet.Lib.Buffer

/-!
# Fragments of fragments, and putting them together

What `fragmentPacket` is for, not translated from the source: routers fragment what they receive,
and the receiving host writes each fragment's data bytes where its offset says.

* `refragment`, `hops` — a packet along several stretches of a route, fragmented on each.
* `Tiles.shift`, `Tiles.append`, `Tiles.refragment` — pieces of pieces are pieces.
* `hops_valid` — fragmenting again and again is a fragmentation for the whole route.
* `Tiles.exists_cover`, `Tiles.cover_unique` — every data byte is in one fragment.
* `reassemble_any_order` — fragments in any order and any number: every byte that has arrived is in
  its place, and only the bytes of missing fragments are not.
-/

namespace CampusNet.FragmentPacket

open Buffer

/-! ## Fragmenting again -/

/-- The fragments of a fragment on a further stretch, with their offsets in the packet. -/
def refragment (pathMTUs : List Int) (f : Fragment) : List Fragment :=
  (fragmentPacket f.length pathMTUs).map fun g => ⟨g.length, f.offset + g.offset⟩

/-- A packet on its way along several stretches. -/
def hops (packetLength : Int) (stretches : List (List Int)) : List Fragment :=
  stretches.foldl (fun fs pathMTUs => fs.flatMap (refragment pathMTUs)) [⟨packetLength, 0⟩]

section

variable {start finish middle : Int} {fs gs : List Fragment}

theorem Tiles.shift (h : Tiles finish start fs) (offset : Int) :
    Tiles (offset * 8 + finish) (offset * 8 + start)
      (fs.map fun g => ⟨g.length, offset + g.offset⟩) := by
  induction h with
  | @last start f ho hd hf =>
    have hdata : (⟨f.length, offset + f.offset⟩ : Fragment).data = f.data := rfl
    refine Tiles.last ?_ ?_ ?_
    · show (offset + f.offset) * 8 = _
      omega
    · exact hd
    · rw [hdata]
      omega
  | @cons start f fs ho hd h8 _ ih =>
    rw [List.map_cons]
    refine Tiles.cons ?_ hd h8 ?_
    · show (offset + f.offset) * 8 = _
      omega
    · rw [Int.add_assoc]
      exact ih

theorem Tiles.append (h : Tiles middle start fs) (h8 : 8 ∣ middle - start)
    (hrest : Tiles finish middle gs) : Tiles finish start (fs ++ gs) := by
  induction h with
  | @last start f ho hd hf =>
    refine Tiles.cons ho hd (by omega) ?_
    rw [hf]
    exact hrest
  | @cons start f fs ho hd hdvd _ ih =>
    exact Tiles.cons ho hd hdvd (ih (by omega))

/-- The pieces of one fragment, where the fragment was. -/
theorem refragment_tiles {pathMTUs : List Int} (hne : pathMTUs ≠ [])
    (hmtu : ∀ m ∈ pathMTUs, 28 ≤ m) {f : Fragment} (hd : 1 ≤ f.data) :
    Tiles (f.offset * 8 + f.data) (f.offset * 8) (refragment pathMTUs f) ∧
      ∀ g ∈ refragment pathMTUs f, ∀ m ∈ pathMTUs, g.length ≤ m := by
  have hlen : headerLen < f.length := by
    unfold Fragment.data at hd
    omega
  obtain ⟨htiles, hfit⟩ := fragmentPacket_tiles hlen hne hmtu
  refine ⟨?_, fun g hg => ?_⟩
  · have hshift := htiles.shift f.offset
    rwa [Int.add_zero] at hshift
  · obtain ⟨piece, hpiece, rfl⟩ := List.mem_map.mp hg
    exact hfit piece hpiece

/-- **Pieces of pieces are pieces.** -/
theorem Tiles.refragment (h : Tiles finish start fs) {pathMTUs : List Int} (hne : pathMTUs ≠ [])
    (hmtu : ∀ m ∈ pathMTUs, 28 ≤ m) :
    Tiles finish start (fs.flatMap (refragment pathMTUs)) := by
  induction h with
  | last ho hd hf =>
    have hpieces := (refragment_tiles hne hmtu hd).1
    rw [ho, hf] at hpieces
    simpa using hpieces
  | cons ho hd h8 _ ih =>
    have hpieces := (refragment_tiles hne hmtu hd).1
    rw [ho] at hpieces
    rw [List.flatMap_cons]
    exact hpieces.append (by omega) ih

/-- No piece has more data than the whole. -/
theorem Tiles.data_le (h : Tiles finish start fs) : ∀ f ∈ fs, f.data ≤ finish - start := by
  induction h with
  | last _ _ hf =>
    intro f hmem
    rw [List.mem_singleton.mp hmem]
    omega
  | @cons start f fs ho hd _ hrest ih =>
    have hspan := hrest.offset_mem
    obtain ⟨g, hg, -⟩ := hrest.head
    have hafter := hspan g (List.mem_of_getElem? hg)
    refine List.forall_mem_cons.mpr ⟨by omega, fun g hg => ?_⟩
    have := ih g hg
    omega

/-- A fragment is not longer than what it is a fragment of. -/
theorem length_refragment_le {pathMTUs : List Int} (hne : pathMTUs ≠ [])
    (hmtu : ∀ m ∈ pathMTUs, 28 ≤ m) {f : Fragment} (hd : 1 ≤ f.data) :
    ∀ g ∈ refragment pathMTUs f, g.length ≤ f.length := by
  intro g hg
  have hle := (refragment_tiles hne hmtu hd).1.data_le g hg
  unfold Fragment.data at hle
  omega

end

/-- **Fragmenting again and again**: whatever stretches a packet is fragmented on, one after the
other, its fragments are a fragmentation for the whole route: they tile its data bytes, and fit
every link of every stretch. -/
theorem hops_valid {packetLength : Int} {stretches : List (List Int)}
    (hlen : headerLen < packetLength) (hne : ∀ pathMTUs ∈ stretches, pathMTUs ≠ [])
    (hmtu : ∀ pathMTUs ∈ stretches, ∀ m ∈ pathMTUs, 28 ≤ m) :
    Valid packetLength stretches.flatten (hops packetLength stretches) := by
  induction stretches using List.reverseRecOn with
  | nil =>
    refine ⟨Tiles.last ?_ ?_ ?_, fun f _ m hm => by cases hm⟩
    · rfl
    · show 1 ≤ packetLength - headerLen
      omega
    · show 0 + (packetLength - headerLen) = _
      omega
  | append_singleton stretches pathMTUs ih =>
    simp only [List.mem_append, List.mem_singleton, or_imp, forall_and, forall_eq] at hne hmtu
    obtain ⟨htiles, hfits⟩ := ih hne.1 hmtu.1
    have hhops : hops packetLength (stretches ++ [pathMTUs]) =
        (hops packetLength stretches).flatMap (refragment pathMTUs) := by
      rw [hops, List.foldl_append]
      rfl
    rw [hhops]
    refine ⟨htiles.refragment hne.2 hmtu.2, fun g hg m hm => ?_⟩
    obtain ⟨f, hf, hg⟩ := List.mem_flatMap.mp hg
    have hd := htiles.pos f hf
    rw [List.flatten_append, List.mem_append] at hm
    rcases hm with hm | hm
    · exact (length_refragment_le hne.2 hmtu.2 hd g hg).trans (hfits f hf m hm)
    · rw [List.flatten_singleton] at hm
      exact (refragment_tiles hne.2 hmtu.2 hd).2 g hg m hm

/-- Over Ethernet, then over a link of MTU 576, then over one of 68. -/
theorem hops_valid_three :
    Valid 1500 [[1500], [576], [68]].flatten (hops 1500 [[1500], [576], [68]]) :=
  hops_valid (show (20 : Int) < 1500 by decide) (by decide) (by decide)

/-! ## Reassembly -/

/-- The data byte `j` of the packet is in the fragment. -/
def Fragment.Covers (f : Fragment) (j : Nat) : Prop :=
  f.offset * 8 ≤ j ∧ (j : Int) < f.offset * 8 + f.data

instance (f : Fragment) (j : Nat) : Decidable (f.Covers j) :=
  inferInstanceAs (Decidable (_ ∧ _))

/-- The data bytes that a fragment carries. -/
def Fragment.carry (f : Fragment) (payload : List UInt8) : List UInt8 :=
  (payload.drop (f.offset * 8).toNat).take f.data.toNat

/-- The receiving host writes what it receives where the offset says. -/
def reassemble (payload : List UInt8) (received : List Fragment) (buf : Buf) : Buf :=
  received.foldl (fun buf f => writeBytes buf (f.offset * 8).toNat (f.carry payload)) buf

section

variable {start finish : Int} {fs : List Fragment} {payload : List UInt8} {j : Nat}

/-- **Every data byte** is in a fragment. -/
theorem Tiles.exists_cover (h : Tiles finish start fs) (hstart : start ≤ j) (hfinish : j < finish) :
    ∃ f ∈ fs, f.Covers j := by
  induction h with
  | @last start f ho _ hf => exact ⟨f, List.mem_singleton_self f, by omega, by omega⟩
  | @cons start f fs ho _ _ _ ih =>
    by_cases hj : j < start + f.data
    · exact ⟨f, List.mem_cons_self, by omega, by omega⟩
    · obtain ⟨g, hg, hcovers⟩ := ih (by omega)
      exact ⟨g, List.mem_cons_of_mem _ hg, hcovers⟩

/-- **No data byte** is in two of them. -/
theorem Tiles.cover_unique (h : Tiles finish start fs) {f g : Fragment} (hf : f ∈ fs) (hg : g ∈ fs)
    (hfj : f.Covers j) (hgj : g.Covers j) : f = g := by
  induction h with
  | last => rw [List.mem_singleton.mp hf, List.mem_singleton.mp hg]
  | @cons start e fs ho _ _ hrest ih =>
    have hspan := hrest.offset_mem
    obtain ⟨hflo, hfhi⟩ := hfj
    obtain ⟨hglo, hghi⟩ := hgj
    rcases List.mem_cons.mp hf with rfl | hrestF
    · rcases List.mem_cons.mp hg with rfl | hrestG
      · rfl
      · have hafter := hspan g hrestG
        omega
    · rcases List.mem_cons.mp hg with rfl | hrestG
      · have hafter := hspan f hrestF
        omega
      · exact ih hrestF hrestG

/-- One received fragment: its own bytes are written, and no others. -/
theorem write_fragment {f : Fragment} (hoffset : 0 ≤ f.offset) (hd : 1 ≤ f.data) (buf : Buf)
    (hj : j < payload.length) :
    writeBytes buf (f.offset * 8).toNat (f.carry payload) j =
      if f.Covers j then payload[j] else buf j := by
  by_cases hcovers : f.Covers j
  · obtain ⟨hlo, hhi⟩ := hcovers
    obtain ⟨i, rfl⟩ : ∃ i, j = (f.offset * 8).toNat + i := ⟨j - (f.offset * 8).toNat, by omega⟩
    rw [if_pos ⟨hlo, hhi⟩]
    apply writeBytes_inside
    rw [Fragment.carry, List.getElem?_take, if_pos (by omega), List.getElem?_drop]
    exact List.getElem?_eq_getElem hj
  · have hlength : (f.carry payload).length ≤ f.data.toNat := by
      rw [Fragment.carry, List.length_take]
      exact Nat.min_le_left _ _
    rw [if_neg hcovers]
    apply writeBytes_outside
    unfold Fragment.Covers at hcovers
    omega

/-- All received fragments: the bytes that one of them covers are written. -/
theorem reassemble_eq {received : List Fragment}
    (hreceived : ∀ f ∈ received, 0 ≤ f.offset ∧ 1 ≤ f.data) (buf : Buf)
    (hj : j < payload.length) : reassemble payload received buf j =
      if ∃ f ∈ received, f.Covers j then payload[j] else buf j := by
  induction received generalizing buf with
  | nil => simp [reassemble]
  | cons f received ih =>
    rw [List.forall_mem_cons] at hreceived
    have hrest := ih hreceived.2 (writeBytes buf (f.offset * 8).toNat (f.carry payload))
    rw [write_fragment hreceived.1.1 hreceived.1.2 buf hj] at hrest
    refine hrest.trans ?_
    simp only [List.exists_mem_cons_iff]
    by_cases hcovers : f.Covers j
    · simp [hcovers]
    · simp [hcovers]

/-- **Any order, any number of times**: of the fragments of a packet that was fragmented on several
stretches, some arrive.  The bytes of a fragment that arrived are in their places; those of a
fragment that did not are as they were; and when each has arrived once, the packet is whole. -/
theorem reassemble_any_order {stretches : List (List Int)}
    (hne : ∀ pathMTUs ∈ stretches, pathMTUs ≠ [])
    (hmtu : ∀ pathMTUs ∈ stretches, ∀ m ∈ pathMTUs, 28 ≤ m) (hpayload : payload ≠ [])
    {received : List Fragment}
    (hreceived : ∀ f ∈ received, f ∈ hops (headerLen + payload.length) stretches) (buf : Buf) :
    (∀ f ∈ hops (headerLen + payload.length) stretches, ∀ j, (hj : j < payload.length) →
      f.Covers j → reassemble payload received buf j = if f ∈ received then payload[j] else buf j) ∧
    ((∀ f ∈ hops (headerLen + payload.length) stretches, f ∈ received) →
      Carries (reassemble payload received buf) payload) := by
  have hpos := List.length_pos_iff.mpr hpayload
  have hlen : headerLen < headerLen + payload.length := by omega
  have htiles := (hops_valid hlen hne hmtu).tiles
  rw [add_sub_cancel_left] at htiles
  have hsane : ∀ f ∈ received, 0 ≤ f.offset ∧ 1 ≤ f.data := by
    intro f hf
    have hspan := htiles.offset_mem f (hreceived f hf)
    exact ⟨by omega, htiles.pos f (hreceived f hf)⟩
  refine ⟨fun f hf j hj hcovers => ?_, fun hall j x hx => ?_⟩
  · rw [reassemble_eq hsane buf hj]
    have hown : (∃ g ∈ received, g.Covers j) ↔ f ∈ received := by
      constructor
      · rintro ⟨g, hg, hgj⟩
        rwa [htiles.cover_unique hf (hreceived g hg) hcovers hgj]
      · intro hmem
        exact ⟨f, hmem, hcovers⟩
    simp only [hown]
  · obtain ⟨hj, rfl⟩ := List.getElem?_eq_some_iff.mp hx
    obtain ⟨f, hf, hcovers⟩ := htiles.exists_cover (j := j) (by omega) (by omega)
    rw [reassemble_eq hsane buf hj, if_pos ⟨f, hall f hf, hcovers⟩]

end

/-- Nine bytes over a link of MTU 28: the second fragment first, then the first one twice. -/
theorem reassemble_any_order_swapped :
    Carries (reassemble [1, 2, 3, 4, 5, 6, 7, 8, 9] [⟨21, 1⟩, ⟨28, 0⟩, ⟨28, 0⟩] fun _ => 0)
      [1, 2, 3, 4, 5, 6, 7, 8, 9] := by
  have hhops : hops (headerLen + [1, 2, 3, 4, 5, 6, 7, 8, (9 : UInt8)].length) [[28]] =
      [⟨28, 0⟩, ⟨21, 1⟩] := by
    simp [hops, refragment, fragmentPacket, minMTU, headerLen, fragLoop]
  have hne : ∀ pathMTUs ∈ [[(28 : Int)]], pathMTUs ≠ [] := by decide
  refine (reassemble_any_order hne (by decide) (by decide) ?_ _).2 ?_
  · rw [hhops]
    decide
  · rw [hhops]
    decide

end CampusNet.FragmentPacket
