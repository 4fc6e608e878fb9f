import CampusNet.Homework8.FragmentPacket
import Mathlib.Tactic.Linarith

/-!
# The number of fragments

`fragmentPacket` cuts every piece at a multiple of 8 bytes, the last one included, although the last
piece need not be one.

* `Valid`, `Fewest` — a fragmentation that fits the path, and one with the least number of pieces.
* `Tiles.le_capacity`, `exists_tiles` — so many pieces carry so much, and no more.
* `AlignedSuffices` — the side condition: the data fit into one aligned piece, or the last piece
  would not fit behind an aligned one.
* `fewest_iff` — the function returns the least number of fragments exactly under that condition.
-/

namespace CampusNet.FragmentPacket

/-- A fragmentation of the packet that fits every MTU of the path. -/
structure Valid (packetLength : Int) (pathMTUs : List Int) (fs : List Fragment) : Prop where
  tiles : Tiles (packetLength - headerLen) 0 fs
  fits : ∀ f ∈ fs, ∀ m ∈ pathMTUs, f.length ≤ m

/-- No valid fragmentation has fewer pieces. -/
def Fewest (packetLength : Int) (pathMTUs : List Int) (fs : List Fragment) : Prop :=
  Valid packetLength pathMTUs fs ∧
    ∀ gs, Valid packetLength pathMTUs gs → fs.length ≤ gs.length

/-- The path leaves room for eight data bytes, and either the data fit into one aligned piece, or
what lies behind the aligned pieces is more than the room that alignment leaves unused. -/
def AlignedSuffices (packetLength mtu : Int) : Prop :=
  8 ≤ mtu - 20 ∧
    (packetLength - 20 ≤ (mtu - 20) / 8 * 8 ∨
      (mtu - 20) % 8 ≤ (packetLength - 20 - 1) % ((mtu - 20) / 8 * 8))

instance (packetLength mtu : Int) : Decidable (AlignedSuffices packetLength mtu) :=
  inferInstanceAs (Decidable (_ ∧ _))

/-! ## How much so many pieces carry -/

theorem Tiles.ne_nil {start finish : Int} {fs : List Fragment} (h : Tiles finish start fs) :
    0 < fs.length := by
  cases h <;> exact Nat.succ_pos _

theorem Tiles.le_capacity {start finish room : Int} {fs : List Fragment}
    (h : Tiles finish start fs) (hroom : ∀ f ∈ fs, f.data ≤ room) :
    finish - start ≤ ((fs.length : Int) - 1) * (room / 8 * 8) + room := by
  induction h with
  | @last start f _ _ hfinish =>
    have hf := hroom f List.mem_cons_self
    simp only [List.length_cons, List.length_nil]
    omega
  | @cons start f fs _ _ hdvd _ ih =>
    rw [List.forall_mem_cons] at hroom
    have haligned : f.data ≤ room / 8 * 8 := by omega
    have hrest := ih hroom.2
    rw [List.length_cons]
    push_cast
    linarith

theorem exists_tiles {aligned finish : Int} (h8 : 8 ∣ aligned) (hpos : 0 < aligned) :
    ∀ (n : Nat) (start : Int), 8 ∣ start → 1 ≤ finish - start - n * aligned →
      ∃ fs, Tiles finish start fs ∧ fs.length = n + 1 ∧
        ∀ f ∈ fs, f.data = aligned ∨ f.data = finish - start - n * aligned
  | 0, start, hstart, hlast => by
    have hdata : (⟨headerLen + (finish - start), start.tdiv 8⟩ : Fragment).data =
        finish - start := by
      simp [Fragment.data]
    refine ⟨[⟨headerLen + (finish - start), start.tdiv 8⟩], ?_, rfl, ?_⟩
    · refine Tiles.last (Int.tdiv_mul_cancel hstart) ?_ ?_ <;> omega
    · rw [List.forall_mem_singleton, hdata]
      right
      simp
  | n + 1, start, hstart, hlast => by
    have hdata : (⟨headerLen + aligned, start.tdiv 8⟩ : Fragment).data = aligned := by
      simp [Fragment.data]
    have hrest : finish - (start + aligned) - n * aligned =
        finish - start - (n + 1 : Nat) * aligned := by
      push_cast
      linarith
    obtain ⟨fs, htiles, hlength, hfs⟩ :=
      exists_tiles h8 hpos n (start + aligned) (Int.dvd_add hstart h8) (hlast.trans_eq hrest.symm)
    refine ⟨⟨headerLen + aligned, start.tdiv 8⟩ :: fs, ?_, congrArg Nat.succ hlength, ?_⟩
    · refine Tiles.cons (Int.tdiv_mul_cancel hstart) ?_ ?_ ?_ <;> rw [hdata]
      · exact hpos
      · exact h8
      · exact htiles
    · rw [hrest] at hfs
      exact List.forall_mem_cons.mpr ⟨Or.inl hdata, hfs⟩

/-! ## The function's number of pieces -/

/-- Full pieces and a last one: how much they carry. -/
theorem Tiles.full_pieces {finish aligned : Int} {pieces : List Fragment} {last : Fragment}
    (h : Tiles finish 0 (pieces ++ [last])) (hpieces : ∀ f ∈ pieces, f.data = aligned) :
    finish = pieces.length * aligned + last.data := by
  have hsum := h.sum
  have hsame : pieces.map Fragment.data = List.replicate pieces.length aligned := by
    rw [List.eq_replicate_iff, List.length_map]
    refine ⟨rfl, fun n hn => ?_⟩
    obtain ⟨f, hf, rfl⟩ := List.mem_map.mp hn
    exact hpieces f hf
  rw [List.map_append, hsame, List.sum_append, List.sum_replicate, nsmul_eq_mul] at hsum
  simp only [List.map_cons, List.map_nil, List.sum_singleton] at hsum
  omega

/-- The MTU of the narrowest link. -/
theorem minMTU_eq {first mtu : Int} {rest : List Int} (hmem : mtu ∈ first :: rest)
    (hleast : ∀ m ∈ first :: rest, mtu ≤ m) : minMTU first rest = mtu := by
  obtain ⟨hmin, hle⟩ := minMTU_le first rest
  exact le_antisymm (hle mtu hmem) (hleast _ hmin)

/-- With less room than eight bytes nothing is returned. -/
theorem fragmentPacket_narrow {packetLength first : Int} {rest : List Int}
    (hlen : headerLen < packetLength) (hmin : minMTU first rest < 28) :
    fragmentPacket packetLength (first :: rest) = [] := by
  simp only [fragmentPacket, if_neg (not_le.mpr hlen)]
  split
  · rfl
  · rename_i hroom
    unfold headerLen at hroom ⊢
    rw [dif_neg]
    rw [Int.tdiv_eq_ediv_of_nonneg (by omega)]
    omega

/-- What the function returns, in terms of the room on the narrowest link. -/
theorem fragmentPacket_full {packetLength mtu : Int} {pathMTUs : List Int}
    (hlen : 20 < packetLength) (hmem : mtu ∈ pathMTUs) (hleast : ∀ m ∈ pathMTUs, mtu ≤ m)
    (hroom : 28 ≤ mtu) :
    ∃ (p : Nat) (d : Int), (fragmentPacket packetLength pathMTUs).length = p + 1 ∧
      Valid packetLength pathMTUs (fragmentPacket packetLength pathMTUs) ∧
      packetLength - 20 = p * ((mtu - 20) / 8 * 8) + d ∧ 1 ≤ d ∧ d ≤ (mtu - 20) / 8 * 8 := by
  cases pathMTUs with
  | nil => cases hmem
  | cons first rest =>
    have hmin := minMTU_eq hmem hleast
    have hvalid := fragmentPacket_tiles hlen (List.cons_ne_nil first rest)
      fun m hm => hroom.trans (hleast m hm)
    obtain ⟨pieces, last, hrun, hpieces, hlast, htiles⟩ :=
      fragmentPacket_pieces hlen (hroom.trans_eq hmin.symm)
    have haligned : (mtu - headerLen).tdiv 8 * 8 = (mtu - 20) / 8 * 8 := by
      unfold headerLen
      rw [Int.tdiv_eq_ediv_of_nonneg (by omega)]
    rw [hmin, haligned] at hpieces hlast
    have hdata : ∀ f ∈ pieces, f.data = (mtu - 20) / 8 * 8 := by
      intro f hf
      rw [Fragment.data, hpieces f hf]
      omega
    have hsum := htiles.full_pieces hdata
    refine ⟨pieces.length, last.data, ?_, ⟨hvalid.1, hvalid.2⟩, hsum, ?_, ?_⟩
    · rw [hrun, List.length_append, List.length_singleton]
    · exact htiles.pos last (List.mem_append_right _ (List.mem_singleton_self last))
    · unfold Fragment.data
      omega

theorem valid_le_capacity {packetLength mtu : Int} {pathMTUs : List Int} {fs : List Fragment}
    (hmem : mtu ∈ pathMTUs) (h : Valid packetLength pathMTUs fs) :
    packetLength - 20 ≤ ((fs.length : Int) - 1) * ((mtu - 20) / 8 * 8) + (mtu - 20) := by
  have hroom : ∀ f ∈ fs, f.data ≤ mtu - 20 :=
    fun f hf => Int.sub_le_sub_right (h.fits f hf mtu hmem) 20
  have hcapacity := h.tiles.le_capacity hroom
  rwa [Int.sub_zero] at hcapacity

theorem exists_valid {packetLength mtu : Int} {pathMTUs : List Int}
    (hleast : ∀ m ∈ pathMTUs, mtu ≤ m) (hroom : 28 ≤ mtu) (n : Nat)
    (hpos : 1 ≤ packetLength - 20 - n * ((mtu - 20) / 8 * 8))
    (hlast : packetLength - 20 - n * ((mtu - 20) / 8 * 8) ≤ mtu - 20) :
    ∃ fs, Valid packetLength pathMTUs fs ∧ fs.length = n + 1 := by
  have haligned : 0 < (mtu - 20) / 8 * 8 := by omega
  rw [← Int.sub_zero (packetLength - 20)] at hpos hlast
  obtain ⟨fs, htiles, hlength, hdata⟩ :=
    exists_tiles (Int.dvd_mul_left _ _) haligned n 0 (Int.dvd_zero 8) hpos
  refine ⟨fs, ⟨htiles, fun f hf m hm => ?_⟩, hlength⟩
  have hm' := hleast m hm
  have hf' := hdata f hf
  unfold Fragment.data headerLen at hf'
  omega

/-- What lies behind the full pieces, as a remainder. -/
theorem last_emod {data aligned d : Int} {p : Nat} (hdata : data = p * aligned + d) (hd : 1 ≤ d)
    (hdle : d ≤ aligned) : (data - 1) % aligned = d - 1 := by
  rw [hdata, Int.add_sub_assoc, Int.add_comm, Int.add_mul_emod_self_right,
    Int.emod_eq_of_lt (by omega) (by omega)]

/-- `p` full pieces and `d` bytes behind them are the least number when `d` does not fit behind a
full piece. -/
theorem fewest_of_suffices {packetLength mtu : Int} {pathMTUs : List Int}
    (hlen : 20 < packetLength) (hmem : mtu ∈ pathMTUs) (hleast : ∀ m ∈ pathMTUs, mtu ≤ m)
    (h : AlignedSuffices packetLength mtu) :
    Fewest packetLength pathMTUs (fragmentPacket packetLength pathMTUs) := by
  obtain ⟨hroom, hsuffices⟩ := h
  obtain ⟨p, d, hlength, hvalid, hdata, hd, hdle⟩ :=
    fragmentPacket_full hlen hmem hleast (by omega)
  refine ⟨hvalid, fun gs hgs => ?_⟩
  have hpos := hgs.tiles.ne_nil
  have hcapacity := valid_le_capacity hmem hgs
  rw [hlength]
  by_contra hfewer
  have hcount : (gs.length : Int) ≤ p := by omega
  have hp : (1 : Int) ≤ p := by omega
  have hmore : (gs.length : Int) * ((mtu - 20) / 8 * 8) ≤ p * ((mtu - 20) / 8 * 8) :=
    Int.mul_le_mul_of_nonneg_right hcount (by omega)
  rw [Int.sub_mul, Int.one_mul] at hcapacity
  rcases hsuffices with hone | hrest
  · have hfull : 1 * ((mtu - 20) / 8 * 8) ≤ p * ((mtu - 20) / 8 * 8) :=
      Int.mul_le_mul_of_nonneg_right hp (by omega)
    omega
  · have hmod := last_emod hdata hd hdle
    omega

theorem suffices_of_fewest {packetLength mtu : Int} {pathMTUs : List Int}
    (hlen : 20 < packetLength) (hmem : mtu ∈ pathMTUs) (hleast : ∀ m ∈ pathMTUs, mtu ≤ m)
    (h : Fewest packetLength pathMTUs (fragmentPacket packetLength pathMTUs)) :
    AlignedSuffices packetLength mtu := by
  have hroom : 28 ≤ mtu := by
    by_contra hnarrow
    have hpos := h.1.tiles.ne_nil
    cases pathMTUs with
    | nil => cases hmem
    | cons first rest =>
      rw [fragmentPacket_narrow hlen (by rw [minMTU_eq hmem hleast]; omega)] at hpos
      exact absurd hpos (lt_irrefl 0)
  obtain ⟨p, d, hlength, -, hdata, hd, hdle⟩ := fragmentPacket_full hlen hmem hleast hroom
  refine ⟨by omega, ?_⟩
  by_contra hno
  push Not at hno
  obtain ⟨hmany, hfits⟩ := hno
  have hmod := last_emod hdata hd hdle
  -- the last two pieces fit into one
  obtain ⟨n, rfl⟩ : ∃ n, p = n + 1 := by
    cases p with
    | zero =>
      rw [Int.natCast_zero, Int.zero_mul] at hdata
      omega
    | succ n => exact ⟨n, rfl⟩
  have hlast : packetLength - 20 - n * ((mtu - 20) / 8 * 8) = (mtu - 20) / 8 * 8 + d := by
    rw [hdata]
    push_cast
    linarith
  have hlastPos : 1 ≤ packetLength - 20 - n * ((mtu - 20) / 8 * 8) := by omega
  obtain ⟨fs, hvalid, hfs⟩ := exists_valid hleast hroom n hlastPos (by omega)
  have hle := h.2 fs hvalid
  omega

/-- A least fragmentation leaves a packet that fits whole. -/
theorem Fewest.whole {packetLength : Int} {pathMTUs : List Int} {fs : List Fragment}
    (h : Fewest packetLength pathMTUs fs) (hlen : 20 < packetLength)
    (hfits : ∀ m ∈ pathMTUs, packetLength ≤ m) : fs = [⟨packetLength, 0⟩] := by
  have hvalid : Valid packetLength pathMTUs [⟨packetLength, 0⟩] := by
    refine ⟨Tiles.last rfl (Int.le_sub_left_of_add_le hlen) (Int.zero_add _), ?_⟩
    rw [List.forall_mem_singleton]
    exact hfits
  have hcount := h.2 _ hvalid
  rw [List.length_singleton] at hcount
  cases h.1.tiles with
  | @last _ f hoffset _ hdata =>
    have hoff : f.offset = 0 := by omega
    have hlength : f.length = packetLength := by
      unfold Fragment.data at hdata
      omega
    rw [← hoff, ← hlength]
  | @cons _ f rest _ _ _ hrest =>
    have hpos := hrest.ne_nil
    rw [List.length_cons] at hcount
    omega

/-- **The least number of fragments**: where there is a valid fragmentation at all, the function
returns one with the fewest pieces, and a packet that fits the whole path in one piece, exactly
when aligned pieces suffice. -/
theorem fewest_iff {packetLength mtu : Int} {pathMTUs : List Int} (hlen : 20 < packetLength)
    (hmem : mtu ∈ pathMTUs) (hleast : ∀ m ∈ pathMTUs, mtu ≤ m) :
    (∃ fs, Valid packetLength pathMTUs fs) →
      (Fewest packetLength pathMTUs (fragmentPacket packetLength pathMTUs) ∧
          ((∀ m ∈ pathMTUs, packetLength ≤ m) →
            fragmentPacket packetLength pathMTUs = [⟨packetLength, 0⟩]) ↔
        AlignedSuffices packetLength mtu) := by
  intro _
  constructor
  · exact fun h => suffices_of_fewest hlen hmem hleast h.1
  · intro h
    have hfewest := fewest_of_suffices hlen hmem hleast h
    exact ⟨hfewest, hfewest.whole hlen⟩

/-- Two full pieces and a last one over a link of MTU 576. -/
theorem fewest_iff_narrow : Fewest 1500 [1500, 576] (fragmentPacket 1500 [1500, 576]) := by
  have hlen : (20 : Int) < 1500 := by decide
  have hleast : ∀ m ∈ ([1500, 576] : List Int), 576 ≤ m := by decide
  have hmtus : ∀ m ∈ ([1500, 576] : List Int), 28 ≤ m := by decide
  have hvalid := fragmentPacket_tiles hlen (by simp) hmtus
  exact ((fewest_iff hlen (by simp) hleast ⟨_, hvalid.1, hvalid.2⟩).mpr (by decide)).1

/-- A packet of 1495 bytes over a link of MTU 1499 is cut in two, though it fits. -/
theorem fragmentPacket_splits_fitting :
    Valid 1495 [1499] [⟨1495, 0⟩] ∧ fragmentPacket 1495 [1499] = [⟨1492, 0⟩, ⟨23, 184⟩] ∧
      ¬Fewest 1495 [1499] (fragmentPacket 1495 [1499]) := by
  have hrun : fragmentPacket 1495 [1499] = [⟨1492, 0⟩, ⟨23, 184⟩] := by
    simp [fragmentPacket, minMTU, headerLen, fragLoop]
  refine ⟨⟨Tiles.last rfl (by decide) (by decide), by simp⟩, hrun, fun h => ?_⟩
  rw [hrun] at h
  have hone := h.whole (by decide) (by simp)
  cases hone

end CampusNet.FragmentPacket
