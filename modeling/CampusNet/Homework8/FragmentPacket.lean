import Mathlib.Algebra.BigOperators.Group.List.Basic
import Mathlib.Algebra.Order.Ring.Int

/-!
# IPv4 fragmentation along a path

Model of `homework8/fragment_packet.cpp`.

* `fragLoop` — the `while` loop, on `sentData` and the fragments pushed so far.
* `fragmentPacket` — the whole function; `(int)pathMTUs.size()` is the length of the list.
* `Tiles` — what a fragmentation is for: pieces laid end to end, all but the last on 8-byte
  boundaries.
* `fragLoop_spec`, `fragmentPacket_tiles` — the loop stops and tiles the data with pieces that
  fit the smallest MTU.
* `fragmentPacket_correct` — offsets, lengths and sizes of the fragments returned.
-/

namespace CampusNet.FragmentPacket

def headerLen : Int := 20

structure Fragment where
  length : Int
  offset : Int
  deriving DecidableEq, Repr

/-- The loop over `pathMTUs[1..]`. -/
def minMTU (first : Int) (rest : List Int) : Int :=
  rest.foldl (fun m x => if x < m then x else m) first

/-- A positive number of data bytes a fragment. -/
abbrev AlignedData := { n : Int // 0 < n }

/-- `while (totalData - sentData > alignedData)`; returns the final `result` and `sentData`. -/
def fragLoop (totalData : Int) (alignedData : AlignedData) (result : List Fragment)
    (sentData : Int) : List Fragment × Int :=
  if totalData - sentData > alignedData.1 then
    fragLoop totalData alignedData
      (result ++ [⟨headerLen + alignedData.1, sentData.tdiv 8⟩]) (sentData + alignedData.1)
  else (result, sentData)
termination_by (totalData - sentData).toNat
decreasing_by
  have := alignedData.2
  omega

def fragmentPacket (packetLength : Int) (pathMTUs : List Int) : List Fragment :=
  match pathMTUs with
  | [] => []
  | first :: rest =>
    if packetLength ≤ headerLen then []
    else if minMTU first rest ≤ headerLen then []
    else
      let totalData := packetLength - headerLen
      let maxDataPerFragment := minMTU first rest - headerLen
      let alignedData := maxDataPerFragment.tdiv 8 * 8
      if h : 0 < alignedData then
        let (result, sentData) := fragLoop totalData ⟨alignedData, h⟩ [] 0
        let lastData := totalData - sentData
        if lastData > 0 then result ++ [⟨headerLen + lastData, sentData.tdiv 8⟩] else result
      else []

/-! ## Tilings -/

def Fragment.data (f : Fragment) : Int := f.length - headerLen

/-- The fragments cover the data bytes from `start` to `finish`, in order and without overlap. -/
inductive Tiles (finish : Int) : Int → List Fragment → Prop
  | last {start : Int} {f : Fragment} :
      f.offset * 8 = start → 1 ≤ f.data → start + f.data = finish → Tiles finish start [f]
  | cons {start : Int} {f : Fragment} {fs : List Fragment} :
      f.offset * 8 = start → 1 ≤ f.data → 8 ∣ f.data → Tiles finish (start + f.data) fs →
      Tiles finish start (f :: fs)

namespace Tiles

variable {start finish : Int} {fs : List Fragment}

theorem head (h : Tiles finish start fs) : ∃ f, fs[0]? = some f ∧ f.offset * 8 = start := by
  cases h with
  | last ho => exact ⟨_, rfl, ho⟩
  | cons ho => exact ⟨_, rfl, ho⟩

theorem sum (h : Tiles finish start fs) : (fs.map Fragment.data).sum = finish - start := by
  induction h with
  | last _ _ hf => simp; omega
  | cons _ _ _ _ ih => simp only [List.map_cons, List.sum_cons, ih]; omega

theorem pos (h : Tiles finish start fs) : ∀ f ∈ fs, 1 ≤ f.data := by
  induction h with
  | last _ hd _ => simpa using hd
  | cons _ hd _ _ ih => exact List.forall_mem_cons.mpr ⟨hd, ih⟩

/-- Offsets stay between the two ends. -/
theorem offset_mem (h : Tiles finish start fs) :
    ∀ f ∈ fs, start ≤ f.offset * 8 ∧ f.offset * 8 < finish := by
  induction h with
  | last ho hd hf =>
    intro f hmem
    rw [List.mem_singleton] at hmem
    subst hmem
    omega
  | @cons start f fs ho hd _ hrest ih =>
    have hlt : start + f.data < finish := by
      obtain ⟨g, hg, hgo⟩ := hrest.head
      have := ih g (List.mem_of_getElem? hg)
      omega
    refine List.forall_mem_cons.mpr ⟨by omega, fun g hg => ?_⟩
    have := ih g hg
    omega

/-- A fragment that is not the last: where the next one starts, and its size. -/
theorem next (h : Tiles finish start fs) : ∀ (i : Nat) (f g : Fragment), fs[i]? = some f →
    fs[i + 1]? = some g → g.offset * 8 = f.offset * 8 + f.data ∧ 8 ∣ f.data := by
  induction h with
  | last => intro i f g _ hg; simp at hg
  | @cons start f fs ho _ hdvd hrest ih =>
    intro i f' g hf hg
    cases i with
    | zero =>
      simp only [List.getElem?_cons_zero, Option.some.injEq] at hf
      subst hf
      obtain ⟨g', hg', hgo⟩ := hrest.head
      rw [List.getElem?_cons_succ, hg'] at hg
      cases hg
      exact ⟨by omega, hdvd⟩
    | succ i =>
      rw [List.getElem?_cons_succ] at hf hg
      exact ih i f' g hf hg

end Tiles

/-! ## The loop -/

/-- **Loop lemma**: the loop pushes pieces of `alignedData` bytes and stops with between 1 and
`alignedData` bytes left; with a last piece for these, what it pushed tiles the data. -/
theorem fragLoop_spec (totalData : Int) {alignedData : AlignedData} (h8 : 8 ∣ alignedData.1)
    (result : List Fragment) (sentData : Int) (hsent : 8 ∣ sentData) (hlt : sentData < totalData) :
    ∃ pieces sentData', fragLoop totalData alignedData result sentData =
        (result ++ pieces, sentData') ∧
      sentData' < totalData ∧ totalData - sentData' ≤ alignedData.1 ∧ 8 ∣ sentData' ∧
      (∀ f ∈ pieces, f.length = headerLen + alignedData.1) ∧
      ∀ f : Fragment, f.offset * 8 = sentData' → sentData' + f.data = totalData →
        Tiles totalData sentData (pieces ++ [f]) := by
  induction result, sentData using fragLoop.induct totalData alignedData with
  | case1 result sentData hgo ih =>
    have hpos := alignedData.2
    obtain ⟨pieces, sentData', he, h1, h2, h3, h4, h5⟩ :=
      ih (Int.dvd_add hsent h8) (by omega)
    refine ⟨⟨headerLen + alignedData.1, sentData.tdiv 8⟩ :: pieces, sentData', ?_, h1, h2, h3,
      List.forall_mem_cons.mpr ⟨rfl, h4⟩, fun f hf hd => ?_⟩
    · rw [fragLoop, if_pos hgo, he]
      simp
    · have hdata : (⟨headerLen + alignedData.1, sentData.tdiv 8⟩ : Fragment).data =
          alignedData.1 := by
        simp [Fragment.data]
      apply Tiles.cons (Int.tdiv_mul_cancel hsent)
      · rw [hdata]; omega
      · rw [hdata]; exact h8
      · rw [hdata]; exact h5 f hf hd
  | case2 result sentData hstop =>
    refine ⟨[], sentData, ?_, hlt, by omega, hsent, by simp, fun f hf hd => ?_⟩
    · rw [fragLoop, if_neg hstop, List.append_nil]
    · exact Tiles.last hf (by omega) hd

/-! ## The whole function -/

theorem minMTU_le (first : Int) (rest : List Int) :
    minMTU first rest ∈ first :: rest ∧ ∀ m ∈ first :: rest, minMTU first rest ≤ m := by
  induction rest generalizing first with
  | nil => simp [minMTU]
  | cons x rest ih =>
    unfold minMTU
    rw [List.foldl_cons]
    split
    · rename_i hx
      obtain ⟨hmem, hle⟩ := ih x
      refine ⟨List.mem_cons_of_mem _ hmem, List.forall_mem_cons.mpr ⟨?_, hle⟩⟩
      exact le_trans (hle x List.mem_cons_self) (le_of_lt hx)
    · rename_i hx
      obtain ⟨hmem, hle⟩ := ih first
      rw [List.forall_mem_cons] at hle
      refine ⟨?_, List.forall_mem_cons.mpr ⟨hle.1, List.forall_mem_cons.mpr ⟨?_, hle.2⟩⟩⟩
      · rcases List.mem_cons.mp hmem with he | he
        · exact List.mem_cons.mpr (Or.inl he)
        · exact List.mem_cons_of_mem _ (List.mem_cons_of_mem _ he)
      · have := hle.1
        unfold minMTU at this
        omega

/-- The size of all pieces but the last: the data room of the MTU, rounded down to 8. -/
theorem alignedData_bounds {mtu : Int} (h : 28 ≤ mtu) :
    0 < (mtu - headerLen).tdiv 8 * 8 ∧ headerLen + (mtu - headerLen).tdiv 8 * 8 ≤ mtu := by
  unfold headerLen
  rw [Int.tdiv_eq_ediv_of_nonneg (by omega)]
  omega

/-- **What the function returns** on a path with room for eight data bytes: full pieces, and a last
one. -/
theorem fragmentPacket_pieces {packetLength first : Int} {rest : List Int}
    (hlen : headerLen < packetLength) (hmin : 28 ≤ minMTU first rest) :
    ∃ pieces last, fragmentPacket packetLength (first :: rest) = pieces ++ [last] ∧
      (∀ f ∈ pieces, f.length = headerLen + (minMTU first rest - headerLen).tdiv 8 * 8) ∧
      last.length ≤ headerLen + (minMTU first rest - headerLen).tdiv 8 * 8 ∧
      Tiles (packetLength - headerLen) 0 (pieces ++ [last]) := by
  obtain ⟨hpos, -⟩ := alignedData_bounds hmin
  have haligned : 8 ∣ (⟨(minMTU first rest - headerLen).tdiv 8 * 8, hpos⟩ : AlignedData).1 :=
    Int.dvd_mul_left _ _
  obtain ⟨pieces, sentData, he, h1, h2, h3, h4, h5⟩ :=
    fragLoop_spec (packetLength - headerLen) haligned [] 0 (Int.dvd_zero 8) (by omega)
  have hgt : ¬ minMTU first rest ≤ headerLen := by unfold headerLen; omega
  refine ⟨pieces, ⟨headerLen + (packetLength - headerLen - sentData), sentData.tdiv 8⟩, ?_, h4,
    Int.add_le_add_left h2 _, h5 _ (Int.tdiv_mul_cancel h3) (by simp [Fragment.data])⟩
  simp only [fragmentPacket, if_neg (not_le.mpr hlen), if_neg hgt, dif_pos hpos, he,
    List.nil_append]
  rw [if_pos (by omega)]

/-- **`fragmentPacket` tiles the data bytes with pieces that fit the path.** -/
theorem fragmentPacket_tiles {packetLength : Int} {pathMTUs : List Int}
    (hlen : headerLen < packetLength) (hne : pathMTUs ≠ []) (hmtu : ∀ m ∈ pathMTUs, 28 ≤ m) :
    Tiles (packetLength - headerLen) 0 (fragmentPacket packetLength pathMTUs) ∧
      ∀ f ∈ fragmentPacket packetLength pathMTUs, ∀ m ∈ pathMTUs, f.length ≤ m := by
  cases pathMTUs with
  | nil => exact absurd rfl hne
  | cons first rest =>
    obtain ⟨hmem, hle⟩ := minMTU_le first rest
    have hmin := hmtu _ hmem
    obtain ⟨-, hfit⟩ := alignedData_bounds hmin
    obtain ⟨pieces, last, hrun, hpieces, hlast, htiles⟩ := fragmentPacket_pieces hlen hmin
    rw [hrun]
    refine ⟨htiles, fun f hf m hm => ?_⟩
    have hm' := hle m hm
    rcases List.mem_append.mp hf with hf | hf
    · have := hpieces f hf
      omega
    · rw [List.mem_singleton.mp hf]
      omega

/-- **Fragmentation loses, duplicates and misplaces nothing.** -/
theorem fragmentPacket_correct {packetLength : Int} {pathMTUs : List Int}
    (hlen : 20 < packetLength) (hne : pathMTUs ≠ []) (hmtu : ∀ m ∈ pathMTUs, 28 ≤ m) :
    (∃ f, (fragmentPacket packetLength pathMTUs)[0]? = some f ∧ f.offset = 0) ∧
    (∀ (i : Nat) (f g : Fragment), (fragmentPacket packetLength pathMTUs)[i]? = some f →
      (fragmentPacket packetLength pathMTUs)[i + 1]? = some g →
      g.offset * 8 = f.offset * 8 + (f.length - 20) ∧ 8 ∣ f.length - 20) ∧
    ((fragmentPacket packetLength pathMTUs).map (fun f => f.length - 20)).sum =
      packetLength - 20 ∧
    (∀ f ∈ fragmentPacket packetLength pathMTUs, 1 ≤ f.length - 20) ∧
    (∀ f ∈ fragmentPacket packetLength pathMTUs, ∀ m ∈ pathMTUs, f.length ≤ m) ∧
    (packetLength ≤ 65535 →
      ∀ f ∈ fragmentPacket packetLength pathMTUs, 0 ≤ f.offset ∧ f.offset < 2 ^ 13) := by
  obtain ⟨htiles, hfit⟩ := fragmentPacket_tiles hlen hne hmtu
  refine ⟨?_, htiles.next, ?_, htiles.pos, hfit, fun hmax f hf => ?_⟩
  · obtain ⟨f, hf, ho⟩ := htiles.head
    exact ⟨f, hf, by omega⟩
  · have := htiles.sum
    rw [Int.sub_zero] at this
    exact this
  · have := htiles.offset_mem f hf
    unfold headerLen at this
    have hfield : (2 : Int) ^ 13 = 8192 := by decide
    exact ⟨by omega, by omega⟩

/-- A full Ethernet frame over a link of MTU 576. -/
theorem fragmentPacket_correct_ethernet :
    ((fragmentPacket 1500 [1500, 576]).map (fun f => f.length - 20)).sum = 1480 :=
  (fragmentPacket_correct (show (20 : Int) < 1500 by decide)
    (show ([1500, 576] : List Int) ≠ [] by decide) (by decide)).2.2.1

end CampusNet.FragmentPacket
