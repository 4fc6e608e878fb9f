import CampusNet.Homework2.Encode

/-!
# Capacity and length arithmetic of the multiplexer

Sizes are compared with exact numbers: `payloadSize` is not an `int`.

* `MultiplexExact` — a call of `multiplex` succeeds exactly when the capacity holds the header
  and the payload, and stays inside its part of `c`.
* `DemultiplexExact` — a successful `demultiplex` returns the exact sum.
* `statLoop_fits` — the capacity test of the statistical mode has no overflow.
* `capacity_iff` — the two hold exactly when the doubled length and the sum fit an `int`.
-/

namespace CampusNet.Multiplex

open Buffer

/-- Number of non-zero elements. -/
def nonzeros (x : Buf) (len : Int) : Nat := (List.range len.toNat).countP fun i => x i ≠ 0

/-- The size of the payload, as an exact number. -/
def payloadSize (mode : Int) (a : Buf) (aLen : Int) (b : Buf) (bLen : Int) : Int :=
  if mode = MODE_STAT_TDM then 3 * (nonzeros a aLen + nonzeros b bLen)
  else if mode = MODE_FDM then max aLen bLen
  else 2 * max aLen bLen

/-- A token has 16 bits for its index. -/
def IndicesFit (mode : Int) (a : Buf) (aLen : Int) (b : Buf) (bLen : Int) : Prop :=
  mode = MODE_STAT_TDM →
    (∀ i : Nat, (i : Int) < aLen → a i ≠ 0 → i ≤ 65535) ∧
    ∀ i : Nat, (i : Int) < bLen → b i ≠ 0 → i ≤ 65535

/-- The stream can be written, and the capacity holds it. -/
def Holds (mode cSize : Int) (a : Buf) (aLen : Int) (b : Buf) (bLen : Int) : Prop :=
  IndicesFit mode a aLen b bLen ∧ 9 + payloadSize mode a aLen b bLen ≤ cSize

/-- There is no overflow; the call succeeds exactly when it can, and writes only where it may. -/
def MultiplexExact (mode : Int) (c : Buf) (cSize : Int) (a : Buf) (aLen : Int) (b : Buf)
    (bLen : Int) : Prop :=
  ∃ n c', multiplex mode c cSize a aLen b bLen = some (n, c') ∧
    (Holds mode cSize a aLen b bLen → n = 9 + payloadSize mode a aLen b bLen ∧
      ∀ j : Nat, 9 + payloadSize mode a aLen b bLen ≤ j → c' j = c j) ∧
    (¬Holds mode cSize a aLen b bLen → n = -1 ∧ ∀ j : Nat, cSize ≤ j → c' j = c j)

/-- The bits that `demultiplex` recovers, as an exact number. -/
def recoveredBits (aSize bSize : Int) (c : Buf) : Int :=
  min aSize (readIntLe c 1) + min bSize (readIntLe c 5)

/-- There is no overflow; the call fails, or returns the exact number of bits. -/
def DemultiplexExact (g : Int) (a : Buf) (aSize : Int) (b : Buf) (bSize : Int) (c : Buf)
    (cLen : Int) : Prop :=
  ∃ n a' b', demultiplex g a aSize b bSize c cLen = some (n, a', b') ∧
    (n = -1 ∨ (0 ≤ n ∧ n = recoveredBits aSize bSize c))

/-- The payload is a whole number of slots or tokens of a known mode. -/
def WholeSlots (mode payloadLen : Int) : Prop :=
  (mode = MODE_STAT_TDM ∧ payloadLen % 3 = 0) ∨
  ((mode = MODE_SYNC_TDM ∨ mode = MODE_CDM) ∧ payloadLen % 2 = 0) ∨ mode = MODE_FDM

/-- The arguments and the stream pass the checks of `demultiplex`. -/
structure Accepts (aSize bSize : Int) (c : Buf) (cLen : Int) : Prop where
  aSize_nonneg : 0 ≤ aSize
  bSize_nonneg : 0 ≤ bSize
  header_there : 9 ≤ cLen
  aLen_nonneg : 0 ≤ readIntLe c 1
  bLen_nonneg : 0 ≤ readIntLe c 5
  whole : WholeSlots (c 0).toNat (cLen - 9)

/-! ## Sizes -/

theorem toBit_eq_one {x : UInt8} : toBit x = 1 ↔ x ≠ 0 := by
  unfold toBit
  split
  · simp [*]
  · simp [*]

theorem length_onesIn (x : Buf) (len : Int) :
    (onesIn x (List.range len.toNat)).length = nonzeros x len := by
  simp only [onesIn, nonzeros, toBit_eq_one, List.countP_eq_length_filter]

theorem ones_fit {x : Buf} {len : Int} : (∀ i ∈ onesIn x (List.range len.toNat), i ≤ 65535) ↔
    ∀ i : Nat, (i : Int) < len → x i ≠ 0 → i ≤ 65535 := by
  simp only [onesIn, List.mem_filter, List.mem_range, decide_eq_true_iff, toBit_eq_one, and_imp,
    Int.lt_toNat]

section

variable {mode g : Int} {a b c : Buf} {cSize aLen bLen aSize bSize cLen : Int}

/-- The payload has the exact size. -/
theorem length_payloadOf (ha : 0 ≤ aLen) :
    ((payloadOf mode a aLen b bLen).length : Int) = payloadSize mode a aLen b bLen := by
  have hsync : ((syncPayload a aLen b bLen).length : Int) = max aLen bLen * 2 :=
    length_slots ha fun _ => rfl
  have hcdm : ((cdmPayload a aLen b bLen).length : Int) = max aLen bLen * 2 :=
    length_slots ha fun _ => rfl
  have hfdm : ((fdmPayload a aLen b bLen).length : Int) = max aLen bLen * 1 :=
    length_slots ha fun _ => rfl
  unfold payloadOf payloadSize
  by_cases h1 : mode = MODE_STAT_TDM
  · rw [if_pos h1, if_pos h1, length_statPayload, length_onesIn, length_onesIn]
    omega
  rw [if_neg h1, if_neg h1]
  by_cases h2 : mode = MODE_SYNC_TDM
  · rw [if_pos h2, if_neg (by rw [h2]; decide), hsync]
    omega
  rw [if_neg h2]
  by_cases h3 : mode = MODE_FDM
  · rw [if_pos h3, if_pos h3, hfdm, Int.mul_one]
  · rw [if_neg h3, if_neg h3, hcdm]
    omega

theorem tokensFit_iff : TokensFit mode a aLen b bLen ↔ IndicesFit mode a aLen b bLen := by
  unfold TokensFit IndicesFit
  rw [List.forall_mem_append, forall_tokens, forall_tokens, ones_fit, ones_fit]

/-! ## Overflow -/

/-- Wherever the loop of the statistical mode stands, `k + 3` fits an `int`. -/
theorem statLoop_fits {outCap : Int} (hcap : outCap ≤ INT_MAX - header) {src : UInt8} {x : Buf}
    {l : List Nat} {o o' : Out} (h : l.foldlM (fun o i =>
      if toBit (x i) = 1 then
        if (o.k : Int) + 3 > outCap ∨ i > 65535 then .error o.buf
        else .ok (((o.put src).put (UInt8.ofNat (i &&& 0xFF))).put
          (UInt8.ofNat ((i >>> 8) &&& 0xFF)))
      else .ok o) o = (.ok o' : Except Buf Out)) (hk : (o.k : Int) ≤ outCap) :
    FitsInt ((o'.k : Int) + 3) := by
  obtain ⟨-, -, hk'⟩ := statLoop_spec src x l o o' h hk
  unfold INT_MAX header at hcap
  unfold FitsInt INT_MIN INT_MAX
  omega

/-- Doubling a long length overflows before it is compared. -/
theorem checkedInt_double {m : Int} (h : 2 ^ 30 ≤ m) : checkedInt (m * 2) = none := by
  refine if_neg fun hfits => ?_
  unfold FitsInt INT_MAX at hfits
  omega

theorem encodePayload_overflow (hmode : 1 ≤ mode ∧ mode ≤ 4) (out : Buf) (outCap : Int)
    (hsize : ¬SizeFits mode aLen bLen) : encodePayload mode out outCap a aLen b bLen = none := by
  unfold SizeFits at hsize
  push Not at hsize
  obtain ⟨hstat, hfdm, hlong⟩ := hsize
  unfold encodePayload
  rw [if_neg hstat]
  by_cases hsync : mode = MODE_SYNC_TDM
  · rw [if_pos hsync]
    unfold doSyncTdm
    simp only [checkedInt_double hlong]
    rfl
  · rw [if_neg hsync, if_neg hfdm, if_pos (eq_cdm hmode hstat hsync hfdm)]
    unfold doCdm
    simp only [checkedInt_double hlong]
    rfl

/-! ## The two functions -/

theorem multiplexExact_iff (hmode : 1 ≤ mode ∧ mode ≤ 4) (hc : FitsInt cSize) (ha : 0 ≤ aLen)
    (hb : 0 ≤ bLen) : MultiplexExact mode c cSize a aLen b bLen ↔
      cSize < header ∨ SizeFits mode aLen bLen := by
  have hlength : ((headerBytes mode aLen bLen ++ payloadOf mode a aLen b bLen).length : Int) =
      9 + payloadSize mode a aLen b bLen := by
    rw [List.length_append, length_headerBytes, ← length_payloadOf ha]
    rfl
  constructor
  · rintro ⟨n, c', hrun, -⟩
    by_contra hover
    push Not at hover
    rw [multiplex_eq hover.1 ha hb rfl, encodePayload_overflow hmode _ _ hover.2] at hrun
    cases hrun
  · intro hsize
    obtain ⟨⟨n, c'⟩, hrun, hexact⟩ :=
      multiplex_exact hmode (c := c) (a := a) (b := b) hc ha hb hsize
    refine ⟨n, c', hrun, ?_, ?_⟩
    · rintro ⟨hfit, hroom⟩
      rw [← hlength] at hroom ⊢
      cases hexact.success (tokensFit_iff.mpr hfit) hroom
      exact ⟨rfl, fun j hj => writeBytes_outside (Or.inr (by omega))⟩
    · intro hnot
      refine hexact.failure fun ⟨hfit, hroom⟩ => hnot ⟨tokensFit_iff.mp hfit, ?_⟩
      rw [← hlength]
      exact hroom

theorem decodePayload_none {p : Buf} {payloadLen realA realB : Int} {ab : Buf × Buf} :
    decodePayload mode p payloadLen realA realB ab = none ↔ ¬WholeSlots mode payloadLen := by
  unfold decodePayload WholeSlots MODE_STAT_TDM MODE_SYNC_TDM MODE_FDM MODE_CDM
  by_cases h1 : mode = 1
  · simp [h1]
  by_cases h2 : mode = 2
  · simp [h2]
  by_cases h3 : mode = 3
  · simp [h3]
  · simp [h1, h2, h3]

/-- A rejected call returns -1; an accepted one adds up the two counts. -/
theorem demultiplex_cases (g : Int) (a : Buf) (aSize : Int) (b : Buf) (bSize : Int) (c : Buf)
    (cLen : Int) :
    (¬Accepts aSize bSize c cLen ∧
      ∃ a' b', demultiplex g a aSize b bSize c cLen = some (-1, a', b')) ∨
    (Accepts aSize bSize c cLen ∧ ∃ ab, demultiplex g a aSize b bSize c cLen =
      (checkedInt (recoveredBits aSize bSize c)).map fun n => (n, ab)) := by
  unfold demultiplex
  by_cases hsizes : aSize < 0 ∨ bSize < 0 ∨ cLen < 9
  · rw [if_pos hsizes]
    refine Or.inl ⟨fun h => ?_, _, _, rfl⟩
    have := h.aSize_nonneg
    have := h.bSize_nonneg
    have := h.header_there
    omega
  rw [if_neg hsizes]
  by_cases hlens : readIntLe c 1 < 0 ∨ readIntLe c 5 < 0
  · refine Or.inl ⟨fun h => ?_, _, _, if_pos hlens⟩
    have := h.aLen_nonneg
    have := h.bLen_nonneg
    omega
  simp only [if_neg hlens]
  cases hdecode : decodePayload (c 0).toNat (c.from 9) (cLen - 9) (min aSize (readIntLe c 1))
      (min bSize (readIntLe c 5)) (clear a aSize, clear b bSize) with
  | none => exact Or.inl ⟨fun h => decodePayload_none.mp hdecode h.whole, _, _, rfl⟩
  | some ab =>
    have hwhole : WholeSlots (c 0).toNat (cLen - 9) := by
      by_contra hnot
      rw [decodePayload_none.mpr hnot] at hdecode
      cases hdecode
    refine Or.inr ⟨⟨?_, ?_, ?_, ?_, ?_, hwhole⟩, ab, ?_⟩
    · omega
    · omega
    · omega
    · omega
    · omega
    · unfold recoveredBits
      cases checkedInt (min aSize (readIntLe c 1) + min bSize (readIntLe c 5)) <;> rfl

theorem demultiplexExact_iff (g : Int) (a b : Buf) : DemultiplexExact g a aSize b bSize c cLen ↔
    (Accepts aSize bSize c cLen → recoveredBits aSize bSize c ≤ INT_MAX) := by
  unfold DemultiplexExact
  obtain ⟨hrejected, a', b', hrun⟩ | ⟨haccepts, ab, hrun⟩ :=
    demultiplex_cases g a aSize b bSize c cLen
  · rw [hrun]
    exact ⟨fun _ h => absurd h hrejected, fun _ => ⟨_, _, _, rfl, Or.inl rfl⟩⟩
  · have hnonneg : 0 ≤ recoveredBits aSize bSize c :=
      Int.add_nonneg (le_min haccepts.aSize_nonneg haccepts.aLen_nonneg)
        (le_min haccepts.bSize_nonneg haccepts.bLen_nonneg)
    rw [hrun]
    constructor
    · rintro ⟨n, a', b', hresult, -⟩ -
      by_contra hlarge
      have hnone : checkedInt (recoveredBits aSize bSize c) = none :=
        if_neg fun hfits => hlarge hfits.2
      rw [hnone] at hresult
      cases hresult
    · intro hsmall
      have hmin : INT_MIN ≤ 0 := by decide
      have hfits : FitsInt (recoveredBits aSize bSize c) :=
        ⟨le_trans hmin hnonneg, hsmall haccepts⟩
      rw [checkedInt_of_fits hfits]
      exact ⟨_, _, _, rfl, Or.inr ⟨hnonneg, rfl⟩⟩

end

/-- **Capacity and lengths.**  In every mode, `multiplex` is exact unless the capacity test of a
two-byte mode doubles a length of `2 ^ 30` or more; `demultiplex` is exact unless the sum of an
accepted call exceeds `INT_MAX`. -/
theorem capacity_iff {mode : Int} (hmode : 1 ≤ mode ∧ mode ≤ 4) (c a b : Buf)
    {cSize aLen bLen : Int} (hc : FitsInt cSize) (ha : 0 ≤ aLen) (hb : 0 ≤ bLen)
    (g : Int) (x y stream : Buf) (xSize ySize streamLen : Int) :
    (MultiplexExact mode c cSize a aLen b bLen ↔
      cSize < header ∨ SizeFits mode aLen bLen) ∧
    (DemultiplexExact g x xSize y ySize stream streamLen ↔
      (Accepts xSize ySize stream streamLen → recoveredBits xSize ySize stream ≤ INT_MAX)) :=
  ⟨multiplexExact_iff hmode hc ha hb, demultiplexExact_iff g x y⟩

/-- What `multiplex` writes for two sources of `2 ^ 30` zeros in the statistical mode. -/
def longZeros : Buf := writeBytes (fun _ => 0) 0 (headerBytes MODE_STAT_TDM (2 ^ 30) (2 ^ 30))

theorem accepts_longZeros : Accepts (2 ^ 30) (2 ^ 30) longZeros 9 where
  aSize_nonneg := by decide
  bSize_nonneg := by decide
  header_there := by decide
  aLen_nonneg := by decide +kernel
  bLen_nonneg := by decide +kernel
  whole := Or.inl ⟨rfl, rfl⟩

/-- In frequency division a length of `2 ^ 30` is no overflow yet; the bits of two such sources
are. -/
theorem capacity_iff_long :
    MultiplexExact MODE_FDM (fun _ => 0) 9 (fun _ => 0) (2 ^ 30) (fun _ => 0) 0 ∧
    DemultiplexExact 2 (fun _ => 0) (2 ^ 30) (fun _ => 0) 0 longZeros 9 ∧
    ¬DemultiplexExact 2 (fun _ => 0) (2 ^ 30) (fun _ => 0) (2 ^ 30) longZeros 9 := by
  have hfdm : 1 ≤ MODE_FDM ∧ MODE_FDM ≤ 4 := by decide
  have hcap : FitsInt 9 := by decide
  have hexact := fun ySize => capacity_iff hfdm (fun _ => 0) (fun _ => 0) (fun _ => 0) hcap
    (show (0 : Int) ≤ 2 ^ 30 by decide) (le_refl 0) 2 (fun _ => 0) (fun _ => 0) longZeros (2 ^ 30)
    ySize 9
  have hsize : SizeFits MODE_FDM (2 ^ 30) 0 := by decide
  have hone : recoveredBits (2 ^ 30) 0 longZeros ≤ INT_MAX := by decide +kernel
  have htwo : ¬recoveredBits (2 ^ 30) (2 ^ 30) longZeros ≤ INT_MAX := by decide +kernel
  exact ⟨(hexact 0).1.mpr (Or.inr hsize), (hexact 0).2.mpr fun _ => hone,
    fun h => htwo ((hexact (2 ^ 30)).2.mp h accepts_longZeros)⟩

/-- A length of `2 ^ 30` turns both functions off: its double, and the sum of two of them. -/
theorem longLengths_overflow :
    multiplex MODE_SYNC_TDM (fun _ => 0) 9 (fun _ => 0) (2 ^ 30) (fun _ => 0) 0 = none ∧
    ¬MultiplexExact MODE_SYNC_TDM (fun _ => 0) 9 (fun _ => 0) (2 ^ 30) (fun _ => 0) 0 ∧
    ¬DemultiplexExact 2 (fun _ => 0) (2 ^ 30) (fun _ => 0) (2 ^ 30) longZeros 9 := by
  have hsize : ¬((9 : Int) < header ∨ SizeFits MODE_SYNC_TDM (2 ^ 30) 0) := by decide
  refine ⟨rfl, fun h => hsize ?_, fun h => ?_⟩
  · exact (multiplexExact_iff (by decide) (by decide) (by decide) (by decide)).mp h
  · have hsum : ¬recoveredBits (2 ^ 30) (2 ^ 30) longZeros ≤ INT_MAX := by decide +kernel
    exact hsum ((demultiplexExact_iff 2 _ _).mp h accepts_longZeros)

end CampusNet.Multiplex
