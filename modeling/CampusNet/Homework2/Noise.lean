import CampusNet.Homework2.Truncated
import CampusNet.Lib.Spread
import Mathlib.Algebra.BigOperators.Fin
import Mathlib.Algebra.Order.BigOperators.Group.Finset
import Mathlib.Data.Fin.VecNotation
import Mathlib.Data.Finset.Sum
import Mathlib.Tactic.FinCases

/-!
# A noisy channel

A stream arrives with its header as it was sent and its payload with errors.  `demultiplex` accepts
it all the same: the errors show in the bits.

* `Transmission` — what was multiplexed, what was written, what arrived.
* `slotBits_congr`, `names_damaged` — a slot or a token that arrives intact is read as it was sent.
* `errors_stay_local` — in every mode a damaged block spoils at most two bits.
* `cdm_received`, `cdm_tolerates` — code division: the exact noise that a slot tolerates.
-/

namespace CampusNet.Multiplex

open Buffer Spread

/-- `multiplex` has written the stream `c` of `n` bytes, and `d` has arrived. -/
structure Transmission (mode : Int) (a : Buf) (aLen : Int) (b : Buf) (bLen : Int) (c d : Buf)
    (n : Int) : Prop where
  mode_valid : 1 ≤ mode ∧ mode ≤ 4
  aLen_fits : FitsInt aLen
  bLen_fits : FitsInt bLen
  writes : ∃ c₀ cSize, FitsInt cSize ∧ multiplex mode c₀ cSize a aLen b bLen = some (n, c)
  success : 0 ≤ n
  header : ∀ j : Nat, j < 9 → d j = c j

/-- The bytes of a slot or a token. -/
def blockSize (mode : Int) : Nat :=
  if mode = MODE_STAT_TDM then 3 else if mode = MODE_FDM then 1 else 2

/-- A byte of the block has changed. -/
def Damaged (mode : Int) (c d : Buf) (t : Nat) : Prop :=
  ∃ r, r < blockSize mode ∧ d (9 + (blockSize mode * t + r)) ≠ c (9 + (blockSize mode * t + r))

instance (mode : Int) (c d : Buf) (t : Nat) : Decidable (Damaged mode c d t) :=
  inferInstanceAs (Decidable (∃ r, r < blockSize mode ∧ _))

/-- The damaged blocks of a stream of `n` bytes. -/
def damagedBlocks (mode : Int) (c d : Buf) (n : Int) : Finset Nat :=
  (Finset.range ((n - 9) / blockSize mode).toNat).filter (Damaged mode c d)

/-- The elements below `real` that are not the bits of `x`. -/
def wrongBits (x : Buf) (real : Int) (x' : Buf) : Finset Nat :=
  (Finset.range real.toNat).filter fun i => x' i ≠ toBit (x i)

/-! ## What is decoded -/

section

variable {mode : Int} {a b c d : Buf} {aLen bLen aSize bSize n : Int}

theorem Transmission.sent (h : Transmission mode a aLen b bLen c d n) :
    0 ≤ aLen ∧ 0 ≤ bLen ∧ TokensFit mode a aLen b bLen ∧
      Carries (c.from 9) (payloadOf mode a aLen b bLen) ∧
      n - 9 = (payloadOf mode a aLen b bLen).length := by
  obtain ⟨c₀, cSize, hc, hrun⟩ := h.writes
  obtain ⟨ha, hb, hfit, hcarries, hn⟩ := written h.mode_valid hc hrun h.success
  rw [carries_append, length_headerBytes] at hcarries
  exact ⟨ha, hb, hfit, hcarries.2, by omega⟩

/-- **What arrived is decoded**, with the mode and the lengths that were sent. -/
theorem Transmission.decodes (h : Transmission mode a aLen b bLen c d n) (g : Int) (a₀ b₀ : Buf)
    (haSize : 0 ≤ aSize) (hbSize : 0 ≤ bSize) (hsum : FitsInt (min aSize aLen + min bSize bLen)) :
    ∃ ab, decodePayload mode (d.from 9) (n - 9) (min aSize aLen) (min bSize bLen)
        (clear a₀ aSize, clear b₀ bSize) = some ab ∧
      demultiplex g a₀ aSize b₀ bSize d n =
        some (min aSize aLen + min bSize bLen, ab.1, ab.2) := by
  obtain ⟨ha, hb, hfit, hpayload, hn⟩ := h.sent
  obtain ⟨c₀, cSize, hc, hrun⟩ := h.writes
  obtain ⟨-, -, -, hcarries, -⟩ := written h.mode_valid hc hrun h.success
  rw [carries_append, length_headerBytes] at hcarries
  have hheader : Carries d (headerBytes mode aLen bLen) := by
    intro j x hj
    have hlt := (List.getElem?_eq_some_iff.mp hj).1
    rw [length_headerBytes] at hlt
    rw [h.header j hlt]
    exact hcarries.1 j x hj
  obtain ⟨hmode, haLen, hbLen⟩ := readHeader h.mode_valid ha h.aLen_fits.2 hb h.bLen_fits.2 hheader
  -- the decoder of what was sent does not reject so many bytes
  have hwhole : WholeSlots mode (n - 9) := by
    have hempty : ∀ (x : Buf) (i : Nat), (i : Int) < 0 → x i = 0 := fun x i hi => by omega
    obtain ⟨ab, hdecode, -⟩ :=
      decodePayload_spec (a₀, b₀) h.mode_valid ha (hempty a₀) (hempty b₀) hpayload hfit
    by_contra hnot
    rw [hn] at hnot
    rw [decodePayload_none.mpr hnot] at hdecode
    cases hdecode
  cases hdecode : decodePayload mode (d.from 9) (n - 9) (min aSize aLen) (min bSize bLen)
      (clear a₀ aSize, clear b₀ bSize) with
  | none => exact absurd hwhole (decodePayload_none.mp hdecode)
  | some ab =>
    refine ⟨ab, rfl, ?_⟩
    unfold demultiplex
    rw [if_neg (by omega)]
    simp only [hmode, haLen, hbLen, hdecode]
    rw [if_neg (by omega), checkedInt_of_fits hsum]
    rfl

/-- The number of blocks is the number of slots in a slotted mode. -/
theorem slotCount_eq (hstat : mode ≠ MODE_STAT_TDM) (payloadLen : Int) :
    slotCount mode payloadLen = payloadLen / blockSize mode := by
  unfold slotCount blockSize
  rw [if_neg hstat]
  split
  · exact (Int.ediv_one _).symm
  · rfl

/-- The slots that were sent. -/
theorem Transmission.slots (h : Transmission mode a aLen b bLen c d n)
    (hstat : mode ≠ MODE_STAT_TDM) : slotCount mode (n - 9) = max aLen bLen := by
  obtain ⟨ha, -, -, -, hn⟩ := h.sent
  rw [hn, length_payloadOf ha]
  unfold slotCount payloadSize
  rw [if_neg hstat]
  split
  · rfl
  · omega

/-- **Slotted modes** leave each bit of a slot in its place. -/
theorem Transmission.decodes_slots (h : Transmission mode a aLen b bLen c d n)
    (hstat : mode ≠ MODE_STAT_TDM) (g : Int) (a₀ b₀ : Buf) (haSize : 0 ≤ aSize)
    (hbSize : 0 ≤ bSize) (hsum : FitsInt (min aSize aLen + min bSize bLen)) :
    ∃ a' b', demultiplex g a₀ aSize b₀ bSize d n =
        some (min aSize aLen + min bSize bLen, a', b') ∧
      (∀ i : Nat, (i : Int) < min aSize aLen → a' i = (slotBits mode (d.from 9) i).1) ∧
      ∀ i : Nat, (i : Int) < min bSize bLen → b' i = (slotBits mode (d.from 9) i).2 := by
  obtain ⟨ab, hdecode, hrun⟩ := h.decodes g a₀ b₀ haSize hbSize hsum
  have hwhole : WholeSlots mode (n - 9) := by
    by_contra hnot
    rw [decodePayload_none.mpr hnot] at hdecode
    cases hdecode
  rw [decodePayload_slotted h.mode_valid hstat hwhole, h.slots hstat] at hdecode
  cases hdecode
  have hspec := decodeSlots_spec (max aLen bLen).toNat (min aSize aLen) (min bSize bLen)
    (slotBits mode (d.from 9)) (clear a₀ aSize, clear b₀ bSize)
  rw [decodeSlots_toNat] at hspec
  refine ⟨_, _, hrun, fun i hi => ?_, fun i hi => ?_⟩
  · rw [(hspec i).1, if_pos ⟨by omega, hi⟩]
  · rw [(hspec i).2, if_pos ⟨by omega, hi⟩]

/-! ## Errors -/

theorem slotBits_congr {p q : Buf} (hstat : mode ≠ MODE_STAT_TDM) {i : Nat}
    (h : ∀ r, r < blockSize mode → p (blockSize mode * i + r) = q (blockSize mode * i + r)) :
    slotBits mode p i = slotBits mode q i := by
  unfold blockSize at h
  unfold slotBits
  rw [if_neg hstat] at h
  by_cases hfdm : mode = MODE_FDM
  · rw [if_pos hfdm] at h
    have hsync : mode ≠ MODE_SYNC_TDM := by
      rw [hfdm]
      decide
    have h0 := h 0 (by decide)
    rw [Nat.one_mul, Nat.add_zero] at h0
    rw [if_neg hsync, if_pos hfdm, if_neg hsync, if_pos hfdm, fdmBits, fdmBits, h0]
  · rw [if_neg hfdm] at h
    have h0 := h 0 (by decide)
    have h1 := h 1 (by decide)
    rw [Nat.add_zero] at h0
    by_cases hsync : mode = MODE_SYNC_TDM
    · rw [if_pos hsync, if_pos hsync, syncBits, syncBits, h0, h1]
    · rw [if_neg hsync, if_neg hfdm, if_neg hsync, if_neg hfdm, cdmBits, cdmBits, h0, h1]

theorem mem_damagedBlocks {t : Nat} :
    t ∈ damagedBlocks mode c d n ↔ (t : Int) < (n - 9) / blockSize mode ∧ Damaged mode c d t := by
  rw [damagedBlocks, Finset.mem_filter, Finset.mem_range]
  exact and_congr_left' (by omega)

theorem mem_wrongBits {x x' : Buf} {real : Int} {i : Nat} :
    i ∈ wrongBits x real x' ↔ (i : Int) < real ∧ x' i ≠ toBit (x i) := by
  rw [wrongBits, Finset.mem_filter, Finset.mem_range]
  exact and_congr_left' (by omega)

/-- A slot that is not damaged is read as it was sent. -/
theorem Transmission.intact (h : Transmission mode a aLen b bLen c d n)
    (hstat : mode ≠ MODE_STAT_TDM) {i : Nat} (hi : (i : Int) < max aLen bLen)
    (hintact : i ∉ damagedBlocks mode c d n) :
    slotBits mode (d.from 9) i = (bitAt a aLen i, bitAt b bLen i) := by
  obtain ⟨-, -, -, hpayload, -⟩ := h.sent
  rw [← slotBits_eq hstat hpayload (by omega)]
  apply slotBits_congr hstat
  intro r hr
  by_contra hne
  apply hintact
  rw [mem_damagedBlocks, ← slotCount_eq hstat, h.slots hstat]
  exact ⟨hi, r, hr, hne⟩

/-- **A damaged slot** can only spoil its own two bits. -/
theorem Transmission.slotted_errors (h : Transmission mode a aLen b bLen c d n)
    (hstat : mode ≠ MODE_STAT_TDM) {a' b' : Buf}
    (ha' : ∀ i : Nat, (i : Int) < min aSize aLen → a' i = (slotBits mode (d.from 9) i).1)
    (hb' : ∀ i : Nat, (i : Int) < min bSize bLen → b' i = (slotBits mode (d.from 9) i).2) :
    (wrongBits a (min aSize aLen) a').disjSum (wrongBits b (min bSize bLen) b') ⊆
      (damagedBlocks mode c d n).biUnion fun t => {.inl t, .inr t} := by
  intro position hwrong
  rw [Finset.mem_biUnion]
  rcases Finset.mem_disjSum.mp hwrong with ⟨i, hi, rfl⟩ | ⟨i, hi, rfl⟩
  · refine ⟨i, ?_, Finset.mem_insert_self _ _⟩
    obtain ⟨hlt, hne⟩ := mem_wrongBits.mp hi
    by_contra hintact
    apply hne
    rw [ha' i hlt, h.intact hstat (by omega) hintact]
    exact bitAt_of_lt (by omega)
  · refine ⟨i, ?_, Finset.mem_insert_of_mem (Finset.mem_singleton_self _)⟩
    obtain ⟨hlt, hne⟩ := mem_wrongBits.mp hi
    by_contra hintact
    apply hne
    rw [hb' i hlt, h.intact hstat (by omega) hintact]
    exact bitAt_of_lt (by omega)

/-- The position that a token names. -/
def tokenPosition (p : Buf) (t : Nat) : Finset (Nat ⊕ Nat) :=
  if p (3 * t) = 0 then {.inl (tokenIdx p t)}
  else if p (3 * t) = 1 then {.inr (tokenIdx p t)}
  else ∅

theorem card_tokenPosition (p : Buf) (t : Nat) : (tokenPosition p t).card ≤ 1 := by
  unfold tokenPosition
  split
  · simp
  · split
    · simp
    · simp

theorem inl_mem_tokenPosition {p : Buf} {t j : Nat} (hsrc : p (3 * t) = 0)
    (hidx : tokenIdx p t = j) : .inl j ∈ tokenPosition p t := by
  rw [tokenPosition, if_pos hsrc, hidx]
  exact Finset.mem_singleton_self _

theorem inr_mem_tokenPosition {p : Buf} {t j : Nat} (hsrc : p (3 * t) = 1)
    (hidx : tokenIdx p t = j) : .inr j ∈ tokenPosition p t := by
  have hne : p (3 * t) ≠ 0 := by
    rw [hsrc]
    decide
  rw [tokenPosition, if_neg hne, if_pos hsrc, hidx]
  exact Finset.mem_singleton_self _

/-- A token that arrives intact names what it named. -/
theorem token_congr {t : Nat} (h : ¬Damaged MODE_STAT_TDM c d t) :
    d.from 9 (3 * t) = c.from 9 (3 * t) ∧ tokenIdx (d.from 9) t = tokenIdx (c.from 9) t := by
  have hbytes : ∀ r, r < 3 → d.from 9 (3 * t + r) = c.from 9 (3 * t + r) := by
    intro r hr
    by_contra hne
    exact h ⟨r, hr, hne⟩
  refine ⟨hbytes 0 (by decide), ?_⟩
  rw [tokenIdx, tokenIdx, hbytes 1 (by decide), hbytes 2 (by decide)]

/-- **Named on one side only**: by a damaged token, as it was sent or as it arrived. -/
theorem names_damaged {k : Nat} {s : UInt8} {j : Nat}
    (h : ¬(Names (d.from 9) k s j ↔ Names (c.from 9) k s j)) :
    ∃ t, t < k ∧ Damaged MODE_STAT_TDM c d t ∧
      ((c.from 9 (3 * t) = s ∧ tokenIdx (c.from 9) t = j) ∨
        (d.from 9 (3 * t) = s ∧ tokenIdx (d.from 9) t = j)) := by
  by_contra hnone
  push Not at hnone
  apply h
  constructor
  · rintro ⟨t, ht, hsrc, hidx⟩
    by_cases hdamaged : Damaged MODE_STAT_TDM c d t
    · exact absurd hidx ((hnone t ht hdamaged).2 hsrc)
    · obtain ⟨hsame, hsameIdx⟩ := token_congr hdamaged
      exact ⟨t, ht, hsame ▸ hsrc, hsameIdx ▸ hidx⟩
  · rintro ⟨t, ht, hsrc, hidx⟩
    by_cases hdamaged : Damaged MODE_STAT_TDM c d t
    · exact absurd hidx ((hnone t ht hdamaged).1 hsrc)
    · obtain ⟨hsame, hsameIdx⟩ := token_congr hdamaged
      exact ⟨t, ht, hsame.trans hsrc, hsameIdx.trans hidx⟩

/-- A cleared buffer with a 1 at every named index: where a bit is wrong, the token was sent
without being received or the other way round. -/
theorem wrong_of_names {x x₀ x' : Buf} {size len : Int} {sent named : Nat → Prop}
    [DecidablePred named] (h₀ : ∀ i : Nat, (i : Int) < size → x₀ i = 0)
    (hx' : ∀ j : Nat, x' j = if named j ∧ (j : Int) < min size len then 1 else x₀ j)
    (hsent : ∀ j : Nat, sent j ↔ (j : Int) < len ∧ toBit (x j) = 1) {i : Nat}
    (hi : i ∈ wrongBits x (min size len) x') : ¬(named i ↔ sent i) := by
  obtain ⟨hlt, hne⟩ := mem_wrongBits.mp hi
  intro hsame
  apply hne
  rw [hx' i]
  by_cases hnamed : named i
  · rw [if_pos ⟨hnamed, hlt⟩, ((hsent i).mp (hsame.mp hnamed)).2]
  · rw [if_neg fun h => hnamed h.1, h₀ i (by omega)]
    rcases toBit_eq (x i) with h | h
    · exact h.symm
    · exact absurd (hsame.mpr ((hsent i).mpr ⟨by omega, h⟩)) hnamed

/-- **A damaged token** can only spoil the bit it named and the bit it names now. -/
theorem Transmission.token_errors (h : Transmission MODE_STAT_TDM a aLen b bLen c d n)
    {ab ab' : Buf × Buf} (ha₀ : ∀ i : Nat, (i : Int) < aSize → ab.1 i = 0)
    (hb₀ : ∀ i : Nat, (i : Int) < bSize → ab.2 i = 0)
    (hdecode : decodePayload MODE_STAT_TDM (d.from 9) (n - 9) (min aSize aLen) (min bSize bLen) ab =
      some ab') :
    (wrongBits a (min aSize aLen) ab'.1).disjSum (wrongBits b (min bSize bLen) ab'.2) ⊆
      (damagedBlocks MODE_STAT_TDM c d n).biUnion fun t =>
        tokenPosition (c.from 9) t ∪ tokenPosition (d.from 9) t := by
  obtain ⟨-, -, hfit, hpayload, hn⟩ := h.sent
  have hlength : n - 9 = ((tokensOf 0 a aLen ++ tokensOf 1 b bLen).length : Nat) * 3 := by
    rw [hn]
    show (((tokensOf 0 a aLen ++ tokensOf 1 b bLen).flatMap tokenBytes).length : Int) = _
    rw [length_flatMap_block (w := 3) fun _ _ => rfl]
    push_cast
    omega
  have hblocks : ∀ t, t < (tokensOf 0 a aLen ++ tokensOf 1 b bLen).length →
      Damaged MODE_STAT_TDM c d t → t ∈ damagedBlocks MODE_STAT_TDM c d n := by
    intro t ht hdamaged
    rw [mem_damagedBlocks, hlength]
    refine ⟨?_, hdamaged⟩
    show (t : Int) < _ / 3
    omega
  unfold decodePayload at hdecode
  rw [if_pos rfl, hlength, if_neg (by omega), Int.mul_ediv_cancel _ (by decide)] at hdecode
  cases hdecode
  have hspec := decodeTokens_spec (tokensOf 0 a aLen ++ tokensOf 1 b bLen).length (min aSize aLen)
    (min bSize bLen) (d.from 9) ab
  have hnames := fun s j => names_iff hpayload (hfit rfl) s j
  intro position hwrong
  rw [Finset.mem_biUnion]
  rcases Finset.mem_disjSum.mp hwrong with ⟨i, hi, rfl⟩ | ⟨i, hi, rfl⟩
  · have hsent : ∀ j : Nat, Names (c.from 9) (tokensOf 0 a aLen ++ tokensOf 1 b bLen).length 0 j ↔
        (j : Int) < aLen ∧ toBit (a j) = 1 := by
      intro j
      rw [hnames, List.mem_append, mem_tokensOf, mem_tokensOf]
      simp
    obtain ⟨t, ht, hdamaged, hnamed⟩ :=
      names_damaged (wrong_of_names ha₀ (fun j => (hspec j).1) hsent hi)
    refine ⟨t, hblocks t ht hdamaged, Finset.mem_union.mpr ?_⟩
    exact hnamed.imp (fun h => inl_mem_tokenPosition h.1 h.2)
      fun h => inl_mem_tokenPosition h.1 h.2
  · have hsent : ∀ j : Nat, Names (c.from 9) (tokensOf 0 a aLen ++ tokensOf 1 b bLen).length 1 j ↔
        (j : Int) < bLen ∧ toBit (b j) = 1 := by
      intro j
      rw [hnames, List.mem_append, mem_tokensOf, mem_tokensOf]
      simp
    obtain ⟨t, ht, hdamaged, hnamed⟩ :=
      names_damaged (wrong_of_names hb₀ (fun j => (hspec j).2) hsent hi)
    refine ⟨t, hblocks t ht hdamaged, Finset.mem_union.mpr ?_⟩
    exact hnamed.imp (fun h => inr_mem_tokenPosition h.1 h.2)
      fun h => inr_mem_tokenPosition h.1 h.2

/-- Wrong bits are counted by the damaged blocks that can spoil them. -/
theorem card_wrongBits_le {x y x' y' : Buf} {realX realY : Int} {blocks : Finset Nat}
    {spoils : Nat → Finset (Nat ⊕ Nat)} (htwo : ∀ t ∈ blocks, (spoils t).card ≤ 2)
    (h : (wrongBits x realX x').disjSum (wrongBits y realY y') ⊆ blocks.biUnion spoils) :
    (wrongBits x realX x').card + (wrongBits y realY y').card ≤ 2 * blocks.card := by
  rw [← Finset.card_disjSum, Nat.mul_comm]
  exact (Finset.card_le_card h).trans (Finset.card_biUnion_le_card_mul _ _ _ htwo)

/-- **Errors stay local** in all four modes: a stream with an intact header is accepted, as long as
the two counts of recovered bits add up to an `int`, and not more than two bits are wrong for every
slot or token that was damaged on the way. -/
theorem errors_stay_local (h : Transmission mode a aLen b bLen c d n) (g : Int) (a₀ b₀ : Buf)
    (haSize : 0 ≤ aSize) (hbSize : 0 ≤ bSize) (hsum : FitsInt (min aSize aLen + min bSize bLen)) :
    ∃ a' b', demultiplex g a₀ aSize b₀ bSize d n =
        some (min aSize aLen + min bSize bLen, a', b') ∧
      (wrongBits a (min aSize aLen) a').card + (wrongBits b (min bSize bLen) b').card ≤
        2 * (damagedBlocks mode c d n).card := by
  by_cases hstat : mode = MODE_STAT_TDM
  · subst hstat
    obtain ⟨ab, hdecode, hrun⟩ := h.decodes g a₀ b₀ haSize hbSize hsum
    refine ⟨ab.1, ab.2, hrun, card_wrongBits_le (fun t _ => ?_)
      (h.token_errors (fun i hi => if_pos hi) (fun i hi => if_pos hi) hdecode)⟩
    have hcard := Finset.card_union_le (tokenPosition (c.from 9) t) (tokenPosition (d.from 9) t)
    have hsent := card_tokenPosition (c.from 9) t
    have harrived := card_tokenPosition (d.from 9) t
    omega
  · obtain ⟨a', b', hrun, ha', hb'⟩ := h.decodes_slots hstat g a₀ b₀ haSize hbSize hsum
    exact ⟨a', b', hrun, card_wrongBits_le (fun t _ => Finset.card_le_two)
      (h.slotted_errors hstat ha' hb')⟩

end

/-- The 1 of `a` at index 1 and the 1 of `b`, with the first index changed on the way. -/
theorem errors_stay_local_moved : ∃ c,
    multiplex MODE_STAT_TDM (fun _ => 0) 100 (fun i => if i = 1 then 1 else 0) 2 (fun _ => 1) 1 =
      some (15, c) ∧
    ∃ a' b', demultiplex 4 (fun _ => 9) 2 (fun _ => 9) 1 (writeBytes c 10 [0]) 15 =
      some (3, a', b') ∧
      (wrongBits (fun i => if i = 1 then 1 else 0) 2 a').card +
        (wrongBits (fun _ => 1) 1 b').card ≤
        2 * (damagedBlocks MODE_STAT_TDM c (writeBytes c 10 [0]) 15).card := by
  have hcap : FitsInt 100 := by decide
  have htwo : FitsInt 2 := by decide
  have hone : FitsInt 1 := by decide
  obtain ⟨c, hrun⟩ : ∃ c, multiplex MODE_STAT_TDM (fun _ => 0) 100
    (fun i => if i = 1 then 1 else 0) 2 (fun _ => 1) 1 = some (15, c) := ⟨_, rfl⟩
  have hsent : Transmission MODE_STAT_TDM (fun i => if i = 1 then 1 else 0) 2 (fun _ => 1) 1 c
      (writeBytes c 10 [0]) 15 :=
    ⟨by decide, htwo, hone, ⟨_, _, hcap, hrun⟩, by decide, fun j hj =>
      writeBytes_outside (Or.inl (by omega))⟩
  exact ⟨c, hrun, errors_stay_local hsent 4 (fun _ => 9) (fun _ => 9) (show (0 : Int) ≤ 2 by decide)
    (show (0 : Int) ≤ 1 by decide) (by decide)⟩

/-! ## Code division -/

/-- `[1, 1]` for `a` and `[1, -1]` for `b`. -/
def chipCodes : Codes (Fin 2) (Fin 2) ℤ where
  code := ![![1, 1], ![1, -1]]
  energy := 2
  orthogonal := by decide

/-- What was added to the two chips of slot `i` on the way. -/
def chipNoise (c d : Buf) (i : Nat) : Fin 2 → ℤ :=
  fun r => (d (9 + (2 * i + r))).toNat - (c (9 + (2 * i + r))).toNat

/-- The chips of slot `i`, as `demultiplex` sees them. -/
def received (p : Buf) (i : Nat) : Fin 2 → ℤ := fun r => (p (2 * i + r)).toNat - 2

theorem correlate_two (v : Fin 2 → ℤ) :
    v ⬝ᵥ chipCodes.code 0 = v 0 + v 1 ∧ v ⬝ᵥ chipCodes.code 1 = v 0 - v 1 := by
  simp [chipCodes, dotProduct, Fin.sum_univ_two, sub_eq_add_neg]

theorem superpose_two (x y : ℤ) : chipCodes.superpose ![x, y] = ![x + y, x - y] := by
  funext r
  fin_cases r
  · simp [Codes.superpose, chipCodes, Fin.sum_univ_two]
  · simp [Codes.superpose, chipCodes, Fin.sum_univ_two, sub_eq_add_neg]

/-- **The decoder correlates** the chips with the two codes. -/
theorem cdmBits_correlate (p : Buf) (i : Nat) :
    cdmBits p i = (if 0 < received p i ⬝ᵥ chipCodes.code 0 then 1 else 0,
      if 0 < received p i ⬝ᵥ chipCodes.code 1 then 1 else 0) := by
  obtain ⟨h0, h1⟩ := correlate_two (received p i)
  rw [h0, h1]
  rfl

theorem toNat_ofInt {x : Int} (hpos : 0 ≤ x) (hmax : x ≤ 255) :
    ((UInt8.ofInt x).toNat : ℤ) = x := by
  rw [UInt8.ofInt, UInt8.toNat_ofNat']
  omega

theorem signAt_cases (x : Buf) (len : Int) (i : Nat) :
    signAt x len i = 1 ∨ signAt x len i = -1 := by
  unfold signAt
  split
  · exact Or.inl rfl
  · exact Or.inr rfl

section

variable {a b c d : Buf} {aLen bLen aSize bSize n : Int}

/-- **The encoder superposes** the two codes, and the channel adds its noise. -/
theorem cdm_received (h : Transmission MODE_CDM a aLen b bLen c d n) {i : Nat}
    (hi : (i : Int) < max aLen bLen) :
    received (d.from 9) i =
      chipCodes.superpose ![signAt a aLen i, signAt b bLen i] + chipNoise c d i := by
  obtain ⟨-, -, -, hpayload, -⟩ := h.sent
  have hslot : (slots aLen bLen)[i]? = some i := getElem?_slots (by omega)
  have hblock := Carries.block (w := 2) hpayload (fun _ _ => rfl) hslot
  have h0 := hblock 0 _ (by decide) rfl
  have h1 := hblock 1 _ (by decide) rfl
  rw [← signAt_eq, ← signAt_eq] at h0 h1
  have ha := signAt_cases a aLen i
  have hb := signAt_cases b bLen i
  have hc0 : ((c (9 + (2 * i + 0))).toNat : ℤ) =
      signAt a aLen i * 1 + signAt b bLen i * 1 + 2 := by
    rw [show c (9 + (2 * i + 0)) = _ from h0, toNat_ofInt (by omega) (by omega)]
  have hc1 : ((c (9 + (2 * i + 1))).toNat : ℤ) =
      signAt a aLen i * 1 + signAt b bLen i * (-1) + 2 := by
    rw [show c (9 + (2 * i + 1)) = _ from h1, toNat_ofInt (by omega) (by omega)]
  rw [superpose_two]
  funext r
  fin_cases r
  · show ((d (9 + (2 * i + 0))).toNat : ℤ) - 2 = signAt a aLen i + signAt b bLen i +
      ((d (9 + (2 * i + 0))).toNat - (c (9 + (2 * i + 0))).toNat)
    rw [hc0]
    ring
  · show ((d (9 + (2 * i + 1))).toNat : ℤ) - 2 = signAt a aLen i - signAt b bLen i +
      ((d (9 + (2 * i + 1))).toNat - (c (9 + (2 * i + 1))).toNat)
    rw [hc1]
    ring

theorem signAt_eq_one {x : Buf} {len : Int} {i : Nat} (hi : (i : Int) < len) :
    signAt x len i = 1 ↔ toBit (x i) = 1 := by
  rw [signAt_eq, bitAt_of_lt hi]
  rcases toBit_eq (x i) with h | h
  · simp [h]
  · simp [h]

/-- A decoded bit is right exactly when the sign of the correlation is. -/
theorem bit_right_iff {x : Buf} {len : Int} {i : Nat} (hi : (i : Int) < len) {correlation : ℤ} :
    (if 0 < correlation then (1 : UInt8) else 0) = toBit (x i) ↔
      (0 < correlation ↔ signAt x len i = 1) := by
  rw [signAt_eq_one hi]
  rcases toBit_eq (x i) with h | h
  · rw [h]
    split
    · simp [*]
    · simp [*]
  · rw [h]
    split
    · simp [*]
    · simp [*]

/-- The noise that leaves a bit as it was sent: a 1 as long as it stays above -2, a 0 up to 2. -/
def Harmless (bit : UInt8) (noise : ℤ) : Prop := if bit ≠ 0 then -2 < noise else noise ≤ 2

theorem tolerates_iff {x : Buf} {len : Int} {i : Nat} (hi : (i : Int) < len) (u : Fin 2)
    (noise : Fin 2 → ℤ) : chipCodes.Tolerates u (signAt x len i) noise ↔
      Harmless (x i) (noise ⬝ᵥ chipCodes.code u) := by
  unfold Codes.Tolerates Harmless
  simp only [signAt_eq_one hi, toBit_eq_one]
  exact Iff.rfl

/-- **What a slot tolerates** in code division, as long as the two counts of recovered bits add up
to an `int`: a bit of `a` is right exactly when the sum of what was added to the two chips is
harmless, a bit of `b` when the difference is; so what is added to both chips alike never reaches
`b`, and what is added to one and taken from the other never reaches `a`. -/
theorem cdm_tolerates (h : Transmission MODE_CDM a aLen b bLen c d n) (g : Int) (a₀ b₀ : Buf)
    (haSize : 0 ≤ aSize) (hbSize : 0 ≤ bSize) (hsum : FitsInt (min aSize aLen + min bSize bLen)) :
    ∃ a' b', demultiplex g a₀ aSize b₀ bSize d n =
        some (min aSize aLen + min bSize bLen, a', b') ∧
      (∀ i : Nat, (i : Int) < min aSize aLen → (a' i = toBit (a i) ↔
        Harmless (a i) (chipNoise c d i 0 + chipNoise c d i 1))) ∧
      ∀ i : Nat, (i : Int) < min bSize bLen → (b' i = toBit (b i) ↔
        Harmless (b i) (chipNoise c d i 0 - chipNoise c d i 1)) := by
  obtain ⟨a', b', hrun, ha', hb'⟩ := h.decodes_slots (by decide) g a₀ b₀ haSize hbSize hsum
  refine ⟨a', b', hrun, fun i hi => ?_, fun i hi => ?_⟩
  · have hlt : (i : Int) < aLen := by omega
    have hbits : slotBits MODE_CDM (d.from 9) i = cdmBits (d.from 9) i := rfl
    rw [ha' i hi, hbits, cdmBits_correlate, cdm_received h (by omega), bit_right_iff hlt]
    have hsymbol : ![signAt a aLen i, signAt b bLen i] 0 = 1 ∨
        ![signAt a aLen i, signAt b bLen i] 0 = -1 := signAt_cases a aLen i
    rw [← (correlate_two (chipNoise c d i)).1]
    exact (chipCodes.sign_correlate_iff hsymbol _).trans (tolerates_iff hlt 0 _)
  · have hlt : (i : Int) < bLen := by omega
    have hbits : slotBits MODE_CDM (d.from 9) i = cdmBits (d.from 9) i := rfl
    rw [hb' i hi, hbits, cdmBits_correlate, cdm_received h (by omega), bit_right_iff hlt]
    have hsymbol : ![signAt a aLen i, signAt b bLen i] 1 = 1 ∨
        ![signAt a aLen i, signAt b bLen i] 1 = -1 := signAt_cases b bLen i
    rw [← (correlate_two (chipNoise c d i)).2]
    exact (chipCodes.sign_correlate_iff hsymbol _).trans (tolerates_iff hlt 1 _)

end

/-- Two 1s, sent as the chips 4 and 2, of which the first arrives as 3: neither bit is lost. -/
theorem cdm_tolerates_one : ∃ c,
    multiplex MODE_CDM (fun _ => 0) 100 (fun _ => 1) 1 (fun _ => 1) 1 = some (11, c) ∧
    ∃ a' b', demultiplex 1 (fun _ => 9) 1 (fun _ => 9) 1 (writeBytes c 9 [3]) 11 =
      some (2, a', b') ∧ a' 0 = toBit 1 ∧ b' 0 = toBit 1 := by
  have hcap : FitsInt 100 := by decide
  have hone : FitsInt 1 := by decide
  obtain ⟨c, hrun, h0, h1⟩ : ∃ c,
    multiplex MODE_CDM (fun _ => 0) 100 (fun _ => 1) 1 (fun _ => 1) 1 = some (11, c) ∧
      c 9 = 4 ∧ c 10 = 2 := ⟨_, rfl, rfl, rfl⟩
  have hsent : Transmission MODE_CDM (fun _ => 1) 1 (fun _ => 1) 1 c (writeBytes c 9 [3]) 11 :=
    ⟨by decide, hone, hone, ⟨_, _, hcap, hrun⟩, by decide, fun j hj =>
      writeBytes_outside (Or.inl hj)⟩
  have hnoise : chipNoise c (writeBytes c 9 [3]) 0 0 = -1 ∧
      chipNoise c (writeBytes c 9 [3]) 0 1 = 0 := by
    simp [chipNoise, writeBytes, h0, h1]
  obtain ⟨a', b', hdemux, ha, hb⟩ := cdm_tolerates hsent 1 (fun _ => 9) (fun _ => 9)
    (show (0 : Int) ≤ 1 by decide) (show (0 : Int) ≤ 1 by decide) (by decide)
  refine ⟨c, hrun, a', b', hdemux, (ha 0 (by decide)).mpr ?_, (hb 0 (by decide)).mpr ?_⟩
  · rw [hnoise.1, hnoise.2]
    simp [Harmless]
  · rw [hnoise.1, hnoise.2]
    simp [Harmless]

end CampusNet.Multiplex
