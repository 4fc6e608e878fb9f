import CampusNet.Homework2.Capacity
import CampusNet.Homework2.CheckedDecode

/-!
# A truncated stream

The header carries the lengths of the two messages; `demultiplex` compares the payload with neither,
it only wants a whole number of slots or tokens.

* `NotMistaken` — the call fails, or recovers both messages.
* `CutHarmless` — the side condition on the cut: it is no whole number of slots, or no 1 has been
  cut off (and the sum of the lengths fits an `int`).
* `written` — what a successful `multiplex` has written.
* `recovers_cut_iff` — slotted modes: a source is recovered exactly when the slots that are missing
  hold none of its 1s.
* `cut_tokens_lost` — statistical mode: every token that is missing is a 1 of one of the sources.
* `truncated_iff` — a truncated stream is not mistaken for another one exactly under the condition.
-/

namespace CampusNet.Multiplex

open Buffer

/-- The call returns -1, or gives back the bits of both sources. -/
def NotMistaken (g : Int) (a₀ : Buf) (aSize : Int) (b₀ : Buf) (bSize : Int) (d : Buf) (dLen : Int)
    (a : Buf) (aLen : Int) (b : Buf) (bLen : Int) : Prop :=
  ∃ r a' b', demultiplex g a₀ aSize b₀ bSize d dLen = some (r, a', b') ∧
    (r = -1 ∨ (Recovers a aSize aLen a' ∧ Recovers b bSize bLen b'))

/-- Number of slots in so many bytes of a slotted payload. -/
def slotCount (mode payloadLen : Int) : Int :=
  if mode = MODE_FDM then payloadLen else payloadLen / 2

/-- All elements from `start` on are zero. -/
def ZerosFrom (start : Int) (x : Buf) (len : Int) : Prop :=
  ∀ j : Nat, start ≤ j → (j : Int) < len → x j = 0

/-- A cut after `k` bytes: the rest is no whole number of slots or tokens, or all 1s have arrived in
a slotted mode. -/
def CutHarmless (mode : Int) (a : Buf) (aLen : Int) (b : Buf) (bLen k : Int) : Prop :=
  ¬WholeSlots mode (k - 9) ∨
  (aLen + bLen ≤ INT_MAX ∧ mode ≠ MODE_STAT_TDM ∧ ZerosFrom (slotCount mode (k - 9)) a aLen ∧
    ZerosFrom (slotCount mode (k - 9)) b bLen)

/-! ## What was written -/

section

variable {mode : Int} {a b c c' p : Buf} {cSize aLen bLen n : Int}

/-- A successful `multiplex` has written the header and the payload. -/
theorem written (hmode : 1 ≤ mode ∧ mode ≤ 4) (hc : FitsInt cSize)
    (hrun : multiplex mode c cSize a aLen b bLen = some (n, c')) (hn : 0 ≤ n) :
    0 ≤ aLen ∧ 0 ≤ bLen ∧ TokensFit mode a aLen b bLen ∧
      Carries c' (headerBytes mode aLen bLen ++ payloadOf mode a aLen b bLen) ∧
      n = 9 + (payloadOf mode a aLen b bLen).length := by
  have hargs : ¬(cSize ≤ 0 ∨ aLen < 0 ∨ bLen < 0) := by
    intro h
    unfold multiplex at hrun
    rw [if_pos h] at hrun
    cases hrun
    omega
  push Not at hargs
  obtain ⟨-, ha, hb⟩ := hargs
  have hsize : cSize < header ∨ SizeFits mode aLen bLen := by
    by_contra h
    push Not at h
    rw [multiplex_eq h.1 ha hb rfl, encodePayload_overflow hmode _ _ h.2] at hrun
    cases hrun
  obtain ⟨r, hr, he⟩ := multiplex_exact hmode (c := c) (a := a) (b := b) hc ha hb hsize
  rw [hrun] at hr
  cases hr
  obtain ⟨hencoded | ⟨hresult, -⟩, hfit⟩ := he.encoded
  · simp only at hencoded
    omega
  · have hfits : TokensFit mode a aLen b bLen := by
      refine hfit.resolve_left fun h => ?_
      simp only at h
      omega
    cases hresult
    refine ⟨ha, hb, hfits, carries_writeBytes c _, ?_⟩
    rw [List.length_append, length_headerBytes]
    rfl

/-! ## Slotted modes -/

/-- The bits of slot `i` in the mode. -/
def slotBits (mode : Int) (p : Buf) : Nat → UInt8 × UInt8 :=
  if mode = MODE_SYNC_TDM then syncBits p
  else if mode = MODE_FDM then fdmBits p
  else cdmBits p

theorem decodePayload_slotted (hmode : 1 ≤ mode ∧ mode ≤ 4) (hstat : mode ≠ MODE_STAT_TDM)
    {payloadLen : Int} (hwhole : WholeSlots mode payloadLen) (realA realB : Int) (ab : Buf × Buf) :
    decodePayload mode p payloadLen realA realB ab =
      some (decodeSlots (slotCount mode payloadLen) realA realB (slotBits mode p) ab) := by
  unfold decodePayload slotCount slotBits
  rw [if_neg hstat]
  by_cases hfdm : mode = MODE_FDM
  · have hsync : mode ≠ MODE_SYNC_TDM := by
      rw [hfdm]
      decide
    rw [if_neg hsync, if_pos hfdm, if_pos hfdm, if_neg hsync, if_pos hfdm]
  have heven : payloadLen % 2 = 0 := by
    rcases hwhole with ⟨h, -⟩ | ⟨-, h⟩ | h
    · exact absurd h hstat
    · exact h
    · exact absurd h hfdm
  by_cases hsync : mode = MODE_SYNC_TDM
  · rw [if_pos hsync, if_neg (not_not_intro heven), if_neg hfdm, if_pos hsync]
  · rw [if_neg hsync, if_neg hfdm, if_pos (eq_cdm hmode hstat hsync hfdm),
      if_neg (not_not_intro heven), if_neg hfdm, if_neg hsync, if_neg hfdm]

theorem slotBits_eq (hstat : mode ≠ MODE_STAT_TDM)
    (hp : Carries p (payloadOf mode a aLen b bLen)) {i : Nat} (hi : i < (max aLen bLen).toNat) :
    slotBits mode p i = (bitAt a aLen i, bitAt b bLen i) := by
  unfold payloadOf at hp
  unfold slotBits
  rw [if_neg hstat] at hp
  split
  · rename_i hsync
    rw [if_pos hsync] at hp
    exact syncBits_eq hp hi
  rename_i hsync
  rw [if_neg hsync] at hp
  split
  · rename_i hfdm
    rw [if_pos hfdm] at hp
    exact fdmBits_eq hp hi
  · rename_i hfdm
    rw [if_neg hfdm] at hp
    exact cdmBits_eq hp hi

/-- A proper prefix has fewer slots than the payload. -/
theorem slotCount_le (hstat : mode ≠ MODE_STAT_TDM) (ha : 0 ≤ aLen) {payloadLen : Int}
    (hcut : payloadLen < (payloadOf mode a aLen b bLen).length) :
    slotCount mode payloadLen ≤ max aLen bLen := by
  rw [length_payloadOf ha] at hcut
  unfold payloadSize at hcut
  unfold slotCount
  rw [if_neg hstat] at hcut
  split at hcut
  · rename_i hfdm
    rw [if_pos hfdm]
    omega
  · rename_i hfdm
    rw [if_neg hfdm]
    omega

theorem toBit_eq_zero {x : UInt8} : toBit x = 0 ↔ x = 0 := by
  unfold toBit
  split
  · simp [*]
  · simp_all

/-- **Slots missing at the end**: a source is recovered exactly when they hold none of its 1s. -/
theorem recovers_cut_iff {x x₀ x' : Buf} {size len : Int} {slots : Int} {v : Nat → UInt8}
    (hsize : len ≤ size) (h₀ : ∀ j : Nat, (j : Int) < size → x₀ j = 0)
    (hv : ∀ j : Nat, (j : Int) < slots → (j : Int) < len → v j = toBit (x j))
    (hx' : ∀ j : Nat, x' j = if j < slots.toNat ∧ (j : Int) < len then v j else x₀ j) :
    Recovers x size len x' ↔ ZerosFrom slots x len := by
  constructor
  · rintro ⟨hbits, -⟩ j hj hlen
    have hbit := hbits j hlen
    rw [hx' j, if_neg (by omega), h₀ j (lt_of_lt_of_le hlen hsize)] at hbit
    exact toBit_eq_zero.mp hbit.symm
  · intro hzeros
    refine ⟨fun j hlen => ?_, fun j hlen hj => ?_⟩
    · rw [hx' j]
      by_cases hslot : (j : Int) < slots
      · rw [if_pos ⟨by omega, hlen⟩, hv j hslot hlen]
      · rw [if_neg (by omega), h₀ j (lt_of_lt_of_le hlen hsize)]
        exact (toBit_eq_zero.mpr (hzeros j (not_lt.mp hslot) hlen)).symm
    · rw [hx' j, if_neg (by omega)]
      exact h₀ j hj

/-! ## Statistical mode -/

theorem tokens_nodup : (tokensOf 0 a aLen ++ tokensOf 1 b bLen).Nodup := by
  have hones : ∀ (src : UInt8) (x : Buf) (len : Int), (tokensOf src x len).Nodup := by
    intro src x len
    refine List.Nodup.map (fun i j h => ?_) (List.nodup_range.filter _)
    exact (Prod.mk.inj h).2
  refine (hones 0 a aLen).append (hones 1 b bLen) fun t h0 h1 => ?_
  have hsrc := (mem_tokensOf.mp h0).1.symm.trans (mem_tokensOf.mp h1).1
  cases hsrc

/-- The tokens read from a cut payload are those that have arrived. -/
theorem names_cut {tokens : List (UInt8 × Nat)} (hp : Carries p (tokens.flatMap tokenBytes))
    (hfit : ∀ t ∈ tokens, t.2 ≤ 65535) {t : Nat} (ht : t ≤ tokens.length) (s : UInt8) (j : Nat) :
    Names p t s j ↔ (s, j) ∈ tokens.take t := by
  have harrived : Carries p ((tokens.take t).flatMap tokenBytes) := by
    rw [← List.take_append_drop t tokens, List.flatMap_append, carries_append] at hp
    exact hp.1
  have hnames := names_iff harrived (fun x hx => hfit x (List.mem_of_mem_take hx)) s j
  rwa [List.length_take, min_eq_left ht] at hnames

/-- A 1 that no token names stays a 0. -/
theorem not_recovers_of_lost {x x₀ x' : Buf} {size len : Int} {named : Nat → Prop}
    [DecidablePred named] (hsize : len ≤ size) (h₀ : ∀ j : Nat, (j : Int) < size → x₀ j = 0)
    (hx' : ∀ j : Nat, x' j = if named j ∧ (j : Int) < len then 1 else x₀ j) {i : Nat}
    (hi : (i : Int) < len) (hone : toBit (x i) = 1) (hlost : ¬named i) :
    ¬Recovers x size len x' := by
  rintro ⟨hbits, -⟩
  have hbit := hbits i hi
  rw [hx' i, if_neg fun h => hlost h.1, h₀ i (lt_of_lt_of_le hi hsize), hone] at hbit
  cases hbit

/-- **Tokens missing at the end** are 1s of one of the sources. -/
theorem cut_tokens_lost {aSize bSize : Int} {ab : Buf × Buf} (haSize : aLen ≤ aSize)
    (hbSize : bLen ≤ bSize) (ha₀ : ∀ j : Nat, (j : Int) < aSize → ab.1 j = 0)
    (hb₀ : ∀ j : Nat, (j : Int) < bSize → ab.2 j = 0)
    (hp : Carries p (statPayload a aLen b bLen))
    (hfit : ∀ t ∈ tokensOf 0 a aLen ++ tokensOf 1 b bLen, t.2 ≤ 65535) {t : Nat}
    (ht : t < (tokensOf 0 a aLen ++ tokensOf 1 b bLen).length) :
    ¬(Recovers a aSize aLen (decodeTokens t aLen bLen p ab).1 ∧
      Recovers b bSize bLen (decodeTokens t aLen bLen p ab).2) := by
  have hspec := decodeTokens_spec t aLen bLen p ab
  obtain ⟨⟨s, i⟩, hget⟩ : ∃ x, (tokensOf 0 a aLen ++ tokensOf 1 b bLen)[t]? = some x :=
    ⟨_, List.getElem?_eq_getElem ht⟩
  have hlost : ¬Names p t s i := by
    rw [names_cut hp hfit ht.le]
    intro hmem
    obtain ⟨j, hj, hjt⟩ := List.mem_take_iff_getElem.mp hmem
    obtain ⟨hlt, hgetElem⟩ := List.getElem?_eq_some_iff.mp hget
    have hsame := (List.getElem_inj tokens_nodup).mp (hjt.trans hgetElem.symm)
    omega
  rintro ⟨hra, hrb⟩
  rcases List.mem_append.mp (List.mem_of_getElem? hget) with h | h
  · obtain ⟨rfl, hi, hone⟩ := mem_tokensOf.mp h
    exact not_recovers_of_lost haSize ha₀ (fun j => (hspec j).1) hi hone hlost hra
  · obtain ⟨rfl, hi, hone⟩ := mem_tokensOf.mp h
    exact not_recovers_of_lost hbSize hb₀ (fun j => (hspec j).2) hi hone hlost hrb

/-! ## The cut stream -/

/-- What an accepted cut leaves in the two cleared buffers. -/
theorem decodePayload_cut_iff (hmode : 1 ≤ mode ∧ mode ≤ 4) (ha : 0 ≤ aLen)
    (hfit : TokensFit mode a aLen b bLen) (hp : Carries p (payloadOf mode a aLen b bLen))
    {aSize bSize k : Int} (haSize : aLen ≤ aSize) (hbSize : bLen ≤ bSize)
    (hwhole : WholeSlots mode k) (hk : 0 ≤ k)
    (hcut : k < (payloadOf mode a aLen b bLen).length) {ab ab' : Buf × Buf}
    (ha₀ : ∀ j : Nat, (j : Int) < aSize → ab.1 j = 0)
    (hb₀ : ∀ j : Nat, (j : Int) < bSize → ab.2 j = 0)
    (hdecode : decodePayload mode p k aLen bLen ab = some ab') :
    Recovers a aSize aLen ab'.1 ∧ Recovers b bSize bLen ab'.2 ↔
      mode ≠ MODE_STAT_TDM ∧ ZerosFrom (slotCount mode k) a aLen ∧
        ZerosFrom (slotCount mode k) b bLen := by
  by_cases hstat : mode = MODE_STAT_TDM
  · have htokens : k % 3 = 0 := by
      rcases hwhole with ⟨-, h⟩ | ⟨h | h, -⟩ | h
      · exact h
      all_goals
        rw [hstat] at h
        cases h
    have hpayload : payloadOf mode a aLen b bLen = statPayload a aLen b bLen := if_pos hstat
    rw [hpayload] at hp hcut
    rw [statPayload, length_flatMap_block (w := 3) fun _ _ => rfl] at hcut
    unfold decodePayload at hdecode
    rw [if_pos hstat, if_neg (not_not_intro htokens)] at hdecode
    cases hdecode
    have hcount : ((k / 3).toNat : Int) = k / 3 := by omega
    rw [← hcount]
    refine iff_of_false ?_ fun h => h.1 hstat
    exact cut_tokens_lost haSize hbSize ha₀ hb₀ hp (hfit hstat) (by omega)
  · rw [decodePayload_slotted hmode hstat hwhole] at hdecode
    cases hdecode
    have hmax := slotCount_le hstat ha hcut
    have hspec := decodeSlots_spec (slotCount mode k).toNat aLen bLen (slotBits mode p) ab
    rw [decodeSlots_toNat] at hspec
    have hbits : ∀ j : Nat, (j : Int) < slotCount mode k →
        slotBits mode p j = (bitAt a aLen j, bitAt b bLen j) :=
      fun j hj => slotBits_eq hstat hp (by omega)
    rw [and_iff_right hstat]
    refine and_congr (recovers_cut_iff haSize ha₀ (fun j hj hlen => ?_) fun j => (hspec j).1)
      (recovers_cut_iff hbSize hb₀ (fun j hj hlen => ?_) fun j => (hspec j).2)
    · rw [hbits j hj]
      exact bitAt_of_lt hlen
    · rw [hbits j hj]
      exact bitAt_of_lt hlen

/-- An accepted call that adds up two counts. -/
theorem notMistaken_accepted {g aSize bSize dLen : Int} {a₀ b₀ d : Buf} {ab : Buf × Buf}
    (ha : 0 ≤ aLen) (hb : 0 ≤ bLen)
    (hrun : demultiplex g a₀ aSize b₀ bSize d dLen =
      (checkedInt (aLen + bLen)).map fun n => (n, ab)) :
    NotMistaken g a₀ aSize b₀ bSize d dLen a aLen b bLen ↔
      aLen + bLen ≤ INT_MAX ∧ Recovers a aSize aLen ab.1 ∧ Recovers b bSize bLen ab.2 := by
  unfold NotMistaken
  rw [hrun]
  constructor
  · rintro ⟨r, a', b', hresult, hproper⟩
    unfold checkedInt at hresult
    split at hresult
    · rename_i hfits
      cases hresult
      exact ⟨hfits.2, hproper.resolve_left (by omega)⟩
    · cases hresult
  · rintro ⟨hmax, hrecovers⟩
    have hfits : FitsInt (aLen + bLen) := by
      refine ⟨?_, hmax⟩
      unfold INT_MIN
      omega
    rw [checkedInt_of_fits hfits]
    exact ⟨_, _, _, rfl, Or.inr hrecovers⟩

/-- **A truncated stream** is rejected or decoded to the same two messages exactly when the cut is
harmless. -/
theorem truncated_iff (hmode : 1 ≤ mode ∧ mode ≤ 4) (hc : FitsInt cSize) (ha : FitsInt aLen)
    (hb : FitsInt bLen) (hrun : multiplex mode c cSize a aLen b bLen = some (n, c')) (hn : 0 ≤ n)
    {k : Int} (hk : 9 ≤ k) (hkn : k < n) {d : Buf} (hd : ∀ j : Nat, (j : Int) < k → d j = c' j)
    (g : Int) (a₀ b₀ : Buf) {aSize bSize : Int} (haSize : aLen ≤ aSize) (hbSize : bLen ≤ bSize) :
    NotMistaken g a₀ aSize b₀ bSize d k a aLen b bLen ↔ CutHarmless mode a aLen b bLen k := by
  obtain ⟨ha0, hb0, hfit, hcarries, rfl⟩ := written hmode hc hrun hn
  rw [carries_append, length_headerBytes] at hcarries
  obtain ⟨hheader, hpayload⟩ := hcarries
  obtain ⟨hmodeRead, haRead, hbRead⟩ := readHeader hmode ha0 ha.2 hb0 hb.2 hheader
  have hsame := demultiplex_congr g a₀ aSize b₀ bSize hd
  have hcut : k - 9 < ((payloadOf mode a aLen b bLen).length : Int) := by omega
  have hcases := demultiplexChecked_eq g a₀ b₀ c' (ha0.trans haSize) (hb0.trans hbSize) hk
  rw [hmodeRead, haRead, hbRead, min_eq_right haSize, min_eq_right hbSize, ← hsame] at hcases
  obtain ⟨-, hfailed, hnone⟩ | ⟨ab, -, -, hdecode, -, haccepted⟩ := hcases
  · have hwhole := decodePayload_none.mp (hnone ha0 hb0)
    exact iff_of_true ⟨_, _, _, hfailed, Or.inl rfl⟩ (Or.inl hwhole)
  · have hwhole : WholeSlots mode (k - 9) := by
      by_contra hnot
      rw [decodePayload_none.mpr hnot] at hdecode
      cases hdecode
    have hclearA : ∀ j : Nat, (j : Int) < aSize → clear a₀ aSize j = 0 := fun j hj => if_pos hj
    have hclearB : ∀ j : Nat, (j : Int) < bSize → clear b₀ bSize j = 0 := fun j hj => if_pos hj
    rw [notMistaken_accepted ha0 hb0 haccepted,
      decodePayload_cut_iff hmode ha0 hfit hpayload haSize hbSize hwhole (by omega) hcut hclearA
        hclearB hdecode]
    exact (or_iff_right (not_not_intro hwhole)).symm

end

/-- Two slots, the second one without 1s: the first alone will do. -/
theorem truncated_iff_harmless : ∃ c',
    multiplex MODE_FDM (fun _ => 0) 100 (fun i => if i = 0 then 1 else 0) 2 (fun _ => 0) 2 =
      some (11, c') ∧
    NotMistaken 2 (fun _ => 0) 2 (fun _ => 0) 2 c' 10 (fun i => if i = 0 then 1 else 0) 2
      (fun _ => 0) 2 := by
  have hmode : 1 ≤ MODE_FDM ∧ MODE_FDM ≤ 4 := by decide
  have hcap : FitsInt 100 := by decide
  have hlen : FitsInt 2 := by decide
  have hn : (0 : Int) ≤ 11 := by decide
  have hcut : (10 : Int) < 11 := by decide
  refine ⟨_, rfl, ?_⟩
  refine (truncated_iff hmode hcap hlen hlen rfl hn (by decide) hcut (fun _ _ => rfl) 2 _ _
    (le_refl _) (le_refl _)).mpr ?_
  refine Or.inr ⟨by decide, by decide, fun j hj _ => if_neg ?_, fun _ _ _ => rfl⟩
  have hone : slotCount MODE_FDM (10 - 9) = 1 := rfl
  rw [hone] at hj
  omega

/-- One bit in FDM, the 1 of `a`, cut off: the call succeeds with one bit, a 0. -/
theorem cutOff_decodes_zero : ∃ c',
    multiplex MODE_FDM (fun _ => 0) 100 (fun _ => 1) 1 (fun _ => 0) 0 = some (10, c') ∧
    (∃ a' b', demultiplex 2 (fun _ => 0) 1 (fun _ => 0) 0 c' 9 = some (1, a', b') ∧ a' 0 = 0) ∧
    ¬NotMistaken 2 (fun _ => 0) 1 (fun _ => 0) 0 c' 9 (fun _ => 1) 1 (fun _ => 0) 0 := by
  refine ⟨_, rfl, ⟨_, _, rfl, rfl⟩, ?_⟩
  rintro ⟨r, a', b', hrun, hproper⟩
  cases hrun
  rcases hproper with h | ⟨⟨hbits, -⟩, -⟩
  · cases h
  · have hbit := hbits 0 (by decide)
    cases hbit

end CampusNet.Multiplex
