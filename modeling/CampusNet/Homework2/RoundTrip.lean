import CampusNet.Homework2.Encode

/-!
# Demultiplexing undoes multiplexing

* `decodeSlots_spec`, `decodeTokens_spec` — what the decoding loops leave in the two buffers.
* `Recovers` — a buffer holds the bits of a source as far as it reaches, and zeros after them.
* `recovers_slots`, with `syncBits_eq`, `fdmBits_eq` and `cdmBits_eq` for the bits of a slot, and
  `recovers_stat` — each decoder recovers the bits from its own payload.
* `multiplex_roundTrip` — the round trip, in all four modes.
-/

namespace CampusNet.Multiplex

open Buffer

/-! ## The decoding loops -/

theorem store_eq (x : Buf) (real : Int) (i j : Nat) (v : UInt8) :
    store x real i v j = if j = i ∧ (i : Int) < real then v else x j := by
  unfold store
  by_cases hi : (i : Int) < real
  · rw [if_pos hi]
    by_cases hj : j = i
    · subst hj
      rw [if_pos ⟨rfl, hi⟩]
      exact writeBytes_inside (show [v][0]? = some v from rfl)
    · rw [if_neg fun h => hj h.1]
      apply writeBytes_outside
      simp only [List.length_singleton]
      omega
  · rw [if_neg hi, if_neg fun h => hi h.2]

/-- A loop on two buffers is two loops. -/
theorem foldl_both {α : Type} (f g : Buf → α → Buf) :
    ∀ (l : List α) (ab : Buf × Buf), l.foldl (fun ab i => (f ab.1 i, g ab.2 i)) ab =
      (l.foldl f ab.1, l.foldl g ab.2)
  | [], _ => rfl
  | i :: l, ab => by rw [List.foldl_cons, foldl_both f g l]; rfl

/-- Storing `v i` at each `i < n`. -/
theorem foldl_store (real : Int) (v : Nat → UInt8) (x : Buf) (j : Nat) :
    ∀ n : Nat, (List.range n).foldl (fun x i => store x real i (v i)) x j =
      if j < n ∧ (j : Int) < real then v j else x j
  | 0 => by rw [if_neg fun h => Nat.not_lt_zero j h.1]; rfl
  | n + 1 => by
    rw [List.range_succ, List.foldl_append, List.foldl_cons, List.foldl_nil, store_eq,
      foldl_store real v x j n]
    by_cases hj : j = n
    · subst hj
      by_cases hreal : (j : Int) < real <;> simp [hreal]
    · rw [if_neg fun h => hj h.1]
      by_cases hlt : j < n ∧ (j : Int) < real
      · rw [if_pos hlt, if_pos ⟨by omega, hlt.2⟩]
      · rw [if_neg hlt, if_neg fun h => hlt ⟨by omega, h.2⟩]

theorem decodeSlots_spec (n : Nat) (realA realB : Int) (bits : Nat → UInt8 × UInt8)
    (ab : Buf × Buf) (j : Nat) :
    (decodeSlots n realA realB bits ab).1 j =
        (if j < n ∧ (j : Int) < realA then (bits j).1 else ab.1 j) ∧
      (decodeSlots n realA realB bits ab).2 j =
        if j < n ∧ (j : Int) < realB then (bits j).2 else ab.2 j := by
  unfold decodeSlots
  rw [foldl_both (fun x i => store x realA i (bits i).1) (fun x i => store x realB i (bits i).2)]
  exact ⟨foldl_store _ _ _ _ _, foldl_store _ _ _ _ _⟩

/-- The number of slots, as a count. -/
theorem decodeSlots_toNat (slots realA realB : Int) (bits : Nat → UInt8 × UInt8)
    (ab : Buf × Buf) : decodeSlots slots.toNat realA realB bits ab =
      decodeSlots slots realA realB bits ab := by
  unfold decodeSlots
  rw [Int.toNat_natCast]

/-- Storing a 1 at the index of each token of source `s`. -/
theorem foldl_tokens (s : UInt8) (real : Int) (src : Nat → UInt8) (idx : Nat → Nat) (x : Buf)
    (j : Nat) : ∀ n : Nat,
    (List.range n).foldl (fun x t => if src t = s then store x real (idx t) 1 else x) x j =
      if (∃ t, t < n ∧ src t = s ∧ idx t = j) ∧ (j : Int) < real then 1 else x j
  | 0 => by rw [if_neg fun ⟨⟨t, ht, _⟩, _⟩ => Nat.not_lt_zero t ht]; rfl
  | n + 1 => by
    rw [List.range_succ, List.foldl_append, List.foldl_cons, List.foldl_nil]
    have hsucc : (∃ t, t < n + 1 ∧ src t = s ∧ idx t = j) ↔
        (∃ t, t < n ∧ src t = s ∧ idx t = j) ∨ (src n = s ∧ idx n = j) := by
      constructor
      · rintro ⟨t, ht, h⟩
        by_cases htn : t = n
        · exact Or.inr (htn ▸ h)
        · exact Or.inl ⟨t, by omega, h⟩
      · rintro (⟨t, ht, h⟩ | h)
        · exact ⟨t, by omega, h⟩
        · exact ⟨n, by omega, h⟩
    have ih := foldl_tokens s real src idx x j n
    by_cases hsrc : src n = s
    · rw [if_pos hsrc, store_eq, ih]
      by_cases hj : j = idx n
      · by_cases hreal : (j : Int) < real
        · rw [if_pos ⟨hj, hj ▸ hreal⟩, if_pos ⟨hsucc.mpr (Or.inr ⟨hsrc, hj.symm⟩), hreal⟩]
        · rw [if_neg fun h => hreal (hj ▸ h.2), if_neg fun h => hreal h.2,
            if_neg fun h => hreal h.2]
      · have hsame := hsucc.trans (or_iff_left fun h => hj h.2.symm)
        rw [if_neg fun h => hj h.1]
        simp only [hsame]
    · have hsame := hsucc.trans (or_iff_left fun h => hsrc h.1)
      rw [if_neg hsrc, ih]
      simp only [hsame]

/-- The index a token names. -/
def tokenIdx (p : Buf) (t : Nat) : Nat :=
  (p (3 * t + 1)).toNat ||| (p (3 * t + 2)).toNat <<< 8

/-- One of the first `n` tokens is of source `s` and names `j`. -/
def Names (p : Buf) (n : Nat) (s : UInt8) (j : Nat) : Prop :=
  ∃ t, t < n ∧ p (3 * t) = s ∧ tokenIdx p t = j

instance (p : Buf) (n : Nat) (s : UInt8) (j : Nat) : Decidable (Names p n s j) :=
  inferInstanceAs (Decidable (∃ t, t < n ∧ _))

theorem decodeTokens_spec (n : Nat) (realA realB : Int) (p : Buf) (ab : Buf × Buf) (j : Nat) :
    (decodeTokens n realA realB p ab).1 j =
        (if Names p n 0 j ∧ (j : Int) < realA then 1 else ab.1 j) ∧
      (decodeTokens n realA realB p ab).2 j =
        if Names p n 1 j ∧ (j : Int) < realB then 1 else ab.2 j := by
  have hboth := foldl_both
    (fun x t => if p (3 * t) = 0 then store x realA (tokenIdx p t) 1 else x)
    (fun x t => if p (3 * t) = 1 then store x realB (tokenIdx p t) 1 else x) (List.range n) ab
  have hfst := foldl_tokens 0 realA (fun t => p (3 * t)) (tokenIdx p) ab.1 j n
  have hsnd := foldl_tokens 1 realB (fun t => p (3 * t)) (tokenIdx p) ab.2 j n
  exact ⟨(congrFun (congrArg Prod.fst hboth) j).trans hfst,
    (congrFun (congrArg Prod.snd hboth) j).trans hsnd⟩

/-! ## Recovering the bits -/

/-- The buffer holds the bits of `x` up to `real`, and zeros from there to `size`. -/
def Recovers (x : Buf) (size real : Int) (x' : Buf) : Prop :=
  (∀ i : Nat, (i : Int) < real → x' i = toBit (x i)) ∧
    ∀ i : Nat, real ≤ i → (i : Int) < size → x' i = 0

theorem toBit_bitAt (x : Buf) (len : Int) (i : Nat) : toBit (bitAt x len i) = bitAt x len i := by
  rcases bitAt_eq x len i with h | h <;> rw [h] <;> rfl

theorem bitAt_of_lt {x : Buf} {len : Int} {i : Nat} (h : (i : Int) < len) :
    bitAt x len i = toBit (x i) := if_pos h

theorem fdm_bits (p q : UInt8) (hp : p = 0 ∨ p = 1) (hq : q = 0 ∨ q = 1) :
    (p ||| q <<< 1) &&& 1 = p ∧ ((p ||| q <<< 1) >>> 1) &&& 1 = q := by
  rcases hp with rfl | rfl <;> rcases hq with rfl | rfl <;> decide

/-- The two bits read from the chips of a slot. -/
theorem cdm_chips (abit bbit : UInt8) (ha : abit = 0 ∨ abit = 1) (hb : bbit = 0 ∨ bbit = 1) :
    ∃ x y, chips abit bbit = [x, y] ∧
      (if ((x.toNat : Int) - 2) + ((y.toNat : Int) - 2) > 0 then (1 : UInt8) else 0) = abit ∧
      (if ((x.toNat : Int) - 2) - ((y.toNat : Int) - 2) > 0 then (1 : UInt8) else 0) = bbit := by
  rcases ha with rfl | rfl <;> rcases hb with rfl | rfl <;>
    exact ⟨_, _, rfl, by decide, by decide⟩

section

variable {a b p : Buf} {aLen bLen aSize bSize : Int} {ab : Buf × Buf}

theorem getElem?_slots {i : Nat} (h : i < (max aLen bLen).toNat) :
    (slots aLen bLen)[i]? = some i := by
  rw [slots, List.getElem?_range h]

/-- **Slotted modes**: a decoder that reads each slot's two bits recovers both sources. -/
theorem recovers_slots (ha : ∀ i : Nat, (i : Int) < aSize → ab.1 i = 0)
    (hb : ∀ i : Nat, (i : Int) < bSize → ab.2 i = 0) {bits : Nat → UInt8 × UInt8} {n : Nat}
    (hn : n = (max aLen bLen).toNat)
    (hbits : ∀ i, i < n → bits i = (bitAt a aLen i, bitAt b bLen i)) :
    Recovers a aSize (min aSize aLen)
        (decodeSlots n (min aSize aLen) (min bSize bLen) bits ab).1 ∧
      Recovers b bSize (min bSize bLen)
        (decodeSlots n (min aSize aLen) (min bSize bLen) bits ab).2 := by
  have hspec := decodeSlots_spec n (min aSize aLen) (min bSize bLen) bits ab
  refine ⟨⟨fun i hi => ?_, fun i hi hsize => ?_⟩, ⟨fun i hi => ?_, fun i hi hsize => ?_⟩⟩
  · have hin : i < n := by omega
    rw [(hspec i).1, if_pos ⟨hin, hi⟩, hbits i hin]
    apply bitAt_of_lt
    omega
  · rw [(hspec i).1, if_neg fun h => by omega]
    exact ha i hsize
  · have hin : i < n := by omega
    rw [(hspec i).2, if_pos ⟨hin, hi⟩, hbits i hin]
    apply bitAt_of_lt
    omega
  · rw [(hspec i).2, if_neg fun h => by omega]
    exact hb i hsize

theorem syncBits_eq (hp : Carries p (syncPayload a aLen b bLen)) {i : Nat}
    (hi : i < (max aLen bLen).toNat) : syncBits p i = (bitAt a aLen i, bitAt b bLen i) := by
  have hblock := hp.block (w := 2) (fun _ _ => rfl) (getElem?_slots hi)
  have h0 := hblock 0 _ (by decide) rfl
  have h1 := hblock 1 _ (by decide) rfl
  rw [Nat.add_zero] at h0
  rw [syncBits, h0, h1, toBit_bitAt, toBit_bitAt]

theorem fdmBits_eq (hp : Carries p (fdmPayload a aLen b bLen)) {i : Nat}
    (hi : i < (max aLen bLen).toNat) : fdmBits p i = (bitAt a aLen i, bitAt b bLen i) := by
  have h0 := hp.block (w := 1) (fun _ _ => rfl) (getElem?_slots hi) 0 _ (by decide) rfl
  rw [Nat.one_mul, Nat.add_zero] at h0
  obtain ⟨h1, h2⟩ := fdm_bits _ _ (bitAt_eq a aLen i) (bitAt_eq b bLen i)
  rw [fdmBits, h0, h1, h2]

theorem cdmBits_eq (hp : Carries p (cdmPayload a aLen b bLen)) {i : Nat}
    (hi : i < (max aLen bLen).toNat) : cdmBits p i = (bitAt a aLen i, bitAt b bLen i) := by
  obtain ⟨x, y, hchips, ha, hb⟩ := cdm_chips _ _ (bitAt_eq a aLen i) (bitAt_eq b bLen i)
  have hblock := hp.block (w := 2) (fun _ _ => rfl) (getElem?_slots hi)
  have h0 := hblock 0 x (by decide) (by rw [hchips]; rfl)
  have h1 := hblock 1 y (by decide) (by rw [hchips]; rfl)
  rw [Nat.add_zero] at h0
  simp only [cdmBits, h0, h1, ha, hb]

/-- A token within 16 bits is read back. -/
theorem token_idx {i : Nat} (h : i ≤ 65535) :
    (UInt8.ofNat (i &&& 0xFF)).toNat ||| (UInt8.ofNat ((i >>> 8) &&& 0xFF)).toNat <<< 8 = i := by
  have h0 : (UInt8.ofNat (i &&& 0xFF)).toNat = i % 256 := by
    have := toNat_byte i 0
    rwa [Nat.shiftRight_zero, Nat.pow_zero, Nat.div_one] at this
  rw [h0, toNat_byte, or_shiftLeft (by omega)]
  omega

theorem mem_tokensOf {src : UInt8} {x : Buf} {len : Int} {s : UInt8} {j : Nat} :
    (s, j) ∈ tokensOf src x len ↔ s = src ∧ (j : Int) < len ∧ toBit (x j) = 1 := by
  simp only [tokensOf, onesIn, List.mem_map, List.mem_filter, List.mem_range, decide_eq_true_iff,
    Prod.mk.injEq]
  constructor
  · rintro ⟨i, ⟨hi, hone⟩, rfl, rfl⟩
    exact ⟨rfl, by omega, hone⟩
  · rintro ⟨rfl, hj, hone⟩
    exact ⟨j, ⟨by omega, hone⟩, rfl, rfl⟩

/-- The tokens read from the payload are the tokens written. -/
theorem readToken {tokens : List (UInt8 × Nat)} (hp : Carries p (tokens.flatMap tokenBytes))
    (hfit : ∀ t ∈ tokens, t.2 ≤ 65535) {t : Nat} {s : UInt8} {i : Nat}
    (ht : tokens[t]? = some (s, i)) : p (3 * t) = s ∧ tokenIdx p t = i := by
  have hblock := hp.block (w := 3) (fun _ _ => rfl) ht
  have h0 := hblock 0 _ (by decide) rfl
  have h1 := hblock 1 _ (by decide) rfl
  have h2 := hblock 2 _ (by decide) rfl
  rw [Nat.add_zero] at h0
  refine ⟨h0, ?_⟩
  rw [tokenIdx, h1, h2]
  exact token_idx (hfit _ (List.mem_of_getElem? ht))

/-- The payload names an index exactly when a token with it was written. -/
theorem names_iff {tokens : List (UInt8 × Nat)} (hp : Carries p (tokens.flatMap tokenBytes))
    (hfit : ∀ t ∈ tokens, t.2 ≤ 65535) (s : UInt8) (j : Nat) :
    Names p tokens.length s j ↔ (s, j) ∈ tokens := by
  constructor
  · rintro ⟨t, ht, hs, hj⟩
    obtain ⟨⟨s', i⟩, hget⟩ : ∃ x, tokens[t]? = some x := ⟨_, List.getElem?_eq_getElem ht⟩
    obtain ⟨h0, h1⟩ := readToken hp hfit hget
    rw [← hs, ← hj, h0, h1]
    exact List.mem_of_getElem? hget
  · intro hmem
    obtain ⟨t, hget⟩ := List.mem_iff_getElem?.mp hmem
    obtain ⟨h0, h1⟩ := readToken hp hfit hget
    exact ⟨t, (List.getElem?_eq_some_iff.mp hget).1, h0, h1⟩

/-- A cleared buffer with a 1 at every named index, where the named indices are the 1s of `x`. -/
theorem recovers_of_names {x x₀ x' : Buf} {size len : Int} {named : Nat → Prop}
    [DecidablePred named] (h₀ : ∀ i : Nat, (i : Int) < size → x₀ i = 0)
    (hx' : ∀ j : Nat, x' j = if named j ∧ (j : Int) < min size len then 1 else x₀ j)
    (hnamed : ∀ j : Nat, named j ↔ (j : Int) < len ∧ toBit (x j) = 1) :
    Recovers x size (min size len) x' := by
  refine ⟨fun i hi => ?_, fun i hi hsize => ?_⟩
  · rw [hx' i]
    rcases toBit_eq (x i) with h | h
    · have hnot : ¬ named i := fun hc => by
        have := ((hnamed i).mp hc).2
        rw [h] at this
        apply absurd this
        decide
      rw [if_neg fun hc => hnot hc.1, h]
      exact h₀ i (by omega)
    · rw [if_pos ⟨(hnamed i).mpr ⟨by omega, h⟩, hi⟩, h]
  · rw [hx' i, if_neg fun h => by omega]
    exact h₀ i hsize

/-- **Statistical mode**: the 1s named by the tokens, zeros elsewhere. -/
theorem recovers_stat (ha : ∀ i : Nat, (i : Int) < aSize → ab.1 i = 0)
    (hb : ∀ i : Nat, (i : Int) < bSize → ab.2 i = 0)
    (hp : Carries p (statPayload a aLen b bLen))
    (hfit : ∀ t ∈ tokensOf 0 a aLen ++ tokensOf 1 b bLen, t.2 ≤ 65535) {n : Nat}
    (hn : n = (tokensOf 0 a aLen ++ tokensOf 1 b bLen).length) :
    Recovers a aSize (min aSize aLen)
        (decodeTokens n (min aSize aLen) (min bSize bLen) p ab).1 ∧
      Recovers b bSize (min bSize bLen)
        (decodeTokens n (min aSize aLen) (min bSize bLen) p ab).2 := by
  have hspec := decodeTokens_spec n (min aSize aLen) (min bSize bLen) p ab
  have hnames : ∀ s j, Names p n s j ↔ (s, j) ∈ tokensOf 0 a aLen ++ tokensOf 1 b bLen :=
    fun s j => hn ▸ names_iff hp hfit s j
  constructor
  · refine recovers_of_names ha (fun j => (hspec j).1) fun j => ?_
    rw [hnames, List.mem_append, mem_tokensOf, mem_tokensOf]
    simp
  · refine recovers_of_names hb (fun j => (hspec j).2) fun j => ?_
    rw [hnames, List.mem_append, mem_tokensOf, mem_tokensOf]
    simp

/-- **Whichever decoder runs**, it recovers both sources from the payload of its mode. -/
theorem decodePayload_spec (ab : Buf × Buf) {mode : Int} (hmode : 1 ≤ mode ∧ mode ≤ 4)
    (hlen : 0 ≤ aLen) (ha : ∀ i : Nat, (i : Int) < aSize → ab.1 i = 0)
    (hb : ∀ i : Nat, (i : Int) < bSize → ab.2 i = 0)
    (hp : Carries p (payloadOf mode a aLen b bLen)) (hfit : TokensFit mode a aLen b bLen) :
    ∃ ab', decodePayload mode p (payloadOf mode a aLen b bLen).length (min aSize aLen)
        (min bSize bLen) ab = some ab' ∧
      Recovers a aSize (min aSize aLen) ab'.1 ∧ Recovers b bSize (min bSize bLen) ab'.2 := by
  have hmax : 0 ≤ max aLen bLen := le_trans hlen (le_max_left _ _)
  have hcount : (((max aLen bLen).toNat : Nat) : Int) = max aLen bLen := Int.toNat_of_nonneg hmax
  unfold decodePayload
  unfold payloadOf at hp ⊢
  by_cases hstat : mode = MODE_STAT_TDM
  · simp only [if_pos hstat] at hp ⊢
    have hlength : ((statPayload a aLen b bLen).length : Int) =
        ((tokensOf 0 a aLen ++ tokensOf 1 b bLen).length : Nat) * 3 := by
      rw [statPayload, length_flatMap_block (w := 3) fun _ _ => rfl]
      push_cast
      omega
    rw [hlength, if_neg (by omega), Int.mul_ediv_cancel _ (by decide)]
    exact ⟨_, rfl, recovers_stat ha hb hp (hfit hstat) rfl⟩
  by_cases hsync : mode = MODE_SYNC_TDM
  · simp only [if_neg hstat, if_pos hsync] at hp ⊢
    have hlength : ((syncPayload a aLen b bLen).length : Int) = max aLen bLen * 2 :=
      length_slots hlen fun _ => rfl
    rw [hlength, if_neg (by omega), Int.mul_ediv_cancel _ (by decide), ← hcount]
    exact ⟨_, rfl, recovers_slots ha hb rfl fun i hi => syncBits_eq hp hi⟩
  by_cases hfdm : mode = MODE_FDM
  · simp only [if_neg hstat, if_neg hsync, if_pos hfdm] at hp ⊢
    have hlength : ((fdmPayload a aLen b bLen).length : Int) = max aLen bLen * 1 :=
      length_slots hlen fun _ => rfl
    rw [hlength, Int.mul_one, ← hcount]
    exact ⟨_, rfl, recovers_slots ha hb rfl fun i hi => fdmBits_eq hp hi⟩
  · simp only [if_neg hstat, if_neg hsync, if_neg hfdm] at hp ⊢
    have hlength : ((cdmPayload a aLen b bLen).length : Int) = max aLen bLen * 2 :=
      length_slots hlen fun _ => rfl
    rw [if_pos (eq_cdm hmode hstat hsync hfdm), hlength, if_neg (by omega),
      Int.mul_ediv_cancel _ (by decide), ← hcount]
    exact ⟨_, rfl, recovers_slots ha hb rfl fun i hi => cdmBits_eq hp hi⟩

end

/-! ## The round trip -/

/-- The header is read back. -/
theorem readHeader {mode aLen bLen : Int} (hmode : 1 ≤ mode ∧ mode ≤ 4) (ha : 0 ≤ aLen)
    (ha' : aLen ≤ INT_MAX) (hb : 0 ≤ bLen) (hb' : bLen ≤ INT_MAX) {d : Buf}
    (hd : Carries d (headerBytes mode aLen bLen)) :
    ((d 0).toNat : Int) = mode ∧ readIntLe d 1 = aLen ∧ readIntLe d 5 = bLen := by
  refine ⟨?_, readIntLe_bytesLe ha ha' fun i x h => ?_, readIntLe_bytesLe hb hb' fun i x h => ?_⟩
  · rw [hd 0 _ rfl, UInt8.ofInt, UInt8.toNat_ofNat']
    omega
  · apply hd
    have hi : i < (bytesLe aLen).length := (List.getElem?_eq_some_iff.mp h).1
    rw [headerBytes, Nat.add_comm, List.getElem?_cons_succ, List.getElem?_append_left hi]
    exact h
  · apply hd
    have hfive : 5 + i = (4 + i) + 1 := by omega
    have hfour : (bytesLe aLen).length = 4 := rfl
    rw [headerBytes, hfive, List.getElem?_cons_succ, List.getElem?_append_right (by omega), hfour,
      Nat.add_sub_cancel_left]
    exact h

/-- **`demultiplex` of a buffer that begins with a message** recovers both sources. -/
theorem demultiplex_spec {mode : Int} (hmode : 1 ≤ mode ∧ mode ≤ 4) {a b d : Buf}
    {aLen bLen aSize bSize : Int} (ha : 0 ≤ aLen) (hb : 0 ≤ bLen) (hlong : max aLen bLen < 2 ^ 30)
    (hfit : TokensFit mode a aLen b bLen)
    (hd : Carries d (headerBytes mode aLen bLen ++ payloadOf mode a aLen b bLen)) (g : Int)
    (a' b' : Buf) (haSize : 0 ≤ aSize) (hbSize : 0 ≤ bSize)
    (hsum : FitsInt (min aSize aLen + min bSize bLen)) :
    ∃ a'' b'', demultiplex g a' aSize b' bSize d (9 + (payloadOf mode a aLen b bLen).length) =
        some (min aSize aLen + min bSize bLen, a'', b'') ∧
      Recovers a aSize (min aSize aLen) a'' ∧ Recovers b bSize (min bSize bLen) b'' := by
  rw [carries_append, length_headerBytes] at hd
  have hmax : aLen ≤ INT_MAX ∧ bLen ≤ INT_MAX := by unfold INT_MAX; omega
  obtain ⟨hmode', haLen, hbLen⟩ := readHeader hmode ha hmax.1 hb hmax.2 hd.1
  obtain ⟨ab', hdecode, hra, hrb⟩ := decodePayload_spec (clear a' aSize, clear b' bSize)
    hmode ha (fun i hi => if_pos hi) (fun i hi => if_pos hi) hd.2 hfit
  have hlength : 9 + ((payloadOf mode a aLen b bLen).length : Int) - 9 =
      (payloadOf mode a aLen b bLen).length := by omega
  unfold demultiplex
  rw [if_neg (by omega)]
  simp only [hmode', haLen, hbLen, hlength, hdecode]
  rw [if_neg (by omega), checkedInt_of_fits hsum]
  exact ⟨ab'.1, ab'.2, rfl, hra, hrb⟩

/-- **Round trip in all four modes.**  Whatever mode was set and whatever `g_multiplex_mode` is
when demultiplexing: `multiplex` has no overflow, and if it returns `n ≥ 0`, then `demultiplex`
of any buffer with the same first `n` bytes returns how many bits were recovered, and recovers
them. -/
theorem multiplex_roundTrip {g mode g' : Int} (hset : setMultiplexMode g mode = (0, g'))
    {a b c : Buf} {aLen bLen cSize : Int} (ha : 0 ≤ aLen) (ha' : aLen < 2 ^ 30) (hb : 0 ≤ bLen)
    (hb' : bLen < 2 ^ 30) (hc : FitsInt cSize) :
    ∃ n c', multiplex g' c cSize a aLen b bLen = some (n, c') ∧
      (0 ≤ n → ∀ (h : Int) (a₀ b₀ d : Buf) (aSize bSize : Int), 0 ≤ aSize → 0 ≤ bSize →
        FitsInt (min aSize aLen + min bSize bLen) → (∀ j : Nat, (j : Int) < n → d j = c' j) →
        ∃ a' b', demultiplex h a₀ aSize b₀ bSize d n =
            some (min aSize aLen + min bSize bLen, a', b') ∧
          (∀ i : Nat, (i : Int) < min aSize aLen → a' i = if a i ≠ 0 then 1 else 0) ∧
          (∀ i : Nat, min aSize aLen ≤ i → (i : Int) < aSize → a' i = 0) ∧
          (∀ i : Nat, (i : Int) < min bSize bLen → b' i = if b i ≠ 0 then 1 else 0) ∧
          (∀ i : Nat, min bSize bLen ≤ i → (i : Int) < bSize → b' i = 0)) := by
  have hmode : 1 ≤ g' ∧ g' ≤ 4 := by
    unfold setMultiplexMode MODE_STAT_TDM MODE_CDM at hset
    split at hset
    · cases hset
    · cases hset; omega
  have hlong : max aLen bLen < 2 ^ 30 := max_lt ha' hb'
  obtain ⟨n, c', hrun, hresult⟩ := multiplex_spec hmode (c := c) (a := a) (b := b) hc ha hlong
  refine ⟨n, c', hrun, fun hn h a₀ b₀ d aSize bSize haSize hbSize hsum hsame => ?_⟩
  rcases hresult with rfl | ⟨rfl, rfl, _, hfit⟩
  · omega
  · have hd : Carries d (headerBytes g' aLen bLen ++ payloadOf g' a aLen b bLen) := by
      intro i x hi
      have hlt := (List.getElem?_eq_some_iff.mp hi).1
      rw [List.length_append, length_headerBytes] at hlt
      rw [hsame i (by omega)]
      exact carries_writeBytes c _ i x hi
    obtain ⟨a', b', hdemux, ⟨h1, h2⟩, ⟨h3, h4⟩⟩ :=
      demultiplex_spec hmode ha hb hlong hfit hd h a₀ b₀ haSize hbSize hsum
    exact ⟨a', b', hdemux, h1, h2, h3, h4⟩

/-- Statistical mode, lengths 3 and 2, a receiver buffer of 2 for `a`: 18 bytes are written. -/
theorem multiplex_roundTrip_stat : ∃ c',
    multiplex 1 (fun _ => 0) 100 (fun i => if i = 1 then 7 else 0) 3 (fun _ => 1) 2 =
      some (18, c') ∧
    ∃ a' b', demultiplex 4 (fun _ => 9) 2 (fun _ => 9) 2 c' 18 = some (4, a', b') ∧
      a' 0 = 0 ∧ a' 1 = 1 ∧ b' 1 = 1 := by
  have hset : setMultiplexMode 2 1 = (0, 1) := by decide
  have hcap : FitsInt 100 := by decide
  obtain ⟨c, hwritten⟩ : ∃ c, multiplex 1 (fun _ => 0) 100 (fun i => if i = 1 then 7 else 0) 3
    (fun _ => 1) 2 = some (18, c) := ⟨_, rfl⟩
  obtain ⟨n, c', hrun, htrip⟩ := multiplex_roundTrip hset (a := fun i => if i = 1 then 7 else 0)
    (b := fun _ => 1) (c := fun _ => 0) (show (0 : Int) ≤ 3 by decide) (by decide)
    (show (0 : Int) ≤ 2 by decide) (by decide) hcap
  cases hwritten.symm.trans hrun
  obtain ⟨a', b', hdemux, ha, -, hb, -⟩ := htrip (by decide) 4 (fun _ => 9) (fun _ => 9) c 2 2
    (by decide) (by decide) (by decide) fun _ _ => rfl
  exact ⟨c, hwritten, a', b', hdemux, ha 0 (by decide), ha 1 (by decide), hb 1 (by decide)⟩

end CampusNet.Multiplex
