import CampusNet.Homework2.RoundTrip

/-!
# The accesses of the demultiplexer

`demultiplex` with every access checked: it sees the stream through a partial `read` only, and a
store outside its buffer fails.  `none` is an access outside; the return value is `none` where the
final sum overflows.

* `demultiplexChecked` — the function with checked accesses.
* `demultiplexChecked_eq` — on any stream it runs to the end, and does what the program does.
* `demultiplex_congr` — the bytes behind `c_len` make no difference.
* `decodePayload_bits` — what a decoder leaves in the two buffers: bits, below the two limits.
* `demultiplex_safe` — the accesses and the results, for any bytes.
-/

namespace CampusNet.Multiplex

open Buffer

/-! ## Checked accesses -/

/-- The stream as far as it may be read. -/
def readable (c : Buf) (cLen : Int) (j : Nat) : Option UInt8 :=
  if j < cLen then some (c j) else none

def storeAt (x : Buf) (size : Int) (i : Nat) (v : UInt8) : Option Buf :=
  if i < size then some (writeBytes x i [v]) else none

/-- `if (i < real) x[i] = v`; `v` is read only then. -/
def storeRead (x : Buf) (size real : Int) (i : Nat) (v : Option UInt8) : Option Buf :=
  if i < real then v.bind (storeAt x size i) else some x

def readIntLeChecked (read : Nat → Option UInt8) (pos : Nat) : Option Int := do
  let b0 ← read pos
  let b1 ← read (pos + 1)
  let b2 ← read (pos + 2)
  let b3 ← read (pos + 3)
  let u := b0.toNat ||| b1.toNat <<< 8 ||| b2.toNat <<< 16 ||| b3.toNat <<< 24
  some (if u < 2 ^ 31 then (u : Int) else u - 2 ^ 32)

section

variable (read : Nat → Option UInt8) (aSize bSize realA realB : Int)

/-- One token of the statistical mode. -/
def tokenChecked (ab : Buf × Buf) (t : Nat) : Option (Buf × Buf) := do
  let src ← read (9 + 3 * t)
  let low ← read (9 + (3 * t + 1))
  let high ← read (9 + (3 * t + 2))
  let idx := low.toNat ||| high.toNat <<< 8
  let a ← if src = 0 then storeRead ab.1 aSize realA idx (some 1) else some ab.1
  let b ← if src = 1 then storeRead ab.2 bSize realB idx (some 1) else some ab.2
  some (a, b)

def syncChecked (ab : Buf × Buf) (i : Nat) : Option (Buf × Buf) := do
  let a ← storeRead ab.1 aSize realA i ((read (9 + 2 * i)).map toBit)
  let b ← storeRead ab.2 bSize realB i ((read (9 + (2 * i + 1))).map toBit)
  some (a, b)

def fdmChecked (ab : Buf × Buf) (i : Nat) : Option (Buf × Buf) := do
  let a ← storeRead ab.1 aSize realA i ((read (9 + i)).map fun x : UInt8 => x &&& 1)
  let b ← storeRead ab.2 bSize realB i ((read (9 + i)).map fun x : UInt8 => (x >>> 1) &&& 1)
  some (a, b)

def cdmChecked (ab : Buf × Buf) (i : Nat) : Option (Buf × Buf) := do
  let x ← read (9 + 2 * i)
  let y ← read (9 + (2 * i + 1))
  let chip0 : Int := x.toNat - 2
  let chip1 : Int := y.toNat - 2
  let a ← storeRead ab.1 aSize realA i (some (if chip0 + chip1 > 0 then 1 else 0))
  let b ← storeRead ab.2 bSize realB i (some (if chip0 - chip1 > 0 then 1 else 0))
  some (a, b)

/-- The inner `none` is the `return -1`. -/
def decodePayloadChecked (mode payloadLen : Int) (ab : Buf × Buf) : Option (Option (Buf × Buf)) :=
  if mode = MODE_STAT_TDM then
    if payloadLen % 3 ≠ 0 then some none
    else ((List.range (payloadLen / 3).toNat).foldlM
      (tokenChecked read aSize bSize realA realB) ab).map some
  else if mode = MODE_SYNC_TDM then
    if payloadLen % 2 ≠ 0 then some none
    else ((List.range (payloadLen / 2).toNat).foldlM
      (syncChecked read aSize bSize realA realB) ab).map some
  else if mode = MODE_FDM then
    ((List.range payloadLen.toNat).foldlM (fdmChecked read aSize bSize realA realB) ab).map some
  else if mode = MODE_CDM then
    if payloadLen % 2 ≠ 0 then some none
    else ((List.range (payloadLen / 2).toNat).foldlM
      (cdmChecked read aSize bSize realA realB) ab).map some
  else some none

end

/-- The return value (`none` is an overflow of the sum) and the buffers `a` and `b` afterwards. -/
def demultiplexChecked (a : Buf) (aSize : Int) (b : Buf) (bSize : Int)
    (read : Nat → Option UInt8) (cLen : Int) : Option (Option Int × Buf × Buf) :=
  if aSize < 0 ∨ bSize < 0 ∨ cLen < 9 then some (some (-1), a, b)
  else do
    let a := clear a aSize
    let b := clear b bSize
    let mode ← read 0
    let aLen ← readIntLeChecked read 1
    let bLen ← readIntLeChecked read 5
    if aLen < 0 ∨ bLen < 0 then some (some (-1), a, b)
    else
      let realA := min aSize aLen
      let realB := min bSize bLen
      let decoded ← decodePayloadChecked read aSize bSize realA realB mode.toNat (cLen - 9) (a, b)
      match decoded with
      | none => some (some (-1), a, b)
      | some ab => some (checkedInt (realA + realB), ab)

/-! ## No access fails -/

/-- A loop whose every step succeeds. -/
theorem foldlM_some {σ : Type} {f : σ → Nat → Option σ} {g : σ → Nat → σ} {n : Nat}
    (h : ∀ i, i < n → ∀ s, f s i = some (g s i)) (s : σ) :
    (List.range n).foldlM f s = some ((List.range n).foldl g s) := by
  induction n with
  | zero => rfl
  | succ n ih =>
    rw [List.range_succ, List.foldlM_append, List.foldl_append,
      ih fun i hi => h i (Nat.lt_succ_of_lt hi)]
    show (f _ n).bind some = some (g _ n)
    rw [h n (Nat.lt_succ_self n)]
    rfl

theorem storeRead_some {x : Buf} {size real : Int} (hreal : real ≤ size) (i : Nat) (v : UInt8) :
    storeRead x size real i (some v) = some (store x real i v) := by
  unfold storeRead store
  by_cases hi : (i : Int) < real
  · rw [if_pos hi, if_pos hi, Option.bind_some, storeAt, if_pos (lt_of_lt_of_le hi hreal)]
  · rw [if_neg hi, if_neg hi]

theorem readable_payload {c : Buf} {cLen : Int} {j : Nat} (h : (j : Int) < cLen - 9) :
    readable c cLen (9 + j) = some (c.from 9 j) := if_pos (by omega)

theorem readIntLeChecked_eq {c : Buf} {cLen : Int} {pos : Nat} (h : (pos : Int) + 3 < cLen) :
    readIntLeChecked (readable c cLen) pos = some (readIntLe c pos) := by
  have hread : ∀ j : Nat, j < 4 → readable c cLen (pos + j) = some (c (pos + j)) :=
    fun j hj => if_pos (by omega)
  have h0 := hread 0 (by decide)
  rw [Nat.add_zero] at h0
  unfold readIntLeChecked
  rw [h0, hread 1 (by decide), hread 2 (by decide), hread 3 (by decide)]
  rfl

section

variable {c : Buf} {cLen aSize bSize realA realB : Int}

theorem tokenChecked_eq (ha : realA ≤ aSize) (hb : realB ≤ bSize) {t : Nat}
    (ht : ((3 * t + 2 : Nat) : Int) < cLen - 9) (ab : Buf × Buf) :
    tokenChecked (readable c cLen) aSize bSize realA realB ab t =
      some (if c.from 9 (3 * t) = 0 then store ab.1 realA (tokenIdx (c.from 9) t) 1 else ab.1,
        if c.from 9 (3 * t) = 1 then store ab.2 realB (tokenIdx (c.from 9) t) 1 else ab.2) := by
  unfold tokenChecked
  rw [readable_payload (by omega), readable_payload (by omega), readable_payload ht]
  simp only [storeRead_some ha, storeRead_some hb, Option.bind_eq_bind, Option.bind_some]
  split <;> split <;> rfl

theorem syncChecked_eq (ha : realA ≤ aSize) (hb : realB ≤ bSize) {i : Nat}
    (hi : ((2 * i + 1 : Nat) : Int) < cLen - 9) (ab : Buf × Buf) :
    syncChecked (readable c cLen) aSize bSize realA realB ab i =
      some (store ab.1 realA i (syncBits (c.from 9) i).1,
        store ab.2 realB i (syncBits (c.from 9) i).2) := by
  unfold syncChecked
  rw [readable_payload (by omega), readable_payload hi, Option.map_some, Option.map_some,
    storeRead_some ha, storeRead_some hb]
  rfl

theorem fdmChecked_eq (ha : realA ≤ aSize) (hb : realB ≤ bSize) {i : Nat}
    (hi : (i : Int) < cLen - 9) (ab : Buf × Buf) :
    fdmChecked (readable c cLen) aSize bSize realA realB ab i =
      some (store ab.1 realA i (fdmBits (c.from 9) i).1,
        store ab.2 realB i (fdmBits (c.from 9) i).2) := by
  unfold fdmChecked
  rw [readable_payload hi, Option.map_some, Option.map_some, storeRead_some ha, storeRead_some hb]
  rfl

theorem cdmChecked_eq (ha : realA ≤ aSize) (hb : realB ≤ bSize) {i : Nat}
    (hi : ((2 * i + 1 : Nat) : Int) < cLen - 9) (ab : Buf × Buf) :
    cdmChecked (readable c cLen) aSize bSize realA realB ab i =
      some (store ab.1 realA i (cdmBits (c.from 9) i).1,
        store ab.2 realB i (cdmBits (c.from 9) i).2) := by
  unfold cdmChecked
  rw [readable_payload (by omega), readable_payload hi]
  simp only [storeRead_some ha, storeRead_some hb, Option.bind_eq_bind, Option.bind_some]
  rfl

theorem decodePayloadChecked_eq (ha : realA ≤ aSize) (hb : realB ≤ bSize) (mode : Int)
    (ab : Buf × Buf) :
    decodePayloadChecked (readable c cLen) aSize bSize realA realB mode (cLen - 9) ab =
      some (decodePayload mode (c.from 9) (cLen - 9) realA realB ab) := by
  unfold decodePayloadChecked decodePayload
  split
  · split
    · rfl
    · rw [foldlM_some fun t ht => tokenChecked_eq ha hb (by omega)]
      rfl
  split
  · split
    · rfl
    · rw [foldlM_some fun i hi => syncChecked_eq ha hb (by omega)]
      rfl
  split
  · rw [foldlM_some fun i hi => fdmChecked_eq ha hb (by omega)]
    rfl
  split
  · split
    · rfl
    · rw [foldlM_some fun i hi => cdmChecked_eq ha hb (by omega)]
      rfl
  · rfl

end

/-- **The two runs go together**: both fail, before the payload is looked at or with a payload that
is no whole number of slots, or both decode. -/
theorem demultiplexChecked_eq (g : Int) (a b c : Buf) {aSize bSize cLen : Int} (ha : 0 ≤ aSize)
    (hb : 0 ≤ bSize) (hc : 9 ≤ cLen) :
    (demultiplexChecked a aSize b bSize (readable c cLen) cLen =
        some (some (-1), clear a aSize, clear b bSize) ∧
      demultiplex g a aSize b bSize c cLen = some (-1, clear a aSize, clear b bSize) ∧
      (0 ≤ readIntLe c 1 → 0 ≤ readIntLe c 5 →
        decodePayload (c 0).toNat (c.from 9) (cLen - 9) (min aSize (readIntLe c 1))
          (min bSize (readIntLe c 5)) (clear a aSize, clear b bSize) = none)) ∨
    ∃ ab, 0 ≤ readIntLe c 1 ∧ 0 ≤ readIntLe c 5 ∧
      decodePayload (c 0).toNat (c.from 9) (cLen - 9) (min aSize (readIntLe c 1))
        (min bSize (readIntLe c 5)) (clear a aSize, clear b bSize) = some ab ∧
      demultiplexChecked a aSize b bSize (readable c cLen) cLen =
        some (checkedInt (min aSize (readIntLe c 1) + min bSize (readIntLe c 5)), ab) ∧
      demultiplex g a aSize b bSize c cLen =
        (checkedInt (min aSize (readIntLe c 1) + min bSize (readIntLe c 5))).map
          fun n => (n, ab) := by
  have hmode : readable c cLen 0 = some (c 0) := if_pos (by omega)
  have hsizes : ¬(aSize < 0 ∨ bSize < 0 ∨ cLen < 9) := by omega
  have haLen : readIntLeChecked (readable c cLen) 1 = some (readIntLe c 1) :=
    readIntLeChecked_eq (by omega)
  have hbLen : readIntLeChecked (readable c cLen) 5 = some (readIntLe c 5) :=
    readIntLeChecked_eq (by omega)
  have hpayload : decodePayloadChecked (readable c cLen) aSize bSize (min aSize (readIntLe c 1))
      (min bSize (readIntLe c 5)) (c 0).toNat (cLen - 9) (clear a aSize, clear b bSize) = _ :=
    decodePayloadChecked_eq (min_le_left _ _) (min_le_left _ _) _ _
  unfold demultiplexChecked demultiplex
  rw [if_neg hsizes, if_neg hsizes]
  simp only [hmode, haLen, hbLen, hpayload, Option.bind_eq_bind, Option.bind_some]
  by_cases hlens : readIntLe c 1 < 0 ∨ readIntLe c 5 < 0
  · rw [if_pos hlens, if_pos hlens]
    exact Or.inl ⟨rfl, rfl, fun _ _ => by omega⟩
  rw [if_neg hlens, if_neg hlens]
  cases hdecode : decodePayload (c 0).toNat (c.from 9) (cLen - 9) (min aSize (readIntLe c 1))
      (min bSize (readIntLe c 5)) (clear a aSize, clear b bSize) with
  | none => exact Or.inl ⟨rfl, rfl, fun _ _ => rfl⟩
  | some ab =>
    refine Or.inr ⟨ab, by omega, by omega, rfl, rfl, ?_⟩
    cases checkedInt (min aSize (readIntLe c 1) + min bSize (readIntLe c 5)) <;> rfl

/-! ## What is left in the buffers -/

/-- Below `real` there are bits, or what was there before; from `real` on nothing has changed. -/
def BitsBelow (real : Int) (x x' : Buf) : Prop :=
  ∀ j : Nat, x' j = x j ∨ ((j : Int) < real ∧ (x' j = 0 ∨ x' j = 1))

theorem bitsBelow_ite {real : Int} {x x' : Buf} {p : Nat → Prop} [DecidablePred p] {v : Nat → UInt8}
    (hv : ∀ j, v j = 0 ∨ v j = 1)
    (h : ∀ j : Nat, x' j = if p j ∧ (j : Int) < real then v j else x j) : BitsBelow real x x' := by
  intro j
  rw [h j]
  split
  · rename_i hj
    exact Or.inr ⟨hj.2, hv j⟩
  · exact Or.inl rfl

theorem decodeSlots_bits (slots realA realB : Int) {bits : Nat → UInt8 × UInt8}
    (hbits : ∀ i, ((bits i).1 = 0 ∨ (bits i).1 = 1) ∧ ((bits i).2 = 0 ∨ (bits i).2 = 1))
    (ab : Buf × Buf) :
    BitsBelow realA ab.1 (decodeSlots slots realA realB bits ab).1 ∧
      BitsBelow realB ab.2 (decodeSlots slots realA realB bits ab).2 := by
  have hspec := decodeSlots_spec slots.toNat realA realB bits ab
  rw [decodeSlots_toNat] at hspec
  exact ⟨bitsBelow_ite (fun j => (hbits j).1) fun j => (hspec j).1,
    bitsBelow_ite (fun j => (hbits j).2) fun j => (hspec j).2⟩

theorem decodeTokens_bits (tokens realA realB : Int) (p : Buf) (ab : Buf × Buf) :
    BitsBelow realA ab.1 (decodeTokens tokens realA realB p ab).1 ∧
      BitsBelow realB ab.2 (decodeTokens tokens realA realB p ab).2 := by
  have hspec := decodeTokens_spec tokens.toNat realA realB p ab
  have htokens : decodeTokens tokens.toNat realA realB p ab =
      decodeTokens tokens realA realB p ab := by
    unfold decodeTokens
    rw [Int.toNat_natCast]
  rw [htokens] at hspec
  exact ⟨bitsBelow_ite (fun _ => Or.inr rfl) fun j => (hspec j).1,
    bitsBelow_ite (fun _ => Or.inr rfl) fun j => (hspec j).2⟩

theorem and_one_eq (x : UInt8) : x &&& 1 = 0 ∨ x &&& 1 = 1 := by
  have hmod : (x &&& 1).toNat = x.toNat % 2 := by
    rw [UInt8.toNat_and]
    exact Nat.and_two_pow_sub_one_eq_mod x.toNat 1
  rcases Nat.mod_two_eq_zero_or_one x.toNat with h | h
  · exact Or.inl (UInt8.toNat_inj.mp (hmod.trans h))
  · exact Or.inr (UInt8.toNat_inj.mp (hmod.trans h))

theorem ite_one_zero (p : Prop) [Decidable p] :
    (if p then (1 : UInt8) else 0) = 0 ∨ (if p then (1 : UInt8) else 0) = 1 := by
  split
  · exact Or.inr rfl
  · exact Or.inl rfl

/-- **Whichever decoder runs**, it stores bits only, below the two limits only. -/
theorem decodePayload_bits {mode payloadLen realA realB : Int} {p : Buf} {ab ab' : Buf × Buf}
    (h : decodePayload mode p payloadLen realA realB ab = some ab') :
    BitsBelow realA ab.1 ab'.1 ∧ BitsBelow realB ab.2 ab'.2 := by
  unfold decodePayload at h
  split at h
  · split at h
    · cases h
    · cases h
      exact decodeTokens_bits _ _ _ _ _
  split at h
  · split at h
    · cases h
    · cases h
      exact decodeSlots_bits _ _ _ (fun i => ⟨toBit_eq _, toBit_eq _⟩) _
  split at h
  · cases h
    exact decodeSlots_bits _ _ _ (fun i => ⟨and_one_eq _, and_one_eq _⟩) _
  split at h
  · split at h
    · cases h
    · cases h
      exact decodeSlots_bits _ _ _ (fun i => ⟨ite_one_zero _, ite_one_zero _⟩) _
  · cases h

/-- Every element is a bit, the elements from `real` on are zero, and nothing behind the buffer has
changed. -/
structure Decoded (x : Buf) (size real : Int) (x' : Buf) : Prop where
  bits : ∀ j : Nat, (j : Int) < size → x' j = 0 ∨ x' j = 1
  zeros : ∀ j : Nat, real ≤ j → (j : Int) < size → x' j = 0
  frame : ∀ j : Nat, size ≤ j → x' j = x j

/-- A cleared buffer with bits stored below `real`. -/
theorem BitsBelow.decoded {size real : Int} {x x' : Buf} (h : BitsBelow real (clear x size) x')
    (hreal : real ≤ size) : Decoded x size real x' := by
  have hclear : ∀ j : Nat, (j : Int) < size → clear x size j = 0 := fun j hj => if_pos hj
  refine ⟨fun j hj => ?_, fun j hj hsize => ?_, fun j hj => ?_⟩
  · rcases h j with he | ⟨-, he⟩
    · exact Or.inl (he.trans (hclear j hj))
    · exact he
  · rcases h j with he | ⟨hlt, -⟩
    · exact he.trans (hclear j hsize)
    · omega
  · rcases h j with he | ⟨hlt, -⟩
    · exact he.trans (if_neg (by omega))
    · omega

theorem decoded_clear (x : Buf) (size : Int) : Decoded x size 0 (clear x size) where
  bits _ hj := Or.inl (if_pos hj)
  zeros _ _ hj := if_pos hj
  frame _ hj := if_neg (not_lt.mpr hj)

/-! ## The whole function -/

theorem demultiplexChecked_run (g : Int) (a : Buf) (aSize : Int) (b : Buf) (bSize : Int) (c : Buf)
    (cLen : Int) :
    ∃ ret ab, demultiplexChecked a aSize b bSize (readable c cLen) cLen = some (ret, ab) ∧
      demultiplex g a aSize b bSize c cLen = ret.map fun n => (n, ab) := by
  by_cases hargs : aSize < 0 ∨ bSize < 0 ∨ cLen < 9
  · refine ⟨some (-1), (a, b), if_pos hargs, if_pos hargs⟩
  · push Not at hargs
    obtain ⟨hchecked, hrun, -⟩ | ⟨ab, -, -, -, hchecked, hrun⟩ :=
      demultiplexChecked_eq g a b c hargs.1 hargs.2.1 hargs.2.2
    · exact ⟨_, _, hchecked, hrun⟩
    · exact ⟨_, _, hchecked, hrun⟩

/-- **What lies behind the stream makes no difference.** -/
theorem demultiplex_congr (g : Int) (a : Buf) (aSize : Int) (b : Buf) (bSize : Int) {c d : Buf}
    {cLen : Int} (h : ∀ j : Nat, (j : Int) < cLen → d j = c j) :
    demultiplex g a aSize b bSize d cLen = demultiplex g a aSize b bSize c cLen := by
  have hread : readable d cLen = readable c cLen := by
    funext j
    unfold readable
    split
    · rename_i hj
      rw [h j hj]
    · rfl
  obtain ⟨ret, ab, hchecked, hrun⟩ := demultiplexChecked_run g a aSize b bSize c cLen
  obtain ⟨ret', ab', hchecked', hrun'⟩ := demultiplexChecked_run g a aSize b bSize d cLen
  rw [hread, hchecked] at hchecked'
  cases hchecked'
  rw [hrun, hrun']

/-- **Demultiplexing is safe on any bytes.**  The run with checked accesses ends and agrees with
the program's; nothing outside the two buffers changes; and from nine bytes on the buffers hold
bits, with zeros behind the shorter of buffer and message, and zeros alone after a failure. -/
theorem demultiplex_safe (g : Int) (a b c : Buf) {aSize bSize : Int} (cLen : Int)
    (ha : 0 ≤ aSize) (hb : 0 ≤ bSize) :
    ∃ ret a' b', demultiplexChecked a aSize b bSize (readable c cLen) cLen = some (ret, a', b') ∧
      demultiplex g a aSize b bSize c cLen = (ret.map fun n => (n, a', b')) ∧
      (∀ j : Nat, aSize ≤ j → a' j = a j) ∧ (∀ j : Nat, bSize ≤ j → b' j = b j) ∧
      (9 ≤ cLen →
        (ret = some (-1) → Decoded a aSize 0 a' ∧ Decoded b bSize 0 b') ∧
        (ret ≠ some (-1) → Decoded a aSize (min aSize (readIntLe c 1)) a' ∧
          Decoded b bSize (min bSize (readIntLe c 5)) b')) := by
  by_cases hc : 9 ≤ cLen
  · obtain ⟨hchecked, hrun, -⟩ | ⟨ab, haLen, hbLen, hdecode, hchecked, hrun⟩ :=
      demultiplexChecked_eq g a b c ha hb hc
    · have hda := decoded_clear a aSize
      have hdb := decoded_clear b bSize
      exact ⟨_, _, _, hchecked, hrun, hda.frame, hdb.frame, fun _ =>
        ⟨fun _ => ⟨hda, hdb⟩, fun h => absurd rfl h⟩⟩
    · obtain ⟨hbitsA, hbitsB⟩ := decodePayload_bits hdecode
      have hda := hbitsA.decoded (min_le_left _ _)
      have hdb := hbitsB.decoded (min_le_left _ _)
      refine ⟨_, _, _, hchecked, hrun, hda.frame, hdb.frame, fun _ =>
        ⟨fun hret => ?_, fun _ => ⟨hda, hdb⟩⟩⟩
      -- a sum of two counts is no error code
      unfold checkedInt at hret
      split at hret
      · have hsum := Option.some.inj hret
        omega
      · cases hret
  · have hargs : aSize < 0 ∨ bSize < 0 ∨ cLen < 9 := Or.inr (Or.inr (not_le.mp hc))
    exact ⟨some (-1), a, b, if_pos hargs, if_pos hargs, fun _ _ => rfl, fun _ _ => rfl,
      fun h => absurd h hc⟩

/-- A stream of the statistical mode that names positions far outside, for lengths of 2 ^ 31 - 1. -/
def wildStream : Buf :=
  writeBytes (fun _ => 0xFF) 0 (headerBytes MODE_STAT_TDM INT_MAX INT_MAX ++ [0, 255, 255, 7, 0, 0])

theorem demultiplex_safe_wild : ∃ ret a' b',
    demultiplexChecked (fun _ => 9) 3 (fun _ => 9) 0 (readable wildStream 15) 15 =
      some (ret, a', b') ∧ (∀ j : Nat, 3 ≤ (j : Int) → a' j = 9) := by
  obtain ⟨ret, a', b', hchecked, -, hframe, -⟩ := demultiplex_safe 2 (fun _ => 9) (fun _ => 9)
    wildStream 15 (show (0 : Int) ≤ 3 by decide) (show (0 : Int) ≤ 0 by decide)
  exact ⟨ret, a', b', hchecked, hframe⟩

end CampusNet.Multiplex
