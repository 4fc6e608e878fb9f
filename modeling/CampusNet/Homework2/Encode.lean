import CampusNet.Homework2.Multiplex

/-!
# What the multiplexer writes

* `headerBytes` — the nine bytes at the front; `readIntLe_bytesLe` reads a length back.
* `statPayload`, `syncPayload`, `fdmPayload`, `cdmPayload` — what follows, mode by mode: a stream
  of equally long blocks, one for each slot, or one token for each 1 in the statistical mode.
* `EncodedExactly` — success exactly when the payload is writable and the capacity holds it.
* `multiplex_exact` — `multiplex` writes the header and the payload exactly when both fit;
  `multiplex_spec` is what the round trip needs of it.
-/

namespace CampusNet.Multiplex

open Buffer

/-! ## The header -/

def bytesLe (v : Int) : List UInt8 :=
  let u := (v % 2 ^ 32).toNat
  [UInt8.ofNat (u &&& 0xFF), UInt8.ofNat ((u >>> 8) &&& 0xFF), UInt8.ofNat ((u >>> 16) &&& 0xFF),
    UInt8.ofNat ((u >>> 24) &&& 0xFF)]

theorem writeIntLe_eq (p : Buf) (pos : Nat) (v : Int) :
    writeIntLe p pos v = writeBytes p pos (bytesLe v) := rfl

theorem toNat_byte (u s : Nat) :
    (UInt8.ofNat ((u >>> s) &&& 0xFF)).toNat = u / 2 ^ s % 256 := by
  have hmask : (u >>> s) &&& 0xFF = u / 2 ^ s % 256 := by
    rw [← Nat.shiftRight_eq_div_pow]
    exact Nat.and_two_pow_sub_one_eq_mod _ 8
  rw [hmask, UInt8.toNat_ofNat']
  exact Nat.mod_mod _ _

theorem or_shiftLeft {b i : Nat} (h : b < 2 ^ i) (a : Nat) : b ||| a <<< i = b + a * 2 ^ i := by
  rw [Nat.or_comm, ← Nat.shiftLeft_add_eq_or_of_lt h, Nat.shiftLeft_eq, Nat.add_comm]

/-- Reading back a length. -/
theorem readIntLe_bytesLe {q : Buf} {pos : Nat} {v : Int} (hv : 0 ≤ v) (hmax : v ≤ INT_MAX)
    (h : ∀ i x, (bytesLe v)[i]? = some x → q (pos + i) = x) : readIntLe q pos = v := by
  have hu : (v % 2 ^ 32).toNat = v.toNat := by
    unfold INT_MAX at hmax; omega
  have h0 := h 0 _ rfl
  have h1 := h 1 _ rfl
  have h2 := h 2 _ rfl
  have h3 := h 3 _ rfl
  simp only [hu] at h0 h1 h2 h3
  have b0 : (q pos).toNat = v.toNat % 256 := by
    have := toNat_byte v.toNat 0
    rw [Nat.shiftRight_zero, Nat.pow_zero, Nat.div_one] at this
    rw [← this, ← h0, Nat.add_zero]
  have b1 : (q (pos + 1)).toNat = v.toNat / 2 ^ 8 % 256 := by rw [h1]; exact toNat_byte _ 8
  have b2 : (q (pos + 2)).toNat = v.toNat / 2 ^ 16 % 256 := by rw [h2]; exact toNat_byte _ 16
  have b3 : (q (pos + 3)).toNat = v.toNat / 2 ^ 24 % 256 := by rw [h3]; exact toNat_byte _ 24
  have hsum : (q pos).toNat ||| (q (pos + 1)).toNat <<< 8 ||| (q (pos + 2)).toNat <<< 16 |||
      (q (pos + 3)).toNat <<< 24 = v.toNat := by
    unfold INT_MAX at hmax
    rw [b0, b1, b2, b3]
    have e1 := or_shiftLeft (b := v.toNat % 256) (i := 8) (by omega) (v.toNat / 2 ^ 8 % 256)
    have e2 := or_shiftLeft (b := v.toNat % 256 + v.toNat / 2 ^ 8 % 256 * 2 ^ 8) (i := 16)
      (by omega) (v.toNat / 2 ^ 16 % 256)
    rw [e1, e2, or_shiftLeft (by omega)]
    omega
  unfold INT_MAX at hmax
  simp only [readIntLe, hsum]
  rw [if_pos (by omega)]
  omega

def headerBytes (mode aLen bLen : Int) : List UInt8 :=
  UInt8.ofInt mode :: (bytesLe aLen ++ bytesLe bLen)

theorem length_headerBytes (mode aLen bLen : Int) : (headerBytes mode aLen bLen).length = 9 := rfl

theorem writeHeader_eq (c : Buf) (mode aLen bLen : Int) :
    writeIntLe (writeIntLe (writeBytes c 0 [UInt8.ofInt mode]) 1 aLen) 5 bLen =
      writeBytes c 0 (headerBytes mode aLen bLen) := by
  have h1 := writeBytes_append c 0 [UInt8.ofInt mode] (bytesLe aLen)
  have h2 := writeBytes_append c 0 ([UInt8.ofInt mode] ++ bytesLe aLen) (bytesLe bLen)
  rw [writeIntLe_eq, writeIntLe_eq]
  calc writeBytes (writeBytes (writeBytes c 0 [UInt8.ofInt mode]) 1 (bytesLe aLen)) 5 (bytesLe bLen)
      = writeBytes (writeBytes c 0 ([UInt8.ofInt mode] ++ bytesLe aLen)) 5 (bytesLe bLen) :=
        congrArg (fun m => writeBytes m 5 (bytesLe bLen)) h1
    _ = writeBytes c 0 (headerBytes mode aLen bLen) := h2

/-! ## The payload -/

theorem toBit_eq (x : UInt8) : toBit x = 0 ∨ toBit x = 1 := by
  unfold toBit
  split
  · exact Or.inr rfl
  · exact Or.inl rfl

theorem bitAt_eq (x : Buf) (len : Int) (i : Nat) : bitAt x len i = 0 ∨ bitAt x len i = 1 := by
  unfold bitAt
  split
  · exact toBit_eq _
  · exact Or.inl rfl

/-- The chips of a slot, by the two bits. -/
def chips (abit bbit : UInt8) : List UInt8 :=
  let sa : Int := if abit = 1 then 1 else -1
  let sb : Int := if bbit = 1 then 1 else -1
  [UInt8.ofInt (sa * 1 + sb * 1 + 2), UInt8.ofInt (sa * 1 + sb * (-1) + 2)]

def tokenBytes (t : UInt8 × Nat) : List UInt8 :=
  [t.1, UInt8.ofNat (t.2 &&& 0xFF), UInt8.ofNat ((t.2 >>> 8) &&& 0xFF)]

/-- The positions of the list that hold a 1. -/
def onesIn (x : Buf) (l : List Nat) : List Nat := l.filter fun i => toBit (x i) = 1

/-- The tokens of one source. -/
def tokensOf (src : UInt8) (x : Buf) (len : Int) : List (UInt8 × Nat) :=
  (onesIn x (List.range len.toNat)).map fun i => (src, i)

/-- The slots of the two slotted payloads. -/
def slots (aLen bLen : Int) : List Nat := List.range (max aLen bLen).toNat

def statPayload (a : Buf) (aLen : Int) (b : Buf) (bLen : Int) : List UInt8 :=
  (tokensOf 0 a aLen ++ tokensOf 1 b bLen).flatMap tokenBytes

def syncPayload (a : Buf) (aLen : Int) (b : Buf) (bLen : Int) : List UInt8 :=
  (slots aLen bLen).flatMap fun i => [bitAt a aLen i, bitAt b bLen i]

def fdmPayload (a : Buf) (aLen : Int) (b : Buf) (bLen : Int) : List UInt8 :=
  (slots aLen bLen).flatMap fun i => [bitAt a aLen i ||| bitAt b bLen i <<< 1]

def cdmPayload (a : Buf) (aLen : Int) (b : Buf) (bLen : Int) : List UInt8 :=
  (slots aLen bLen).flatMap fun i => chips (bitAt a aLen i) (bitAt b bLen i)

/-- An encoder's result: a failure, or `payload` written to a capacity that holds it. -/
def Encoded (out : Buf) (outCap : Int) (payload : List UInt8) (r : Int × Buf) : Prop :=
  r.1 = -1 ∨ (r = ((payload.length : Int), writeBytes out 0 payload) ∧ payload.length ≤ outCap)

/-- An encoder's exact result: it succeeds when `payload` is writable and the capacity holds it;
when it fails, nothing behind the capacity has changed. -/
structure EncodedExactly (out : Buf) (outCap : Int) (payload : List UInt8) (writable : Prop)
    (r : Int × Buf) : Prop where
  success : writable → payload.length ≤ outCap →
    r = ((payload.length : Int), writeBytes out 0 payload)
  failure : ¬(writable ∧ payload.length ≤ outCap) → r.1 = -1 ∧ ∀ j : Nat, outCap ≤ j → r.2 j = out j

theorem EncodedExactly.encoded {out : Buf} {outCap : Int} {payload : List UInt8} {writable : Prop}
    {r : Int × Buf} (h : EncodedExactly out outCap payload writable r) :
    Encoded out outCap payload r ∧ (r.1 = -1 ∨ writable) := by
  by_cases hfits : writable ∧ payload.length ≤ outCap
  · exact ⟨Or.inr ⟨h.success hfits.1 hfits.2, hfits.2⟩, Or.inr hfits.1⟩
  · have hfailed := (h.failure hfits).1
    exact ⟨Or.inl hfailed, Or.inl hfailed⟩

theorem put_put (o : Out) (x y : UInt8) : (o.put x).put y = o.write [x, y] := o.write_write [x] [y]

theorem put_put_put (o : Out) (x y z : UInt8) : ((o.put x).put y).put z = o.write [x, y, z] := by
  rw [put_put]
  exact o.write_write [x] [y, z]

theorem signAt_eq (x : Buf) (len : Int) (i : Nat) :
    signAt x len i = if bitAt x len i = 1 then 1 else -1 := by
  unfold signAt bitAt
  by_cases hi : (i : Int) < len
  · rcases toBit_eq (x i) with h | h <;> simp [hi, h]
  · simp [hi]

section

variable {out a b : Buf} {outCap aLen bLen : Int}

/-- The size of a slotted payload. -/
theorem length_slots (ha : 0 ≤ aLen) {f : Nat → List UInt8} {w : Nat}
    (hf : ∀ i, (f i).length = w) :
    (((slots aLen bLen).flatMap f).length : Int) = max aLen bLen * w := by
  have hmax : 0 ≤ max aLen bLen := le_trans ha (le_max_left _ _)
  rw [length_flatMap_block fun i _ => hf i, slots, List.length_range, Nat.mul_comm]
  push_cast
  rw [Int.toNat_of_nonneg hmax]

theorem pushSlots (f : Nat → List UInt8) (out : Buf) (aLen bLen : Int) :
    (List.range (max aLen bLen).toNat).foldl (fun o i => o.write (f i)) (⟨out, 0⟩ : Out) =
      ⟨writeBytes out 0 ((slots aLen bLen).flatMap f), ((slots aLen bLen).flatMap f).length⟩ := by
  rw [foldl_write]
  simp [Out.write, slots]

/-- A capacity test and then the whole payload. -/
theorem encodedExactly_test {size : Int} {payload : List UInt8}
    (hsize : (payload.length : Int) = size) :
    EncodedExactly out outCap payload True
      (if outCap < size then (-1, out) else (size, writeBytes out 0 payload)) := by
  constructor
  · intro _ hfits
    rw [if_neg (by omega), hsize]
  · intro hfull
    rw [if_pos (by simpa [hsize] using hfull)]
    exact ⟨rfl, fun j _ => rfl⟩

/-- The two-byte modes. -/
theorem pushPairs_spec (ha : 0 ≤ aLen) (hlong : max aLen bLen < 2 ^ 30) {f : Nat → List UInt8}
    (hf : ∀ i, (f i).length = 2) {body : Out → Nat → Out}
    (hbody : ∀ o i, body o i = o.write (f i)) :
    ∃ r, (do
        let size ← checkedInt (max aLen bLen * 2)
        if outCap < size then some (-1, out)
        else
          let o := (List.range (max aLen bLen).toNat).foldl body (⟨out, 0⟩ : Out)
          some ((o.k : Int), o.buf)) = some r ∧
      EncodedExactly out outCap ((slots aLen bLen).flatMap f) True r := by
  have hmax : 0 ≤ max aLen bLen := le_trans ha (le_max_left _ _)
  have hfits : FitsInt (max aLen bLen * 2) := by
    unfold FitsInt INT_MIN INT_MAX
    generalize max aLen bLen = m at hmax hlong
    omega
  have hlength : (((slots aLen bLen).flatMap f).length : Int) = max aLen bLen * 2 :=
    length_slots ha hf
  have hfold : body = fun o i => o.write (f i) := funext fun o => funext fun i => hbody o i
  simp only [checkedInt_of_fits hfits, Option.bind_eq_bind, Option.bind_some, hfold, pushSlots]
  rw [← apply_ite some, hlength]
  exact ⟨_, rfl, encodedExactly_test hlength⟩

theorem doSyncTdm_spec (out a b : Buf) (outCap : Int) (ha : 0 ≤ aLen)
    (hlong : max aLen bLen < 2 ^ 30) :
    ∃ r, doSyncTdm out outCap a aLen b bLen = some r ∧
      EncodedExactly out outCap (syncPayload a aLen b bLen) True r :=
  pushPairs_spec ha hlong (f := fun i => [bitAt a aLen i, bitAt b bLen i]) (fun _ => rfl)
    fun o _ => put_put o _ _

theorem doCdm_spec (out a b : Buf) (outCap : Int) (ha : 0 ≤ aLen)
    (hlong : max aLen bLen < 2 ^ 30) :
    ∃ r, doCdm out outCap a aLen b bLen = some r ∧
      EncodedExactly out outCap (cdmPayload a aLen b bLen) True r := by
  refine pushPairs_spec ha hlong (f := fun i => chips (bitAt a aLen i) (bitAt b bLen i))
    (fun _ => rfl) fun o i => ?_
  rw [put_put, signAt_eq, signAt_eq]
  rfl

theorem doFdm_spec (ha : 0 ≤ aLen) :
    EncodedExactly out outCap (fdmPayload a aLen b bLen) True
      (doFdm out outCap a aLen b bLen) := by
  have hlength : ((fdmPayload a aLen b bLen).length : Int) = max aLen bLen * 1 :=
    length_slots ha fun _ => rfl
  rw [Int.mul_one] at hlength
  unfold doFdm
  simp only [foldl_writeBytes]
  exact encodedExactly_test hlength

/-- One source of the statistical mode: a token for each 1, all within 16 bits. -/
theorem statLoop_spec (src : UInt8) (x : Buf) :
    ∀ (l : List Nat) (o o' : Out), l.foldlM (fun o i =>
      if toBit (x i) = 1 then
        if (o.k : Int) + 3 > outCap ∨ i > 65535 then .error o.buf
        else .ok (((o.put src).put (UInt8.ofNat (i &&& 0xFF))).put
          (UInt8.ofNat ((i >>> 8) &&& 0xFF)))
      else .ok o) o = (.ok o' : Except Buf Out) → (o.k : Int) ≤ outCap →
      o' = o.write (((onesIn x l).map fun i => (src, i)).flatMap tokenBytes) ∧
        (∀ i ∈ onesIn x l, i ≤ 65535) ∧ (o'.k : Int) ≤ outCap
  | [], o, o', h, hk => by
    cases h
    exact ⟨o.write_nil.symm, by simp [onesIn], hk⟩
  | i :: l, o, o', h, hk => by
    rw [List.foldlM_cons] at h
    by_cases hone : toBit (x i) = 1
    · rw [if_pos hone] at h
      by_cases hfull : (o.k : Int) + 3 > outCap ∨ i > 65535
      · rw [if_pos hfull] at h; cases h
      · rw [if_neg hfull, put_put_put] at h
        obtain ⟨he, hsmall, hk'⟩ := statLoop_spec src x l _ o' h
          (by simp only [Out.write, List.length_cons, List.length_nil]; push_cast; omega)
        have hones : onesIn x (i :: l) = i :: onesIn x l := by simp [onesIn, hone]
        rw [hones]
        refine ⟨?_, List.forall_mem_cons.mpr ⟨by omega, hsmall⟩, hk'⟩
        rw [he, Out.write_write]
        rfl
    · rw [if_neg hone] at h
      obtain ⟨he, hsmall, hk'⟩ := statLoop_spec src x l _ o' h hk
      have hones : onesIn x (i :: l) = onesIn x l := by simp [onesIn, hone]
      rw [hones]
      exact ⟨he, hsmall, hk'⟩

/-- The early return: the source's tokens do not fit, and nothing behind the capacity has
changed. -/
theorem statLoop_error (src : UInt8) (x : Buf) {e : Buf} :
    ∀ (l : List Nat) (o : Out), l.foldlM (fun o i =>
      if toBit (x i) = 1 then
        if (o.k : Int) + 3 > outCap ∨ i > 65535 then .error o.buf
        else .ok (((o.put src).put (UInt8.ofNat (i &&& 0xFF))).put
          (UInt8.ofNat ((i >>> 8) &&& 0xFF)))
      else .ok o) o = (.error e : Except Buf Out) → (o.k : Int) ≤ outCap →
      ¬((∀ i ∈ onesIn x l, i ≤ 65535) ∧ (o.k : Int) + 3 * (onesIn x l).length ≤ outCap) ∧
        ∀ j : Nat, outCap ≤ j → e j = o.buf j
  | [], o, h, hk => by cases h
  | i :: l, o, h, hk => by
    rw [List.foldlM_cons] at h
    by_cases hone : toBit (x i) = 1
    · have hones : onesIn x (i :: l) = i :: onesIn x l := by simp [onesIn, hone]
      rw [hones, List.length_cons, List.forall_mem_cons]
      rw [if_pos hone] at h
      by_cases hfull : (o.k : Int) + 3 > outCap ∨ i > 65535
      · rw [if_pos hfull] at h
        cases h
        exact ⟨fun ⟨⟨hi, _⟩, hroom⟩ => by omega, fun j _ => rfl⟩
      · rw [if_neg hfull, put_put_put] at h
        have hk' : ((o.k + 3 : Nat) : Int) ≤ outCap := by omega
        obtain ⟨hnot, hframe⟩ := statLoop_error src x l _ h hk'
        refine ⟨fun ⟨⟨_, hsmall⟩, hroom⟩ => hnot ⟨hsmall, ?_⟩, fun j hj => ?_⟩
        · show ((o.k + 3 : Nat) : Int) + _ ≤ outCap
          omega
        · rw [hframe j hj]
          exact writeBytes_outside (Or.inr (show o.k + 3 ≤ j by omega))
    · rw [if_neg hone] at h
      have hones : onesIn x (i :: l) = onesIn x l := by simp [onesIn, hone]
      rw [hones]
      exact statLoop_error src x l o h hk

theorem forall_tokens {src : UInt8} {x : Buf} {len : Int} :
    (∀ t ∈ tokensOf src x len, t.2 ≤ 65535) ↔
      ∀ i ∈ onesIn x (List.range len.toNat), i ≤ 65535 := by
  unfold tokensOf
  exact List.forall_mem_map

theorem length_tokens (src : UInt8) (x : Buf) (len : Int) :
    ((tokensOf src x len).flatMap tokenBytes).length =
      3 * (onesIn x (List.range len.toNat)).length := by
  rw [length_flatMap_block (w := 3) fun _ _ => rfl, tokensOf, List.length_map]

theorem length_statPayload (a : Buf) (aLen : Int) (b : Buf) (bLen : Int) :
    (statPayload a aLen b bLen).length = 3 * (onesIn a (List.range aLen.toNat)).length +
      3 * (onesIn b (List.range bLen.toNat)).length := by
  rw [statPayload, List.flatMap_append, List.length_append, length_tokens, length_tokens]

theorem doStatTdm_spec (hcap : 0 ≤ outCap) :
    EncodedExactly out outCap (statPayload a aLen b bLen)
      (∀ t ∈ tokensOf 0 a aLen ++ tokensOf 1 b bLen, t.2 ≤ 65535)
      (doStatTdm out outCap a aLen b bLen) := by
  have hlength := length_statPayload a aLen b bLen
  have htokens : (∀ t ∈ tokensOf 0 a aLen ++ tokensOf 1 b bLen, t.2 ≤ 65535) ↔
      (∀ i ∈ onesIn a (List.range aLen.toNat), i ≤ 65535) ∧
        ∀ i ∈ onesIn b (List.range bLen.toNat), i ≤ 65535 := by
    rw [List.forall_mem_append, forall_tokens, forall_tokens]
  rw [htokens]
  unfold doStatTdm
  cases ha : statLoop 0 outCap a aLen ⟨out, 0⟩ with
  | error e =>
    obtain ⟨hnot, hframe⟩ := statLoop_error 0 a _ _ ha hcap
    refine ⟨fun hsmall hroom => ?_, fun _ => ⟨rfl, hframe⟩⟩
    refine absurd ⟨hsmall.1, ?_⟩ hnot
    show ((0 : Nat) : Int) + _ ≤ outCap
    omega
  | ok o =>
    have hbind : Except.bind (.ok o) (statLoop 1 outCap b bLen) = statLoop 1 outCap b bLen o := rfl
    rw [hbind]
    obtain ⟨he, hsmall, hk⟩ := statLoop_spec 0 a _ _ _ ha hcap
    have hok : o.k = 3 * (onesIn a (List.range aLen.toNat)).length := by
      rw [he, ← length_tokens 0]
      exact Nat.zero_add _
    cases hb : statLoop 1 outCap b bLen o with
    | error e =>
      obtain ⟨hnot, hframe⟩ := statLoop_error 1 b _ _ hb hk
      refine ⟨fun hall hroom => absurd ⟨hall.2, by omega⟩ hnot, fun _ => ⟨rfl, fun j hj => ?_⟩⟩
      have hbehind : 0 + ((tokensOf 0 a aLen).flatMap tokenBytes).length ≤ j := by
        rw [length_tokens]
        omega
      calc e j = o.buf j := hframe j hj
        _ = writeBytes out 0 ((tokensOf 0 a aLen).flatMap tokenBytes) j := by rw [he]; rfl
        _ = out j := writeBytes_outside (Or.inr hbehind)
    | ok o' =>
      obtain ⟨he', hsmall', hk'⟩ := statLoop_spec 1 b _ _ _ hb hk
      have hwrite : o' = (⟨out, 0⟩ : Out).write (statPayload a aLen b bLen) := by
        rw [he', he, Out.write_write, ← List.flatMap_append]
        rfl
      rw [hwrite] at hk' ⊢
      have hroom : ((statPayload a aLen b bLen).length : Int) ≤ outCap := by
        simpa [Out.write] using hk'
      refine ⟨fun _ _ => ?_, fun hnot => absurd ⟨⟨hsmall, hsmall'⟩, hroom⟩ hnot⟩
      simp [Out.write]

end

/-- What follows the header. -/
def payloadOf (mode : Int) (a : Buf) (aLen : Int) (b : Buf) (bLen : Int) : List UInt8 :=
  if mode = MODE_STAT_TDM then statPayload a aLen b bLen
  else if mode = MODE_SYNC_TDM then syncPayload a aLen b bLen
  else if mode = MODE_FDM then fdmPayload a aLen b bLen
  else cdmPayload a aLen b bLen

/-- A token index fits its 16 bits. -/
def TokensFit (mode : Int) (a : Buf) (aLen : Int) (b : Buf) (bLen : Int) : Prop :=
  mode = MODE_STAT_TDM → ∀ t ∈ tokensOf 0 a aLen ++ tokensOf 1 b bLen, t.2 ≤ 65535

theorem splice_from (mem : Buf) (pos : Nat) (data : List UInt8) :
    splice mem pos (writeBytes (mem.from pos) 0 data) = writeBytes mem pos data := by
  funext j
  unfold splice
  split
  · rw [writeBytes_outside (Or.inl ‹_›)]
  · simp only [writeBytes, Buf.from, Nat.zero_le, if_true, Nat.sub_zero]
    rw [if_pos (by omega), Nat.add_sub_cancel' (by omega)]

theorem eq_cdm {mode : Int} (hmode : 1 ≤ mode ∧ mode ≤ 4) (hstat : mode ≠ MODE_STAT_TDM)
    (hsync : mode ≠ MODE_SYNC_TDM) (hfdm : mode ≠ MODE_FDM) : mode = MODE_CDM := by
  unfold MODE_STAT_TDM at hstat
  unfold MODE_SYNC_TDM at hsync
  unfold MODE_FDM at hfdm
  unfold MODE_CDM
  omega

/-- The size of a payload fits an `int`: the two-byte modes double the longer length. -/
def SizeFits (mode aLen bLen : Int) : Prop :=
  mode = MODE_STAT_TDM ∨ mode = MODE_FDM ∨ max aLen bLen < 2 ^ 30

instance (mode aLen bLen : Int) : Decidable (SizeFits mode aLen bLen) :=
  inferInstanceAs (Decidable (_ ∨ _ ∨ _))

/-- Only the statistical mode looks at the contents. -/
theorem EncodedExactly.of_slotted {mode : Int} (hstat : mode ≠ MODE_STAT_TDM) {out a b : Buf}
    {outCap aLen bLen : Int} {payload : List UInt8} {r : Int × Buf}
    (h : EncodedExactly out outCap payload True r) :
    EncodedExactly out outCap payload (TokensFit mode a aLen b bLen) r := by
  have hfit : TokensFit mode a aLen b bLen := fun hmode => absurd hmode hstat
  exact ⟨fun _ hroom => h.success trivial hroom, fun hnot => h.failure fun ⟨_, hroom⟩ =>
    hnot ⟨hfit, hroom⟩⟩

/-- **Whichever encoder runs**, it writes the payload of its mode. -/
theorem encodePayload_spec {mode : Int} (hmode : 1 ≤ mode ∧ mode ≤ 4) (out a b : Buf)
    {outCap aLen bLen : Int} (hcap : 0 ≤ outCap) (ha : 0 ≤ aLen)
    (hsize : SizeFits mode aLen bLen) :
    ∃ r, encodePayload mode out outCap a aLen b bLen = some r ∧
      EncodedExactly out outCap (payloadOf mode a aLen b bLen) (TokensFit mode a aLen b bLen)
        r := by
  unfold encodePayload payloadOf
  by_cases hstat : mode = MODE_STAT_TDM
  · rw [if_pos hstat, if_pos hstat]
    have hspec : EncodedExactly out outCap (statPayload a aLen b bLen) _
      (doStatTdm out outCap a aLen b bLen) := doStatTdm_spec hcap
    exact ⟨_, rfl, fun hfit => hspec.success (hfit hstat),
      fun hnot => hspec.failure fun h => hnot ⟨fun _ => h.1, h.2⟩⟩
  rw [if_neg hstat, if_neg hstat]
  by_cases hsync : mode = MODE_SYNC_TDM
  · have hlong : max aLen bLen < 2 ^ 30 := by
      rcases hsize with h | h | h
      · exact absurd h hstat
      · rw [hsync] at h
        cases h
      · exact h
    rw [if_pos hsync, if_pos hsync]
    obtain ⟨r, hr, he⟩ := doSyncTdm_spec out a b outCap ha hlong
    exact ⟨r, hr, he.of_slotted hstat⟩
  rw [if_neg hsync, if_neg hsync]
  by_cases hfdm : mode = MODE_FDM
  · rw [if_pos hfdm, if_pos hfdm]
    exact ⟨_, rfl, (doFdm_spec ha).of_slotted hstat⟩
  · have hlong : max aLen bLen < 2 ^ 30 := (hsize.resolve_left hstat).resolve_left hfdm
    rw [if_neg hfdm, if_neg hfdm, if_pos (eq_cdm hmode hstat hsync hfdm)]
    obtain ⟨r, hr, he⟩ := doCdm_spec out a b outCap ha hlong
    exact ⟨r, hr, he.of_slotted hstat⟩

/-- `multiplex` once its arguments have passed: the encoder runs behind the header. -/
theorem multiplex_eq {mode : Int} {c a b : Buf} {cSize aLen bLen : Int} (hroom : header ≤ cSize)
    (ha : 0 ≤ aLen) (hb : 0 ≤ bLen) {w : Buf}
    (hw : writeBytes c 0 (headerBytes mode aLen bLen) = w) :
    multiplex mode c cSize a aLen b bLen =
      (encodePayload mode (w.from 9) (cSize - header) a aLen b bLen).bind fun r =>
        if r.1 < 0 then some (-1, splice w 9 r.2)
        else (checkedInt (header + r.1)).bind fun n => some (n, splice w 9 r.2) := by
  have hpositive : 0 < cSize := lt_of_lt_of_le (by decide) hroom
  unfold multiplex
  rw [if_neg (by omega), if_neg (by omega), ← hw]
  simp only [writeHeader_eq]
  rfl

/-- **What `multiplex` does**: it writes the header and the payload, when the capacity holds
both. -/
theorem multiplex_exact {mode : Int} (hmode : 1 ≤ mode ∧ mode ≤ 4) {c a b : Buf}
    {cSize aLen bLen : Int} (hc : FitsInt cSize) (ha : 0 ≤ aLen) (hb : 0 ≤ bLen)
    (hsize : cSize < header ∨ SizeFits mode aLen bLen) :
    ∃ r, multiplex mode c cSize a aLen b bLen = some r ∧
      EncodedExactly c cSize (headerBytes mode aLen bLen ++ payloadOf mode a aLen b bLen)
        (TokensFit mode a aLen b bLen) r := by
  have htotal : ((headerBytes mode aLen bLen ++ payloadOf mode a aLen b bLen).length : Int) =
      header + (payloadOf mode a aLen b bLen).length := by
    rw [List.length_append, length_headerBytes]
    rfl
  by_cases hsmall : cSize < header
  · refine ⟨(-1, c), ?_, fun _ hroom => by omega, fun _ => ⟨rfl, fun j _ => rfl⟩⟩
    unfold multiplex
    by_cases hzero : cSize ≤ 0 ∨ aLen < 0 ∨ bLen < 0
    · exact if_pos hzero
    · rw [if_neg hzero, if_pos hsmall]
  generalize hw : writeBytes c 0 (headerBytes mode aLen bLen) = w
  rw [multiplex_eq (by omega) ha hb hw]
  obtain ⟨⟨payload, out⟩, hr, he⟩ := encodePayload_spec hmode (w.from 9) a b
    (show 0 ≤ cSize - header by omega) ha (hsize.resolve_left hsmall)
  rw [hr, Option.bind_some]
  by_cases hfits : TokensFit mode a aLen b bLen ∧
      (payloadOf mode a aLen b bLen).length ≤ cSize - header
  · cases he.success hfits.1 hfits.2
    have hint : FitsInt (header + ((payloadOf mode a aLen b bLen).length : Int)) := by
      unfold FitsInt INT_MIN INT_MAX at hc ⊢
      unfold header at hfits ⊢
      omega
    rw [if_neg (by omega), checkedInt_of_fits hint]
    refine ⟨_, rfl, fun _ _ => ?_, fun hnot => absurd ⟨hfits.1, by omega⟩ hnot⟩
    rw [htotal, splice_from, ← hw, ← writeBytes_append c 0 (headerBytes mode aLen bLen)]
    rfl
  · obtain ⟨hfailed, hframe⟩ := he.failure hfits
    simp only at hfailed hframe
    subst hfailed
    have hnegative : (-1 : Int) < 0 := by decide
    refine ⟨_, if_pos hnegative, fun hfit hroom => absurd ⟨hfit, by omega⟩ hfits, fun _ =>
      ⟨rfl, fun j hj => ?_⟩⟩
    have hbehind : 9 ≤ j := by
      unfold header at hsmall
      omega
    show splice w 9 out j = c j
    unfold splice
    rw [if_neg (by omega), hframe (j - 9) (by unfold header; omega), Buf.from,
      Nat.add_sub_cancel' hbehind, ← hw]
    exact writeBytes_outside (Or.inr (by rw [length_headerBytes]; omega))

/-- A call of `multiplex` fails, or has written the header and the payload and returns how many
bytes these are. -/
theorem multiplex_spec {mode : Int} (hmode : 1 ≤ mode ∧ mode ≤ 4) {c a b : Buf}
    {cSize aLen bLen : Int} (hc : FitsInt cSize) (ha : 0 ≤ aLen)
    (hlong : max aLen bLen < 2 ^ 30) :
    ∃ n c', multiplex mode c cSize a aLen b bLen = some (n, c') ∧
      (n = -1 ∨ (c' = writeBytes c 0 (headerBytes mode aLen bLen ++ payloadOf mode a aLen b bLen) ∧
        n = 9 + (payloadOf mode a aLen b bLen).length ∧ n ≤ INT_MAX ∧
        TokensFit mode a aLen b bLen)) := by
  by_cases hb : 0 ≤ bLen
  · obtain ⟨⟨n, c'⟩, hrun, he⟩ := multiplex_exact hmode (c := c) (a := a) (b := b) hc ha hb
      (Or.inr (Or.inr (Or.inr hlong)))
    refine ⟨n, c', hrun, ?_⟩
    obtain ⟨hencoded, hfit⟩ := he.encoded
    rcases hencoded with hfailed | ⟨hresult, hroom⟩
    · exact Or.inl hfailed
    · refine hfit.imp id fun hfits => ?_
      cases hresult
      refine ⟨rfl, ?_, le_trans hroom hc.2, hfits⟩
      rw [List.length_append, length_headerBytes]
      rfl
  · refine ⟨-1, c, ?_, Or.inl rfl⟩
    unfold multiplex
    exact if_pos (by omega)

end CampusNet.Multiplex
