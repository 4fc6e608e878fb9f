import CampusNet.Lib.OnesComplement
import Mathlib.Data.List.Basic

/-!
# The ICMP echo server

Model of `homework9/icmp_ping.cpp` on a little-endian host: the checksum and the reply of
`run_server`.

* `icmpChecksum` — the checksum, with its 32-bit accumulator.
* `icmpChecksumChecked` — the same with every addition checked for overflow.
* `internetChecksum` — what the checksum is for: the complement of the one's-complement sum of the
  big-endian words.
* `runServer` — one round of the server loop: the reply to a datagram, if there is one.
* `sumLoop_exact`, `foldSum_exact` — the accumulator is the exact sum, the folds represent it.
* `icmpChecksum_internet` — the bytes stored are those of the Internet checksum, and no addition
  overflows.
* `runServer_verifies` — a reply repeats the request and has checksum 0.
-/

namespace CampusNet.Icmp

open OnesComplement

/-! ## The checksum -/

/-- `*buf`, two bytes as an `unsigned short`. -/
def loadWord (a b : UInt8) : UInt32 := UInt32.ofNat (littleEndian a b)

/-- `while (len > 1)`, and the last byte of an odd length. -/
def sumLoop (sum : UInt32) : List UInt8 → UInt32
  | a :: b :: buf => sumLoop (sum + loadWord a b) buf
  | [a] => sum + a.toUInt32
  | [] => sum

/-- The two folds, and `(unsigned short)(~sum)`. -/
def foldSum (sum : UInt32) : UInt16 :=
  let sum := (sum >>> 16) + (sum &&& 0xFFFF)
  let sum := sum + (sum >>> 16)
  (~~~sum).toUInt16

def icmpChecksum (buf : List UInt8) : UInt16 := foldSum (sumLoop 0 buf)

/-- An addition that fails when the exact sum does not fit. -/
def addChecked (x y : UInt32) : Option UInt32 :=
  if x.toNat + y.toNat < UInt32.size then some (x + y) else none

def sumLoopChecked (sum : UInt32) : List UInt8 → Option UInt32
  | a :: b :: buf => (addChecked sum (loadWord a b)).bind fun sum => sumLoopChecked sum buf
  | [a] => addChecked sum a.toUInt32
  | [] => some sum

def foldSumChecked (sum : UInt32) : Option UInt16 :=
  (addChecked (sum >>> 16) (sum &&& 0xFFFF)).bind fun sum =>
    (addChecked sum (sum >>> 16)).bind fun sum => some (~~~sum).toUInt16

def icmpChecksumChecked (buf : List UInt8) : Option UInt16 :=
  (sumLoopChecked 0 buf).bind foldSumChecked

/-- The bytes of a stored `unsigned short`. -/
def bytesLe (v : UInt16) : List UInt8 := [v.toUInt8, (v >>> 8).toUInt8]

/-- The bytes in network order. -/
def bytesBe (v : UInt16) : List UInt8 := [(v >>> 8).toUInt8, v.toUInt8]

/-- RFC 1071. -/
def internetChecksum (buf : List UInt8) : UInt16 :=
  UInt16.ofNat (65535 - onesSum (words bigEndian buf))

theorem toNat_loadWord (a b : UInt8) : (loadWord a b).toNat = littleEndian a b := by
  have hle := littleEndian_le a b
  exact UInt32.toNat_ofNat_of_lt (Nat.lt_of_le_of_lt hle (by decide))

theorem littleEndian_zero (a : UInt8) : littleEndian a 0 = a.toNat := Nat.zero_add _

theorem addChecked_of_lt {x y : UInt32} (h : x.toNat + y.toNat < UInt32.size) :
    addChecked x y = some (x + y) ∧ (x + y).toNat = x.toNat + y.toNat := by
  refine ⟨if_pos h, ?_⟩
  rw [UInt32.toNat_add, Nat.mod_eq_of_lt h]

/-- **The accumulator is the exact sum**, and no addition overflows. -/
theorem sumLoop_exact (buf : List UInt8) (sum : UInt32)
    (h : sum.toNat + (words littleEndian buf).sum < UInt32.size) :
    sumLoopChecked sum buf = some (sumLoop sum buf) ∧
      (sumLoop sum buf).toNat = sum.toNat + (words littleEndian buf).sum := by
  induction buf using words.induct generalizing sum with
  | case1 a b buf ih =>
    rw [words, List.sum_cons, ← Nat.add_assoc] at h ⊢
    rw [← toNat_loadWord] at h ⊢
    have hword : sum.toNat + (loadWord a b).toNat < UInt32.size := by omega
    obtain ⟨hchecked, hexact⟩ := addChecked_of_lt hword
    rw [← hexact] at h ⊢
    rw [sumLoopChecked, hchecked]
    exact ih (sum + loadWord a b) h
  | case2 a =>
    rw [words, List.sum_singleton, littleEndian_zero] at h ⊢
    exact addChecked_of_lt h
  | case3 => exact ⟨rfl, rfl⟩

theorem toNat_shift (x : UInt32) : (x >>> 16).toNat = x.toNat / 65536 := by
  rw [UInt32.toNat_shiftRight, Nat.shiftRight_eq_div_pow]
  rfl

theorem toNat_low (x : UInt32) : (x &&& (0xFFFF : UInt32)).toNat = x.toNat % 65536 := by
  rw [UInt32.toNat_and]
  exact Nat.and_two_pow_sub_one_eq_mod x.toNat 16

/-- The folds do not overflow either, and leave the sum's one's-complement representation. -/
theorem foldSum_exact (sum : UInt32) :
    foldSumChecked sum = some (foldSum sum) ∧ (foldSum sum).toNat = 65535 - canon sum.toNat := by
  have hsum := sum.toNat_lt
  have hfold := fold_fold hsum
  have hshift := toNat_shift sum
  have hlow := toNat_low sum
  have hfirst : (sum >>> 16).toNat + (sum &&& (0xFFFF : UInt32)).toNat < UInt32.size := by
    rw [hshift, hlow]
    unfold UInt32.size
    omega
  obtain ⟨hchecked, hexact⟩ := addChecked_of_lt hfirst
  unfold foldSumChecked foldSum
  rw [hchecked, Option.bind_some]
  generalize (sum >>> 16) + (sum &&& (0xFFFF : UInt32)) = s at *
  have hshift' := toNat_shift s
  have hsecond : s.toNat + (s >>> 16).toNat < UInt32.size := by
    rw [hshift']
    unfold UInt32.size
    omega
  obtain ⟨hchecked', hexact'⟩ := addChecked_of_lt hsecond
  rw [hchecked', Option.bind_some]
  refine ⟨rfl, ?_⟩
  rw [hshift, hlow] at hexact
  rw [hshift', hexact] at hexact'
  unfold fold at hfold
  rw [UInt32.toNat_toUInt16, UInt32.toNat_not, hexact', ← hfold]
  unfold UInt32.size
  clear hfirst hsecond
  omega

/-- The largest sum of the words of 131074 bytes just fits. -/
theorem sum_words_lt {buf : List UInt8} (h : buf.length ≤ 131074) :
    (0 : UInt32).toNat + (words littleEndian buf).sum < UInt32.size := by
  have hle := sum_words_le littleEndian_le buf
  show 0 + (words littleEndian buf).sum < 4294967296
  omega

theorem toNat_icmpChecksum {buf : List UInt8} (h : buf.length ≤ 131074) :
    (icmpChecksum buf).toNat = 65535 - canon (words littleEndian buf).sum := by
  have hexact := (sumLoop_exact buf 0 (sum_words_lt h)).2
  rw [icmpChecksum, (foldSum_exact _).2, hexact]
  show 65535 - canon (0 + _) = _
  rw [Nat.zero_add]

theorem icmpChecksumChecked_eq {buf : List UInt8} (h : buf.length ≤ 131074) :
    icmpChecksumChecked buf = some (icmpChecksum buf) := by
  rw [icmpChecksumChecked, (sumLoop_exact buf 0 (sum_words_lt h)).1, Option.bind_some]
  exact (foldSum_exact _).1

/-- A word stored in the one byte order is the swapped word stored in the other. -/
theorem bytesLe_eq_bytesBe {v w : UInt16} (h : v.toNat = swap w.toNat) :
    bytesLe v = bytesBe w := by
  have hw := w.toNat_lt
  unfold swap at h
  have hhigh : w.toNat / 256 < 256 := by omega
  have hlow : v.toNat / 256 = w.toNat % 256 := by omega
  have hshift : ∀ x : UInt16, ((x >>> 8).toUInt8).toNat = x.toNat / 256 % 256 := by
    intro x
    rw [UInt16.toNat_toUInt8, UInt16.toNat_shiftRight, Nat.shiftRight_eq_div_pow]
    rfl
  simp only [bytesLe, bytesBe, List.cons.injEq, and_true, ← UInt8.toNat_inj, hshift,
    UInt16.toNat_toUInt8]
  omega

/-- **The checksum is the Internet checksum in wire order**, and no addition overflows. -/
theorem icmpChecksum_internet {buf : List UInt8} (h : buf.length ≤ 131074) :
    bytesLe (icmpChecksum buf) = bytesBe (internetChecksum buf) ∧
      icmpChecksumChecked buf = some (icmpChecksum buf) := by
  refine ⟨bytesLe_eq_bytesBe ?_, icmpChecksumChecked_eq h⟩
  have hle := canon_le (words bigEndian buf).sum
  rw [← onesSum_eq (words_le bigEndian_le buf)] at hle
  have hspec : (internetChecksum buf).toNat = 65535 - onesSum (words bigEndian buf) :=
    UInt16.toNat_ofNat_of_lt (Nat.lt_of_le_of_lt (Nat.sub_le _ _) (by decide))
  rw [toNat_icmpChecksum h, canon_littleEndian, hspec, swap_compl hle]

theorem icmpChecksum_internet_odd :
    bytesLe (icmpChecksum [0x45, 0xFF, 0x01]) = bytesBe (internetChecksum [0x45, 0xFF, 0x01]) :=
  (icmpChecksum_internet (by decide)).1

/-! ## The server -/

/-- `sizeof(buf)`. -/
def BUF_SIZE : Nat := 1500

def ICMP_ECHO : UInt8 := 8
def ICMP_ECHOREPLY : UInt8 := 0

/-- `(buf[0] & 0x0F) * 4`. -/
def ipHeaderLen (buf : List UInt8) : Nat := (buf.headD 0 &&& 0x0F).toNat * 4

/-- `icmp->checksum = v`. -/
def setChecksum (icmp : List UInt8) (v : UInt16) : List UInt8 :=
  (icmp.set 2 v.toUInt8).set 3 (v >>> 8).toUInt8

/-- The request turned into its reply. -/
def echoReply (icmp : List UInt8) : List UInt8 :=
  let icmp := icmp.set 0 ICMP_ECHOREPLY
  let icmp := setChecksum icmp 0
  setChecksum icmp (icmpChecksum icmp)

/-- One round of the server loop: what it sends, if it sends anything. -/
def runServer (datagram : List UInt8) : Option (List UInt8) :=
  let buf := datagram.take BUF_SIZE
  if buf.length = 0 then none
  else if buf.length < ipHeaderLen buf + 8 then none
  else
    let icmp := buf.drop (ipHeaderLen buf)
    if icmp.headD 0 ≠ ICMP_ECHO then none else some (echoReply icmp)

/-- A stored checksum is one word of the sum. -/
theorem littleEndian_bytesLe (v : UInt16) :
    littleEndian v.toUInt8 (v >>> 8).toUInt8 = v.toNat := by
  have hv := v.toNat_lt
  rw [littleEndian, UInt16.toNat_toUInt8, UInt16.toNat_toUInt8, UInt16.toNat_shiftRight,
    Nat.shiftRight_eq_div_pow]
  show v.toNat / 256 % 256 * 256 + v.toNat % 256 = v.toNat
  omega

/-- **A message with its checksum in place sums to zero.** -/
theorem icmpChecksum_setChecksum {type code : UInt8} {rest : List UInt8}
    (h : rest.length + 4 ≤ 131074) :
    icmpChecksum (type :: code :: (icmpChecksum (type :: code :: 0 :: 0 :: rest)).toUInt8 ::
      ((icmpChecksum (type :: code :: 0 :: 0 :: rest)) >>> 8).toUInt8 :: rest) = 0 := by
  have hzeroed : (icmpChecksum (type :: code :: 0 :: 0 :: rest)).toNat = _ :=
    toNat_icmpChecksum h
  generalize icmpChecksum (type :: code :: 0 :: 0 :: rest) = v at *
  have hfilled :
      (icmpChecksum (type :: code :: v.toUInt8 :: (v >>> 8).toUInt8 :: rest)).toNat = _ :=
    toNat_icmpChecksum h
  have hwords : (words littleEndian (type :: code :: v.toUInt8 :: (v >>> 8).toUInt8 :: rest)).sum =
      (words littleEndian (type :: code :: 0 :: 0 :: rest)).sum + v.toNat := by
    simp only [words, List.sum_cons, littleEndian_bytesLe]
    show _ = littleEndian type code + (0 + _) + v.toNat
    omega
  rw [hwords, hzeroed, canon_add_compl] at hfilled
  exact UInt16.toNat_inj.mp hfilled

theorem echoReply_cons (type code c d : UInt8) (rest : List UInt8) :
    echoReply (type :: code :: c :: d :: rest) =
      ICMP_ECHOREPLY :: code ::
        (icmpChecksum (ICMP_ECHOREPLY :: code :: 0 :: 0 :: rest)).toUInt8 ::
        ((icmpChecksum (ICMP_ECHOREPLY :: code :: 0 :: 0 :: rest)) >>> 8).toUInt8 :: rest := rfl

/-- **Echo replies verify and preserve the request.** -/
theorem runServer_verifies {received : List UInt8} (hsize : received.length ≤ BUF_SIZE)
    (hlen : ipHeaderLen received + 8 ≤ received.length)
    (htype : received[ipHeaderLen received]? = some ICMP_ECHO) :
    ∃ reply, runServer received = some reply ∧
      reply.length = received.length - ipHeaderLen received ∧
      (∀ j, j ≠ 0 → j ≠ 2 → j ≠ 3 → reply[j]? = received[ipHeaderLen received + j]?) ∧
      reply[0]? = some ICMP_ECHOREPLY ∧ icmpChecksum reply = 0 := by
  have hall : received.take BUF_SIZE = received := List.take_of_length_le hsize
  have hhead : (received.drop (ipHeaderLen received)).headD 0 = ICMP_ECHO := by
    rw [List.headD_eq_head?_getD, List.head?_drop, htype]
    rfl
  have hrun : runServer received = some (echoReply (received.drop (ipHeaderLen received))) := by
    unfold runServer
    simp only [hall, hhead]
    rw [if_neg (by omega), if_neg (by omega), if_neg (not_not_intro rfl)]
  have hbytes : ∀ j, (received.drop (ipHeaderLen received))[j]? =
      received[ipHeaderLen received + j]? := fun j => List.getElem?_drop
  have hlength : (received.drop (ipHeaderLen received)).length =
      received.length - ipHeaderLen received := List.length_drop
  refine ⟨_, hrun, ?_⟩
  simp only [← hbytes, ← hlength]
  unfold BUF_SIZE at hsize
  match hdrop : received.drop (ipHeaderLen received) with
  | [] | [_] | [_, _] | [_, _, _] =>
    rw [hdrop] at hlength
    simp only [List.length_cons, List.length_nil] at hlength
    omega
  | type :: code :: c :: d :: rest =>
    rw [hdrop] at hlength
    simp only [List.length_cons] at hlength
    rw [echoReply_cons]
    refine ⟨rfl, fun j h0 h2 h3 => ?_, rfl, icmpChecksum_setChecksum (by omega)⟩
    match j with
    | 0 => exact absurd rfl h0
    | 1 => rfl
    | 2 => exact absurd rfl h2
    | 3 => exact absurd rfl h3
    | j + 4 => rfl

/-- A request of 29 bytes behind a header of 20, all zero but the type. -/
def zeroRequest : List UInt8 := 0x45 :: List.replicate 19 0 ++ ICMP_ECHO :: List.replicate 8 0

theorem runServer_verifies_zero : ∃ reply, runServer zeroRequest = some reply ∧
    reply.length = 9 ∧ icmpChecksum reply = 0 := by
  have hsize : zeroRequest.length ≤ BUF_SIZE := by decide
  obtain ⟨reply, hrun, hlength, -, -, hzero⟩ :=
    runServer_verifies hsize (by decide) (by decide)
  exact ⟨reply, hrun, hlength, hzero⟩

end CampusNet.Icmp
