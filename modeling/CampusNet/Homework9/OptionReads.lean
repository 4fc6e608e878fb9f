import CampusNet.Homework9.DhcpPacket
import CampusNet.Lib.Tlv
import Mathlib.Data.List.OfFn

/-!
# The reads of the option scanners

The bounds test of the two scanners covers the length byte only.  Here both run on the 312 bytes of
the array alone, and every read is checked: `none` is a read outside the array, or a loop that
does not end.

* `scanChecked`, `messageTypeChecked`, `requestedIpChecked` — the scanners with checked reads.
* `scanChecked_eq` — the loop ends and reads codes and lengths inside the array only.
* `messageType_agrees`, `requestedIp_agrees` — a checked run gives what the program returns.
* `optionReads_iff` — the value read stays inside exactly when the first option wanted does not
  start in the last bytes.
-/

namespace CampusNet.Dhcp

open Buffer Tlv

/-- An element of the option array. -/
abbrev OptionItem := Item DHCP_OPT_PAD DHCP_OPT_END

def isMessageType (code len : UInt8) : Bool := code = DHCP_OPT_MSG_TYPE ∧ len ≥ 1

def isRequestedIp (code len : UInt8) : Bool := code = DHCP_OPT_REQUESTED_IP ∧ len = 4

theorem pad_ne_end : DHCP_OPT_PAD ≠ DHCP_OPT_END := by decide

/-- The program's loop is the library's search. -/
theorem scanOptions_eq (options : Buf) (wanted : UInt8 → UInt8 → Bool) :
    ∀ rounds i, scanOptions options wanted rounds i =
      scan DHCP_OPT_PAD DHCP_OPT_END options OPTIONS_SIZE wanted rounds i
  | 0, _ => rfl
  | rounds + 1, i => by
    unfold scanOptions scan
    simp only [scanOptions_eq options wanted rounds]

/-! ## Checked reads -/

def readOption (options : Bytes OPTIONS_SIZE) (j : Nat) : Option UInt8 :=
  if h : j < OPTIONS_SIZE then some (options ⟨j, h⟩) else none

def scanChecked (options : Bytes OPTIONS_SIZE) (wanted : UInt8 → UInt8 → Bool) :
    Nat → Nat → Option (Option Nat)
  | 0, _ => none
  | rounds + 1, i =>
    if i < OPTIONS_SIZE then
      (readOption options i).bind fun code =>
        if code = DHCP_OPT_END then some none
        else if code = DHCP_OPT_PAD then scanChecked options wanted rounds (i + 1)
        else if i + 1 ≥ OPTIONS_SIZE then some none
        else
          (readOption options (i + 1)).bind fun len =>
            if wanted code len then some (some i)
            else scanChecked options wanted rounds (i + (2 + len.toNat))
    else some none

/-- Each round moves on by at least one byte, so one more round than there are bytes is enough. -/
def SCAN_ROUNDS : Nat := OPTIONS_SIZE + 1

/-- What the function returns after the loop has stopped at `i`, or ended. -/
def typeAt (options : Bytes OPTIONS_SIZE) : Option Nat → Option UInt8
  | some i => readOption options (i + 2)
  | none => some 0

def messageTypeChecked (options : Bytes OPTIONS_SIZE) : Option UInt8 :=
  (scanChecked options isMessageType SCAN_ROUNDS 0).bind (typeAt options)

/-- The `memcpy` of four bytes. -/
def readIp (options : Bytes OPTIONS_SIZE) (j : Nat) : Option (Bytes 4) := do
  let a ← readOption options j
  let b ← readOption options (j + 1)
  let c ← readOption options (j + 2)
  let d ← readOption options (j + 3)
  some ![a, b, c, d]

def ipAt (options : Bytes OPTIONS_SIZE) : Option Nat → Option (Bytes 4)
  | some i => readIp options (i + 2)
  | none => some 0

def requestedIpChecked (options : Bytes OPTIONS_SIZE) : Option (Bytes 4) :=
  (scanChecked options isRequestedIp SCAN_ROUNDS 0).bind (ipAt options)

/-- The memory holds the array. -/
def Holds (mem : Buf) (options : Bytes OPTIONS_SIZE) : Prop :=
  ∀ j : Fin OPTIONS_SIZE, mem j = options j

/-- A memory that holds the array. -/
def arrayMem (options : Bytes OPTIONS_SIZE) : Buf :=
  fun j => if h : j < OPTIONS_SIZE then options ⟨j, h⟩ else 0

theorem holds_arrayMem (options : Bytes OPTIONS_SIZE) : Holds (arrayMem options) options :=
  fun j => dif_pos j.isLt

theorem readOption_eq {mem : Buf} {options : Bytes OPTIONS_SIZE} (h : Holds mem options) {j : Nat}
    (hj : j < OPTIONS_SIZE) : readOption options j = some (mem j) := by
  rw [readOption, dif_pos hj, ← h ⟨j, hj⟩]

theorem readOption_isSome_iff {options : Bytes OPTIONS_SIZE} {j : Nat} :
    (∃ v, readOption options j = some v) ↔ j < OPTIONS_SIZE := by
  unfold readOption
  split <;> simp [*]

/-- **The loop ends**, and reads inside the array up to the position it finds. -/
theorem scanChecked_eq {mem : Buf} {options : Bytes OPTIONS_SIZE} (h : Holds mem options)
    (wanted : UInt8 → UInt8 → Bool) :
    ∀ {rounds i : Nat}, OPTIONS_SIZE - i < rounds →
      scanChecked options wanted rounds i =
        some (scan DHCP_OPT_PAD DHCP_OPT_END mem OPTIONS_SIZE wanted rounds i)
  | 0, _, hrounds => absurd hrounds (Nat.not_lt_zero _)
  | rounds + 1, i, hrounds => by
    unfold scanChecked scan
    by_cases hi : i < OPTIONS_SIZE
    · rw [if_pos hi, if_pos hi, readOption_eq h hi, Option.bind_some]
      split
      · rfl
      split
      · exact scanChecked_eq h wanted (by omega)
      split
      · rfl
      · rename_i hin
        rw [readOption_eq h (by omega), Option.bind_some]
        split
        · rfl
        · exact scanChecked_eq h wanted (by omega)
    · rw [if_neg hi, if_neg hi]

theorem scanChecked_start {mem : Buf} {options : Bytes OPTIONS_SIZE} (h : Holds mem options)
    (wanted : UInt8 → UInt8 → Bool) :
    scanChecked options wanted SCAN_ROUNDS 0 = some (scanOptions mem wanted OPTIONS_SIZE 0) := by
  have hrounds : OPTIONS_SIZE - 0 < SCAN_ROUNDS := Nat.lt_succ_self _
  rw [scanChecked_eq h wanted hrounds, scanOptions_eq]
  exact congrArg some (scan_rounds pad_ne_end (Nat.le_succ _) (le_refl _))

/-! ## The checked scanners and the program's -/

theorem readIp_eq {mem : Buf} {options : Bytes OPTIONS_SIZE} (h : Holds mem options) {j : Nat}
    (hj : j + 3 < OPTIONS_SIZE) : readIp options j = some fun k : Fin 4 => mem (j + k) := by
  unfold readIp
  rw [readOption_eq h (by omega), readOption_eq h (by omega), readOption_eq h (by omega),
    readOption_eq h hj]
  refine congrArg some (funext fun k => ?_)
  match k with
  | 0 => rfl
  | 1 => rfl
  | 2 => rfl
  | 3 => rfl

theorem readIp_isSome_iff {options : Bytes OPTIONS_SIZE} {j : Nat} :
    (∃ v, readIp options j = some v) ↔ j + 3 < OPTIONS_SIZE := by
  constructor
  · rintro ⟨v, hv⟩
    unfold readIp at hv
    obtain ⟨_, -, hv⟩ := Option.bind_eq_some_iff.mp hv
    obtain ⟨_, -, hv⟩ := Option.bind_eq_some_iff.mp hv
    obtain ⟨_, -, hv⟩ := Option.bind_eq_some_iff.mp hv
    obtain ⟨d, hd, -⟩ := Option.bind_eq_some_iff.mp hv
    exact readOption_isSome_iff.mp ⟨d, hd⟩
  · intro hj
    exact ⟨_, readIp_eq (holds_arrayMem options) hj⟩

/-- What `getDhcpMessageType` makes of the position found. -/
theorem getDhcpMessageType_eq (pkt : DhcpPacket) :
    getDhcpMessageType pkt =
      (scanOptions pkt.options isMessageType OPTIONS_SIZE 0).elim 0
        fun i => pkt.options (i + 2) := by
  have hwanted : (fun code len : UInt8 => decide (code = DHCP_OPT_MSG_TYPE ∧ len ≥ 1)) =
      isMessageType := rfl
  unfold getDhcpMessageType
  rw [hwanted]
  cases scanOptions pkt.options isMessageType OPTIONS_SIZE 0 <;> rfl

theorem getRequestedIp_eq (pkt : DhcpPacket) :
    getRequestedIp pkt =
      (scanOptions pkt.options isRequestedIp OPTIONS_SIZE 0).elim 0
        fun i (k : Fin 4) => pkt.options (i + 2 + k) := by
  have hwanted : (fun code len : UInt8 => decide (code = DHCP_OPT_REQUESTED_IP ∧ len = 4)) =
      isRequestedIp := rfl
  unfold getRequestedIp
  rw [hwanted]
  cases scanOptions pkt.options isRequestedIp OPTIONS_SIZE 0 <;> rfl

/-- **A checked run that succeeds returns what the program returns**, whatever lies behind the
array. -/
theorem messageType_agrees {pkt : DhcpPacket} {options : Bytes OPTIONS_SIZE}
    (h : Holds pkt.options options) {v : UInt8} (hv : messageTypeChecked options = some v) :
    getDhcpMessageType pkt = v := by
  rw [messageTypeChecked, scanChecked_start h, Option.bind_some] at hv
  rw [getDhcpMessageType_eq]
  cases hscan : scanOptions pkt.options isMessageType OPTIONS_SIZE 0 with
  | none => rw [hscan] at hv; exact Option.some.inj hv
  | some i =>
    rw [hscan] at hv
    replace hv : readOption options (i + 2) = some v := hv
    have hin : i + 2 < OPTIONS_SIZE := readOption_isSome_iff.mp ⟨v, hv⟩
    rw [readOption_eq h hin] at hv
    exact Option.some.inj hv

theorem requestedIp_agrees {pkt : DhcpPacket} {options : Bytes OPTIONS_SIZE}
    (h : Holds pkt.options options) {v : Bytes 4} (hv : requestedIpChecked options = some v) :
    getRequestedIp pkt = v := by
  rw [requestedIpChecked, scanChecked_start h, Option.bind_some] at hv
  rw [getRequestedIp_eq]
  cases hscan : scanOptions pkt.options isRequestedIp OPTIONS_SIZE 0 with
  | none => rw [hscan] at hv; exact Option.some.inj hv
  | some i =>
    rw [hscan] at hv
    replace hv : readIp options (i + 2) = some v := hv
    have hin : i + 2 + 3 < OPTIONS_SIZE := readIp_isSome_iff.mp ⟨v, hv⟩
    rw [readIp_eq h hin] at hv
    exact Option.some.inj hv

/-! ## Where a scanner stops -/

theorem carries_iff_prefix {mem : Buf} {options : Bytes OPTIONS_SIZE} (h : Holds mem options)
    {data : List UInt8} (hlength : data.length ≤ OPTIONS_SIZE) :
    Carries mem data ↔ data <+: List.ofFn options := by
  have hget : ∀ j, j < OPTIONS_SIZE → (List.ofFn options)[j]? = some (mem j) := by
    intro j hj
    rw [List.getElem?_ofFn, dif_pos hj, ← h ⟨j, hj⟩]
  rw [List.prefix_iff_getElem?]
  constructor
  · intro hc j hj
    rw [hget j (by omega), hc j data[j] (List.getElem?_eq_getElem hj)]
  · intro hp j x hx
    obtain ⟨hj, rfl⟩ := List.getElem?_eq_some_iff.mp hx
    exact Option.some.inj ((hget j (by omega)).symm.trans (hp j hj))

/-- The array begins with unwanted elements, and then a code and a length that are wanted. -/
def FirstWanted (options : Bytes OPTIONS_SIZE) (wanted : UInt8 → UInt8 → Bool)
    (items : List OptionItem) (code len : UInt8) : Prop :=
  (∀ x ∈ items, x.Unwanted wanted) ∧ wanted code len = true ∧
    encode items ++ [code, len] <+: List.ofFn options

theorem scanOptions_eq_some_iff {mem : Buf} {options : Bytes OPTIONS_SIZE}
    (h : Holds mem options) {wanted : UInt8 → UInt8 → Bool}
    (hcode : ∀ code len, wanted code len = true → code ≠ DHCP_OPT_PAD ∧ code ≠ DHCP_OPT_END)
    {k : Nat} :
    scanOptions mem wanted OPTIONS_SIZE 0 = some k ↔
      ∃ items code len, FirstWanted options wanted items code len ∧ (encode items).length = k := by
  have hrounds : OPTIONS_SIZE - 0 ≤ OPTIONS_SIZE := le_refl _
  rw [scanOptions_eq, scan_eq_some_iff pad_ne_end hrounds, Buf.from_zero]
  constructor
  · rintro ⟨⟨hk, -, -, hwanted⟩, items, hun, hc, hlength⟩
    rw [Nat.zero_add] at hlength
    refine ⟨items, mem k, mem (k + 1), ⟨hun, hwanted, ?_⟩, hlength.symm⟩
    rw [← carries_iff_prefix h (by simp; omega), carries_append, ← hlength]
    exact ⟨hc, carries_cons.mpr ⟨rfl, carries_cons.mpr ⟨rfl, carries_nil _⟩⟩⟩
  · rintro ⟨items, code, len, ⟨hun, hwanted, hprefix⟩, hlength⟩
    have hle := hprefix.length_le
    simp only [List.length_append, List.length_cons, List.length_nil, List.length_ofFn] at hle
    rw [← carries_iff_prefix h (by simp; omega), carries_append, hlength, carries_cons,
      carries_cons] at hprefix
    obtain ⟨hc, hcodeAt, hlenAt, -⟩ := hprefix
    replace hcodeAt : mem k = code := hcodeAt
    replace hlenAt : mem (k + 1) = len := hlenAt
    obtain ⟨hpad, hend⟩ := hcode code len hwanted
    rw [hcodeAt, hlenAt]
    exact ⟨⟨by omega, hpad, hend, hwanted⟩, items, hun, hc, by omega⟩

theorem isMessageType_iff {code len : UInt8} :
    isMessageType code len = true ↔ code = DHCP_OPT_MSG_TYPE ∧ 1 ≤ len := decide_eq_true_iff

theorem isRequestedIp_iff {code len : UInt8} :
    isRequestedIp code len = true ↔ code = DHCP_OPT_REQUESTED_IP ∧ len = 4 := decide_eq_true_iff

theorem isMessageType_code (code len : UInt8) (h : isMessageType code len = true) :
    code ≠ DHCP_OPT_PAD ∧ code ≠ DHCP_OPT_END := by
  rw [(isMessageType_iff.mp h).1]
  decide

theorem isRequestedIp_code (code len : UInt8) (h : isRequestedIp code len = true) :
    code ≠ DHCP_OPT_PAD ∧ code ≠ DHCP_OPT_END := by
  rw [(isRequestedIp_iff.mp h).1]
  decide

/-- A scanner stays inside exactly when, from every position it can stop at, what it then reads is
inside. -/
theorem checked_isSome_iff {options : Bytes OPTIONS_SIZE} {wanted : UInt8 → UInt8 → Bool}
    (hcode : ∀ code len, wanted code len = true → code ≠ DHCP_OPT_PAD ∧ code ≠ DHCP_OPT_END)
    {β : Type} {f : Option Nat → Option β} {last : Nat} (hnone : ∃ v, f none = some v)
    (hsome : ∀ i, (∃ v, f (some i) = some v) ↔ i + last < OPTIONS_SIZE) :
    (∃ v, (scanChecked options wanted SCAN_ROUNDS 0).bind f = some v) ↔
      ∀ items code len, FirstWanted options wanted items code len →
        (encode items).length + last < OPTIONS_SIZE := by
  have hholds := holds_arrayMem options
  rw [scanChecked_start hholds, Option.bind_some]
  constructor
  · intro hv items code len hfirst
    have hscan := (scanOptions_eq_some_iff hholds hcode).mpr ⟨items, code, len, hfirst, rfl⟩
    rw [hscan] at hv
    exact (hsome _).mp hv
  · intro hinside
    cases hscan : scanOptions (arrayMem options) wanted OPTIONS_SIZE 0 with
    | none => exact hnone
    | some i =>
      obtain ⟨items, code, len, hfirst, rfl⟩ := (scanOptions_eq_some_iff hholds hcode).mp hscan
      exact (hsome _).mpr (hinside items code len hfirst)

/-- **The reads of the two scanners**: `get_dhcp_message_type` reads inside the array exactly when
the first option 53 with data, if there is one, does not start in the last two bytes;
`get_requested_ip` exactly when the first option 50 of length 4 does not start in the last five. -/
theorem optionReads_iff (options : Bytes OPTIONS_SIZE) :
    ((∃ v, messageTypeChecked options = some v) ↔
      ∀ items code len, FirstWanted options isMessageType items code len →
        (encode items).length + 2 < OPTIONS_SIZE) ∧
    ((∃ v, requestedIpChecked options = some v) ↔
      ∀ items code len, FirstWanted options isRequestedIp items code len →
        (encode items).length + 5 < OPTIONS_SIZE) :=
  ⟨checked_isSome_iff (f := typeAt options) isMessageType_code ⟨0, rfl⟩
      fun _ => readOption_isSome_iff,
    checked_isSome_iff (f := ipAt options) isRequestedIp_code ⟨0, rfl⟩ fun _ => readIp_isSome_iff⟩

/-- 310 pad bytes and the beginning of an option 53. -/
def typeAtEnd : Bytes OPTIONS_SIZE :=
  fun j => if j.val = 310 then DHCP_OPT_MSG_TYPE else if j.val = 311 then 1 else DHCP_OPT_PAD

/-- 307 pad bytes and an option 50 of length 4, cut off after its third byte of data. -/
def ipAtEnd : Bytes OPTIONS_SIZE :=
  fun j => if j.val = 307 then DHCP_OPT_REQUESTED_IP else if j.val = 308 then 4
    else if 308 < j.val then 10 else DHCP_OPT_PAD

/-- Both scanners read behind the array. -/
theorem typeAtEnd_reads_outside :
    messageTypeChecked typeAtEnd = none ∧ requestedIpChecked ipAtEnd = none := by
  decide +kernel

end CampusNet.Dhcp
