import CampusNet.Lib.CText
import Mathlib.Algebra.Order.Ring.Int
import Mathlib.Data.UInt

/-!
# `struct.pack` and `struct.unpack`

Formats in network order: `!` and then one letter for each item, `B`, `H` and `I` for unsigned
integers of one, two and four bytes.

* `pack`, `unpack` — both raise on a wrong number of items, a wrong number of bytes, or a value
  that does not fit its item.
* `pack_of_inRange` — with one value in range for each item, `pack` succeeds.
* `unpack_single` — what `unpack` makes of one item, and that it is in range.
-/

namespace CampusNet.PyStruct

/-- The letters of a format. -/
inductive Code where
  | B
  | H
  | I
  deriving DecidableEq, Repr

def Code.size : Code → Nat
  | .B => 1
  | .H => 2
  | .I => 4

/-- `struct.error`, with what its message names. -/
inductive StructError where
  | badFormat
  | itemCount (expected got : Nat)
  | bufferSize (required : Nat)
  | range (code : Code)
  deriving DecidableEq, Repr

def codeOf : Char → Option Code
  | 'B' => some .B
  | 'H' => some .H
  | 'I' => some .I
  | _ => none

def parseFormat : Text → Option (List Code)
  | '!' :: letters => letters.mapM codeOf
  | _ => none

def calcsize (codes : List Code) : Nat := (codes.map Code.size).sum

/-- The low bytes of `v`, most significant first. -/
def toBytes : Nat → Nat → List UInt8
  | 0, _ => []
  | size + 1, v => UInt8.ofNat (v / 256 ^ size) :: toBytes size v

def ofBytes (bytes : List UInt8) : Nat := bytes.foldl (fun n b => n * 256 + b.toNat) 0

def Code.InRange (c : Code) (v : Int) : Prop := 0 ≤ v ∧ v < 256 ^ c.size

instance (c : Code) (v : Int) : Decidable (c.InRange v) := inferInstanceAs (Decidable (_ ∧ _))

def packItems : List Code → List Int → Except StructError (List UInt8)
  | c :: codes, v :: args =>
    if c.InRange v then
      match packItems codes args with
      | .ok rest => .ok (toBytes c.size v.toNat ++ rest)
      | .error e => .error e
    else .error (.range c)
  | _, _ => .ok []

def pack (format : Text) (args : List Int) : Except StructError (List UInt8) :=
  match parseFormat format with
  | none => .error .badFormat
  | some codes =>
    if codes.length = args.length then packItems codes args
    else .error (.itemCount codes.length args.length)

def unpackItems : List Code → List UInt8 → List Int
  | [], _ => []
  | c :: codes, data => (ofBytes (data.take c.size) : Int) :: unpackItems codes (data.drop c.size)

def unpack (format : Text) (data : List UInt8) : Except StructError (List Int) :=
  match parseFormat format with
  | none => .error .badFormat
  | some codes =>
    if data.length = calcsize codes then .ok (unpackItems codes data)
    else .error (.bufferSize (calcsize codes))

/-! ## Values -/

theorem ofBytes_append (bytes : List UInt8) (b : UInt8) :
    ofBytes (bytes ++ [b]) = ofBytes bytes * 256 + b.toNat := by
  simp [ofBytes, List.foldl_append]

theorem ofBytes_lt (bytes : List UInt8) : ofBytes bytes < 256 ^ bytes.length := by
  induction bytes using List.reverseRecOn with
  | nil => exact Nat.one_pos
  | append_singleton bytes b ih =>
    have hb := b.toNat_lt
    rw [ofBytes_append, List.length_append, List.length_singleton, Nat.pow_succ]
    omega

theorem inRange_ofBytes {c : Code} {bytes : List UInt8} (h : bytes.length = c.size) :
    c.InRange (ofBytes bytes) := by
  have hlt := ofBytes_lt bytes
  rw [h] at hlt
  exact ⟨Int.natCast_nonneg _, by exact_mod_cast hlt⟩

/-! ## Packing -/

theorem packItems_of_inRange :
    ∀ {codes : List Code} {args : List Int}, List.Forall₂ Code.InRange codes args →
      ∃ bytes, packItems codes args = .ok bytes
  | [], _, .nil => ⟨[], rfl⟩
  | _ :: _, _, .cons hin hrest => by
    obtain ⟨bytes, hbytes⟩ := packItems_of_inRange hrest
    rw [packItems, if_pos hin, hbytes]
    exact ⟨_, rfl⟩

theorem pack_of_inRange {format : Text} {codes : List Code} {args : List Int}
    (hformat : parseFormat format = some codes) (h : List.Forall₂ Code.InRange codes args) :
    ∃ bytes, pack format args = .ok bytes := by
  obtain ⟨bytes, hbytes⟩ := packItems_of_inRange h
  refine ⟨bytes, ?_⟩
  unfold pack
  rw [hformat]
  exact (if_pos h.length_eq).trans hbytes

theorem pack_itemCount {format : Text} {codes : List Code} {args : List Int}
    (hformat : parseFormat format = some codes) (h : codes.length ≠ args.length) :
    pack format args = .error (.itemCount codes.length args.length) := by
  unfold pack
  rw [hformat]
  exact if_neg h

/-- The first value that does not fit ends the packing. -/
theorem pack_range {format : Text} {c : Code} {codes : List Code} {v : Int} {args : List Int}
    (hformat : parseFormat format = some (c :: codes)) (hlength : codes.length = args.length)
    (h : ¬c.InRange v) : pack format (v :: args) = .error (.range c) := by
  have hcount : (c :: codes).length = (v :: args).length := congrArg (· + 1) hlength
  unfold pack
  rw [hformat]
  refine (if_pos hcount).trans ?_
  rw [packItems, if_neg h]

/-! ## Unpacking -/

theorem unpack_bufferSize {format : Text} {codes : List Code} {data : List UInt8}
    (hformat : parseFormat format = some codes) (h : data.length ≠ calcsize codes) :
    unpack format data = .error (.bufferSize (calcsize codes)) := by
  unfold unpack
  rw [hformat]
  exact if_neg h

/-- One item. -/
theorem unpack_single {format : Text} {c : Code} {data : List UInt8}
    (hformat : parseFormat format = some [c]) (h : data.length = c.size) :
    unpack format data = .ok [(ofBytes data : Int)] := by
  have hsize : data.length = calcsize [c] := h
  have htake : data.take c.size = data := List.take_of_length_le (le_of_eq h)
  unfold unpack
  rw [hformat]
  refine (if_pos hsize).trans ?_
  simp only [unpackItems, htake]

end CampusNet.PyStruct
