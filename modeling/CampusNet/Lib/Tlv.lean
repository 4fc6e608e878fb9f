import CampusNet.Lib.Buffer

/-!
# Tagged options in a byte array

A sequence of elements: a pad byte, or a field of a code, a length byte and so many bytes of data.
One more code ends the sequence.

* `Field`, `Item`, `encode` — the elements and their bytes; a field's code is none of the two
  special ones, and its data fits the length byte.
* `scan` — the search for the first field whose code and length are `wanted`, over an array of
  `size` bytes in memory.
* `scan_eq_some_iff` — the search stops at `k` exactly when the bytes before `k` are those of
  unwanted elements, and a wanted code and length stand at `k`.
* `scan_encode` — over the bytes of a sequence that ends with `stop` the search finds the first
  wanted field of the sequence, if there is one, whatever stands in the data of the others.
-/

namespace CampusNet.Tlv

open Buffer

/-- A field; `pad` and `stop` are the two codes that stand alone. -/
structure Field (pad stop : UInt8) where
  code : UInt8
  data : List UInt8
  code_ne_pad : code ≠ pad
  code_ne_stop : code ≠ stop
  fits : data.length < 256

inductive Item (pad stop : UInt8) where
  | pad
  | field (f : Field pad stop)

variable {pad stop : UInt8}

def Field.length (f : Field pad stop) : UInt8 := UInt8.ofNat f.data.length

def Item.bytes : Item pad stop → List UInt8
  | .pad => [pad]
  | .field f => f.code :: f.length :: f.data

def encode (items : List (Item pad stop)) : List UInt8 := items.flatMap Item.bytes

/-- The element is a pad byte, or a field that the test refuses. -/
def Item.Unwanted (wanted : UInt8 → UInt8 → Bool) : Item pad stop → Prop
  | .pad => True
  | .field f => wanted f.code f.length = false

/-- The fields of a sequence; the pad bytes are none. -/
def fields : List (Item pad stop) → List (Field pad stop)
  | [] => []
  | .pad :: items => fields items
  | .field f :: items => f :: fields items

/-- The first field whose code and length are wanted. -/
def firstField (wanted : UInt8 → UInt8 → Bool) (items : List (Item pad stop)) :
    Option (Field pad stop) :=
  (fields items).find? fun f => wanted f.code f.length

/-- The search from index `i`, in at most so many rounds. -/
def scan (pad stop : UInt8) (mem : Buf) (size : Nat) (wanted : UInt8 → UInt8 → Bool) :
    Nat → Nat → Option Nat
  | 0, _ => none
  | rounds + 1, i =>
    if i < size then
      if mem i = stop then none
      else if mem i = pad then scan pad stop mem size wanted rounds (i + 1)
      else if i + 1 ≥ size then none
      else if wanted (mem i) (mem (i + 1)) then some i
      else scan pad stop mem size wanted rounds (i + (2 + (mem (i + 1)).toNat))
    else none

/-! ## Elements and their bytes -/

@[simp] theorem encode_nil : encode ([] : List (Item pad stop)) = [] := rfl

@[simp] theorem encode_cons (x : Item pad stop) (items : List (Item pad stop)) :
    encode (x :: items) = x.bytes ++ encode items := List.flatMap_cons

theorem Field.toNat_length (f : Field pad stop) : f.length.toNat = f.data.length :=
  UInt8.toNat_ofNat_of_lt f.fits

/-- The field that stands at `i` in memory. -/
def fieldAt (mem : Buf) (i : Nat) (hpad : mem i ≠ pad) (hstop : mem i ≠ stop) :
    Field pad stop where
  code := mem i
  data := (List.range (mem (i + 1)).toNat).map fun t => mem (i + 2 + t)
  code_ne_pad := hpad
  code_ne_stop := hstop
  fits := by
    rw [List.length_map, List.length_range]
    exact (mem (i + 1)).toNat_lt

theorem fieldAt_length (mem : Buf) (i : Nat) (hpad : mem i ≠ pad) (hstop : mem i ≠ stop) :
    (fieldAt mem i hpad hstop).length = mem (i + 1) := by
  unfold Field.length fieldAt
  rw [List.length_map, List.length_range, UInt8.ofNat_toNat]

theorem carries_fieldAt (mem : Buf) (i : Nat) (hpad : mem i ≠ pad) (hstop : mem i ≠ stop) :
    Carries (mem.from i) (Item.field (fieldAt mem i hpad hstop)).bytes := by
  refine carries_cons.mpr ⟨rfl, carries_cons.mpr ⟨?_, ?_⟩⟩
  · rw [fieldAt_length]
    rfl
  · intro t x hx
    simp only [fieldAt, List.getElem?_map, Option.map_eq_some_iff] at hx
    obtain ⟨j, hj, rfl⟩ := hx
    obtain ⟨-, rfl⟩ := List.getElem?_eq_some_iff.mp hj
    simp only [Buf.from, List.getElem_range]
    congr 1
    omega

theorem firstField_cons (wanted : UInt8 → UInt8 → Bool) (f : Field pad stop)
    (items : List (Item pad stop)) :
    firstField wanted (.field f :: items) =
      if wanted f.code f.length then some f else firstField wanted items := by
  simp only [firstField, fields, List.find?_cons]
  cases wanted f.code f.length <;> rfl

theorem firstField_wanted {wanted : UInt8 → UInt8 → Bool} {items : List (Item pad stop)}
    {f : Field pad stop} (h : firstField wanted items = some f) : wanted f.code f.length = true :=
  List.find?_some (p := fun f : Field pad stop => wanted f.code f.length) h

/-! ## The search -/

section

variable {mem : Buf} {size : Nat} {wanted : UInt8 → UInt8 → Bool}

/-- An unwanted element inside the array is passed. -/
theorem scan_item {x : Item pad stop} (hx : x.Unwanted wanted) {rounds i : Nat}
    (hc : Carries (mem.from i) x.bytes) (hin : i + x.bytes.length < size) (hne : pad ≠ stop) :
    scan pad stop mem size wanted (rounds + 1) i =
      scan pad stop mem size wanted rounds (i + x.bytes.length) := by
  have hi : i < size := by omega
  cases x with
  | pad =>
    have h0 : mem i = pad := hc 0 pad rfl
    rw [scan, if_pos hi, h0, if_neg hne, if_pos rfl]
    rfl
  | field f =>
    have h0 : mem i = f.code := hc 0 _ rfl
    have h1 : mem (i + 1) = f.length := hc 1 _ rfl
    have hlength : (Item.field f).bytes.length = 2 + f.data.length := by
      simp only [Item.bytes, List.length_cons]
      omega
    have hunwanted : ¬wanted f.code f.length = true := by
      rw [hx]
      exact Bool.false_ne_true
    rw [scan, if_pos hi, h0, if_neg f.code_ne_stop, if_neg f.code_ne_pad, if_neg (by omega), h1,
      if_neg hunwanted, f.toNat_length, hlength]

/-- An item that is wanted at once. -/
theorem scan_here {rounds i : Nat} (hi : i + 1 < size) (hpad : mem i ≠ pad) (hstop : mem i ≠ stop)
    (hwanted : wanted (mem i) (mem (i + 1)) = true) (hrounds : 0 < rounds) :
    scan pad stop mem size wanted rounds i = some i := by
  obtain ⟨rounds, rfl⟩ := Nat.exists_eq_succ_of_ne_zero hrounds.ne'
  rw [scan, if_pos (by omega), if_neg hstop, if_neg hpad, if_neg (by omega), if_pos hwanted]

theorem scan_found (hne : pad ≠ stop) {k : Nat} (hk : k + 1 < size) (hpad : mem k ≠ pad)
    (hstop : mem k ≠ stop) (hwanted : wanted (mem k) (mem (k + 1)) = true) :
    ∀ {items : List (Item pad stop)} {rounds i : Nat}, (∀ x ∈ items, x.Unwanted wanted) →
      Carries (mem.from i) (encode items) → k = i + (encode items).length → size - i ≤ rounds →
      scan pad stop mem size wanted rounds i = some k
  | [], 0, i, _, _, hlength, hrounds => by
    simp only [encode_nil, List.length_nil] at hlength
    omega
  | [], rounds + 1, i, _, _, hlength, _ => by
    simp only [encode_nil, List.length_nil, Nat.add_zero] at hlength
    subst hlength
    exact scan_here hk hpad hstop hwanted (Nat.succ_pos _)
  | x :: items, 0, i, _, _, hlength, hrounds => by omega
  | x :: items, rounds + 1, i, hun, hc, hlength, hrounds => by
    rw [encode_cons, carries_append] at hc
    rw [encode_cons, List.length_append] at hlength
    rw [List.forall_mem_cons] at hun
    have hpos : 0 < x.bytes.length := by cases x <;> exact Nat.succ_pos _
    rw [scan_item hun.1 hc.1 (by omega) hne]
    rw [Buf.from_from] at hc
    exact scan_found hne hk hpad hstop hwanted hun.2 hc.2 (by omega) (by omega)

theorem scan_some {k : Nat} :
    ∀ {rounds i : Nat}, scan pad stop mem size wanted rounds i = some k →
      (k + 1 < size ∧ mem k ≠ pad ∧ mem k ≠ stop ∧ wanted (mem k) (mem (k + 1)) = true) ∧
      ∃ items : List (Item pad stop), (∀ x ∈ items, x.Unwanted wanted) ∧
        Carries (mem.from i) (encode items) ∧ k = i + (encode items).length
  | 0, _, h => by cases h
  | rounds + 1, i, h => by
    unfold scan at h
    split at h
    · split at h
      · cases h
      rename_i hstop
      split at h
      · rename_i hpad
        obtain ⟨hfound, items, hun, hc, hlength⟩ := scan_some h
        refine ⟨hfound, .pad :: items, ?_, ?_, ?_⟩
        · exact List.forall_mem_cons.mpr ⟨trivial, hun⟩
        · rw [encode_cons, carries_append, Buf.from_from]
          exact ⟨carries_cons.mpr ⟨hpad, carries_nil _⟩, hc⟩
        · rw [encode_cons, List.length_append]
          show k = i + (1 + _)
          omega
      rename_i hpad
      split at h
      · cases h
      split at h
      · rename_i hin hwanted
        cases h
        exact ⟨⟨by omega, hpad, hstop, hwanted⟩, [], nofun, carries_nil _, rfl⟩
      · rename_i hin hwanted
        obtain ⟨hfound, items, hun, hc, hlength⟩ := scan_some h
        have hbytes : (Item.field (fieldAt mem i hpad hstop)).bytes.length =
            2 + (mem (i + 1)).toNat := by
          simp only [Item.bytes, fieldAt, List.length_cons, List.length_map, List.length_range]
          omega
        refine ⟨hfound, .field (fieldAt mem i hpad hstop) :: items, ?_, ?_, ?_⟩
        · refine List.forall_mem_cons.mpr ⟨?_, hun⟩
          show wanted (mem i) (fieldAt mem i hpad hstop).length = false
          rw [fieldAt_length]
          exact eq_false_of_ne_true hwanted
        · rw [encode_cons, carries_append, Buf.from_from, hbytes]
          exact ⟨carries_fieldAt mem i hpad hstop, hc⟩
        · rw [encode_cons, List.length_append, hbytes]
          omega
    · cases h

/-- **Where the search stops.** -/
theorem scan_eq_some_iff (hne : pad ≠ stop) {rounds i k : Nat} (hrounds : size - i ≤ rounds) :
    scan pad stop mem size wanted rounds i = some k ↔
      (k + 1 < size ∧ mem k ≠ pad ∧ mem k ≠ stop ∧ wanted (mem k) (mem (k + 1)) = true) ∧
      ∃ items : List (Item pad stop), (∀ x ∈ items, x.Unwanted wanted) ∧
        Carries (mem.from i) (encode items) ∧ k = i + (encode items).length := by
  constructor
  · exact scan_some
  · rintro ⟨⟨hk, hpad, hstop, hwanted⟩, items, hun, hc, hlength⟩
    exact scan_found hne hk hpad hstop hwanted hun hc hlength hrounds

/-- **The search over an encoded sequence.** -/
theorem scan_encode (hne : pad ≠ stop) :
    ∀ {items : List (Item pad stop)} {rounds i : Nat},
      Carries (mem.from i) (encode items ++ [stop]) → i + (encode items).length < size →
      size - i ≤ rounds →
      (firstField wanted items).elim (scan pad stop mem size wanted rounds i = none) fun f =>
        ∃ k, scan pad stop mem size wanted rounds i = some k ∧ Carries (mem.from (k + 2)) f.data
  | [], 0, i, _, hin, hrounds => by omega
  | [], rounds + 1, i, hc, hin, _ => by
    have hstop : mem i = stop := hc 0 stop rfl
    show scan pad stop mem size wanted (rounds + 1) i = none
    rw [scan, if_pos (Nat.lt_of_le_of_lt (Nat.le_add_right _ _) hin), if_pos hstop]
  | x :: items, 0, i, _, hin, hrounds => by omega
  | x :: items, rounds + 1, i, hc, hin, hrounds => by
    rw [encode_cons, List.append_assoc, carries_append, Buf.from_from] at hc
    rw [encode_cons, List.length_append] at hin
    have hpos : 0 < x.bytes.length := by cases x <;> exact Nat.succ_pos _
    have hrest : i + x.bytes.length + (encode items).length < size := by omega
    have hleft : size - (i + x.bytes.length) ≤ rounds := by omega
    have ih := scan_encode hne hc.2 hrest hleft
    cases x with
    | pad =>
      have hunwanted : (Item.pad : Item pad stop).Unwanted wanted := trivial
      rw [scan_item hunwanted hc.1 (by omega) hne]
      exact ih
    | field f =>
      by_cases hwanted : wanted f.code f.length = true
      · have h0 : mem i = f.code := hc.1 0 _ rfl
        have h1 : mem (i + 1) = f.length := hc.1 1 _ rfl
        have hdata : Carries (mem.from (i + 2)) f.data := by
          have hbytes := (carries_cons.mp (carries_cons.mp hc.1).2).2
          rwa [Buf.from_from, Buf.from_from] at hbytes
        have hsize : i + 1 < size := by
          simp only [Item.bytes, List.length_cons] at hin
          omega
        rw [firstField_cons, if_pos hwanted]
        refine ⟨i, scan_here hsize ?_ ?_ ?_ (Nat.succ_pos _), hdata⟩
        · rw [h0]
          exact f.code_ne_pad
        · rw [h0]
          exact f.code_ne_stop
        · rw [h0, h1]
          exact hwanted
      · rw [firstField_cons, if_neg hwanted,
          scan_item (x := .field f) (eq_false_of_ne_true hwanted) hc.1 (by omega) hne]
        exact ih

/-- More rounds than bytes left make no difference. -/
theorem scan_rounds (hne : pad ≠ stop) {rounds rounds' i : Nat} (h : size - i ≤ rounds)
    (h' : size - i ≤ rounds') :
    scan pad stop mem size wanted rounds i = scan pad stop mem size wanted rounds' i := by
  apply Option.ext
  intro k
  rw [scan_eq_some_iff hne h, scan_eq_some_iff hne h']

end

end CampusNet.Tlv
