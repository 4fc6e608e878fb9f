import Mathlib.Data.UInt
import Mathlib.Algebra.Order.Ring.Int
import Mathlib.Data.List.Range

/-!
# Byte buffers

A buffer is the memory behind a pointer, as a function of the index; writing gives a new buffer.

* `writeBytes` — a run of bytes written from a position on; `writeBytes_append` puts two runs
  together, `writeBytes_inside` / `writeBytes_outside` read it back.
* `Out` — a buffer with a write index, for loops that push bytes; `foldl_write` is the rule for
  such a loop.
* `Carries` — the buffer holds these bytes at its front.
* `getElem?_flatMap_block` — reading a stream of equally long blocks.
-/

namespace CampusNet.Buffer

abbrev Buf := Nat → UInt8

/-- The buffer from `pos` on, as pointer arithmetic sees it. -/
def Buf.from (mem : Buf) (pos : Nat) : Buf := fun j => mem (pos + j)

/-- `mem` with everything from `pos` on replaced. -/
def splice (mem : Buf) (pos : Nat) (tail : Buf) : Buf :=
  fun j => if j < pos then mem j else tail (j - pos)

def writeBytes (mem : Buf) (pos : Nat) (data : List UInt8) : Buf :=
  fun j => if pos ≤ j then (data[j - pos]?).getD (mem j) else mem j

theorem writeBytes_nil (mem : Buf) (pos : Nat) : writeBytes mem pos [] = mem := by
  funext j
  simp [writeBytes]

theorem writeBytes_inside {mem : Buf} {pos i : Nat} {data : List UInt8} {x : UInt8}
    (h : data[i]? = some x) : writeBytes mem pos data (pos + i) = x := by
  rw [writeBytes, if_pos (Nat.le_add_right _ _), Nat.add_sub_cancel_left, h]
  rfl

theorem writeBytes_outside {mem : Buf} {pos j : Nat} {data : List UInt8}
    (h : j < pos ∨ pos + data.length ≤ j) : writeBytes mem pos data j = mem j := by
  unfold writeBytes
  split
  · rw [List.getElem?_eq_none (by omega)]
    rfl
  · rfl

theorem writeBytes_append (mem : Buf) (pos : Nat) (xs ys : List UInt8) :
    writeBytes (writeBytes mem pos xs) (pos + xs.length) ys = writeBytes mem pos (xs ++ ys) := by
  funext j
  unfold writeBytes
  by_cases hpos : pos ≤ j
  · rw [if_pos hpos, if_pos hpos, List.getElem?_append]
    by_cases hx : j - pos < xs.length
    · rw [if_neg (by omega), if_pos hx]
    · rw [if_pos (by omega), if_neg hx, List.getElem?_eq_none (by omega : xs.length ≤ j - pos)]
      congr 2
      omega
  · rw [if_neg (by omega), if_neg hpos, if_neg hpos]

/-- Behind a run at the front. -/
theorem writeBytes_append_front (mem : Buf) (xs ys : List UInt8) :
    writeBytes (writeBytes mem 0 xs) xs.length ys = writeBytes mem 0 (xs ++ ys) := by
  have happend := writeBytes_append mem 0 xs ys
  rwa [Nat.zero_add] at happend

/-! ## Writing in sequence -/

/-- A buffer and the index of the next write. -/
structure Out where
  buf : Buf
  k : Nat

def Out.write (o : Out) (data : List UInt8) : Out :=
  ⟨writeBytes o.buf o.k data, o.k + data.length⟩

/-- `out[k++] = x`. -/
def Out.put (o : Out) (x : UInt8) : Out := o.write [x]

theorem Out.write_nil (o : Out) : o.write [] = o := by
  simp [Out.write, writeBytes_nil]

theorem Out.write_write (o : Out) (xs ys : List UInt8) :
    (o.write xs).write ys = o.write (xs ++ ys) := by
  simp only [Out.write, writeBytes_append, List.length_append, Nat.add_assoc]

/-- **Push loop**: writing block after block is writing the concatenation. -/
theorem foldl_write {α : Type} (f : α → List UInt8) :
    ∀ (l : List α) (o : Out), l.foldl (fun o x => o.write (f x)) o = o.write (l.flatMap f)
  | [], o => o.write_nil.symm
  | x :: l, o => by
    rw [List.foldl_cons, foldl_write f l, Out.write_write, List.flatMap_cons]

/-- Writing one byte at each index in turn. -/
theorem foldl_writeBytes (f : Nat → UInt8) (mem : Buf) :
    ∀ n : Nat, (List.range n).foldl (fun m i => writeBytes m i [f i]) mem =
      writeBytes mem 0 ((List.range n).flatMap fun i => [f i])
  | 0 => (writeBytes_nil mem 0).symm
  | n + 1 => by
    have hlength : ((List.range n).flatMap fun i => [f i]).length = n := by
      simp [List.length_flatMap]
    rw [List.range_succ, List.foldl_append, foldl_writeBytes f mem n, List.flatMap_append,
      ← writeBytes_append, hlength, Nat.zero_add]
    rfl

/-! ## Reading -/

/-- The front of the buffer holds `data`. -/
def Carries (p : Buf) (data : List UInt8) : Prop := ∀ i x, data[i]? = some x → p i = x

theorem carries_writeBytes (mem : Buf) (data : List UInt8) :
    Carries (writeBytes mem 0 data) data := fun i x h => by
  have : writeBytes mem 0 data (0 + i) = x := writeBytes_inside h
  rwa [Nat.zero_add] at this

theorem carries_nil (p : Buf) : Carries p [] := fun i x h => by cases h

theorem carries_cons {p : Buf} {x : UInt8} {data : List UInt8} :
    Carries p (x :: data) ↔ p 0 = x ∧ Carries (p.from 1) data := by
  constructor
  · intro h
    refine ⟨h 0 x rfl, fun i y hy => ?_⟩
    rw [Buf.from, Nat.add_comm]
    exact h (i + 1) y hy
  · rintro ⟨h0, h⟩ i y hy
    cases i with
    | zero => exact h0.trans (Option.some.inj hy)
    | succ i =>
      rw [Nat.add_comm]
      exact h i y hy

@[simp] theorem Buf.from_zero (p : Buf) : p.from 0 = p := by
  funext j
  rw [Buf.from, Nat.zero_add]

theorem Buf.from_from (p : Buf) (a b : Nat) : (p.from a).from b = p.from (a + b) := by
  funext j
  simp only [Buf.from, Nat.add_assoc]

theorem carries_append {p : Buf} {xs ys : List UInt8} :
    Carries p (xs ++ ys) ↔ Carries p xs ∧ Carries (p.from xs.length) ys := by
  induction xs generalizing p with
  | nil => simp [carries_nil]
  | cons x xs ih =>
    rw [List.cons_append, carries_cons, carries_cons, ih, Buf.from_from, List.length_cons,
      Nat.add_comm 1, and_assoc]

/-- Block `t` of a stream of blocks of length `w`. -/
theorem getElem?_flatMap_block {α : Type} {f : α → List UInt8} {w : Nat} {r : Nat} (hr : r < w) :
    ∀ {l : List α} {t : Nat}, (∀ x ∈ l, (f x).length = w) →
      (l.flatMap f)[w * t + r]? = l[t]?.bind fun x => (f x)[r]?
  | [], _, _ => rfl
  | x :: l, 0, h => by
    have hx := h x List.mem_cons_self
    rw [List.flatMap_cons, Nat.mul_zero, Nat.zero_add, List.getElem?_append_left (by omega)]
    rfl
  | x :: l, t + 1, h => by
    have hx := h x List.mem_cons_self
    have hl : ∀ y ∈ l, (f y).length = w := fun y hy => h y (List.mem_cons_of_mem _ hy)
    have hge : (f x).length ≤ w * (t + 1) + r := by
      rw [hx, Nat.mul_add, Nat.mul_one]; omega
    have hidx : w * (t + 1) + r - (f x).length = w * t + r := by
      rw [hx, Nat.mul_add, Nat.mul_one]; omega
    rw [List.flatMap_cons, List.getElem?_append_right hge, hidx, getElem?_flatMap_block hr hl]
    rfl

theorem length_flatMap_block {α : Type} {f : α → List UInt8} {w : Nat} :
    ∀ {l : List α}, (∀ x ∈ l, (f x).length = w) → (l.flatMap f).length = w * l.length
  | [], _ => rfl
  | x :: l, h => by
    rw [List.flatMap_cons, List.length_append, h x List.mem_cons_self,
      length_flatMap_block fun y hy => h y (List.mem_cons_of_mem _ hy), List.length_cons,
      Nat.mul_add, Nat.mul_one, Nat.add_comm]

/-- A buffer that carries a stream of blocks: the bytes of block `t`. -/
theorem Carries.block {α : Type} {f : α → List UInt8} {w : Nat} {p : Buf} {l : List α}
    (h : Carries p (l.flatMap f)) (hw : ∀ x ∈ l, (f x).length = w) {t : Nat} {x : α}
    (ht : l[t]? = some x) (r : Nat) (y : UInt8) (hr : r < w) (hy : (f x)[r]? = some y) :
    p (w * t + r) = y := by
  apply h
  rw [getElem?_flatMap_block hr hw, ht]
  exact hy

end CampusNet.Buffer
