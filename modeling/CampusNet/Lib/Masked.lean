import Mathlib.Data.Fintype.BigOperators
import Mathlib.Data.Fintype.Fin
import Mathlib.Data.Set.Card

/-!
# Vectors fixed by a mask

The bit vectors that agree with a base on the bits of a mask.

* `network` — these vectors; `mem_network` — bit by bit.
* `ncard_network` — every bit outside the mask doubles their number.
* `inter_nonempty_iff`, `network_inter` — two networks meet exactly when their bases agree on the
  common bits of the masks, and then in the network of both masks.
* `nested_or_disjoint` — two networks of which one has the wider mask.
* `prefixMask`, `mem_prefix` — a mask of the first `k` bits cuts the numbers into blocks.
-/

namespace CampusNet.Masked

variable {w : Nat} {mask mask' base base' x : BitVec w}

/-- The vectors that agree with `base` on the bits of `mask`. -/
def network (mask base : BitVec w) : Set (BitVec w) := {x | x &&& mask = base &&& mask}

theorem mem_network :
    x ∈ network mask base ↔ ∀ i, mask.getLsbD i = true → x.getLsbD i = base.getLsbD i := by
  show x &&& mask = base &&& mask ↔ _
  constructor
  · intro h i hi
    have hbit := congrArg (BitVec.getLsbD · i) h
    simpa [hi] using hbit
  · intro h
    apply BitVec.eq_of_getLsbD_eq
    intro i _
    rw [BitVec.getLsbD_and, BitVec.getLsbD_and]
    cases hi : mask.getLsbD i with
    | false => rw [Bool.and_false, Bool.and_false]
    | true => rw [h i hi]

/-- Any of its members is a base. -/
theorem network_eq_of_mem (h : x ∈ network mask base) : network mask x = network mask base := by
  have hbase : x &&& mask = base &&& mask := h
  unfold network
  rw [hbase]

/-! ## Size -/

/-- The bits outside the mask. -/
def freeBits (mask : BitVec w) : Finset (Fin w) :=
  Finset.univ.filter fun i => mask.getLsbD i = false

theorem bits_injective : Function.Injective fun (x : BitVec w) (i : Fin w) => x.getLsbD i := by
  intro x y h
  apply BitVec.eq_of_getLsbD_eq
  intro i hi
  exact congrFun h ⟨i, hi⟩

/-- The vector of these bits. -/
theorem exists_bits (f : Fin w → Bool) : ∃ x : BitVec w, ∀ i : Fin w, x.getLsbD i = f i := by
  refine ⟨(BitVec.ofBoolListLE (List.ofFn f)).cast List.length_ofFn, fun i => ?_⟩
  rw [BitVec.getLsbD_cast, BitVec.getLsbD_ofBoolListLE, List.getD_eq_getElem?_getD,
    List.getElem?_ofFn, dif_pos i.isLt]
  rfl

/-- The choices that the mask leaves. -/
theorem image_network (mask base : BitVec w) :
    (fun (x : BitVec w) (i : Fin w) => x.getLsbD i) '' network mask base =
      ↑(Fintype.piFinset fun i : Fin w =>
        if mask.getLsbD i = false then Finset.univ else {base.getLsbD i}) := by
  ext f
  simp only [Set.mem_image, Finset.mem_coe, Fintype.mem_piFinset]
  constructor
  · rintro ⟨x, hx, rfl⟩ i
    split
    · exact Finset.mem_univ _
    · rename_i hi
      rw [Finset.mem_singleton]
      exact mem_network.mp hx i (eq_true_of_ne_false hi)
  · intro hf
    obtain ⟨x, hx⟩ := exists_bits f
    refine ⟨x, mem_network.mpr fun i hi => ?_, funext hx⟩
    have hlt : i < w := BitVec.lt_of_getLsbD hi
    have hbit := hf ⟨i, hlt⟩
    simp only [hi, Bool.true_eq_false, if_false, Finset.mem_singleton] at hbit
    exact (hx ⟨i, hlt⟩).trans hbit

/-- **The size of a network**: every bit outside the mask is free. -/
theorem ncard_network (mask base : BitVec w) :
    (network mask base).ncard = 2 ^ (freeBits mask).card := by
  rw [← Set.ncard_image_of_injective _ bits_injective, image_network, Set.ncard_coe_finset,
    Fintype.card_piFinset]
  have hchoices : ∀ i : Fin w,
      (if mask.getLsbD i = false then Finset.univ else {base.getLsbD i} : Finset Bool).card =
        if mask.getLsbD i = false then 2 else 1 := by
    intro i
    split
    · exact Fintype.card_bool
    · exact Finset.card_singleton _
  simp only [hchoices]
  rw [Finset.prod_ite, Finset.prod_const, Finset.prod_const_one, mul_one, freeBits]

/-! ## Two networks -/

/-- **Two networks meet** exactly when their bases agree where both masks have a bit. -/
theorem inter_nonempty_iff : (network mask base ∩ network mask' base').Nonempty ↔
    base ∈ network (mask &&& mask') base' := by
  rw [mem_network]
  simp only [BitVec.getLsbD_and, Bool.and_eq_true]
  constructor
  · rintro ⟨x, hx, hx'⟩ i ⟨hi, hi'⟩
    exact (mem_network.mp hx i hi).symm.trans (mem_network.mp hx' i hi')
  · intro h
    refine ⟨(base &&& mask) ||| (base' &&& ~~~mask), mem_network.mpr fun i hi => ?_,
      mem_network.mpr fun i hi' => ?_⟩
    · simp [hi]
    · have hlt : i < w := BitVec.lt_of_getLsbD hi'
      rw [BitVec.getLsbD_or, BitVec.getLsbD_and, BitVec.getLsbD_and, BitVec.getLsbD_not]
      cases hi : mask.getLsbD i with
      | false => simp [hlt]
      | true => simp [h i ⟨hi, hi'⟩]

/-- They meet in a network: the one with the bits of both masks. -/
theorem network_inter (h : x ∈ network mask base) (h' : x ∈ network mask' base') :
    network mask base ∩ network mask' base' = network (mask ||| mask') x := by
  rw [← network_eq_of_mem h, ← network_eq_of_mem h']
  ext y
  rw [Set.mem_inter_iff, mem_network, mem_network, mem_network]
  simp only [BitVec.getLsbD_or, Bool.or_eq_true]
  constructor
  · rintro ⟨hy, hy'⟩ i (hi | hi)
    · exact hy i hi
    · exact hy' i hi
  · intro hy
    exact ⟨fun i hi => hy i (Or.inl hi), fun i hi => hy i (Or.inr hi)⟩

/-- **Nested or disjoint**: when one mask has the bits of the other. -/
theorem nested_or_disjoint (hmask : ∀ i, mask.getLsbD i = true → mask'.getLsbD i = true)
    (base base' : BitVec w) :
    network mask' base' ⊆ network mask base ∨
      network mask base ∩ network mask' base' = ∅ := by
  by_cases hmeet : (network mask base ∩ network mask' base').Nonempty
  · left
    intro x hx
    rw [mem_network] at hx ⊢
    intro i hi
    have hboth : (mask &&& mask').getLsbD i = true := by
      rw [BitVec.getLsbD_and, hi, hmask i hi]
      rfl
    exact (hx i (hmask i hi)).trans (mem_network.mp (inter_nonempty_iff.mp hmeet) i hboth).symm
  · right
    exact Set.not_nonempty_iff_eq_empty.mp hmeet

/-! ## Prefixes -/

/-- The first `k` bits. -/
def prefixMask (w k : Nat) : BitVec w := BitVec.allOnes w <<< (w - k)

theorem getLsbD_prefixMask {k i : Nat} :
    (prefixMask w k).getLsbD i = true ↔ w - k ≤ i ∧ i < w := by
  rw [prefixMask, BitVec.getLsbD_shiftLeft, BitVec.getLsbD_allOnes]
  simp only [Bool.and_eq_true, decide_eq_true_eq, Bool.not_eq_true', decide_eq_false_iff_not]
  omega

/-- **A prefix network is a block** of consecutive numbers. -/
theorem mem_prefix {k : Nat} :
    x ∈ network (prefixMask w k) base ↔ x.toNat / 2 ^ (w - k) = base.toNat / 2 ^ (w - k) := by
  rw [← Nat.shiftRight_eq_div_pow, ← Nat.shiftRight_eq_div_pow, ← BitVec.toNat_ushiftRight,
    ← BitVec.toNat_ushiftRight, BitVec.toNat_inj, mem_network]
  constructor
  · intro h
    apply BitVec.eq_of_getLsbD_eq
    intro i _
    rw [BitVec.getLsbD_ushiftRight, BitVec.getLsbD_ushiftRight]
    by_cases hlt : w - k + i < w
    · exact h _ (getLsbD_prefixMask.mpr ⟨Nat.le_add_right _ _, hlt⟩)
    · rw [BitVec.getLsbD_of_ge x _ (not_lt.mp hlt), BitVec.getLsbD_of_ge base _ (not_lt.mp hlt)]
  · intro h i hi
    obtain ⟨hge, hlt⟩ := getLsbD_prefixMask.mp hi
    have hbit := congrArg (BitVec.getLsbD · (i - (w - k))) h
    simp only [BitVec.getLsbD_ushiftRight] at hbit
    rwa [Nat.add_sub_cancel' hge] at hbit

theorem card_freeBits_prefixMask {k : Nat} :
    (freeBits (prefixMask w k)).card = w - k := by
  have hfree : freeBits (prefixMask w k) = Finset.univ.filter fun i : Fin w => i.1 < w - k := by
    ext i
    have hbit := getLsbD_prefixMask (w := w) (k := k) (i := i)
    simp only [freeBits, Finset.mem_filter, Finset.mem_univ, true_and]
    cases hi : (prefixMask w k).getLsbD i with
    | false =>
      rw [hi] at hbit
      simp only [true_iff]
      by_contra hge
      exact Bool.false_ne_true (hbit.mpr ⟨not_lt.mp hge, i.isLt⟩)
    | true =>
      rw [hi] at hbit
      simp only [Bool.true_eq_false, false_iff, not_lt]
      exact (hbit.mp rfl).1
  rw [hfree, Fin.card_filter_val_lt]
  exact Nat.min_eq_right (Nat.sub_le w k)

end CampusNet.Masked
