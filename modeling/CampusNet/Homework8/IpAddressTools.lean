import CampusNet.Lib.Masked
import Mathlib.Data.Fin.VecNotation
import Mathlib.Data.UInt

/-!
# Networks and address classes

Model of `homework8/ip_address_tools.c`; a null pointer is `none`.

* `isInNet`, `classwise` — as the source has them.
* `Address.bits` — an address as one number of 32 bits; `mem_Net` — the loop over the bytes
  compares the masked numbers.
* `networks_meet` — for any masks: how large a network is, when two of them meet, and in what.
* `prefix_networks` — masks of leading bits: blocks of consecutive addresses, nested or disjoint.
* `classwise_networks` — the classes are five such networks that share out all addresses.
-/

namespace CampusNet.IpAddress

open Masked

/-- `unsigned char[4]` -/
abbrev Address := Fin 4 → UInt8

/-- `is_in_net`: a byte that differs under the mask ends the loop. -/
def isInNet (ip netip mask : Option Address) : Int :=
  match ip, netip, mask with
  | some ip, some netip, some mask =>
    if (List.finRange 4).all fun i => ip i &&& mask i == netip i &&& mask i then 1 else 0
  | _, _, _ => 0

def classwise (ip : Option Address) : Int :=
  match ip with
  | none => -1
  | some ip =>
    let first := ip 0
    if first &&& 0x80 = 0x00 then 0
    else if first &&& 0xC0 = 0x80 then 1
    else if first &&& 0xE0 = 0xC0 then 2
    else if first &&& 0xF0 = 0xE0 then 3
    else 4

/-- The addresses that `is_in_net` finds in a network. -/
def Net (netip mask : Address) : Set Address :=
  {ip | isInNet (some ip) (some netip) (some mask) = 1}

/-! ## Addresses as numbers -/

/-- The four bytes, the first one in front. -/
def Address.bits (a : Address) : BitVec 32 :=
  (a 0).toBitVec ++ (a 1).toBitVec ++ (a 2).toBitVec ++ (a 3).toBitVec

/-- The byte in which a bit stands. -/
def byteOf (i : Nat) : Fin 4 := ⟨3 - i / 8, by omega⟩

theorem getLsbD_bits (a : Address) {i : Nat} (hi : i < 32) :
    a.bits.getLsbD i = (a (byteOf i)).toBitVec.getLsbD (i % 8) := by
  unfold Address.bits
  rw [BitVec.getLsbD_append, BitVec.getLsbD_append, BitVec.getLsbD_append]
  have hbyte : ∀ k : Fin 4, i / 8 = 3 - k.1 → byteOf i = k := by
    intro k hk
    apply Fin.ext
    show 3 - i / 8 = k.1
    omega
  by_cases h0 : i < 8
  · rw [if_pos h0, hbyte 3 (by simp; omega), Nat.mod_eq_of_lt h0]
  rw [if_neg h0]
  by_cases h1 : i - 8 < 8
  · rw [if_pos h1, hbyte 2 (by simp; omega), show i - 8 = i % 8 by omega]
  rw [if_neg h1]
  by_cases h2 : i - 8 - 8 < 8
  · rw [if_pos h2, hbyte 1 (by simp; omega), show i - 8 - 8 = i % 8 by omega]
  · rw [if_neg h2, hbyte 0 (by simp; omega), show i - 8 - 8 - 8 = i % 8 by omega]

/-- Every bit of every byte stands somewhere. -/
theorem bit_position (k : Fin 4) {j : Nat} (hj : j < 8) :
    8 * (3 - k.1) + j < 32 ∧ byteOf (8 * (3 - k.1) + j) = k ∧ (8 * (3 - k.1) + j) % 8 = j := by
  refine ⟨by omega, Fin.ext ?_, by omega⟩
  show 3 - (8 * (3 - k.1) + j) / 8 = k.1
  omega

theorem bits_injective : Function.Injective Address.bits := by
  intro a b h
  funext k
  apply UInt8.toBitVec_inj.mp
  apply BitVec.eq_of_getLsbD_eq
  intro j hj
  obtain ⟨hlt, hbyte, hbit⟩ := bit_position k hj
  have hsame := congrArg (BitVec.getLsbD · (8 * (3 - k.1) + j)) h
  simpa only [getLsbD_bits _ hlt, hbyte, hbit] using hsame

theorem bits_surjective : Function.Surjective Address.bits := by
  intro x
  refine ⟨fun k => UInt8.ofBitVec (x.extractLsb' (8 * (3 - k.1)) 8), ?_⟩
  apply BitVec.eq_of_getLsbD_eq
  intro i hi
  have hmod : i % 8 < 8 := Nat.mod_lt _ (by decide)
  have hplace : 8 * (3 - (byteOf i).1) + i % 8 = i := by
    show 8 * (3 - (3 - i / 8)) + i % 8 = i
    omega
  rw [getLsbD_bits _ hi, UInt8.toBitVec_ofBitVec, BitVec.getLsbD_extractLsb', hplace]
  simp [hmod]

theorem bits_and (a b : Address) :
    Address.bits (fun i => a i &&& b i) = Address.bits a &&& Address.bits b := by
  apply BitVec.eq_of_getLsbD_eq
  intro i hi
  rw [BitVec.getLsbD_and, getLsbD_bits _ hi, getLsbD_bits _ hi, getLsbD_bits _ hi,
    UInt8.toBitVec_and, BitVec.getLsbD_and]

theorem bits_or (a b : Address) :
    Address.bits (fun i => a i ||| b i) = Address.bits a ||| Address.bits b := by
  apply BitVec.eq_of_getLsbD_eq
  intro i hi
  rw [BitVec.getLsbD_or, getLsbD_bits _ hi, getLsbD_bits _ hi, getLsbD_bits _ hi,
    UInt8.toBitVec_or, BitVec.getLsbD_or]

/-- **Byte by byte is all at once**: the loop compares the masked numbers. -/
theorem mem_Net {ip netip mask : Address} :
    ip ∈ Net netip mask ↔ ip.bits ∈ network mask.bits netip.bits := by
  have hloop : ((List.finRange 4).all fun i => ip i &&& mask i == netip i &&& mask i) = true ↔
      (fun i => ip i &&& mask i) = fun i => netip i &&& mask i := by
    simp [funext_iff]
  show isInNet (some ip) (some netip) (some mask) = 1 ↔ ip.bits &&& mask.bits = _
  rw [← bits_and, ← bits_and, bits_injective.eq_iff, ← hloop, isInNet]
  split
  · rename_i h
    exact iff_of_true rfl h
  · rename_i h
    exact iff_of_false (by decide) h

/-- A network of addresses, as numbers. -/
theorem bits_image_Net (netip mask : Address) :
    Address.bits '' Net netip mask = network mask.bits netip.bits := by
  ext x
  constructor
  · rintro ⟨ip, hip, rfl⟩
    exact mem_Net.mp hip
  · intro hx
    obtain ⟨ip, rfl⟩ := bits_surjective x
    exact ⟨ip, mem_Net.mpr hx, rfl⟩

theorem ncard_Net (netip mask : Address) :
    (Net netip mask).ncard = 2 ^ (freeBits mask.bits).card := by
  rw [← Set.ncard_image_of_injective _ bits_injective, bits_image_Net, ncard_network]

theorem bits_image_inter (netip mask netip' mask' : Address) :
    Address.bits '' (Net netip mask ∩ Net netip' mask') =
      network mask.bits netip.bits ∩ network mask'.bits netip'.bits := by
  rw [Set.image_inter bits_injective, bits_image_Net, bits_image_Net]

/-! ## Any masks -/

/-- **Networks meet in networks**, whatever the masks are: a network has an address for every choice
of the bits outside its mask; two networks have an address in common exactly when `is_in_net` finds
the base of one in the other under the common bits of the masks; and the addresses in common are
then a network again, that of any of them under both masks. -/
theorem networks_meet (netip mask netip' mask' : Address) :
    (Net netip mask).ncard = 2 ^ (freeBits mask.bits).card ∧
    ((Net netip mask ∩ Net netip' mask').Nonempty ↔
      netip ∈ Net netip' fun i => mask i &&& mask' i) ∧
    ∀ ip ∈ Net netip mask ∩ Net netip' mask',
      Net netip mask ∩ Net netip' mask' = Net ip fun i => mask i ||| mask' i := by
  refine ⟨ncard_Net netip mask, ?_, ?_⟩
  · rw [mem_Net, bits_and, ← inter_nonempty_iff, ← bits_image_inter, Set.image_nonempty]
  · rintro ip ⟨hip, hip'⟩
    apply Set.image_injective.mpr bits_injective
    rw [bits_image_inter, bits_image_Net, bits_or]
    exact network_inter (mem_Net.mp hip) (mem_Net.mp hip')

/-! ## Prefixes -/

/-- The mask has its bits in front, `k` of them. -/
def IsPrefix (mask : Address) (k : Nat) : Prop := mask.bits = prefixMask 32 k

instance (mask : Address) (k : Nat) : Decidable (IsPrefix mask k) :=
  inferInstanceAs (Decidable (_ = _))

/-- **Prefix networks**: under a mask of the first `k` bits a network is the block of the
`2 ^ (32 - k)` consecutive addresses with the same quotient; a network under a mask that is not
shorter lies within it or has no address with it in common. -/
theorem prefix_networks {mask mask' : Address} {k l : Nat} (hmask : IsPrefix mask k)
    (hmask' : IsPrefix mask' l) (hle : k ≤ l) (netip netip' : Address) :
    (∀ ip : Address, isInNet (some ip) (some netip) (some mask) = 1 ↔
      ip.bits.toNat / 2 ^ (32 - k) = netip.bits.toNat / 2 ^ (32 - k)) ∧
    (Net netip mask).ncard = 2 ^ (32 - k) ∧
    (Net netip' mask' ⊆ Net netip mask ∨ Net netip mask ∩ Net netip' mask' = ∅) := by
  have hbits : ∀ i, mask.bits.getLsbD i = true → mask'.bits.getLsbD i = true := by
    intro i hi
    rw [hmask, getLsbD_prefixMask] at hi
    rw [hmask', getLsbD_prefixMask]
    omega
  refine ⟨fun ip => ?_, ?_, ?_⟩
  · show ip ∈ Net netip mask ↔ _
    rw [mem_Net, hmask, mem_prefix]
  · rw [ncard_Net, hmask, card_freeBits_prefixMask]
  · rw [← Set.image_subset_image_iff bits_injective, ← Set.image_eq_empty (f := Address.bits),
      bits_image_inter, bits_image_Net, bits_image_Net]
    exact nested_or_disjoint hbits _ _

/-- 10.1.0.0/16 in 10.0.0.0/8. -/
theorem prefix_networks_private :
    Net ![10, 1, 0, 0] ![255, 255, 0, 0] ⊆ Net ![10, 0, 0, 0] ![255, 0, 0, 0] ∨
      Net ![10, 0, 0, 0] ![255, 0, 0, 0] ∩ Net ![10, 1, 0, 0] ![255, 255, 0, 0] = ∅ :=
  (prefix_networks (show IsPrefix ![255, 0, 0, 0] 8 by decide +kernel)
    (show IsPrefix ![255, 255, 0, 0] 16 by decide +kernel) (by decide) _ _).2.2

/-! ## Classes -/

/-- `0xxxxxxx`, `10xxxxxx`, `110xxxxx`, `1110xxxx` and `1111xxxx`. -/
def classBase (c : Fin 5) : Address := ![![0x00, 0x80, 0xC0, 0xE0, 0xF0] c, 0, 0, 0]

def classMask (c : Fin 5) : Address := ![![0x80, 0xC0, 0xE0, 0xF0, 0xF0] c, 0, 0, 0]

def classLength : Fin 5 → Nat := ![1, 2, 3, 4, 4]

theorem isPrefix_classMask : ∀ c, IsPrefix (classMask c) (classLength c) := by decide +kernel

/-- Only the first byte counts. -/
theorem mem_class {ip : Address} {c : Fin 5} : ip ∈ Net (classBase c) (classMask c) ↔
    ip 0 &&& classMask c 0 = classBase c 0 &&& classMask c 0 := by
  show (if (List.finRange 4).all fun i =>
    ip i &&& classMask c i == classBase c i &&& classMask c i then (1 : Int) else 0) = 1 ↔ _
  simp [List.finRange_succ, classMask, classBase]

/-- **Classes are networks**: every address has one of the five classes, and it is the only class
whose network `is_in_net` finds it in; the networks have prefixes of one to four bits. -/
theorem classwise_networks (ip : Address) : ∃ c : Fin 5, classwise (some ip) = c.1 ∧
    (∀ c', isInNet (some ip) (some (classBase c')) (some (classMask c')) = 1 ↔ c' = c) ∧
    (Net (classBase c) (classMask c)).ncard = 2 ^ (32 - classLength c) := by
  have hfirst : ∀ n < 256, ∃ c : Fin 5, classwise (some ![UInt8.ofNat n, 0, 0, 0]) = c.1 ∧
      ∀ c', UInt8.ofNat n &&& classMask c' 0 = classBase c' 0 &&& classMask c' 0 ↔ c' = c := by
    decide +kernel
  obtain ⟨c, hclass, hnet⟩ := hfirst (ip 0).toNat (UInt8.toNat_lt _)
  rw [UInt8.ofNat_toNat] at hclass hnet
  refine ⟨c, hclass, fun c' => mem_class.trans (hnet c'), ?_⟩
  exact (prefix_networks (isPrefix_classMask c) (isPrefix_classMask c) le_rfl _ (classBase c)).2.1

end CampusNet.IpAddress
