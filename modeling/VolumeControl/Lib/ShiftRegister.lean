import Mathlib.Algebra.Order.Ring.Nat
import Mathlib.Data.List.Induction

/-!
# Shift registers

A `w`-bit register that shifts bits in at its low end: `shiftIn v b` is
`v << 1 | b`. Shifting in the bits of a word, most significant first, leaves
its low `w` bits in the register (`shiftAll_bits`).
-/

namespace ShiftRegister

/-- `v << 1 | b`. -/
def shiftIn {w : Nat} (v : BitVec w) (b : Bool) : BitVec w := v <<< 1 ||| (BitVec.ofBool b).setWidth w

/-- The register after the bits `bs` have been shifted into `v`, first bit first. -/
def shiftAll {w : Nat} (v : BitVec w) (bs : List Bool) : BitVec w := bs.foldl shiftIn v

/-- The bits of a word, most significant first. -/
def bits {n : Nat} (x : BitVec n) : List Bool := (List.range n).map x.getMsbD

@[simp] theorem length_bits {n : Nat} (x : BitVec n) : (bits x).length = n := by simp [bits]

/-- The bits of a concatenation. -/
theorem bits_append {m n : Nat} (x : BitVec m) (y : BitVec n) : bits (x ++ y) = bits x ++ bits y := by
  rw [bits, List.range_add, List.map_append, List.map_map]
  congr 1
  · refine List.map_congr_left fun i hi => ?_
    have := List.mem_range.1 hi
    simp only [BitVec.getMsbD_append, show ¬ m ≤ i by omega, ↓reduceIte]
  · refine List.map_congr_left fun i _ => ?_
    simp [BitVec.getMsbD_append]

/-- A concatenation, as a number. -/
theorem toNat_append {m n : Nat} (x : BitVec m) (y : BitVec n) :
    (x ++ y).toNat = 2 ^ n * x.toNat + y.toNat := by
  rw [BitVec.toNat_append, ← Nat.shiftLeft_add_eq_or_of_lt y.isLt, Nat.shiftLeft_eq, Nat.mul_comm]

@[simp] theorem bits_ofBool (b : Bool) : bits (BitVec.ofBool b) = [b] := by
  cases b <;> rfl

theorem shiftAll_snoc {w : Nat} (v : BitVec w) (bs : List Bool) (b : Bool) :
    shiftAll v (bs ++ [b]) = shiftIn (shiftAll v bs) b := by simp [shiftAll]

/-- The register holds the last bits shifted in, newest lowest. -/
theorem getLsbD_shiftAll {w : Nat} (bs : List Bool) (i : Nat) (hi : i < w) :
    (shiftAll (0 : BitVec w) bs).getLsbD i = bs.reverse.getD i false := by
  induction bs using List.reverseRecOn generalizing i with
  | nil => simp [shiftAll]
  | append_singleton bs b ih =>
    rw [shiftAll_snoc]
    cases i with
    | zero => simp [shiftIn, hi]
    | succ i =>
      have h := ih i (by omega)
      simp only [BitVec.getLsbD_eq_getElem (show i < w by omega)] at h
      simpa [shiftIn, hi] using h

/-- Shifting in the bits of a word leaves that word in the register. -/
theorem shiftAll_bits {n w : Nat} (x : BitVec n) :
    shiftAll (0 : BitVec w) (bits x) = x.setWidth w := by
  apply BitVec.eq_of_getLsbD_eq
  intro i hi
  rw [getLsbD_shiftAll _ i hi, BitVec.getLsbD_setWidth, decide_eq_true hi, Bool.true_and]
  by_cases hn : i < n
  · have hr : (bits x).reverse[i]? = some (x.getLsbD i) := by
      rw [List.getElem?_reverse (by simpa using hn)]
      simp only [bits, List.length_map, List.length_range, List.getElem?_map]
      rw [List.getElem?_range (by omega)]
      simp [BitVec.getMsbD, show n - 1 - i < n by omega, show n - 1 - (n - 1 - i) = i by omega]
    simp [List.getD_eq_getElem?_getD, hr]
  · rw [BitVec.getLsbD_of_ge x i (by omega)]
    simp [List.getD_eq_getElem?_getD, hn]

end ShiftRegister
