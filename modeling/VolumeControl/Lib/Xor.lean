import Mathlib.Data.List.Basic

/-!
# Words under exclusive or

A word is the sum, under exclusive or, of its one-bit words (`sum_ones`). A
function of words that is additive is therefore known from its values on
one-bit words (`Additive.eq_sum`, `Additive.ext`). `Fits mask f` adds that the
values of `f` lie within `mask`: functions that fit disjoint masks may be put
together with `|||` and stay additive (`Fits.or`).
-/

namespace Xor

variable {m n k : Nat}

/-- The positions of the bits set in a word. -/
def ones (x : BitVec n) : List Nat := (List.range n).filter x.getLsbD

def sum (xs : List (BitVec n)) : BitVec n := xs.foldr (· ^^^ ·) 0

@[simp] theorem sum_nil : sum ([] : List (BitVec n)) = 0 := rfl

@[simp] theorem sum_cons (x : BitVec n) (xs : List (BitVec n)) : sum (x :: xs) = x ^^^ sum xs := rfl

theorem sum_append (xs ys : List (BitVec n)) : sum (xs ++ ys) = sum xs ^^^ sum ys := by
  induction xs with
  | nil => simp
  | cons x xs ih => rw [List.cons_append, sum_cons, ih, sum_cons, BitVec.xor_assoc]

/-- The low `k` bits of a word. -/
theorem getLsbD_sum_ones (x : BitVec n) (hk : k ≤ n) (i : Nat) :
    (sum (((List.range k).filter x.getLsbD).map (BitVec.twoPow n))).getLsbD i =
      (decide (i < k) && x.getLsbD i) := by
  induction k with
  | zero => simp
  | succ k ih =>
    have hone : (sum (([k].filter x.getLsbD).map (BitVec.twoPow n))).getLsbD i =
        (decide (i = k) && x.getLsbD k) := by
      have hkn : k < n := by omega
      cases hx : x.getLsbD k with
      | true => simpa [hx, BitVec.getLsbD_twoPow, hkn] using eq_comm
      | false => simp [hx]
    rw [List.range_succ, List.filter_append, List.map_append, sum_append, BitVec.getLsbD_xor,
      ih (by omega), hone]
    rcases Nat.lt_trichotomy i k with h | rfl | h
    · simp [h, show i < k + 1 by omega, show i ≠ k by omega]
    · simp
    · simp [show ¬ i < k by omega, show ¬ i < k + 1 by omega, show i ≠ k by omega]

/-- **A word is the sum of its bits.** -/
theorem sum_ones (x : BitVec n) : sum ((ones x).map (BitVec.twoPow n)) = x := by
  apply BitVec.eq_of_getLsbD_eq
  intro i hi
  rw [ones, getLsbD_sum_ones x (Nat.le_refl n), decide_eq_true hi, Bool.true_and]

theorem lt_of_mem_ones {x : BitVec n} {i : Nat} (h : i ∈ ones x) : i < n := by
  simp only [ones, List.mem_filter, List.mem_range] at h
  exact h.1

theorem ones_nodup (x : BitVec n) : (ones x).Nodup := List.nodup_range.filter _

/-- A word with no bit, one bit or two bits. -/
theorem eq_of_length_ones {x : BitVec n} (h : (ones x).length ≤ 2) :
    ((ones x).length = 0 ∧ x = 0) ∨
    ((ones x).length = 1 ∧ ∃ i < n, x = BitVec.twoPow n i) ∨
    (ones x).length = 2 ∧ ∃ i < n, ∃ j < n, i ≠ j ∧ x = BitVec.twoPow n i ^^^ BitVec.twoPow n j := by
  have hsum := sum_ones x
  have hlt : ∀ i ∈ ones x, i < n := fun i => lt_of_mem_ones
  have hnodup := ones_nodup x
  rcases hones : ones x with _ | ⟨i, _ | ⟨j, _ | ⟨k, l⟩⟩⟩
  · exact .inl ⟨rfl, by simpa [hones] using hsum.symm⟩
  · refine .inr (.inl ⟨rfl, i, hlt i (by simp [hones]), ?_⟩)
    simpa [hones] using hsum.symm
  · refine .inr (.inr ⟨rfl, i, hlt i (by simp [hones]), j, hlt j (by simp [hones]), ?_, ?_⟩)
    · simpa [hones] using hnodup
    · simpa [hones] using hsum.symm
  · simp [hones] at h

/-! ## Additive functions -/

def Additive (f : BitVec m → BitVec n) : Prop := ∀ x y, f (x ^^^ y) = f x ^^^ f y

section
variable {f g : BitVec m → BitVec n}

theorem Additive.zero (hf : Additive f) : f 0 = 0 := by
  have h := hf 0 0
  rwa [BitVec.xor_self, BitVec.xor_self] at h

theorem Additive.sum (hf : Additive f) (xs : List (BitVec m)) :
    f (sum xs) = Xor.sum (xs.map f) := by
  induction xs with
  | nil => exact hf.zero
  | cons x xs ih => rw [sum_cons, hf, ih, List.map_cons, sum_cons]

/-- The value at a word is the sum of the values at its bits. -/
theorem Additive.eq_sum (hf : Additive f) (x : BitVec m) :
    f x = Xor.sum ((ones x).map fun i => f (BitVec.twoPow m i)) := by
  conv => lhs; rw [← sum_ones x, hf.sum, List.map_map]
  rfl

/-- **Additive functions that agree on one-bit words are equal.** -/
theorem Additive.ext (hf : Additive f) (hg : Additive g)
    (h : ∀ i < m, f (BitVec.twoPow m i) = g (BitVec.twoPow m i)) (x : BitVec m) : f x = g x := by
  rw [hf.eq_sum, hg.eq_sum]
  congr 1
  exact List.map_congr_left fun i hi => h i (lt_of_mem_ones hi)

theorem Additive.comp {g : BitVec n → BitVec k} (hg : Additive g) (hf : Additive f) :
    Additive fun x => g (f x) := fun x y => (congrArg g (hf x y)).trans (hg _ _)

theorem Additive.xor (hf : Additive f) (hg : Additive g) : Additive fun x => f x ^^^ g x := by
  intro x y
  show f (x ^^^ y) ^^^ g (x ^^^ y) = f x ^^^ g x ^^^ (f y ^^^ g y)
  rw [hf, hg]
  ac_rfl

theorem additive_id : Additive fun x : BitVec n => x := fun _ _ => rfl

theorem additive_zero : Additive fun _ : BitVec m => (0 : BitVec n) := fun _ _ => by simp

theorem additive_setWidth : Additive fun x : BitVec m => x.setWidth n := fun _ _ => BitVec.setWidth_xor

theorem additive_ushiftRight (k : Nat) : Additive fun x : BitVec n => x >>> k :=
  fun x y => BitVec.ushiftRight_xor_distrib x y k

theorem additive_shiftLeft (k : Nat) : Additive fun x : BitVec n => x <<< k :=
  fun x y => BitVec.shiftLeft_xor_distrib x y k

theorem additive_and (mask : BitVec n) : Additive fun x : BitVec n => x &&& mask := by
  intro x y
  ext i
  simp [Bool.and_xor_distrib_right]

end

/-! ## Distance -/

/-- How many bits two words differ in. -/
def distance (x y : BitVec n) : Nat := (ones (x ^^^ y)).length

@[simp] theorem ones_zero : ones (0 : BitVec n) = [] := by simp [ones]

theorem ones_eq_nil {x : BitVec n} : ones x = [] ↔ x = 0 := by
  constructor
  · intro h
    have hsum := sum_ones x
    rw [h] at hsum
    exact hsum.symm
  · rintro rfl
    exact ones_zero

theorem distance_comm (x y : BitVec n) : distance x y = distance y x := by
  rw [distance, BitVec.xor_comm, distance]

theorem distance_eq_zero {x y : BitVec n} : distance x y = 0 ↔ x = y := by
  rw [distance, List.length_eq_zero_iff, ones_eq_nil]
  exact BitVec.xor_eq_zero_iff

theorem distance_twoPow (x : BitVec n) {i : Nat} (hi : i < n) :
    distance x (x ^^^ BitVec.twoPow n i) = 1 := by
  have hones : ones (BitVec.twoPow n i) = [i] := by
    refine List.perm_singleton.1 ((List.perm_ext_iff_of_nodup (ones_nodup _) (by simp)).2 fun j => ?_)
    simp only [ones, List.mem_filter, List.mem_range, BitVec.getLsbD_twoPow, List.mem_singleton]
    constructor
    · rintro ⟨-, h⟩
      simpa [hi, eq_comm] using h
    · rintro rfl
      simp [hi]
  rw [distance, ← BitVec.xor_assoc, BitVec.xor_self, BitVec.zero_xor, hones]
  rfl

/-- The words of an additive code are as far apart as their sum is from 0. -/
theorem Additive.distance {f : BitVec m → BitVec n} (hf : Additive f) (x y : BitVec m) :
    distance (f x) (f y) = (ones (f (x ^^^ y))).length := by
  rw [hf]
  rfl

/-- A sum of ones is their number, but for multiples of 2. -/
theorem sum_replicate_one (k : Nat) :
    sum (List.replicate k (1 : BitVec n)) = BitVec.ofNat n (k % 2) := by
  induction k with
  | zero => simp
  | succ k ih =>
    rw [List.replicate_succ, sum_cons, ih]
    rcases Nat.mod_two_eq_zero_or_one k with h | h
    · simp [h, Nat.add_mod]
    · simp [h, Nat.add_mod]

/-! ## Fields of a word -/

/-- An additive function with values within `mask`. -/
structure Fits (mask : BitVec n) (f : BitVec m → BitVec n) : Prop where
  additive : Additive f
  within : ∀ x, f x &&& mask = f x

section
variable {f g : BitVec m → BitVec n} {a b : BitVec n}

theorem Additive.fits (hf : Additive f) (mask : BitVec n) : Fits mask fun x => f x &&& mask where
  additive := (additive_and mask).comp hf
  within x := by rw [BitVec.and_assoc, BitVec.and_self]

theorem Fits.shiftLeft (h : Fits a f) (k : Nat) : Fits (a <<< k) fun x => f x <<< k where
  additive := (additive_shiftLeft k).comp h.additive
  within x := by rw [← BitVec.shiftLeft_and_distrib, h.within]

/-- **Fields with disjoint masks** make up a word. -/
theorem Fits.or (hf : Fits a f) (hg : Fits b g) (hab : a &&& b = 0) :
    Fits (a ||| b) fun x => f x ||| g x := by
  have hdisjoint (x : BitVec m) (i : Nat) : ¬ ((f x).getLsbD i = true ∧ (g x).getLsbD i = true) := by
    rintro ⟨hfi, hgi⟩
    rw [← hf.within, BitVec.getLsbD_and, Bool.and_eq_true] at hfi
    rw [← hg.within, BitVec.getLsbD_and, Bool.and_eq_true] at hgi
    have hi := congrArg (·.getLsbD i) hab
    simp [hfi.2, hgi.2] at hi
  have hor : (fun x => f x ||| g x) = fun x => f x ^^^ g x := by
    funext x
    apply BitVec.eq_of_getLsbD_eq
    intro i _
    have hi := hdisjoint x i
    rw [BitVec.getLsbD_or, BitVec.getLsbD_xor]
    cases hfi : (f x).getLsbD i <;> cases hgi : (g x).getLsbD i <;> simp_all
  refine ⟨hor ▸ hf.additive.xor hg.additive, fun x => ?_⟩
  apply BitVec.eq_of_getLsbD_eq
  intro i _
  have hfi := congrArg (·.getLsbD i) (hf.within x)
  have hgi := congrArg (·.getLsbD i) (hg.within x)
  simp only [BitVec.getLsbD_and, BitVec.getLsbD_or] at hfi hgi ⊢
  cases hx : (f x).getLsbD i <;> cases hy : (g x).getLsbD i <;> simp_all

end

end Xor
