import Mathlib.Data.List.Basic

/-!
# Two-dimensional arrays

An array of `m` rows of `n` cells, read and written by index. Reads outside
give `default`, writes outside do nothing.
-/

namespace Grid

variable {α : Type*} [Inhabited α] {m n r c : Nat}

def replicate (m n : Nat) (a : α) : Vector (Vector α n) m := Vector.replicate m (Vector.replicate n a)

def get (g : Vector (Vector α n) m) (r c : Nat) : α :=
  match g[r]? with
  | some row => row[c]?.getD default
  | none => default

def set (g : Vector (Vector α n) m) (r c : Nat) (a : α) : Vector (Vector α n) m :=
  match g[r]? with
  | some row => g.setIfInBounds r (row.setIfInBounds c a)
  | none => g

theorem get_replicate_default : get (replicate m n (default : α)) r c = default := by
  unfold get replicate
  by_cases hr : r < m <;> by_cases hc : c < n <;> simp [hr, hc]

/-- A write is seen at its own cell only. -/
theorem get_set (g : Vector (Vector α n) m) (hr : r < m) (hc : c < n) (a : α) (r' c' : Nat) :
    get (set g r c a) r' c' = if r' = r ∧ c' = c then a else get g r' c' := by
  have hrow : g[r]? = some g[r] := by simp [hr]
  unfold get set
  rw [hrow]
  by_cases h : r' = r
  · subst h
    by_cases h' : c' = c
    · subst h'
      simp [hr, hc]
    · simp [hr, h', Ne.symm h']
  · simp [h, Ne.symm h]

end Grid
