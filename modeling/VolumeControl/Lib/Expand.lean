import Mathlib.Data.List.Count

/-!
# A mark before every occurrence

`expand x y l` is `l` with an `x` put before every `y`, and `contract x y` takes
one `x` away before every `y`. The second undoes the first (`contract_expand`),
whatever there was before a `y` already.
-/

namespace Expand

variable {α : Type*} [DecidableEq α] {x y a : α} {l : List α}

def expand (x y : α) (l : List α) : List α := l.flatMap fun a => if a = y then [x, a] else [a]

def contract (x y : α) : List α → List α
  | [] => []
  | a :: l => if a = x ∧ l.head? = some y then contract x y l else a :: contract x y l

@[simp] theorem expand_nil (x y : α) : expand x y [] = [] := rfl

@[simp] theorem expand_cons (x y a : α) (l : List α) :
    expand x y (a :: l) = (if a = y then [x, a] else [a]) ++ expand x y l := rfl

@[simp] theorem expand_append (x y : α) (l l' : List α) :
    expand x y (l ++ l') = expand x y l ++ expand x y l' := by
  simp [expand]

theorem length_expand (x y : α) (l : List α) :
    (expand x y l).length = l.count y + l.length := by
  induction l with
  | nil => rfl
  | cons a l ih =>
    by_cases ha : a = y
    · simp [ha, ih]
      omega
    · simp [ha, ih]
      omega

/-- An expansion does not start with a bare `y`. -/
theorem head?_expand_ne (hxy : x ≠ y) (l : List α) : (expand x y l).head? ≠ some y := by
  cases l with
  | nil => simp
  | cons a l => by_cases ha : a = y <;> simp [ha, hxy]

/-- **Round trip.** -/
theorem contract_expand (hxy : x ≠ y) (l : List α) : contract x y (expand x y l) = l := by
  induction l with
  | nil => rfl
  | cons a l ih =>
    by_cases ha : a = y
    · subst ha
      have hax : a ≠ x := hxy.symm
      simp [contract, hax, ih]
    · simp [contract, ha, head?_expand_ne hxy l, ih]

end Expand
