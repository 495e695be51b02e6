import Mathlib.Data.List.Basic

/-!
# Linked lists of cells

Cells are numbered from 1, 0 stands for none. `Chain next i l`: from `i` the
pointers lead through the cells of `l`, in order, and end there. A cell is taken
from the front (`Chain.next`) or added behind the last one (`Chain.snoc`).
-/

namespace LinkedList

def Chain (next : Nat → Nat) : Nat → List Nat → Prop
  | i, [] => i = 0
  | i, x :: l => i = x ∧ x ≠ 0 ∧ Chain next (next x) l

variable {next next' : Nat → Nat} {i x : Nat} {l : List Nat}

theorem Chain.congr (h : Chain next i l) (heq : ∀ x ∈ l, next' x = next x) : Chain next' i l := by
  induction l generalizing i with
  | nil => exact h
  | cons x l ih =>
    obtain ⟨rfl, hx, hl⟩ := h
    refine ⟨rfl, hx, ?_⟩
    rw [heq i List.mem_cons_self]
    exact ih hl fun y hy => heq y (List.mem_cons_of_mem _ hy)

theorem Chain.eq_zero_iff (h : Chain next i l) : i = 0 ↔ l = [] := by
  cases l with
  | nil => exact iff_of_true h rfl
  | cons x l =>
    obtain ⟨rfl, hx, -⟩ := h
    simp [hx]

theorem Chain.zero_notMem (h : Chain next i l) : 0 ∉ l := by
  induction l generalizing i with
  | nil => simp
  | cons x l ih =>
    obtain ⟨-, hx, hl⟩ := h
    simp [Ne.symm hx, ih hl]

/-- Behind the last cell `y` comes. -/
theorem Chain.snoc {y : Nat} (h : Chain next i l) (hl : l ≠ []) (hn : l.Nodup)
    (hkeep : ∀ x ∈ l, x ≠ l.getLast hl → next' x = next x) (hlast : next' (l.getLast hl) = y)
    (hy : y ≠ 0) (hend : next' y = 0) : Chain next' i (l ++ [y]) := by
  induction l generalizing i with
  | nil => exact absurd rfl hl
  | cons x l ih =>
    obtain ⟨rfl, hx, hc⟩ := h
    refine ⟨rfl, hx, ?_⟩
    cases l with
    | nil =>
      rw [List.getLast_singleton] at hlast
      exact ⟨hlast, hy, hend⟩
    | cons z l =>
      have hn' := List.nodup_cons.1 hn
      rw [List.getLast_cons (List.cons_ne_nil z l)] at hkeep hlast
      have hne : i ≠ (z :: l).getLast (List.cons_ne_nil z l) := by
        rintro rfl
        exact hn'.1 (List.getLast_mem _)
      rw [hkeep i List.mem_cons_self hne]
      exact ih hc (List.cons_ne_nil z l) hn'.2
        (fun w hw => hkeep w (List.mem_cons_of_mem _ hw)) hlast

end LinkedList
