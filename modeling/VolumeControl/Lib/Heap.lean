import Mathlib.Data.List.Basic

/-!
# Blocks of the heap

A block has a size; a cell of it holds nothing until it is written. `write` has
no result outside of the block, and keeps a record of the cells written.

`Filled b l size`: a block of `size` cells whose first ones have been written in
order, each once, and hold `l`. `Filled.write` is the next cell.
-/

namespace Heap

variable {α : Type*}

structure Block (α : Type*) where
  cells : List (Option α)
  written : List Nat
  deriving DecidableEq, Repr

def malloc (size : Nat) : Block α := ⟨List.replicate size none, []⟩

def Block.write (b : Block α) (i : Nat) (a : α) : Option (Block α) :=
  if i < b.cells.length then some ⟨b.cells.set i (some a), b.written ++ [i]⟩ else none

structure Filled (b : Block α) (l : List α) (size : Nat) : Prop where
  cells : b.cells = l.map some ++ List.replicate (size - l.length) none
  written : b.written = List.range l.length

theorem filled_malloc (size : Nat) : Filled (malloc size : Block α) [] size := ⟨rfl, rfl⟩

theorem Filled.write {b : Block α} {l : List α} {size : Nat} (h : Filled b l size)
    (hlt : l.length < size) (a : α) :
    ∃ b', b.write l.length a = some b' ∧ Filled b' (l ++ [a]) size := by
  have hlen : l.length < b.cells.length := by
    rw [h.cells]
    simp
    omega
  refine ⟨_, if_pos hlen, ?_, ?_⟩
  · obtain ⟨n, hn⟩ : ∃ n, size - l.length = n + 1 := ⟨size - l.length - 1, by omega⟩
    have hn' : size - (l ++ [a]).length = n := by
      simp
      omega
    rw [h.cells, hn, hn', List.replicate_succ, List.set_append_right _ _ (by simp)]
    simp
  · simp [h.written, List.range_succ]

/-- A block that has been filled. -/
theorem Filled.cells_eq {b : Block α} {l : List α} (h : Filled b l l.length) :
    b.cells = l.map some := by
  simp [h.cells]

end Heap
