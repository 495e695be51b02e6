import Mathlib.Data.List.Induction

/-!
# A slot for the latest value

Values come in batches, the slot keeps the last one of a batch, and is looked at
after every batch. A value that is not `full` leaves the slot as good as empty.
`taken_eq_iff`: every full value is found in the slot exactly when in no batch a
full value has another one after it.
-/

namespace Latest

variable {α : Type*} {full : α → Bool} {batch : List α} {batches : List (List α)}

/-- What is in the slot after a batch. -/
def latest (full : α → Bool) (batch : List α) : List α := batch.getLast?.toList.filter full

/-- What is found in the slot, batch by batch. -/
def taken (full : α → Bool) (batches : List (List α)) : List α := batches.flatMap (latest full)

@[simp] theorem latest_nil : latest full [] = [] := rfl

@[simp] theorem latest_concat (batch : List α) (a : α) :
    latest full (batch ++ [a]) = [a].filter full := by
  simp [latest]

theorem length_latest_le (full : α → Bool) (batch : List α) :
    (latest full batch).length ≤ (batch.filter full).length := by
  induction batch using List.reverseRecOn with
  | nil => simp
  | append_singleton batch a _ => simp

theorem length_taken_le (full : α → Bool) (batches : List (List α)) :
    (taken full batches).length ≤ (batches.flatten.filter full).length := by
  induction batches with
  | nil => simp [taken]
  | cons batch batches ih =>
    have hle := length_latest_le full batch
    rw [taken, List.flatMap_cons, List.length_append, List.flatten_cons, List.filter_append,
      List.length_append]
    exact Nat.add_le_add hle ih

/-- One batch. -/
theorem latest_eq_iff : latest full batch = batch.filter full ↔
    ∀ a ∈ batch.dropLast, full a = false := by
  induction batch using List.reverseRecOn with
  | nil => simp
  | append_singleton batch a _ =>
    rw [latest_concat, List.filter_append, List.dropLast_concat, List.self_eq_append_left]
    simp

/-- **Nothing is lost** exactly when only the last value of a batch is full. -/
theorem taken_eq_iff : taken full batches = batches.flatten.filter full ↔
    ∀ batch ∈ batches, ∀ a ∈ batch.dropLast, full a = false := by
  induction batches with
  | nil => simp [taken]
  | cons batch batches ih =>
    have hle := length_latest_le full batch
    have hle' := length_taken_le full batches
    rw [List.forall_mem_cons, ← ih, ← latest_eq_iff]
    rw [taken, List.flatMap_cons, List.flatten_cons, List.filter_append]
    change latest full batch ++ taken full batches = _ ↔ _
    constructor
    · intro h
      have hlen := congrArg List.length h
      simp only [List.length_append] at hlen
      exact List.append_inj h (by omega)
    · rintro ⟨hbatch, hrest⟩
      rw [hbatch, hrest]

end Latest
