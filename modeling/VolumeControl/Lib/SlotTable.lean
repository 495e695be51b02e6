import Mathlib.Data.List.Perm.Subperm

/-!
# Tables of slots

A table holds a fixed number of slots; a slot that holds `free` is free. `put`
stores a key in the first free slot and is lost in a full table, `clear` frees
the first slot that holds a key. `occupied` lists the keys in the table; what
the two operations do to a table is what they do to `occupied`, up to order
(`occupied_put`, `occupied_clear`).
-/

namespace SlotTable

variable {α : Type*} [DecidableEq α] {n : Nat} {free key : α} {t : Vector α n}

/-- The first free slot now holds `key`. -/
def put (free key : α) (t : Vector α n) : Vector α n :=
  ⟨(t.toList.replace free key).toArray, by simp⟩

/-- The first slot that holds `key` is free. -/
def clear (free key : α) (t : Vector α n) : Vector α n :=
  ⟨(t.toList.replace key free).toArray, by simp⟩

def occupied (free : α) (t : Vector α n) : List α := t.toList.filter (· ≠ free)

@[simp] theorem toList_put : (put free key t).toList = t.toList.replace free key := rfl

@[simp] theorem toList_clear : (clear free key t).toList = t.toList.replace key free := rfl

theorem occupied_eq_nil_iff : occupied free t = [] ↔ t = Vector.replicate n free := by
  rw [occupied, List.filter_eq_nil_iff]
  constructor
  · intro h
    ext i hi
    have := h t[i] (by simp)
    simpa using this
  · rintro rfl
    simp

/-- A table with fewer keys than slots has a free one. -/
theorem free_mem_of_length_lt (h : (occupied free t).length < n) : free ∈ t.toList := by
  by_contra hf
  have hall : occupied free t = t.toList :=
    List.filter_eq_self.2 fun a ha => by simpa using fun he : a = free => hf (he ▸ ha)
  rw [hall, Vector.length_toList] at h
  exact absurd h (Nat.lt_irrefl n)

theorem filter_replace_perm {l : List α} (hk : key ≠ free) (hf : free ∈ l) :
    ((l.replace free key).filter (· ≠ free)).Perm (key :: l.filter (· ≠ free)) := by
  induction l with
  | nil => simp at hf
  | cons a l ih =>
    by_cases ha : a = free
    · subst ha
      simp [hk]
    · have hf : free ∈ l := (List.mem_cons.1 hf).resolve_left (Ne.symm ha)
      have hne : (free == a) = false := by simpa using Ne.symm ha
      rw [List.replace_cons, hne]
      simpa [ha] using ((ih hf).cons a).trans (List.Perm.swap key a _)

theorem replace_self (a : α) (l : List α) : l.replace a a = l := by
  induction l with
  | nil => rfl
  | cons b l ih =>
    by_cases h : a = b
    · rw [h, List.replace_cons_self]
    · have hne : (a == b) = false := by simpa using h
      rw [List.replace_cons, hne, ih]

theorem filter_replace_eq_erase {l : List α} :
    (l.replace key free).filter (· ≠ free) = (l.filter (· ≠ free)).erase key := by
  induction l with
  | nil => rfl
  | cons a l ih =>
    by_cases ha : a = key
    · subst ha
      by_cases hk : a = free
      · subst hk
        rw [replace_self, List.erase_of_not_mem (by simp)]
      · simp [hk]
    · have hne : (key == a) = false := by simpa using Ne.symm ha
      rw [List.replace_cons, hne]
      by_cases hf : a = free
      · simpa [hf] using ih
      · simpa [hf, List.erase_cons, ha] using ih

/-- With a free slot a key is added. -/
theorem occupied_put (hk : key ≠ free) (hf : free ∈ t.toList) :
    (occupied free (put free key t)).Perm (key :: occupied free t) := by
  simpa [occupied] using filter_replace_perm hk hf

/-- Without a free slot it is lost. -/
theorem put_of_full (hf : free ∉ t.toList) : put free key t = t := by
  apply Vector.toList_inj.1
  rw [toList_put, List.replace_of_not_mem hf]

theorem occupied_put_subperm {l : List α} (hk : key ≠ free) (h : (occupied free t).Subperm l) :
    (occupied free (put free key t)).Subperm (key :: l) := by
  by_cases hf : free ∈ t.toList
  · exact (occupied_put hk hf).subperm.trans ((List.subperm_cons key).2 h)
  · rw [put_of_full hf]
    exact h.cons_right key

/-- A table that holds the keys of a list takes one more while there is a slot for it. -/
theorem occupied_put_perm {l : List α} (hk : key ≠ free) (h : (occupied free t).Perm l)
    (hlt : l.length < n) : (occupied free (put free key t)).Perm (key :: l) := by
  have hf : free ∈ t.toList := free_mem_of_length_lt (h.length_eq ▸ hlt)
  exact (occupied_put hk hf).trans (h.cons key)

/-- Clearing a key that is not there changes nothing. -/
theorem clear_of_not_mem (hk : key ∉ t.toList) : clear free key t = t := by
  apply Vector.toList_inj.1
  rw [toList_clear, List.replace_of_not_mem hk]

theorem occupied_clear : occupied free (clear free key t) = (occupied free t).erase key :=
  filter_replace_eq_erase

end SlotTable
