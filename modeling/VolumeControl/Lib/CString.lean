import Mathlib.Data.List.TakeWhile

/-!
# Strings in fixed buffers

A buffer of `n` cells holds the string of its cells up to the first terminator
`nul`. `store` and `strcpy` write to a buffer and have no result where they
would write outside it, or read on without finding a terminator.
-/

namespace CString

variable {α : Type*} {n k : Nat} {nul a : α} {v dst src : Vector α n}

/-! ## Stores -/

/-- `v[i] = a`. -/
def store (v : Vector α n) (i : Int) (a : α) : Option (Vector α n) :=
  if h : 0 ≤ i ∧ i < n then some (v.set i.toNat a) else none

/-- A store in bounds. -/
theorem store_of_lt (h : k < n) : store v k a = some (v.set k a) := by
  simp [store, h]

/-- A store at `k` comes after the first `k` cells. -/
theorem take_set (h : k < n) : (v.set k a).toList.take (k + 1) = v.toList.take k ++ [a] := by
  rw [List.take_add_one, Vector.toList_set, List.take_set_of_le (Nat.le_refl k)]
  simp [h]

/-! ## Strings -/

variable [DecidableEq α]

/-- The string in a buffer. -/
def text (nul : α) (v : Vector α n) : List α := v.toList.takeWhile (· ≠ nul)

theorem text_eq_nil_iff {v : Vector α (n + 1)} : text nul v = [] ↔ v[0] = nul := by
  have hfirst : v.toList[0]? = some v[0] := by simp
  rw [text]
  cases hl : v.toList with
  | nil => simp [hl] at hfirst
  | cons b l =>
    obtain rfl : b = v[0] := by simpa [hl] using hfirst
    by_cases h : v[0] = nul <;> simp [h]

theorem takeWhile_append_nul (l l' : List α) :
    (l ++ nul :: l').takeWhile (· ≠ nul) = l.takeWhile (· ≠ nul) := by
  induction l with
  | nil => simp
  | cons b l ih =>
    by_cases hb : b = nul
    · simp [hb]
    · simp only [List.cons_append, List.takeWhile_cons, ih]

/-- A buffer that starts with `l` and a terminator. -/
theorem text_eq_of_take {l : List α} (h : v.toList.take k = l ++ [nul]) :
    text nul v = l.takeWhile (· ≠ nul) := by
  have hsplit : v.toList = l ++ nul :: v.toList.drop k := by
    conv => lhs; rw [← List.take_append_drop k v.toList, h]
    simp
  rw [text, hsplit, takeWhile_append_nul]

theorem length_text_lt (h : nul ∈ src.toList) : (text nul src).length < n := by
  have hpre := List.takeWhile_prefix (p := (· ≠ nul)) (l := src.toList)
  have hle := hpre.length_le
  have hne : (text nul src).length ≠ src.toList.length := by
    intro hlen
    have hall := List.takeWhile_eq_self_iff.1 (hpre.eq_of_length hlen) nul h
    simp at hall
  rw [Vector.length_toList] at hle hne
  exact Nat.lt_of_le_of_ne hle hne

def strcpy (nul : α) (dst src : Vector α n) : Option (Vector α n) :=
  if h : nul ∈ src.toList then
    some ⟨(text nul src ++ nul :: dst.toList.drop ((text nul src).length + 1)).toArray, by
      have := length_text_lt h
      simp
      omega⟩
  else none

/-- The copy is the string copied. -/
theorem strcpy_eq_some (dst : Vector α n) (h : nul ∈ src.toList) :
    ∃ v, strcpy nul dst src = some v ∧ text nul v = text nul src := by
  refine ⟨_, dif_pos h, ?_⟩
  have htext : (text nul src).takeWhile (· ≠ nul) = text nul src := by
    rw [text, List.takeWhile_takeWhile]
    simp
  exact (takeWhile_append_nul _ _).trans htext

end CString
