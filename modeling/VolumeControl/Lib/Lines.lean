import Mathlib.Data.List.Induction

/-!
# Lines of a stream

`split sep s` are the complete lines of a stream, those that `sep` has ended,
and the unfinished rest, as they come out of reading the stream from its start.
`split_iff`: they are the one way to cut the stream at every `sep`.
-/

namespace Lines

variable {α : Type*} [DecidableEq α] {sep : α} {s : List α} {ls : List (List α)} {p : List α}

def feed (sep : α) (acc : List (List α) × List α) (c : α) : List (List α) × List α :=
  if c = sep then (acc.1 ++ [acc.2], []) else (acc.1, acc.2 ++ [c])

def split (sep : α) (s : List α) : List (List α) × List α := s.foldl (feed sep) ([], [])

theorem split_snoc (s : List α) (c : α) : split sep (s ++ [c]) = feed sep (split sep s) c := by
  simp [split]

/-- The lines, each with its end, and the rest make up the stream. -/
theorem join_split (sep : α) (s : List α) :
    (split sep s).1.flatMap (· ++ [sep]) ++ (split sep s).2 = s := by
  induction s using List.reverseRecOn with
  | nil => rfl
  | append_singleton s c ih =>
    rw [split_snoc, feed]
    split_ifs with hc
    · rw [List.flatMap_append, List.append_nil, List.flatMap_singleton, ← List.append_assoc, ih, hc]
    · rw [← List.append_assoc, ih]

theorem not_mem_split (sep : α) (s : List α) :
    (∀ l ∈ (split sep s).1, sep ∉ l) ∧ sep ∉ (split sep s).2 := by
  induction s using List.reverseRecOn with
  | nil => simp [split]
  | append_singleton s c ih =>
    rw [split_snoc, feed]
    split_ifs with hc
    · refine ⟨fun l hl => ?_, by simp⟩
      rcases List.mem_append.1 hl with hl | hl
      · exact ih.1 l hl
      · rw [List.mem_singleton.1 hl]
        exact ih.2
    · exact ⟨ih.1, by simpa [ih.2] using fun h => hc h.symm⟩

/-- Reading on without an end of line. -/
theorem foldl_feed (acc : List (List α) × List α) (h : sep ∉ p) :
    p.foldl (feed sep) acc = (acc.1, acc.2 ++ p) := by
  induction p generalizing acc with
  | nil => simp
  | cons c p ih =>
    rw [List.mem_cons, not_or] at h
    rw [List.foldl_cons, feed, if_neg (Ne.symm h.1), ih _ h.2]
    simp

theorem split_append (s : List α) (h : sep ∉ p) :
    split sep (s ++ p) = ((split sep s).1, (split sep s).2 ++ p) := by
  rw [split, List.foldl_append]
  exact foldl_feed _ h

/-- Reading on: the unfinished rest is the start of what comes. -/
theorem split_append_eq (s t : List α) : split sep (s ++ t) =
    ((split sep s).1 ++ (split sep ((split sep s).2 ++ t)).1,
      (split sep ((split sep s).2 ++ t)).2) := by
  induction t using List.reverseRecOn with
  | nil =>
    have hrest : split sep (split sep s).2 = ([], (split sep s).2) :=
      split_append [] (not_mem_split sep s).2
    rw [List.append_nil, List.append_nil, hrest]
    simp
  | append_singleton t c ih =>
    rw [← List.append_assoc, split_snoc, ih, ← List.append_assoc, split_snoc, feed, feed]
    split_ifs <;> simp

theorem foldl_feed_lines (h : ∀ l ∈ ls, sep ∉ l) (hp : sep ∉ p) (acc : List (List α)) :
    (ls.flatMap (· ++ [sep]) ++ p).foldl (feed sep) (acc, []) = (acc ++ ls, p) := by
  induction ls generalizing acc with
  | nil => simp [foldl_feed _ hp]
  | cons l ls ih =>
    have hl : sep ∉ l := h l List.mem_cons_self
    rw [List.flatMap_cons, List.append_assoc, List.append_assoc, List.foldl_append,
      foldl_feed _ hl, List.singleton_append, List.foldl_cons, feed, if_pos rfl]
    simpa using ih (fun l' hl' => h l' (List.mem_cons_of_mem _ hl')) (acc ++ [l])

/-- **The one way to cut a stream into lines.** -/
theorem split_iff : split sep s = (ls, p) ↔
    ls.flatMap (· ++ [sep]) ++ p = s ∧ (∀ l ∈ ls, sep ∉ l) ∧ sep ∉ p := by
  constructor
  · intro h
    have hjoin := join_split sep s
    have hnot := not_mem_split sep s
    rw [h] at hjoin hnot
    exact ⟨hjoin, hnot⟩
  · rintro ⟨rfl, hls, hp⟩
    simpa [split] using foldl_feed_lines hls hp []

end Lines
