import Mathlib.Data.List.Basic
import Mathlib.Data.List.Perm.Basic

/-!
# Ledgers

What becomes of the items posted to a queue: `posted` in the order they came,
`line` those received so far and still to be received, in that order, and
`dropped`. An item joins the line at its end and can be dropped from there
only; a step may also rearrange the line.

Every move keeps the books (`Move.balanced`); moves that do not rearrange keep
the line in the order of posting (`Move.ordered`).
-/

structure Ledger (α : Type*) where
  posted : List α
  line : List α
  dropped : List α

namespace Ledger

variable {α : Type*} {inOrder : Prop} {l l' : Ledger α}

/-- A move. It leaves the line as it is if it is `inOrder`, one post or drop apart. -/
inductive Move (inOrder : Prop) : Ledger α → Ledger α → Prop
  | post (l : Ledger α) (e : α) : Move inOrder l ⟨l.posted ++ [e], l.line ++ [e], l.dropped⟩
  | drop (posted line dropped : List α) (e : α) :
    Move inOrder ⟨posted, line ++ [e], dropped⟩ ⟨posted, line, dropped ++ [e]⟩
  | rearrange (posted dropped : List α) {line line' : List α} (h : line.Perm line')
      (hkeep : inOrder → line' = line) :
    Move inOrder ⟨posted, line, dropped⟩ ⟨posted, line', dropped⟩

theorem Move.keep (l : Ledger α) : Move inOrder l l := .rearrange l.posted l.dropped (.refl _) fun _ => rfl

/-- Every item posted is in the line or dropped, and nothing else is. -/
def Balanced (l : Ledger α) : Prop := l.posted.Perm (l.line ++ l.dropped)

/-- The line is in the order of posting. -/
def Ordered (l : Ledger α) : Prop := l.line.Sublist l.posted

theorem Move.balanced (m : Move inOrder l l') (h : l.Balanced) : l'.Balanced := by
  cases m with
  | post _ e =>
    have hcomm : (l.line ++ (l.dropped ++ [e])).Perm (l.line ++ ([e] ++ l.dropped)) :=
      List.perm_append_comm.append_left _
    simpa [Balanced] using (h.append_right [e]).trans (by simpa using hcomm)
  | drop posted line dropped e =>
    have hcomm : (line ++ ([e] ++ dropped)).Perm (line ++ (dropped ++ [e])) :=
      List.perm_append_comm.append_left _
    exact List.Perm.trans (by simpa [Balanced] using h) hcomm
  | rearrange posted dropped hp => exact List.Perm.trans h (hp.append_right _)

theorem Move.ordered (m : Move inOrder l l') (hin : inOrder) (h : l.Ordered) : l'.Ordered := by
  cases m with
  | post _ e => exact h.append_right [e]
  | drop posted line dropped e => exact (List.sublist_append_left line [e]).trans h
  | rearrange posted dropped hp hkeep =>
    obtain rfl := hkeep hin
    exact h

end Ledger
