import Mathlib.Algebra.BigOperators.Group.List.Basic
import Mathlib.Algebra.Order.Group.Multiset
import VolumeControl.Lib.Run

/-!
# Agendas

An agenda holds items, each due at a time. An item joins it, is served when it is
due and none is due before it, or is withdrawn. `Move` says which of these an
`Event` was; a system whose steps are moves of an agenda keeps its books along
every run (`balanced_run`).
-/

namespace Agenda

open Trace

variable {α : Type*}

inductive Event (α : Type*)
  | none
  | joined (e : α)
  | served (e : α)
  | withdrawn (e : α)
  deriving DecidableEq, Repr

/-- A move at the time `now`, from the items before it to those after. -/
inductive Move (due : α → ℕ) (now : ℕ) : Multiset α → Event α → Multiset α → Prop
  | none (w : Multiset α) : Move due now w .none w
  | join (e : α) (w : Multiset α) : Move due now w (.joined e) (e ::ₘ w)
  | serve (e : α) (w : Multiset α) (hdue : due e ≤ now) (hle : ∀ b ∈ w, due e ≤ due b) :
    Move due now (e ::ₘ w) (.served e) w
  | withdraw (e : α) (w : Multiset α) : Move due now (e ::ₘ w) (.withdrawn e) w

def Event.joins : Event α → Multiset α
  | .joined e => {e}
  | _ => 0

/-- What leaves the agenda. -/
def Event.leaves : Event α → Multiset α
  | .served e => {e}
  | .withdrawn e => {e}
  | _ => 0

variable {due : α → ℕ} {now : ℕ} {w w' : Multiset α} {ev : Event α}

theorem Move.balanced (m : Move due now w ev w') : w + ev.joins = ev.leaves + w' := by
  cases m with
  | none => simp [Event.joins, Event.leaves]
  | join e => simp [Event.joins, Event.leaves, add_comm w]
  | serve e => simp [Event.joins, Event.leaves]
  | withdraw e => simp [Event.joins, Event.leaves]

variable {σ ι : Type*} {step : σ → ι → σ} {event : σ → ι → Event α}

/-- **The books of a run.** What was there and what joined is what left and what is there. -/
theorem balanced_run (clock : σ → ℕ) (waiting : σ → Multiset α) {s : σ} {is : List ι}
    (h : AllSteps step (fun s i => Move due (clock s) (waiting s) (event s i) (waiting (step s i)))
      s is) :
    waiting s + ((outputs step event s is).map Event.joins).sum =
      ((outputs step event s is).map Event.leaves).sum + waiting (run step s is) := by
  induction is generalizing s with
  | nil => simp [outputs]
  | cons i is ih =>
    have hstep := h.1.balanced
    have hrun := ih h.2
    simp only [outputs, List.map_cons, List.sum_cons, run_cons]
    calc waiting s + ((event s i).joins + ((outputs step event (step s i) is).map Event.joins).sum)
        = (event s i).leaves + (waiting (step s i) +
            ((outputs step event (step s i) is).map Event.joins).sum) := by
          rw [← add_assoc, hstep, add_assoc]
      _ = _ := by rw [hrun, add_assoc]

end Agenda
