import Mathlib.Algebra.Order.Group.Abs
import Mathlib.Algebra.Order.Ring.Int
import VolumeControl.Lib.Run

/-!
# Walks

A walk visits positions one after the other. `climbs f` counts the steps that
raise the height `f`, `falls f` those that lower it. When no step changes the
height by more than one, they differ by the height gained (`climbs_sub_falls`),
whatever the walk does in between.
-/

open Trace

namespace Walk

variable {α : Type*} (f : α → Int) {p : α} {qs : List α}

/-- Where a walk from `p` ends. -/
def stop (p : α) (qs : List α) : α := run (fun _ q => q) p qs

@[simp] theorem stop_cons (p q : α) (qs : List α) : stop p (q :: qs) = stop q qs := rfl

def climbs : α → List α → Nat
  | _, [] => 0
  | p, q :: qs => (if f p < f q then 1 else 0) + climbs q qs

def falls : α → List α → Nat
  | _, [] => 0
  | p, q :: qs => (if f q < f p then 1 else 0) + falls q qs

/-- Every step of the walk satisfies `R`. -/
def Steps (R : α → α → Prop) (p : α) (qs : List α) : Prop := AllSteps (fun _ q => q) R p qs

@[simp] theorem steps_nil (R : α → α → Prop) (p : α) : Steps R p [] := trivial

@[simp] theorem steps_cons (R : α → α → Prop) (p q : α) (qs : List α) :
    Steps R p (q :: qs) ↔ R p q ∧ Steps R q qs := Iff.rfl

variable {f}

theorem Steps.imp {R R' : α → α → Prop} (h : Steps R p qs) (himp : ∀ p q, R p q → R' p q) :
    Steps R' p qs := by
  induction qs generalizing p with
  | nil => trivial
  | cons q qs ih => exact ⟨himp p q h.1, ih h.2⟩

/-- **The height gained** by a walk that climbs and falls by one at most. -/
theorem climbs_sub_falls (h : Steps (fun p q => |f q - f p| ≤ 1) p qs) :
    (climbs f p qs : Int) - falls f p qs = f (stop p qs) - f p := by
  induction qs generalizing p with
  | nil => simp [climbs, falls, stop]
  | cons q qs ih =>
    obtain ⟨hstep, hrest⟩ := h
    have hih : (climbs f q qs : Int) - falls f q qs = f (stop q qs) - f q := ih hrest
    obtain ⟨hlow, hhigh⟩ : -1 ≤ f q - f p ∧ f q - f p ≤ 1 := abs_le.1 hstep
    rw [stop_cons, climbs, falls]
    push_cast
    rcases lt_trichotomy (f p) (f q) with hlt | heq | hgt
    · rw [if_pos hlt, if_neg (by omega)]
      omega
    · rw [if_neg (by omega), if_neg (by omega)]
      omega
    · rw [if_neg (by omega), if_pos hgt]
      omega

theorem falls_eq_zero (h : Steps (fun p q => f p ≤ f q) p qs) : falls f p qs = 0 := by
  induction qs generalizing p with
  | nil => rfl
  | cons q qs ih => rw [falls, if_neg (not_lt.2 h.1), ih h.2]

theorem climbs_eq_zero (h : Steps (fun p q => f q ≤ f p) p qs) : climbs f p qs = 0 := by
  induction qs generalizing p with
  | nil => rfl
  | cons q qs ih => rw [climbs, if_neg (not_lt.2 h.1), ih h.2]

end Walk
