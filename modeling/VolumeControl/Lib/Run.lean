import Mathlib.Data.List.Basic
import Mathlib.Tactic.Tauto

/-!
# Runs of a step function

`run step s is` is the state after the inputs `is` have been fed, in order, to
a deterministic system. `AllSteps` says that a property of (state before the
step, input) holds at every step of a run. The rules here are the induction
principles of such runs: an invariant carried along a run (`run_inv`), carried
along the runs whose steps all satisfy a guard (`AllSteps.run_inv`), and a
guard traded for a pointwise equivalent one (`AllSteps.iff_of_inv`).
-/

namespace Trace

variable {σ τ ι : Type*} {step : σ → ι → σ}

/-- The state after the inputs `is`, from `s`. -/
def run (step : σ → ι → σ) (s : σ) (is : List ι) : σ := is.foldl step s

@[simp] theorem run_nil (s : σ) : run step s [] = s := rfl

@[simp] theorem run_cons (s : σ) (i : ι) (is : List ι) :
    run step s (i :: is) = run step (step s i) is := rfl

@[simp] theorem run_append (s : σ) (is js : List ι) :
    run step s (is ++ js) = run step (run step s is) js := List.foldl_append

theorem run_snoc (s : σ) (is : List ι) (i : ι) :
    run step s (is ++ [i]) = step (run step s is) i := by simp

/-- **Invariant rule.** What holds at the start and is kept by every step holds after every run. -/
theorem run_inv (Inv : σ → Prop) (hstep : ∀ s i, Inv s → Inv (step s i)) {s : σ} (h0 : Inv s)
    (is : List ι) : Inv (run step s is) := by
  induction is generalizing s with
  | nil => exact h0
  | cons i is ih => exact ih (hstep s i h0)

/-- `P` holds at every step of the run from `s`, of the state before it and its input. -/
def AllSteps (step : σ → ι → σ) (P : σ → ι → Prop) : σ → List ι → Prop
  | _, [] => True
  | s, i :: is => P s i ∧ AllSteps step P (step s i) is

variable {P Q : σ → ι → Prop}

instance AllSteps.instDecidable [∀ s i, Decidable (P s i)] :
    ∀ (s : σ) (is : List ι), Decidable (AllSteps step P s is)
  | _, [] => inferInstanceAs (Decidable True)
  | s, i :: is =>
    have := AllSteps.instDecidable (step s i) is
    inferInstanceAs (Decidable (P s i ∧ AllSteps step P (step s i) is))

@[simp] theorem allSteps_nil (s : σ) : AllSteps step P s [] := trivial

@[simp] theorem allSteps_cons (s : σ) (i : ι) (is : List ι) :
    AllSteps step P s (i :: is) ↔ P s i ∧ AllSteps step P (step s i) is := Iff.rfl

theorem allSteps_append (s : σ) (is js : List ι) :
    AllSteps step P s (is ++ js) ↔ AllSteps step P s is ∧ AllSteps step P (run step s is) js := by
  induction is generalizing s with
  | nil => simp
  | cons i is ih => simp [ih, and_assoc]

/-- `AllSteps`, read off the splittings of the input. -/
theorem allSteps_iff {s : σ} {is : List ι} :
    AllSteps step P s is ↔ ∀ pre i post, is = pre ++ i :: post → P (run step s pre) i := by
  constructor
  · rintro h pre i post rfl
    exact ((allSteps_append s pre (i :: post)).1 h).2.1
  · intro h
    induction is generalizing s with
    | nil => trivial
    | cons i is ih =>
      refine ⟨h [] i is rfl, ih fun pre j post e => ?_⟩
      exact h (i :: pre) j post (by rw [e]; rfl)

/-- **Guarded invariant rule.** An invariant kept by the steps that satisfy the guard holds
after every run all of whose steps satisfy it. -/
theorem AllSteps.run_inv {s : σ} {is : List ι} (h : AllSteps step P s is) (Inv : σ → Prop)
    (hstep : ∀ s i, Inv s → P s i → Inv (step s i)) (h0 : Inv s) : Inv (run step s is) := by
  induction is generalizing s with
  | nil => exact h0
  | cons i is ih => exact ih h.2 (hstep s i h0 h.1)

/-- Under an invariant that the guard `P` keeps, it may be traded for a weaker one. -/
theorem AllSteps.imp_of_inv {s : σ} {is : List ι} (h : AllSteps step P s is) (Inv : σ → Prop)
    (hstep : ∀ s i, Inv s → P s i → Inv (step s i)) (himp : ∀ s i, Inv s → P s i → Q s i)
    (h0 : Inv s) : AllSteps step Q s is := by
  induction is generalizing s with
  | nil => trivial
  | cons i is ih => exact ⟨himp s i h0 h.1, ih h.2 (hstep s i h0 h.1)⟩

/-- Under an invariant the guards `P` and `Q` agree on, they hold of the same runs. -/
theorem AllSteps.iff_of_inv (Inv : σ → Prop) (hiff : ∀ s i, Inv s → (P s i ↔ Q s i))
    (hstep : ∀ s i, Inv s → P s i → Inv (step s i)) {s : σ} (h0 : Inv s) (is : List ι) :
    AllSteps step P s is ↔ AllSteps step Q s is := by
  induction is generalizing s with
  | nil => rfl
  | cons i is ih =>
    rw [allSteps_cons, allSteps_cons, hiff s i h0]
    refine and_congr_right fun hq => ih (hstep s i h0 ((hiff s i h0).2 hq))

theorem allSteps_and {s : σ} {is : List ι} :
    AllSteps step (fun s i => P s i ∧ Q s i) s is ↔ AllSteps step P s is ∧ AllSteps step Q s is := by
  induction is generalizing s with
  | nil => simp
  | cons i is ih => simp only [allSteps_cons, ih]; tauto

theorem AllSteps.of_prefix {s : σ} {is pre : List ι} (h : AllSteps step P s is) (hp : pre <+: is) :
    AllSteps step P s pre := by
  obtain ⟨post, rfl⟩ := hp
  exact ((allSteps_append s pre post).1 h).1

/-! ## Outputs -/

/-- What `out` observes at every step of the run. -/
def outputs (step : σ → ι → σ) (out : σ → ι → τ) : σ → List ι → List τ
  | _, [] => []
  | s, i :: is => out s i :: outputs step out (step s i) is

variable {out : σ → ι → τ}

theorem outputs_append (s : σ) (is js : List ι) :
    outputs step out s (is ++ js) = outputs step out s is ++ outputs step out (run step s is) js := by
  induction is generalizing s with
  | nil => rfl
  | cons i is ih => simp [outputs, ih]

/-- The prefixes of the outputs are the outputs of the prefixes. -/
theorem prefix_outputs_iff {s : σ} {is : List ι} {p : List τ} :
    p <+: outputs step out s is ↔ ∃ pre, pre <+: is ∧ p = outputs step out s pre := by
  constructor
  · intro h
    induction is generalizing s p with
    | nil => exact ⟨[], List.prefix_rfl, List.prefix_nil.1 h⟩
    | cons i is ih =>
      rcases List.prefix_cons_iff.1 h with rfl | ⟨t, rfl, ht⟩
      · exact ⟨[], List.nil_prefix, rfl⟩
      · obtain ⟨pre, hpre, rfl⟩ := ih ht
        exact ⟨i :: pre, (List.prefix_cons_inj i).2 hpre, rfl⟩
  · rintro ⟨pre, ⟨post, rfl⟩, rfl⟩
    rw [outputs_append]
    exact List.prefix_append ..

end Trace
