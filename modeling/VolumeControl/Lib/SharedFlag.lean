import Mathlib.Data.List.Nodup
import VolumeControl.Lib.Run

/-!
# Flags with several sources

Sources go down and up in turn. A flag is set when a source bound to it goes
down and cleared when one goes up, with no count of the sources that are down.
`exact_after_iff`: it keeps to "some source bound to it is down" exactly while
no source goes up with another one down.
-/

namespace SharedFlag

variable {ι : Type*} [DecidableEq ι]

structure Event (ι : Type*) where
  down : Bool
  source : ι
  deriving DecidableEq, Repr

/-- The sources that are down after an event. -/
def heldStep (held : List ι) (e : Event ι) : List ι :=
  if e.down then e.source :: held else held.erase e.source

/-- A source goes down when it is up, and up when it is down. -/
def WellFormed (held : List ι) (e : Event ι) : Prop :=
  if e.down then e.source ∉ held else e.source ∈ held

instance (held : List ι) (e : Event ι) : Decidable (WellFormed held e) := by
  unfold WellFormed
  infer_instance

variable {bound : ι → Prop} {held : List ι} {flag flag' : Prop} {e : Event ι}

theorem nodup_heldStep (h : held.Nodup) (hwf : WellFormed held e) : (heldStep held e).Nodup := by
  unfold heldStep
  unfold WellFormed at hwf
  split_ifs at hwf ⊢
  · exact List.nodup_cons.2 ⟨hwf, h⟩
  · exact h.erase _

/-- The flag is set when a source bound to it is down. -/
def Exact (bound : ι → Prop) (held : List ι) (flag : Prop) : Prop :=
  flag ↔ ∃ i ∈ held, bound i

/-- The flag goes with a source bound to it, and stays with another. -/
structure Follows (bound : ι → Prop) (e : Event ι) (flag flag' : Prop) : Prop where
  of_bound : bound e.source → (flag' ↔ e.down = true)
  of_not_bound : ¬ bound e.source → (flag' ↔ flag)

/-- No source goes up while another one bound to the flag is down. -/
def ReleasedAlone (bound : ι → Prop) (held : List ι) (e : Event ι) : Prop :=
  e.down = false → bound e.source → ∀ i ∈ held, bound i → i = e.source

instance [DecidablePred bound] (held : List ι) (e : Event ι) :
    Decidable (ReleasedAlone bound held e) := by
  unfold ReleasedAlone
  infer_instance

/-- **One event.** -/
theorem exact_after_iff (hexact : Exact bound held flag) (hdistinct : held.Nodup)
    (hfollows : Follows bound e flag flag') :
    Exact bound (heldStep held e) flag' ↔ ReleasedAlone bound held e := by
  cases hd : e.down with
  | true =>
    have hheld : heldStep held e = e.source :: held := by rw [heldStep, if_pos hd]
    have halone : ReleasedAlone bound held e := fun hup => by rw [hd] at hup; cases hup
    unfold Exact at hexact ⊢
    rw [hheld]
    by_cases hb : bound e.source
    · simp [hfollows.of_bound hb, hd, hb, halone]
    · simp [hfollows.of_not_bound hb, hb, halone, hexact]
  | false =>
    have hheld : heldStep held e = held.erase e.source := by simp [heldStep, hd]
    unfold Exact at hexact ⊢
    simp only [hheld, hdistinct.mem_erase_iff]
    by_cases hb : bound e.source
    · have hflag : ¬ flag' := by rw [hfollows.of_bound hb, hd]; exact Bool.false_ne_true
      simp only [iff_false_left hflag]
      constructor
      · intro h _ _ i hi hbi
        by_contra hne
        exact h ⟨i, ⟨hne, hi⟩, hbi⟩
      · rintro h ⟨i, ⟨hne, hi⟩, hbi⟩
        exact hne (h hd hb i hi hbi)
    · have halone : ReleasedAlone bound held e := fun _ hb' => absurd hb' hb
      simp only [hfollows.of_not_bound hb, iff_true_right halone]
      rw [hexact]
      constructor
      · rintro ⟨i, hi, hbi⟩
        exact ⟨i, ⟨fun he => hb (he ▸ hbi), hi⟩, hbi⟩
      · rintro ⟨i, ⟨-, hi⟩, hbi⟩
        exact ⟨i, hi, hbi⟩

/-! ## Runs -/

open Trace

variable {σ κ : Type*} {step : σ → Event ι → σ}

/-- **Flags that follow their sources are exact in a run exactly when every bound source goes up
alone.** -/
theorem run_exact_iff (heldOf : σ → List ι) (flagOf : κ → σ → Prop) (boundTo : κ → ι → Prop)
    (Inv : σ → Prop) (Guard : σ → Event ι → Prop)
    (hheld : ∀ s e, heldOf (step s e) = heldStep (heldOf s) e)
    (hinv : ∀ s e, Inv s → Inv (step s e))
    (hfollows : ∀ s e k, Inv s → Guard s e →
      Follows (boundTo k) e (flagOf k s) (flagOf k (step s e)))
    {s : σ} (h0 : Inv s) (hnone : heldOf s = []) (hclear : ∀ k, ¬ flagOf k s) {es : List (Event ι)}
    (hwf : AllSteps step (fun s e => WellFormed (heldOf s) e ∧ Guard s e) s es) :
    AllSteps step (fun s e => ∀ k, Exact (boundTo k) (heldOf (step s e)) (flagOf k (step s e))) s
        es ↔
      AllSteps step (fun s e => ∀ k, ReleasedAlone (boundTo k) (heldOf s) e) s es := by
  have hiff : AllSteps step (fun s e => (WellFormed (heldOf s) e ∧ Guard s e) ∧
        ∀ k, Exact (boundTo k) (heldOf (step s e)) (flagOf k (step s e))) s es ↔
      AllSteps step (fun s e => (WellFormed (heldOf s) e ∧ Guard s e) ∧
        ∀ k, ReleasedAlone (boundTo k) (heldOf s) e) s es := by
    refine AllSteps.iff_of_inv
      (fun s => Inv s ∧ (heldOf s).Nodup ∧ ∀ k, Exact (boundTo k) (heldOf s) (flagOf k s)) ?_ ?_ ?_ es
    · rintro s e ⟨hs, hdistinct, hexact⟩
      refine and_congr_right fun ok => forall_congr' fun k => ?_
      rw [hheld]
      exact exact_after_iff (hexact k) hdistinct (hfollows s e k hs ok.2)
    · rintro s e ⟨hs, hdistinct, -⟩ ⟨ok, hexact⟩
      exact ⟨hinv s e hs, hheld s e ▸ nodup_heldStep hdistinct ok.1, hexact⟩
    · exact ⟨h0, hnone ▸ List.nodup_nil, fun k => by simp [Exact, hnone, hclear k]⟩
  constructor
  · intro h
    exact (allSteps_and.1 (hiff.1 (allSteps_and.2 ⟨hwf, h⟩))).2
  · intro h
    exact (allSteps_and.1 (hiff.2 (allSteps_and.2 ⟨hwf, h⟩))).2

end SharedFlag
