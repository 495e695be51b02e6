import VolumeControl.Lib.Run

/-!
# Channels that may lose items

A system with a channel in it: a step puts items into the channel, takes some
out at its far end, and the state `held` is what is on its way. The channel
keeps the order if no step does more than lose items (`Moves`), and conveys
them if it does not even do that (`Conveys`).

`moves_sublist`: what has been taken and what is held is, in order, among what
has been put. `conveys_iff`: it is all of it exactly when every step conveys.
`delivers` puts both together for a system with an invariant, under which a
condition says which steps convey.
-/

open Trace

structure Channel (σ ι α : Type*) where
  step : σ → ι → σ
  held : σ → List α
  put : σ → ι → List α
  take : σ → ι → List α

namespace Channel

variable {σ ι α : Type*} (c : Channel σ ι α) {s : σ} {is : List ι}

def Moves (s : σ) (i : ι) : Prop := (c.take s i ++ c.held (c.step s i)).Sublist (c.held s ++ c.put s i)

def Conveys (s : σ) (i : ι) : Prop := c.take s i ++ c.held (c.step s i) = c.held s ++ c.put s i

/-- All that a run puts. -/
def puts (s : σ) (is : List ι) : List α := (outputs c.step c.put s is).flatten

/-- All that a run takes. -/
def takes (s : σ) (is : List ι) : List α := (outputs c.step c.take s is).flatten

@[simp] theorem puts_nil (s : σ) : c.puts s [] = [] := rfl

@[simp] theorem puts_cons (s : σ) (i : ι) (is : List ι) :
    c.puts s (i :: is) = c.put s i ++ c.puts (c.step s i) is := rfl

@[simp] theorem takes_nil (s : σ) : c.takes s [] = [] := rfl

@[simp] theorem takes_cons (s : σ) (i : ι) (is : List ι) :
    c.takes s (i :: is) = c.take s i ++ c.takes (c.step s i) is := rfl

variable {c}

theorem Conveys.moves {i : ι} (h : c.Conveys s i) : c.Moves s i := by
  unfold Moves
  rw [show c.take s i ++ c.held (c.step s i) = _ from h]

/-- **Order is kept.** -/
theorem moves_sublist (h : AllSteps c.step c.Moves s is) :
    (c.takes s is ++ c.held (run c.step s is)).Sublist (c.held s ++ c.puts s is) := by
  induction is generalizing s with
  | nil => simp
  | cons i is ih =>
    obtain ⟨hmove, hrest⟩ := h
    have htail := (ih hrest).append_left (c.take s i)
    have hhead := hmove.append_right (c.puts (c.step s i) is)
    simp only [takes_cons, puts_cons, run_cons, List.append_assoc] at htail hhead ⊢
    exact htail.trans hhead

/-- **Nothing is lost** exactly when no step loses anything. -/
theorem conveys_iff (h : AllSteps c.step c.Moves s is) :
    c.takes s is ++ c.held (run c.step s is) = c.held s ++ c.puts s is ↔
      AllSteps c.step c.Conveys s is := by
  induction is generalizing s with
  | nil => simp
  | cons i is ih =>
    obtain ⟨hmove, hrest⟩ := h
    have hall := ih hrest
    rw [allSteps_cons, ← hall]
    constructor
    · intro heq
      have hlen := congrArg List.length heq
      have hle := hmove.length_le
      have hle' := (moves_sublist hrest).length_le
      simp only [takes_cons, puts_cons, run_cons, List.length_append] at hlen hle hle'
      refine ⟨hmove.eq_of_length ?_, (moves_sublist hrest).eq_of_length ?_⟩
      · simp only [List.length_append]
        omega
      · simp only [List.length_append]
        omega
    · rintro ⟨hhead, htail⟩
      have hhead' := congrArg (· ++ c.puts (c.step s i) is) hhead
      simp only [takes_cons, puts_cons, run_cons, List.append_assoc] at htail hhead' ⊢
      rw [htail]
      exact hhead'

/-- **Delivery under an invariant.** `ok` is what the invariant needs of the steps, `intact` what
the channel needs not to lose anything. -/
theorem delivers (inv : σ → Prop) {ok intact : σ → ι → Prop}
    (hstep : ∀ s i, inv s → ok s i → inv (c.step s i)) (hmoves : ∀ s i, inv s → c.Moves s i)
    (hconveys : ∀ s i, inv s → (c.Conveys s i ↔ intact s i)) (h0 : inv s)
    (hok : AllSteps c.step ok s is) :
    (c.takes s is ++ c.held (run c.step s is)).Sublist (c.held s ++ c.puts s is) ∧
      (c.takes s is ++ c.held (run c.step s is) = c.held s ++ c.puts s is ↔
        AllSteps c.step intact s is) := by
  have hmove : AllSteps c.step c.Moves s is :=
    hok.imp_of_inv inv hstep (fun s i hs _ => hmoves s i hs) h0
  refine ⟨moves_sublist hmove, (conveys_iff hmove).trans ⟨fun h => ?_, fun h => ?_⟩⟩
  · exact (allSteps_and.2 ⟨hok, h⟩).imp_of_inv inv (fun s i hs hi => hstep s i hs hi.1)
      (fun s i hs hi => (hconveys s i hs).1 hi.2) h0
  · exact (allSteps_and.2 ⟨hok, h⟩).imp_of_inv inv (fun s i hs hi => hstep s i hs hi.1)
      (fun s i hs hi => (hconveys s i hs).2 hi.2) h0

end Channel
