import VolumeControl.Matrix.Cores

/-!
# The order of delivery

An event reaches the mailbox straight from `event_queue` or through the queue.
`returned_in_order`: the consumer receives events in the order they happened in
every run in which no event overtakes another on the way: `event_queue` finds
the flag down only with an empty queue, and `queue_handle` with at most one
event in it.
-/

namespace VolumeControl

open Trace

/-- **Events arrive in order** when none overtakes another. -/
theorem returned_in_order (steps : List CoreStep) (h : AllSteps coreStep InOrder .start steps) :
    (run coreStep .start steps).returned.Sublist (run coreStep .start steps).passed := by
  have hinv : CoresInv (run coreStep .start steps) ∧ (run coreStep .start steps).ledger.Ordered :=
    h.run_inv (fun s => CoresInv s ∧ s.ledger.Ordered)
      (fun s a hs hin => ⟨hs.1.step a, (coreStep_move hs.1.toOwned a).ordered hin hs.2⟩)
      ⟨coresInv_start, .slnil⟩
  have hsub : (run coreStep .start steps).returned.Sublist (run coreStep .start steps).line := by
    simp only [Cores.line, List.append_assoc]
    exact List.sublist_append_left ..
  exact hsub.trans hinv.2

/-- An uninterrupted call of `event_queue` for a key that went down. -/
def callEventQueue (row col : Int) : List CoreStep :=
  .eventQueue row col true :: List.replicate 5 .producer

def callQueueHandle : List CoreStep := .queueHandle :: List.replicate 5 .producer

def callGetEvent : List CoreStep := List.replicate 6 .consumer

/-- One key goes through the mailbox, the next through the queue. -/
theorem returned_in_order_two :
    let s := run coreStep .start (callEventQueue 0 0 ++ callEventQueue 0 1 ++ callGetEvent ++
      callQueueHandle ++ callGetEvent)
    s.returned.Sublist s.passed :=
  returned_in_order _ (by decide +kernel)

/-- Three keys go down in one scan: the third is delivered before the second. -/
theorem returned_in_order_counterexample :
    ¬ ∀ steps, (run coreStep .start steps).returned.Sublist (run coreStep .start steps).passed := by
  intro h
  have := h (callEventQueue 0 0 ++ callEventQueue 0 1 ++ callEventQueue 0 2 ++ callGetEvent ++
    callQueueHandle ++ callGetEvent ++ callQueueHandle ++ callGetEvent)
  revert this
  decide +kernel

end VolumeControl
