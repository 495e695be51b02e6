import Mathlib.Data.List.Perm.Subperm
import VolumeControl.Lib.Ledger
import VolumeControl.Lib.Run
import VolumeControl.Matrix.Monitor

/-!
# Two cores and one mailbox

`event_queue` and `queue_handle` run on one core, `matrix_monitor_get_event` on
the other. Here every access to a variable they share (the flag, a field of
`matrix_event`) is a step of its own, and the steps of the two sides come in
any order. The queue belongs to the producer: what it does with it is part of
the step that read the flag.

`passed`, `dropped` and `returned` are ghost logs. `Owned` says whose the
mailbox is at every point: the producer's while the flag is down and it is
about to raise it, the consumer's from the moment it sees the flag up. Every
step is a move of the ledger of events (`coreStep_move`), so none is torn,
invented, duplicated or lost: `mailbox_exact`.
-/

namespace VolumeControl

open Trace

/-- The fields of `matrix_event`, in the order they are copied. -/
inductive Field where
  | action
  | row
  | col
  deriving DecidableEq, Repr

def Field.next : Field → Option Field
  | action => some row
  | row => some col
  | col => none

def MatrixEvent.copyField (dst : MatrixEvent) (field : Field) (src : MatrixEvent) : MatrixEvent :=
  match field with
  | .action => { dst with action := src.action }
  | .row => { dst with row := src.row }
  | .col => { dst with col := src.col }

/-- The next access of the producer. -/
inductive ProducerPc where
  /-- Between calls. -/
  | idle
  /-- `event_queue` reads the flag. -/
  | eventQueue (event : MatrixEvent)
  /-- `queue_handle` reads the flag. -/
  | queueHandle
  | write (field : Field) (event : MatrixEvent)
  | raise (event : MatrixEvent)
  deriving DecidableEq, Repr

/-- The next access of the consumer. -/
inductive ConsumerPc where
  /-- `matrix_monitor_event_available` reads the flag. -/
  | idle
  /-- The assertion reads the flag. -/
  | check
  | read (field : Field) (retval : MatrixEvent)
  | lower (retval : MatrixEvent)
  /-- The assertion has failed. -/
  | failed
  deriving DecidableEq, Repr

structure Cores where
  monitor : Monitor
  producer : ProducerPc
  consumer : ConsumerPc
  passed : List MatrixEvent
  dropped : List MatrixEvent
  returned : List MatrixEvent
  deriving DecidableEq, Repr

def Cores.start : Cores := ⟨.start, .idle, .idle, [], [], []⟩

/-- A call that the producer makes if it is between calls, or the next access of a side. -/
inductive CoreStep where
  | eventQueue (row col : Int) (keyState : Bool)
  | queueHandle
  | producer
  | consumer
  deriving DecidableEq, Repr

def producerStep (s : Cores) : Cores :=
  match s.producer with
  | .idle => s
  | .eventQueue event =>
    if s.monitor.matrixEventDataPresent then
      { s with
        monitor.queue := queuePut s.monitor.queue event
        producer := .idle
        dropped := if s.monitor.queue.index < queueSize then s.dropped else s.dropped ++ [event] }
    else { s with producer := .write .action event }
  | .queueHandle =>
    if !s.monitor.matrixEventDataPresent ∧ s.monitor.queue.index ≠ 0 then
      let queue := { s.monitor.queue with index := s.monitor.queue.index - 1 }
      { s with monitor.queue := queue, producer := .write .action queue.top }
    else { s with producer := .idle }
  | .write field event =>
    { s with
      monitor.matrixEvent := s.monitor.matrixEvent.copyField field event
      producer := match field.next with
        | some field => .write field event
        | none => .raise event }
  | .raise _ => { s with monitor.matrixEventDataPresent := true, producer := .idle }

def consumerStep (s : Cores) : Cores :=
  match s.consumer with
  | .idle => if s.monitor.matrixEventDataPresent then { s with consumer := .check } else s
  | .check =>
    if s.monitor.matrixEventDataPresent then { s with consumer := .read .action .zero }
    else { s with consumer := .failed }
  | .read field retval =>
    let retval := retval.copyField field s.monitor.matrixEvent
    { s with consumer := match field.next with
        | some field => .read field retval
        | none => .lower retval }
  | .lower retval =>
    { s with
      monitor.matrixEventDataPresent := false
      consumer := .idle
      returned := s.returned ++ [retval] }
  | .failed => s

def coreStep (s : Cores) : CoreStep → Cores
  | .eventQueue row col keyState =>
    if s.producer = .idle then
      let event := matrixEventOf row col keyState
      { s with producer := .eventQueue event, passed := s.passed ++ [event] }
    else s
  | .queueHandle => if s.producer = .idle then { s with producer := .queueHandle } else s
  | .producer => producerStep s
  | .consumer => consumerStep s

/-! ## Calls that nothing interrupts -/

section
variable {s : Cores}

theorem run_eventQueue (hp : s.producer = .idle) (row col : Int) (keyState : Bool) :
    (run coreStep s (.eventQueue row col keyState :: List.replicate 5 .producer)).monitor =
      eventQueue s.monitor row col keyState := by
  cases hflag : s.monitor.matrixEventDataPresent <;>
    simp [List.replicate, coreStep, producerStep, hp, hflag, Field.next, MatrixEvent.copyField,
      eventQueue]

theorem run_queueHandle (hp : s.producer = .idle) :
    run coreStep s (.queueHandle :: List.replicate 5 .producer) =
      { s with monitor := queueHandle s.monitor } := by
  obtain ⟨m, producer, consumer, passed, dropped, returned⟩ := s
  obtain rfl : producer = .idle := hp
  cases hflag : m.matrixEventDataPresent <;> by_cases hidx : m.queue.index = 0 <;>
    simp [List.replicate, coreStep, producerStep, hflag, hidx, Field.next, MatrixEvent.copyField,
      queueHandle]

theorem run_getEvent (s : Cores) (hc : s.consumer = .idle) {event : MatrixEvent} {m : Monitor}
    (hget : matrixMonitorGetEvent s.monitor = some (event, m)) :
    run coreStep s (List.replicate 6 .consumer) =
      { s with monitor := m, returned := s.returned ++ [event] } := by
  obtain ⟨m', producer, consumer, passed, dropped, returned⟩ := s
  obtain rfl : consumer = .idle := hc
  cases hflag : m'.matrixEventDataPresent with
  | false => simp [matrixMonitorGetEvent, hflag] at hget
  | true =>
    obtain ⟨rfl, rfl⟩ : m'.matrixEvent = event ∧ { m' with matrixEventDataPresent := false } = m := by
      simpa [matrixMonitorGetEvent, hflag] using hget
    simp [List.replicate, coreStep, consumerStep, hflag, Field.next, MatrixEvent.copyField]

end

/-! ## Who owns the mailbox -/

/-- Two events agree on the fields before `field`. -/
def AgreeBefore (field : Field) (e e' : MatrixEvent) : Prop :=
  match field with
  | .action => True
  | .row => e.action = e'.action
  | .col => e.action = e'.action ∧ e.row = e'.row

/-- Copying the last field completes the copy. -/
theorem copyField_eq {field : Field} {dst src : MatrixEvent} (h : AgreeBefore field dst src)
    (hlast : field.next = none) : dst.copyField field src = src := by
  cases field with
  | action | row => cases hlast
  | col => cases dst; cases src; simpa [MatrixEvent.copyField, AgreeBefore] using h

theorem agreeBefore_copyField {field field' : Field} {dst src : MatrixEvent}
    (h : AgreeBefore field dst src) (hnext : field.next = some field') :
    AgreeBefore field' (dst.copyField field src) src := by
  cases field <;> cases hnext
  · rfl
  · exact ⟨h, rfl⟩

/-- The producer writes with the flag down. -/
def ProducerOk (m : Monitor) : ProducerPc → Prop
  | .write field e => m.matrixEventDataPresent = false ∧ AgreeBefore field m.matrixEvent e
  | .raise e => m.matrixEventDataPresent = false ∧ m.matrixEvent = e
  | _ => True

/-- The consumer reads with the flag up. -/
def ConsumerOk (m : Monitor) : ConsumerPc → Prop
  | .idle => True
  | .check => m.matrixEventDataPresent = true
  | .read field e => m.matrixEventDataPresent = true ∧ AgreeBefore field e m.matrixEvent
  | .lower e => m.matrixEventDataPresent = true ∧ e = m.matrixEvent
  | .failed => False

structure Owned (s : Cores) : Prop where
  inBounds : s.monitor.queue.InBounds
  producer : ProducerOk s.monitor s.producer
  consumer : ConsumerOk s.monitor s.consumer

theorem owned_start : Owned .start := ⟨inBounds_empty, trivial, trivial⟩

section
variable {s : Cores}

/-- With the flag down the consumer is between calls. -/
theorem Owned.consumer_idle (h : Owned s) (hflag : s.monitor.matrixEventDataPresent = false) :
    s.consumer = .idle := by
  have hc := h.consumer
  cases hs : s.consumer <;> simp_all [ConsumerOk]

theorem Owned.producerStep (h : Owned s) : Owned (producerStep s) := by
  have hprod := h.producer
  unfold VolumeControl.producerStep
  cases hp : s.producer with
  | idle => exact h
  | eventQueue e =>
    cases hflag : s.monitor.matrixEventDataPresent with
    | true => exact ⟨inBounds_queuePut h.inBounds e, trivial, h.consumer⟩
    | false => exact ⟨h.inBounds, ⟨hflag, trivial⟩, h.consumer⟩
  | queueHandle =>
    dsimp only
    split_ifs with hgo
    · exact ⟨inBounds_pop h.inBounds hgo.2, ⟨by simpa using hgo.1, trivial⟩, h.consumer⟩
    · exact ⟨h.inBounds, trivial, h.consumer⟩
  | write field e =>
    obtain ⟨hflag, hagree⟩ : ProducerOk s.monitor (.write field e) := hp ▸ hprod
    have hc := h.consumer_idle hflag
    dsimp only
    refine ⟨h.inBounds, ?_, by rw [hc]; trivial⟩
    dsimp only
    cases hnext : field.next with
    | some field' => exact ⟨hflag, agreeBefore_copyField hagree hnext⟩
    | none => exact ⟨hflag, copyField_eq hagree hnext⟩
  | raise e =>
    obtain ⟨hflag, -⟩ : ProducerOk s.monitor (.raise e) := hp ▸ hprod
    have hc := h.consumer_idle hflag
    exact ⟨h.inBounds, trivial, by rw [hc]; trivial⟩

/-- With the flag up the producer is not at the mailbox. -/
theorem Owned.producerOk (h : Owned s) (hflag : s.monitor.matrixEventDataPresent = true)
    (m : Monitor) : ProducerOk m s.producer := by
  have hp := h.producer
  cases hs : s.producer <;> simp_all [ProducerOk]

theorem Owned.consumerStep (h : Owned s) : Owned (consumerStep s) := by
  have hcons := h.consumer
  unfold VolumeControl.consumerStep
  cases hc : s.consumer with
  | idle =>
    dsimp only
    split_ifs with hflag
    · exact ⟨h.inBounds, h.producer, hflag⟩
    · exact h
  | check =>
    have hflag : s.monitor.matrixEventDataPresent = true := (hc ▸ hcons : ConsumerOk s.monitor .check)
    dsimp only
    rw [if_pos hflag]
    exact ⟨h.inBounds, h.producer, hflag, trivial⟩
  | read field e =>
    obtain ⟨hflag, hagree⟩ : ConsumerOk s.monitor (.read field e) := hc ▸ hcons
    refine ⟨h.inBounds, h.producer, ?_⟩
    dsimp only
    cases hnext : field.next with
    | some field' => exact ⟨hflag, agreeBefore_copyField hagree hnext⟩
    | none => exact ⟨hflag, copyField_eq hagree hnext⟩
  | lower e =>
    obtain ⟨hflag, -⟩ : ConsumerOk s.monitor (.lower e) := hc ▸ hcons
    exact ⟨h.inBounds, h.producerOk hflag _, trivial⟩
  | failed => exact (hc ▸ hcons : ConsumerOk s.monitor .failed).elim

theorem Owned.step (h : Owned s) (a : CoreStep) : Owned (coreStep s a) := by
  cases a with
  | eventQueue row col keyState =>
    simp only [coreStep]
    split
    · exact ⟨h.inBounds, trivial, h.consumer⟩
    · exact h
  | queueHandle =>
    simp only [coreStep]
    split
    · exact ⟨h.inBounds, trivial, h.consumer⟩
    · exact h
  | producer => exact h.producerStep
  | consumer => exact h.consumerStep

end

/-! ## The ledger of events -/

/-- The event in the mailbox. -/
def Cores.box (s : Cores) : List MatrixEvent :=
  if s.monitor.matrixEventDataPresent then [s.monitor.matrixEvent] else []

/-- The event the producer is writing to the mailbox. -/
def Cores.writing (s : Cores) : List MatrixEvent :=
  match s.producer with
  | .write _ event => [event]
  | .raise event => [event]
  | _ => []

/-- The event a call of `event_queue` has yet to place. -/
def Cores.placing (s : Cores) : List MatrixEvent :=
  match s.producer with
  | .eventQueue event => [event]
  | _ => []

/-- Events in the order the consumer receives them, if no more come. -/
def Cores.line (s : Cores) : List MatrixEvent :=
  s.returned ++ s.box ++ s.writing ++ s.monitor.queue.events ++ s.placing

def Cores.ledger (s : Cores) : Ledger MatrixEvent := ⟨s.passed, s.line, s.dropped⟩

/-- The step puts no event before another that came first: `event_queue` finds the flag down only
with an empty queue, and `queue_handle` with at most one event in it. -/
def InOrder (s : Cores) : CoreStep → Prop
  | .producer => s.monitor.matrixEventDataPresent = false →
    match s.producer with
    | .eventQueue _ => s.monitor.queue.index = 0
    | .queueHandle => s.monitor.queue.index ≤ 1
    | _ => True
  | _ => True

instance (s : Cores) (a : CoreStep) : Decidable (InOrder s a) := by
  cases a <;> unfold InOrder <;> cases s.producer <;> infer_instance

section
variable {s : Cores}

open Ledger

/-- The ledger, by where the producer is. -/
theorem Cores.ledger_eq (s : Cores) : s.ledger = ⟨s.passed,
    s.returned ++ s.box ++ (s.writing ++ s.monitor.queue.events ++ s.placing), s.dropped⟩ := by
  simp [Cores.ledger, Cores.line]

/-- `event_queue`: into the mailbox if it is free, else into the queue. -/
theorem eventQueue_move (h : Owned s) {e : MatrixEvent} (hp : s.producer = .eventQueue e) :
    Move (InOrder s .producer) s.ledger (producerStep s).ledger := by
  cases hflag : s.monitor.matrixEventDataPresent with
  | true =>
    by_cases hlt : s.monitor.queue.index < queueSize
    · -- the event joins the queue, at the end of the line
      have hline : (producerStep s).ledger = s.ledger := by
        simp [producerStep, hp, hflag, hlt, events_queuePut h.inBounds hlt, Cores.ledger_eq,
          Cores.box, Cores.writing, Cores.placing]
      rw [hline]
      exact .keep _
    · have hline : s.ledger = ⟨s.passed, s.returned ++ s.box ++ s.monitor.queue.events ++ [e],
          s.dropped⟩ := by
        simp [hp, Cores.ledger_eq, Cores.writing, Cores.placing]
      have hline' : (producerStep s).ledger = ⟨s.passed,
          s.returned ++ s.box ++ s.monitor.queue.events, s.dropped ++ [e]⟩ := by
        simp [producerStep, hp, hflag, hlt, events_queuePut_full hlt, Cores.ledger_eq, Cores.box,
          Cores.writing, Cores.placing]
      rw [hline, hline']
      exact .drop ..
  | false =>
    -- the event goes to the mailbox, past those in the queue
    have hline : s.ledger = ⟨s.passed, s.returned ++ (s.monitor.queue.events ++ [e]),
        s.dropped⟩ := by
      simp [hp, hflag, Cores.ledger_eq, Cores.box, Cores.writing, Cores.placing]
    have hline' : (producerStep s).ledger = ⟨s.passed,
        s.returned ++ ([e] ++ s.monitor.queue.events), s.dropped⟩ := by
      simp [producerStep, hp, hflag, Cores.ledger_eq, Cores.box, Cores.writing, Cores.placing]
    rw [hline, hline']
    refine .rearrange _ _ (List.perm_append_comm.append_left _) fun hin => ?_
    have hempty : s.monitor.queue.index = 0 := by simpa [InOrder, hflag, hp] using hin
    rw [events_eq_nil hempty]
    rfl

/-- `queue_handle`: from the top of the queue into the mailbox. -/
theorem queueHandle_move (h : Owned s) (hp : s.producer = .queueHandle) :
    Move (InOrder s .producer) s.ledger (producerStep s).ledger := by
  by_cases hgo : (!s.monitor.matrixEventDataPresent) ∧ s.monitor.queue.index ≠ 0
  · -- the event on top of the queue goes to the mailbox, past those below it
    have hflag : s.monitor.matrixEventDataPresent = false := by simpa using hgo.1
    have hline : s.ledger = ⟨s.passed, s.returned ++ s.monitor.queue.events, s.dropped⟩ := by
      simp [hp, hflag, Cores.ledger_eq, Cores.box, Cores.writing, Cores.placing]
    rw [events_pop h.inBounds hgo.2] at hline
    have hline' : (producerStep s).ledger = ⟨s.passed, s.returned ++
        ([Queue.top { s.monitor.queue with index := s.monitor.queue.index - 1 }] ++
          Queue.events { s.monitor.queue with index := s.monitor.queue.index - 1 }),
        s.dropped⟩ := by
      simp [producerStep, hp, hgo, hflag, Cores.ledger_eq, Cores.box, Cores.writing,
        Cores.placing]
    rw [hline, hline']
    refine .rearrange _ _ (List.perm_append_comm.append_left _) fun hin => ?_
    have hone : s.monitor.queue.index - 1 = 0 := by
      have hle : s.monitor.queue.index ≤ 1 := by simpa [InOrder, hflag, hp] using hin
      have := h.inBounds.1
      have := hgo.2
      omega
    rw [events_eq_nil hone]
    rfl
  · have hstep : producerStep s = { s with producer := .idle } := by
      rw [producerStep, hp]
      exact if_neg hgo
    have hline : (producerStep s).ledger = s.ledger := by
      rw [hstep]
      simp [hp, Cores.ledger, Cores.line, Cores.box, Cores.writing, Cores.placing]
    rw [hline]
    exact .keep _

theorem producerStep_move (h : Owned s) :
    Move (InOrder s .producer) s.ledger (producerStep s).ledger := by
  have hprod := h.producer
  cases hp : s.producer with
  | idle =>
    rw [producerStep, hp]
    exact .keep _
  | eventQueue e => exact eventQueue_move h hp
  | queueHandle => exact queueHandle_move h hp
  | write field e =>
    obtain ⟨hflag, -⟩ : ProducerOk s.monitor (.write field e) := hp ▸ hprod
    have hline : (producerStep s).ledger = s.ledger := by
      cases hn : field.next <;>
        simp [producerStep, hp, hn, hflag, Cores.ledger_eq, Cores.box, Cores.writing, Cores.placing]
    rw [hline]
    exact .keep _
  | raise e =>
    obtain ⟨hflag, hbox⟩ : ProducerOk s.monitor (.raise e) := hp ▸ hprod
    have hline : (producerStep s).ledger = s.ledger := by
      simp [producerStep, hp, hflag, hbox, Cores.ledger_eq, Cores.box, Cores.writing, Cores.placing]
    rw [hline]
    exact .keep _

theorem consumerStep_ledger (h : Owned s) : (consumerStep s).ledger = s.ledger := by
  have hcons := h.consumer
  cases hc : s.consumer with
  | idle =>
    unfold consumerStep
    simp only [hc]
    split <;> rfl
  | check =>
    unfold consumerStep
    simp only [hc]
    split <;> rfl
  | read field e =>
    unfold consumerStep
    simp only [hc]
    rfl
  | lower e =>
    -- the event leaves the mailbox as it is returned
    obtain ⟨hflag, he⟩ : ConsumerOk s.monitor (.lower e) := hc ▸ hcons
    simp [consumerStep, hc, hflag, he, Cores.ledger_eq, Cores.box, Cores.writing, Cores.placing]
  | failed => rw [consumerStep, hc]

/-- **Every step is a move of the ledger**, and keeps the line if it is in order. -/
theorem coreStep_move (h : Owned s) (a : CoreStep) :
    Move (InOrder s a) s.ledger (coreStep s a).ledger := by
  cases a with
  | eventQueue row col keyState =>
    simp only [coreStep]
    split_ifs with hp
    · have hpost : Move (InOrder s (.eventQueue row col keyState)) s.ledger _ :=
        .post s.ledger (matrixEventOf row col keyState)
      simpa [hp, Cores.ledger, Cores.line, Cores.box, Cores.writing, Cores.placing] using hpost
    · exact .keep _
  | queueHandle =>
    have hline : (coreStep s .queueHandle).ledger = s.ledger := by
      simp only [coreStep]
      split_ifs with hp
      · simp [hp, Cores.ledger, Cores.line, Cores.box, Cores.writing, Cores.placing]
      · rfl
    rw [hline]
    exact .keep _
  | producer => exact producerStep_move h
  | consumer =>
    rw [coreStep, consumerStep_ledger h]
    exact .keep _

end

/-- The books are kept and the mailbox has an owner. -/
structure CoresInv (s : Cores) : Prop extends Owned s where
  balanced : s.ledger.Balanced

theorem coresInv_start : CoresInv .start := ⟨owned_start, .refl _⟩

theorem CoresInv.step {s : Cores} (h : CoresInv s) (a : CoreStep) : CoresInv (coreStep s a) :=
  ⟨h.toOwned.step a, (coreStep_move h.toOwned a).balanced h.balanced⟩

/-- An event is dropped only by `event_queue`, when it finds the flag up and the queue full. -/
theorem coreStep_dropped {s : Cores} (h : Owned s) (a : CoreStep) :
    (coreStep s a).dropped = s.dropped ∨
      ∃ e, a = .producer ∧ s.producer = .eventQueue e ∧ s.monitor.matrixEventDataPresent = true ∧
        s.monitor.queue.index = queueSize ∧ (coreStep s a).dropped = s.dropped ++ [e] := by
  cases a with
  | eventQueue => simp only [coreStep]; split <;> exact .inl rfl
  | queueHandle => simp only [coreStep]; split <;> exact .inl rfl
  | consumer =>
    simp only [coreStep, consumerStep]
    left
    split <;> (try split) <;> rfl
  | producer =>
    simp only [coreStep, producerStep]
    cases hp : s.producer with
    | eventQueue e =>
      cases hflag : s.monitor.matrixEventDataPresent with
      | true =>
        by_cases hlt : s.monitor.queue.index < queueSize
        · left
          simp [hlt]
        · right
          have hidx : s.monitor.queue.index = queueSize := by
            have := h.inBounds.2
            omega
          exact ⟨e, by simp [hidx]⟩
      | false => exact .inl rfl
    | queueHandle =>
      left
      dsimp only
      split <;> rfl
    | idle | write | raise => exact .inl rfl

/-- **The mailbox neither tears, invents, duplicates nor silently loses an event**, whatever the
interleaving. -/
theorem mailbox_exact (steps : List CoreStep) :
    let s := run coreStep .start steps
    s.returned.Subperm s.passed ∧
      (0 ≤ s.monitor.queue.index ∧ s.monitor.queue.index ≤ 30) ∧
      (s.producer = .idle → s.passed.Perm
        (s.returned ++ s.box ++ s.monitor.queue.events ++ s.dropped)) ∧
      (∀ a, (coreStep s a).dropped = s.dropped ∨
        ∃ e, a = .producer ∧ s.producer = .eventQueue e ∧ s.monitor.matrixEventDataPresent = true ∧
          s.monitor.queue.index = 30 ∧ (coreStep s a).dropped = s.dropped ++ [e]) ∧
      s.consumer ≠ .failed := by
  intro s
  have h : CoresInv s := run_inv CoresInv (fun _ a h => h.step a) coresInv_start steps
  refine ⟨?_, h.inBounds, fun hp => ?_, coreStep_dropped h.toOwned, fun hc => ?_⟩
  · have hsub : s.returned.Sublist (s.line ++ s.dropped) := by
      simp only [Cores.line, List.append_assoc]
      exact List.sublist_append_left ..
    exact hsub.subperm.trans h.balanced.symm.subperm
  · simpa [Ledger.Balanced, Cores.ledger, Cores.line, Cores.writing, Cores.placing, hp] using h.balanced
  · have := h.consumer
    rw [hc] at this
    exact this

end VolumeControl
