import VolumeControl.Defines

/-!
# The event queue of monitor_matrix

The functions that hand matrix events from the core that scans the matrix to
the core that handles them: a mailbox of one event with a flag, and a queue of
30 events for when the flag is set. `Monitor` holds the static variables they
share.
-/

namespace VolumeControl

/-- `matrix_event_t`. -/
structure MatrixEvent where
  action : Action
  row : Int
  col : Int
  deriving DecidableEq, Repr

def MatrixEvent.zero : MatrixEvent := ⟨.none, 0, 0⟩

def queueSize : Nat := 30

/-- `queue` and `queue_index`. -/
structure Queue where
  slots : Vector MatrixEvent queueSize
  index : Int
  deriving DecidableEq, Repr

def Queue.empty : Queue := ⟨Vector.replicate queueSize .zero, 0⟩

/-- `queue[0..queue_index)`. -/
def Queue.events (q : Queue) : List MatrixEvent := q.slots.toList.take q.index.toNat

/-- `queue[queue_index]`. -/
def Queue.top (q : Queue) : MatrixEvent := q.slots.toList.getD q.index.toNat .zero

def queuePut (q : Queue) (event : MatrixEvent) : Queue :=
  if q.index < queueSize then
    ⟨q.slots.setIfInBounds q.index.toNat event, q.index + 1⟩
  else q

structure Monitor where
  matrixEvent : MatrixEvent
  matrixEventDataPresent : Bool
  queue : Queue
  deriving DecidableEq, Repr

def Monitor.start : Monitor := ⟨.zero, false, .empty⟩

def matrixMonitorEventAvailable (m : Monitor) : Bool := m.matrixEventDataPresent

/-- No result when the assertion fails. -/
def matrixMonitorGetEvent (m : Monitor) : Option (MatrixEvent × Monitor) :=
  if m.matrixEventDataPresent then
    some (m.matrixEvent, { m with matrixEventDataPresent := false })
  else none

def queueHandle (m : Monitor) : Monitor :=
  if !m.matrixEventDataPresent then
    if m.queue.index ≠ 0 then
      let queue := { m.queue with index := m.queue.index - 1 }
      ⟨queue.top, true, queue⟩
    else m
  else m

/-- The event that `event_queue` passes on. -/
def matrixEventOf (row col : Int) (keyState : Bool) : MatrixEvent :=
  ⟨if keyState then .down else .up, row, col⟩

def eventQueue (m : Monitor) (row col : Int) (keyState : Bool) : Monitor :=
  let event := matrixEventOf row col keyState
  if m.matrixEventDataPresent then
    { m with queue := queuePut m.queue event }
  else
    { m with matrixEvent := event, matrixEventDataPresent := true }

/-! ## The queue as a list -/

/-- The index is in bounds, with the queue full at 30. -/
def Queue.InBounds (q : Queue) : Prop := 0 ≤ q.index ∧ q.index ≤ queueSize

theorem inBounds_empty : Queue.empty.InBounds := by
  simp [Queue.InBounds, Queue.empty]

section
variable {q : Queue}

theorem inBounds_queuePut (h : q.InBounds) (event : MatrixEvent) :
    (queuePut q event).InBounds := by
  unfold queuePut
  split
  · exact ⟨by have := h.1; show 0 ≤ q.index + 1; omega, by show q.index + 1 ≤ queueSize; omega⟩
  · exact h

theorem inBounds_pop (h : q.InBounds) (hne : q.index ≠ 0) :
    Queue.InBounds { q with index := q.index - 1 } :=
  ⟨by have := h.1; show 0 ≤ q.index - 1; omega, by have := h.2; show q.index - 1 ≤ queueSize; omega⟩

/-- There is room: the event goes on top. -/
theorem events_queuePut (h : q.InBounds) (hlt : q.index < queueSize) (event : MatrixEvent) :
    (queuePut q event).events = q.events ++ [event] := by
  obtain ⟨n, hn⟩ := Int.eq_ofNat_of_zero_le h.1
  have hlt' : n < queueSize := by omega
  have hidx : (q.index + 1).toNat = n + 1 := by omega
  have hidx' : q.index.toNat = n := by omega
  simp only [queuePut, if_pos hlt, Queue.events, hidx, hidx', Vector.toList_setIfInBounds]
  rw [List.take_add_one, List.take_set_of_le (Nat.le_refl n)]
  simp [hlt']

/-- The queue is full: the event is lost. -/
theorem events_queuePut_full (hfull : ¬ q.index < queueSize) (event : MatrixEvent) :
    (queuePut q event).events = q.events := by
  rw [queuePut, if_neg hfull]

/-- The event taken is the one on top. -/
theorem events_pop (h : q.InBounds) (hne : q.index ≠ 0) :
    q.events = Queue.events { q with index := q.index - 1 } ++
      [Queue.top { q with index := q.index - 1 }] := by
  obtain ⟨n, hn⟩ := Int.eq_ofNat_of_zero_le h.1
  have hle := h.2
  obtain ⟨k, rfl⟩ : ∃ k, n = k + 1 := ⟨n - 1, by omega⟩
  have hk : (q.index - 1).toNat = k := by omega
  have hk' : q.index.toNat = k + 1 := by omega
  simp only [Queue.events, Queue.top, hk, hk']
  rw [List.take_add_one]
  have hlen : k < q.slots.toList.length := by simp; omega
  simp [List.getD_eq_getElem?_getD, List.getElem?_eq_getElem hlen]

theorem events_eq_nil (h : q.index = 0) : q.events = [] := by
  simp [Queue.events, h]

end

end VolumeControl
