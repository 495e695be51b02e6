import Mathlib.Algebra.BigOperators.Group.List.Basic
import Mathlib.Tactic.IntervalCases
import VolumeControl.Lib.Grid
import VolumeControl.Matrix.Cores

/-!
# The scan loop

`monitor_keys` samples the matrix row by row, debounces every key, and passes
on each change with `event_queue`; `queue_handle` follows every full scan. The
loop runs interleaved with the consumer, its calls access by access as in
`Matrix/Cores.lean`.

`net` counts for a key the DOWN events less the UP events. For the events
passed on it is 1 exactly for the keys the matrix shows down (`ScanInv`), so
once mailbox and queue are empty the consumer has seen the matrix, up to the
events dropped at a full queue: `consumer_catches_up`.
-/

namespace VolumeControl

open Trace

/-- Where `monitor_keys` is in its loops. -/
inductive ScanPc where
  /-- Before the test of the outer loop. -/
  | row (r : Nat)
  /-- Before the test of the inner loop. -/
  | col (r c : Nat) (currentTimeUs : BitVec 64)
  deriving DecidableEq, Repr

structure Scan where
  pc : ScanPc
  matrix : Vector (Vector Bool 8) 5
  timestampLastUpdateUs : Vector (Vector (BitVec 64) 8) 5
  cores : Cores
  deriving DecidableEq, Repr

def Scan.start : Scan := ⟨.row 0, Grid.replicate 5 8 false, Grid.replicate 5 8 0, .start⟩

def timeoutUs : BitVec 64 := 10000

/-- One step of the scanning core, or one access of the consumer. `gpio` and `time` are what
`gpio_get` and the clock read if the step reads them. -/
inductive ScanStep where
  | scanner (gpio : Bool) (time : BitVec 64)
  | consumer
  deriving DecidableEq, Repr

/-- The next piece of the loop, between calls. -/
def scanLoop (side : Side) (s : Scan) (gpio : Bool) (time : BitVec 64) : Scan :=
  match s.pc with
  | .row r =>
    if r < side.rowCount then { s with pc := .col r 0 time }
    else { s with pc := .row 0, cores := coreStep s.cores .queueHandle }
  | .col r c currentTimeUs =>
    if c < side.colCount then
      let keyState := !gpio
      if keyState ≠ Grid.get s.matrix r c ∧
          currentTimeUs - Grid.get s.timestampLastUpdateUs r c > timeoutUs then
        { pc := .col r (c + 1) currentTimeUs
          matrix := Grid.set s.matrix r c keyState
          timestampLastUpdateUs := Grid.set s.timestampLastUpdateUs r c currentTimeUs
          cores := coreStep s.cores (.eventQueue r c keyState) }
      else { s with pc := .col r (c + 1) currentTimeUs }
    else { s with pc := .row (r + 1) }

def scanStep (side : Side) (s : Scan) : ScanStep → Scan
  | .scanner gpio time =>
    if s.cores.producer = .idle then scanLoop side s gpio time
    else { s with cores := coreStep s.cores .producer }
  | .consumer => { s with cores := coreStep s.cores .consumer }

/-! ## Counting -/

def MatrixEvent.delta (row col : Int) (e : MatrixEvent) : Int :=
  if e.row = row ∧ e.col = col then
    match e.action with
    | .down => 1
    | .up => -1
    | _ => 0
  else 0

/-- DOWN events of a key less its UP events. -/
def net (row col : Int) (es : List MatrixEvent) : Int := (es.map (MatrixEvent.delta row col)).sum

section
variable {row col : Int}

@[simp] theorem net_append (es es' : List MatrixEvent) :
    net row col (es ++ es') = net row col es + net row col es' := by
  simp [net]

theorem net_perm {es es' : List MatrixEvent} (h : es.Perm es') : net row col es = net row col es' :=
  (h.map _).sum_eq

@[simp] theorem net_matrixEventOf (row' col' : Int) (keyState : Bool) :
    net row col [matrixEventOf row' col' keyState] =
      if row' = row ∧ col' = col then (if keyState then 1 else -1) else 0 := by
  cases keyState <;> simp [net, MatrixEvent.delta, matrixEventOf]

end

/-! ## The invariant -/

structure ScanInv (side : Side) (s : Scan) : Prop where
  cores : CoresInv s.cores
  row_lt : ∀ r c t, s.pc = .col r c t → r < side.rowCount
  /-- The events passed on tell what the matrix shows. -/
  net_passed : ∀ r c : Nat,
    net r c s.cores.passed = if Grid.get s.matrix r c = true then 1 else 0

theorem scanInv_start (side : Side) : ScanInv side .start where
  cores := coresInv_start
  row_lt _ _ _ h := by cases h
  net_passed r c := by
    have : Grid.get Scan.start.matrix r c = false := Grid.get_replicate_default
    rw [this]
    rfl

/-- Only a call of `event_queue` passes an event on. -/
theorem coreStep_passed (s : Cores) (a : CoreStep)
    (ha : ∀ row col keyState, a ≠ .eventQueue row col keyState) :
    (coreStep s a).passed = s.passed := by
  cases a with
  | eventQueue row col keyState => exact absurd rfl (ha row col keyState)
  | queueHandle =>
    simp only [coreStep]
    split <;> rfl
  | producer =>
    simp only [coreStep, producerStep]
    split <;> (try split) <;> rfl
  | consumer =>
    simp only [coreStep, consumerStep]
    split <;> (try split) <;> rfl

section
variable {side : Side} {s : Scan}

theorem ScanInv.scanLoop (h : ScanInv side s) (hidle : s.cores.producer = .idle) (gpio : Bool)
    (time : BitVec 64) : ScanInv side (scanLoop side s gpio time) := by
  unfold VolumeControl.scanLoop
  cases hpc : s.pc with
  | row r =>
    dsimp only
    split_ifs with hr
    · exact ⟨h.cores, fun r' c t he => by cases he; exact hr, h.net_passed⟩
    · refine ⟨h.cores.step .queueHandle, (fun _ _ _ he => by cases he), ?_⟩
      dsimp only
      rw [coreStep_passed _ _ (by simp)]
      exact h.net_passed
  | col r c currentTimeUs =>
    have hr := h.row_lt r c currentTimeUs hpc
    dsimp only
    split_ifs with hc hchange
    · refine ⟨h.cores.step (.eventQueue r c !gpio), fun r' c' t he => by cases he; exact hr, fun r' c' => ?_⟩
      have hpassed : (coreStep s.cores (.eventQueue r c !gpio)).passed =
          s.cores.passed ++ [matrixEventOf r c !gpio] := by
        simp [coreStep, hidle]
      dsimp only
      rw [hpassed, net_append, h.net_passed, net_matrixEventOf,
        Grid.get_set s.matrix (by have := side.rowCount_le; omega) (by have := side.colCount_le; omega)]
      -- the matrix flips at this key only, with the event that says so
      by_cases heq : r' = r ∧ c' = c
      · obtain ⟨rfl, rfl⟩ := heq
        have hne := hchange.1
        cases gpio <;> cases hm : Grid.get s.matrix r' c' <;> simp_all
      · have hne : ¬ ((r : Int) = r' ∧ (c : Int) = c') := by omega
        rw [if_neg hne, if_neg heq, add_zero]
    · exact ⟨h.cores, fun r' c' t he => by cases he; exact hr, h.net_passed⟩
    · exact ⟨h.cores, (fun _ _ _ he => by cases he), h.net_passed⟩

theorem ScanInv.step (h : ScanInv side s) (a : ScanStep) : ScanInv side (scanStep side s a) := by
  cases a with
  | scanner gpio time =>
    simp only [scanStep]
    split_ifs with hidle
    · exact h.scanLoop hidle gpio time
    · refine ⟨h.cores.step .producer, h.row_lt, ?_⟩
      dsimp only
      rw [coreStep_passed _ _ (by simp)]
      exact h.net_passed
  | consumer =>
    refine ⟨h.cores.step .consumer, h.row_lt, ?_⟩
    dsimp only [scanStep]
    rw [coreStep_passed _ _ (by simp)]
    exact h.net_passed

end

/-- The step of `event_queue` that finds the flag up and the queue full. -/
def FindsQueueFull (s : Scan) : ScanStep → Prop
  | .scanner _ _ => (∃ e, s.cores.producer = .eventQueue e) ∧
      s.cores.monitor.matrixEventDataPresent = true ∧ s.cores.monitor.queue.index = queueSize
  | .consumer => False

/-- No other step drops an event. -/
theorem scanStep_dropped {side : Side} {s : Scan} (h : Owned s.cores) (a : ScanStep) :
    (scanStep side s a).cores.dropped = s.cores.dropped ∨ FindsQueueFull s a := by
  cases a with
  | scanner gpio time =>
    simp only [scanStep]
    split_ifs with hidle
    · left
      have hcall (a : CoreStep) (ha : a ≠ .producer) :
          (coreStep s.cores a).dropped = s.cores.dropped :=
        (coreStep_dropped h a).resolve_right fun ⟨_, he, _⟩ => ha he
      unfold VolumeControl.scanLoop
      split
      · split
        · rfl
        · exact hcall _ (by simp)
      · dsimp only
        split
        · split
          · exact hcall _ (by simp)
          · rfl
        · rfl
    · rcases coreStep_dropped h .producer with hd | ⟨e, -, hp, hflag, hfull, -⟩
      · exact .inl hd
      · exact .inr ⟨⟨e, hp⟩, hflag, hfull⟩
  | consumer =>
    exact .inl ((coreStep_dropped h .consumer).resolve_right fun ⟨_, he, _⟩ => by cases he)

/-- With mailbox and queue empty, the events returned and dropped tell what the matrix shows. -/
theorem ScanInv.net_returned {side : Side} {s : Scan} (h : ScanInv side s)
    (hidle : s.cores.producer = .idle) (hflag : s.cores.monitor.matrixEventDataPresent = false)
    (hqueue : s.cores.monitor.queue.index = 0) (r c : Nat) :
    net r c s.cores.returned + net r c s.cores.dropped =
      if Grid.get s.matrix r c = true then 1 else 0 := by
  have hperm : s.cores.passed.Perm (s.cores.returned ++ s.cores.dropped) := by
    simpa [Ledger.Balanced, Cores.ledger, Cores.line, Cores.box, Cores.writing, Cores.placing, hidle,
      hflag, events_eq_nil hqueue] using h.cores.balanced
  rw [← h.net_passed r c, net_perm hperm, net_append]

theorem scanInv_run (side : Side) (steps : List ScanStep) :
    ScanInv side (run (scanStep side) .start steps) :=
  run_inv (ScanInv side) (fun _ a h => h.step a) (scanInv_start side) steps

/-- **The consumer catches up with the matrix**, up to the events dropped at a full queue. -/
theorem consumer_catches_up (side : Side) (steps : List ScanStep) :
    let s := run (scanStep side) .start steps
    (s.cores.producer = .idle → s.cores.monitor.matrixEventDataPresent = false →
      s.cores.monitor.queue.index = 0 → ∀ r c : Nat,
        net r c s.cores.returned + net r c s.cores.dropped =
          if Grid.get s.matrix r c = true then 1 else 0) ∧
      ∀ a, (scanStep side s a).cores.dropped = s.cores.dropped ∨ FindsQueueFull s a :=
  ⟨(scanInv_run side steps).net_returned, scanStep_dropped (scanInv_run side steps).cores.toOwned⟩

/-- One key goes down and is taken. -/
theorem consumer_catches_up_key :
    let s := run (scanStep leftSide) .start
      (List.replicate 7 (.scanner false 20000) ++ List.replicate 6 .consumer)
    net 0 0 s.cores.returned + net 0 0 s.cores.dropped =
      if Grid.get s.matrix 0 0 = true then 1 else 0 :=
  (consumer_catches_up leftSide _).1 (by decide +kernel) (by decide +kernel) (by decide +kernel) 0 0

/-! ## Quiet scans -/

/-- The steps of one scan up to the call of `queue_handle`, when row `r` is sampled at `time r` and
key `(r, c)` has the level `level r c`. -/
def scanRow (side : Side) (level : Nat → Nat → Bool) (time : Nat → BitVec 64) (r : Nat) :
    List ScanStep :=
  .scanner true (time r) ::
    (List.range side.colCount).map (fun c => .scanner (!level r c) (time r)) ++
      [.scanner true (time r)]

def scanAll (side : Side) (level : Nat → Nat → Bool) (time : Nat → BitVec 64) : List ScanStep :=
  (List.range side.rowCount).flatMap (scanRow side level time) ++ [.scanner true (time 0)]

section
variable {side : Side} {s : Scan} {level : Nat → Nat → Bool} {time : Nat → BitVec 64}

/-- Columns that read as the matrix has them change nothing. -/
theorem run_cols_quiet (hidle : s.cores.producer = .idle) (r n : Nat) (t : BitVec 64)
    (hn : n ≤ side.colCount) (hlevel : ∀ c < n, level r c = Grid.get s.matrix r c) :
    run (scanStep side) { s with pc := .col r 0 t }
      ((List.range n).map fun c => .scanner (!level r c) (time r)) =
      { s with pc := .col r n t } := by
  induction n with
  | zero => rfl
  | succ n ih =>
    have hlt : n < side.colCount := hn
    rw [List.range_succ, List.map_append, run_append, ih (by omega) fun c hc => hlevel c (by omega)]
    simp [scanStep, hidle, scanLoop, hlt, hlevel n (by omega)]

theorem run_scanRow_quiet (hidle : s.cores.producer = .idle) (r : Nat) (hr : r < side.rowCount)
    (hlevel : ∀ c < side.colCount, level r c = Grid.get s.matrix r c) :
    run (scanStep side) { s with pc := .row r } (scanRow side level time r) =
      { s with pc := .row (r + 1) } := by
  have hfirst : scanStep side { s with pc := .row r } (.scanner true (time r)) =
      { s with pc := .col r 0 (time r) } := by
    simp [scanStep, hidle, scanLoop, hr]
  rw [scanRow, List.cons_append, run_cons, hfirst, run_append,
    run_cols_quiet hidle r _ _ (Nat.le_refl _) hlevel]
  simp [scanStep, hidle, scanLoop]

/-- **A scan that finds every key as the matrix has it** only calls `queue_handle`. -/
theorem run_scanAll_quiet (hpc : s.pc = .row 0) (hidle : s.cores.producer = .idle)
    (hlevel : ∀ r < side.rowCount, ∀ c < side.colCount, level r c = Grid.get s.matrix r c) :
    run (scanStep side) s (scanAll side level time) =
      { s with cores := coreStep s.cores .queueHandle } := by
  have hrows (n : Nat) (hn : n ≤ side.rowCount) : run (scanStep side) s
      ((List.range n).flatMap (scanRow side level time)) = { s with pc := .row n } := by
    induction n with
    | zero => simp [← hpc]
    | succ n ih =>
      have hlt : n < side.rowCount := hn
      rw [List.range_succ, List.flatMap_append, run_append, ih (by omega)]
      simpa using run_scanRow_quiet hidle n hlt (hlevel n hlt)
  rw [scanAll, run_append, hrows _ (Nat.le_refl _)]
  simp [scanStep, hidle, scanLoop, hpc]

theorem run_consumer (n : Nat) : run (scanStep side) s (List.replicate n .consumer) =
    { s with cores := run coreStep s.cores (List.replicate n .consumer) } := by
  induction n generalizing s with
  | zero => rfl
  | succ n ih =>
    rw [List.replicate_succ, List.replicate_succ, run_cons, run_cons, ih]
    rfl

/-- While a call is under way the scanning core makes its accesses. -/
theorem run_scanner (n : Nat) (gpio : Bool) (t : BitVec 64) (hbusy : ∀ k < n,
      (run coreStep s.cores (List.replicate k .producer)).producer ≠ .idle) :
    run (scanStep side) s (List.replicate n (.scanner gpio t)) =
      { s with cores := run coreStep s.cores (List.replicate n .producer) } := by
  induction n with
  | zero => rfl
  | succ n ih =>
    rw [List.replicate_succ', List.replicate_succ', run_snoc, run_snoc, ih fun k hk => hbusy k (by omega)]
    simp [scanStep, hbusy n (by omega)]

/-- Between scans, with both sides between calls and nothing in the mailbox. -/
structure Settled (s : Scan) : Prop where
  pc : s.pc = .row 0
  producer : s.cores.producer = .idle
  consumer : s.cores.consumer = .idle
  flag : s.cores.monitor.matrixEventDataPresent = false

/-- A scan at `t` that finds the matrix as it is, and a consumer that takes what it hands over. -/
def quietRound (side : Side) (matrix : Vector (Vector Bool 8) 5) (t : BitVec 64) : List ScanStep :=
  scanAll side (Grid.get matrix) (fun _ => t) ++ List.replicate 5 (.scanner true t) ++
    List.replicate 6 .consumer

/-- A quiet round takes one event off the queue. -/
theorem Settled.round (h : Settled s) (side : Side) (t : BitVec 64)
    (hidx : s.cores.monitor.queue.index ≠ 0) :
    let s' := run (scanStep side) s (quietRound side s.matrix t)
    Settled s' ∧ s'.matrix = s.matrix ∧ s'.cores.dropped = s.cores.dropped ∧
      s'.cores.monitor.queue.index = s.cores.monitor.queue.index - 1 := by
  have hscan : run (scanStep side) s (scanAll side (Grid.get s.matrix) fun _ => t) = _ :=
    run_scanAll_quiet h.pc h.producer fun _ _ _ _ => rfl
  have hbusy : ∀ k < 5, (run coreStep (coreStep s.cores .queueHandle)
      (List.replicate k .producer)).producer ≠ .idle := by
    intro k hk
    interval_cases k <;>
      simp [List.replicate, coreStep, producerStep, h.producer, h.flag, hidx, Field.next]
  have hhandle := run_queueHandle h.producer
  rw [run_cons] at hhandle
  have hget : matrixMonitorGetEvent (queueHandle s.cores.monitor) = some
      ((queueHandle s.cores.monitor).matrixEvent,
        { queueHandle s.cores.monitor with matrixEventDataPresent := false }) := by
    simp [matrixMonitorGetEvent, queueHandle, h.flag, hidx]
  have hreturn := run_getEvent { s.cores with monitor := queueHandle s.cores.monitor } h.consumer hget
  intro s'
  have hs' : s' = { s with cores := { s.cores with
      monitor := { queueHandle s.cores.monitor with matrixEventDataPresent := false }
      returned := s.cores.returned ++ [(queueHandle s.cores.monitor).matrixEvent] } } := by
    simp only [s', quietRound, run_append, hscan]
    rw [run_scanner 5 true t hbusy, run_consumer, hhandle, hreturn]
  rw [hs']
  exact ⟨⟨h.pc, h.producer, h.consumer, rfl⟩, rfl, rfl, by simp [queueHandle, h.flag, hidx]⟩

/-- **A matrix left alone is caught up with**: after as many quiet rounds as there are events in
the queue, it is empty. -/
theorem Settled.rounds (h : Settled s) (side : Side) (t : BitVec 64) (n : Nat)
    (hidx : s.cores.monitor.queue.index = n) :
    let s' := run (scanStep side) s (List.replicate n (quietRound side s.matrix t)).flatten
    Settled s' ∧ s'.matrix = s.matrix ∧ s'.cores.dropped = s.cores.dropped ∧
      s'.cores.monitor.queue.index = 0 := by
  induction n generalizing s with
  | zero => exact ⟨h, rfl, rfl, hidx⟩
  | succ n ih =>
    obtain ⟨h', hm, hd, hi⟩ := h.round side t (by omega)
    obtain ⟨h'', hm', hd', hi'⟩ := ih h' (by omega)
    rw [hm] at h'' hm' hd' hi'
    rw [List.replicate_succ, List.flatten_cons, run_append]
    exact ⟨h'', hm', hd'.trans hd, hi'⟩

end

/-- What the scanning core reads off the clock, if it reads it. -/
def ScanStep.clock : ScanStep → Option (BitVec 64)
  | .scanner _ time => some time
  | .consumer => none

theorem clock_quietRound {side : Side} {matrix : Vector (Vector Bool 8) 5} {t t' : BitVec 64}
    {st : ScanStep} (hst : st ∈ quietRound side matrix t) (ht' : st.clock = some t') : t' = t := by
  cases st with
  | consumer => cases ht'
  | scanner gpio time =>
    obtain rfl : time = t' := Option.some.inj ht'
    simp only [quietRound, scanAll, scanRow, List.mem_append, List.mem_flatMap, List.mem_cons,
      List.mem_map, List.mem_replicate, ScanStep.scanner.injEq] at hst
    grind

/-- A scan of the left side with every key held, and a consumer that takes one event after it. -/
def heldScan : List ScanStep :=
  List.replicate 86 (.scanner false 20000) ++ List.replicate 6 .consumer

theorem heldScan_settled : Settled (run (scanStep leftSide) .start heldScan) :=
  ⟨by decide +kernel, by decide +kernel, by decide +kernel, by decide +kernel⟩

/-- The scan, and a quiet round for each event it leaves in the queue. -/
def heldRun : List ScanStep :=
  heldScan ++ (List.replicate 30
    (quietRound leftSide (run (scanStep leftSide) .start heldScan).matrix 20000)).flatten

theorem clock_heldRun : ∀ t ∈ heldRun.filterMap ScanStep.clock, t = 20000 := by
  intro t ht
  obtain ⟨st, hst, hclock⟩ := List.mem_filterMap.1 ht
  rcases List.mem_append.1 hst with hheld | hquiet
  · rcases List.mem_append.1 hheld with hscan | hconsumer
    · rw [(List.mem_replicate.1 hscan).2] at hclock
      exact (Option.some.inj hclock).symm
    · rw [(List.mem_replicate.1 hconsumer).2] at hclock
      cases hclock
  · obtain ⟨round, hround, hst⟩ := List.mem_flatten.1 hquiet
    rw [(List.mem_replicate.1 hround).2] at hst
    exact clock_quietRound hst hclock

/-- Of the 35 events of the scan the last four are dropped. -/
theorem consumer_catches_up_counterexample :
    ¬ ∀ (side : Side) (steps : List ScanStep), (steps.filterMap ScanStep.clock).Pairwise (· ≤ ·) →
      let s := run (scanStep side) .start steps
      s.pc = .row 0 → s.cores.producer = .idle → s.cores.monitor.matrixEventDataPresent = false →
        s.cores.monitor.queue.index = 0 → ∀ r < side.rowCount, ∀ c < side.colCount,
          net r c s.cores.returned = if Grid.get s.matrix r c = true then 1 else 0 := by
  intro h
  obtain ⟨hsettled, -, hdropped, hidx⟩ := heldScan_settled.rounds leftSide 20000 30
    (by decide +kernel)
  rw [← run_append, ← heldRun] at hsettled hdropped hidx
  have htimes : (heldRun.filterMap ScanStep.clock).Pairwise (· ≤ ·) :=
    List.pairwise_of_forall_mem_list fun a ha b hb => by
      rw [clock_heldRun a ha, clock_heldRun b hb]
      exact BitVec.le_refl _
  have hclaim := h leftSide _ htimes hsettled.pc hsettled.producer hsettled.flag hidx 4 (by decide) 6
    (by decide)
  have hall := (scanInv_run leftSide _).net_returned hsettled.producer hsettled.flag hidx 4 6
  have hlost : net 4 6 (run (scanStep leftSide) .start heldScan).cores.dropped = 1 := by
    decide +kernel
  rw [hclaim, hdropped] at hall
  exact absurd (hlost.symm.trans (add_eq_left.1 hall)) (by decide)

end VolumeControl
