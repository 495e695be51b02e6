import VolumeControl.Time.HardwareAlarm
import VolumeControl.Time.PheapQueue

/-!
# The alarm pool

The alarm pool of the SDK: alarms wait in the heap, by the time they are for,
and one hardware alarm is set for the first. Three parties work on it, each in
sections under the pool's lock, which are the steps of the model: the timer and
its interrupt, the interrupt's handler, which calls the alarms that are due
until there are none, and the code that adds and cancels alarms. An alarm's
callback says in how many microseconds it wants to be called again; what it says
and how long things take is up to the step.
-/

open Batteries.PairingHeapImp

namespace VolumeControl

/-- An alarm: its time, and the callback with its data. -/
structure AlarmPoolEntry (κ : Type*) where
  target : Nat
  callback : κ
  deriving DecidableEq, Repr

structure AlarmPool (κ : Type*) where
  heap : Pheap
  entries : Nat → AlarmPoolEntry κ
  entryIdsHigh : Nat → Nat
  alarmInProgress : Nat

variable {κ : Type*}

def AlarmPool.key (pool : AlarmPool κ) (id : Nat) : Nat := (pool.entries id).target

/-- `timer_pool_entry_comparator`. -/
abbrev timerPoolEntryComparator (pool : AlarmPool κ) : Nat → Nat → Bool := Heap.before pool.key

def makePublicId (idHigh id : Nat) : Nat := idHigh * 2 ^ 8 + id

def delayedByUs (t us : Nat) : Nat :=
  let delayed := (t + us) % 2 ^ 64
  if delayed ≥ 2 ^ 63 then 2 ^ 63 - 1 else delayed

/-- What `add_alarm_under_lock` gives: `missed` is written only for an alarm that came first. -/
structure Added (κ : Type*) where
  pool : AlarmPool κ
  hw : HwAlarm
  id : Nat
  missed : Option Bool

def addAlarmUnderLock (pool : AlarmPool κ) (hw : HwAlarm) (time : Nat) (callback : κ)
    (reuseId : Nat) (createIfPast : Bool) (d : Delays) : Added κ :=
  let (heap, id) := if reuseId ≠ 0 then (pool.heap, reuseId) else phNewNode pool.heap
  let pool := { pool with heap := heap }
  if id = 0 then ⟨pool, hw, id, none⟩
  else
    let pool := { pool with entries := Function.update pool.entries id ⟨time, callback⟩ }
    let (heap, head) := phInsertNode (timerPoolEntryComparator pool) pool.heap id
    let pool := { pool with heap := heap }
    if id = head then
      let (hw, isMissed) := hardwareAlarmSetTarget hw time d
      if isMissed = true ∧ createIfPast = false then
        let heap := (phRemoveAndFreeNode (timerPoolEntryComparator pool) pool.heap id).1
        ⟨{ pool with heap := heap }, hw, id, some isMissed⟩
      else ⟨pool, hw, id, some isMissed⟩
    else ⟨pool, hw, id, none⟩

def alarmPoolCancelAlarm (pool : AlarmPool κ) (alarmId : Nat) : AlarmPool κ × Bool :=
  let id := alarmId % 2 ^ 8
  if phContainsNode pool.heap id = true then
    if alarmId / 2 ^ 8 % 2 ^ 8 = pool.entryIdsHigh id then
      let (heap, rc) := phRemoveAndFreeNode (timerPoolEntryComparator pool) pool.heap id
      ({ pool with heap := heap }, rc)
    else (pool, false)
  else if alarmId = pool.alarmInProgress then ({ pool with alarmInProgress := 0 }, false)
  else (pool, false)

/-! ## The parties -/

/-- Where the interrupt's handler is: not running, at the top of the loop of
`alarm_pool_alarm_callback`, or calling the alarm it has taken. -/
inductive AlarmPc (κ : Type*)
  | idle
  | loop
  | call (id : Nat) (entry : AlarmPoolEntry κ)
  deriving DecidableEq, Repr

/-- Where `alarm_pool_add_alarm_at` is. One call of it is at work at a time: those that interrupts,
callbacks or the other core make meanwhile are left out. -/
inductive AddPc (κ : Type*)
  | idle
  | attempt (time : Nat) (callback : κ) (fireIfPast missed : Bool)
  | callback (time : Nat) (callback : κ)
  deriving DecidableEq, Repr

structure AlarmSystem (κ : Type*) where
  pool : AlarmPool κ
  hw : HwAlarm
  pc : AlarmPc κ
  add : AddPc κ
  /-- What `alarm_pool_add_alarm_at` last returned. -/
  result : Int

/-- `alarm_pool_init_default`. -/
def AlarmSystem.init (maxTimers time : Nat) (null : κ) : AlarmSystem κ where
  pool := ⟨phPostAllocInit maxTimers, fun _ => ⟨0, null⟩, fun _ => 0, 0⟩
  hw := ⟨time, 0, false, false, 0, false⟩
  pc := .idle
  add := .idle
  result := 0

inductive AlarmStep (κ : Type*)
  /-- `n` microseconds pass. -/
  | elapse (n : Nat)
  | irq (d : Nat)
  /-- The first section of the loop, `n` microseconds after its look at the time. -/
  | scan (n : Nat) (d : Delays)
  /-- The alarm that the handler has called returns, and the second section: `n` microseconds pass
  between its look at the time and the insertion. -/
  | ret (again : Int) (n : Nat) (d : Delays)
  | addAlarmAt (time : Nat) (callback : κ) (fireIfPast : Bool)
  /-- One round of the loop of `alarm_pool_add_alarm_at`. -/
  | attempt (d : Delays)
  /-- The callback that it has called returns. -/
  | returned (again : Int)
  | cancel (alarmId : Nat)
  deriving DecidableEq, Repr

/-- The first section of the loop of `alarm_pool_alarm_callback`. -/
def alarmScan (s : AlarmSystem κ) (n : Nat) (d : Delays) : AlarmSystem κ :=
  let now := s.hw.time - n
  let nextId := phPeekHead s.pool.heap
  if nextId = 0 then { s with pc := .idle }
  else
    let entry := s.pool.entries nextId
    if entry.target ≤ now then
      -- the id is not freed in case the alarm is added again
      let heap := (phRemoveHead (timerPoolEntryComparator s.pool) s.pool.heap false).1
      { s with
        pool := { s.pool with
          heap := heap
          alarmInProgress := makePublicId (s.pool.entryIdsHigh nextId) nextId }
        pc := .call nextId entry }
    else
      let (hw, missed) := hardwareAlarmSetTarget s.hw entry.target d
      { s with hw := hw, pc := if missed then .loop else .idle }

/-- The second section, with what the callback has returned. -/
def alarmRet (s : AlarmSystem κ) (id : Nat) (entry : AlarmPoolEntry κ) (again : Int) (n : Nat)
    (d : Delays) : AlarmSystem κ :=
  if again ≠ 0 ∧ s.pool.alarmInProgress ≠ 0 then
    let base := if again < 0 then entry.target else s.hw.time
    let r := addAlarmUnderLock s.pool (s.hw.elapse n) (delayedByUs base again.natAbs)
      entry.callback id true d
    { s with pool := { r.pool with alarmInProgress := 0 }, hw := r.hw, pc := .loop }
  else
    { s with
      pool := { s.pool with
        heap := phFreeNode s.pool.heap id
        entryIdsHigh :=
          Function.update s.pool.entryIdsHigh id ((s.pool.entryIdsHigh id + 1) % 2 ^ 8)
        alarmInProgress := 0 }
      pc := .loop }

/-- A round of `alarm_pool_add_alarm_at`. `missed` is not cleared from one round to the next. -/
def alarmAttempt (s : AlarmSystem κ) (time : Nat) (callback : κ) (fireIfPast missed : Bool)
    (d : Delays) : AlarmSystem κ :=
  let r := addAlarmUnderLock s.pool s.hw time callback 0 false d
  let s := { s with pool := r.pool, hw := r.hw }
  if r.id = 0 then { s with add := .idle, result := -1 }
  else
    let missed := r.missed.getD missed
    let publicId := if missed then 0 else makePublicId (r.pool.entryIdsHigh r.id) r.id
    if missed = true ∧ fireIfPast = true then { s with add := .callback time callback }
    else { s with add := .idle, result := publicId }

def alarmStep (s : AlarmSystem κ) : AlarmStep κ → AlarmSystem κ
  | .elapse n => { s with hw := s.hw.elapse n }
  | .irq d =>
    match s.pc with
    | .idle =>
      let (hw, callback) := hardwareAlarmIrqHandler s.hw d
      { s with hw := hw, pc := if callback then .loop else .idle }
    | _ => s
  | .scan n d =>
    match s.pc with
    | .loop => alarmScan s n d
    | _ => s
  | .ret again n d =>
    match s.pc with
    | .call id entry => alarmRet s id entry again n d
    | _ => s
  | .addAlarmAt time callback fireIfPast =>
    match s.add with
    | .idle => { s with add := .attempt time callback fireIfPast false }
    | _ => s
  | .attempt d =>
    match s.add with
    | .attempt time callback fireIfPast missed =>
      alarmAttempt s time callback fireIfPast missed d
    | _ => s
  | .returned again =>
    match s.add with
    | .callback time callback =>
      if again = 0 then { s with add := .idle, result := 0 }
      else
        let base := if again < 0 then time else s.hw.time
        { s with add := .attempt (delayedByUs base again.natAbs) callback true true }
    | _ => s
  | .cancel alarmId => { s with pool := (alarmPoolCancelAlarm s.pool alarmId).1 }

end VolumeControl
