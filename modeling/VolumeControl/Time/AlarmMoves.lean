import VolumeControl.Lib.Run
import VolumeControl.Time.AlarmPool

/-!
# What a step does to the alarm pool

`AlarmInv n s waiting free`: the alarms `waiting` are in the heap, ordered by
their times, and the nodes `free` are free. `AlarmMove` says all that a step can
do: which alarm is added, called or cancelled, and what becomes of the handler,
the hardware alarm and the code that adds an alarm (`alarm_step_cases`).
-/

open Batteries.PairingHeapImp

namespace VolumeControl

variable {κ : Type*} {n : Nat}

/-- The alarms that wait and the free nodes. -/
def PoolQueued (n : Nat) (pool : AlarmPool κ) (waiting : Finset Nat) (free : List Nat) : Prop :=
  Queued n pool.heap ⟨waiting, free, pool.key⟩

structure AlarmInv (n : Nat) (s : AlarmSystem κ) (waiting : Finset Nat) (free : List Nat) :
    Prop where
  queued : PoolQueued n s.pool waiting free
  /-- The alarm that is being called has kept its node. -/
  called : ∀ id entry, s.pc = .call id entry →
    PheapQueue.Allocated ⟨waiting, free, s.pool.key⟩ n id

theorem alarmInv_init (hn : n ≠ 0) (time : Nat) (null : κ) :
    AlarmInv n (.init n time null) ∅ (List.range' 1 n) :=
  ⟨queued_init hn _, fun _ _ h => by cases h⟩

/-! ## Adding an alarm -/

variable {pool : AlarmPool κ} {waiting : Finset Nat} {free : List Nat}

theorem key_update (pool : AlarmPool κ) (id : Nat) (e : AlarmPoolEntry κ) (heap : Pheap) :
    ({ pool with entries := Function.update pool.entries id e, heap := heap } : AlarmPool κ).key =
      Function.update pool.key id e.target := by
  funext x
  by_cases hx : x = id <;> simp [AlarmPool.key, hx]

/-- The alarm `id`, once it has its node. -/
def insertAlarm (pool : AlarmPool κ) (hw : HwAlarm) (time : Nat) (callback : κ) (id : Nat)
    (createIfPast : Bool) (d : Delays) : Added κ :=
  let lt := Heap.before (Function.update pool.key id time)
  let entries := Function.update pool.entries id ⟨time, callback⟩
  let ins := phInsertNode lt pool.heap id
  let st := hardwareAlarmSetTarget hw time d
  if id = ins.2 then
    if st.2 = true ∧ createIfPast = false then
      ⟨{ pool with heap := (phRemoveAndFreeNode lt ins.1 id).1, entries := entries }, st.1, id,
        some st.2⟩
    else ⟨{ pool with heap := ins.1, entries := entries }, st.1, id, some st.2⟩
  else ⟨{ pool with heap := ins.1, entries := entries }, hw, id, none⟩

theorem addAlarm_reuse (pool : AlarmPool κ) (hw : HwAlarm) (time : Nat) (callback : κ) {id : Nat}
    (hid : id ≠ 0) (createIfPast : Bool) (d : Delays) :
    addAlarmUnderLock pool hw time callback id createIfPast d =
      insertAlarm pool hw time callback id createIfPast d := by
  simp only [addAlarmUnderLock, insertAlarm, timerPoolEntryComparator, key_update, hid, ne_eq,
    not_false_eq_true, if_true, if_false]

theorem addAlarm_new (pool : AlarmPool κ) (hw : HwAlarm) (time : Nat) (callback : κ)
    (hid : (phNewNode pool.heap).2 ≠ 0) (createIfPast : Bool) (d : Delays) :
    addAlarmUnderLock pool hw time callback 0 createIfPast d =
      insertAlarm { pool with heap := (phNewNode pool.heap).1 } hw time callback
        (phNewNode pool.heap).2 createIfPast d := by
  simp only [addAlarmUnderLock, insertAlarm, timerPoolEntryComparator, key_update, hid, ne_eq,
    not_true_eq_false, if_false]
  rfl

/-- What adding a new alarm comes to, if it is not to be in the past. -/
inductive Inserted (n : Nat) (key : Nat → Nat) (hw : HwAlarm) (waiting : Finset Nat)
    (free : List Nat) (time : Nat) (d : Delays) (id : Nat) (r : Added κ) : Prop
  /-- Another alarm comes before it. -/
  | later (hb : ∃ b ∈ waiting, key b < time) (hhw : r.hw = hw) (hm : r.missed = none)
      (hq : PoolQueued n r.pool (insert id waiting) free)
  /-- It comes first and the hardware alarm is set for it. -/
  | first (hle : ∀ b ∈ waiting, time ≤ key b)
      (hset : hardwareAlarmSetTarget hw time d = (r.hw, false))
      (hm : r.missed = some false) (hq : PoolQueued n r.pool (insert id waiting) free)
  /-- It comes first and is missed. -/
  | missed (hle : ∀ b ∈ waiting, time ≤ key b)
      (hset : hardwareAlarmSetTarget hw time d = (r.hw, true))
      (hm : r.missed = some true) (hq : PoolQueued n r.pool waiting (free ++ [id]))

variable {id : Nat}

theorem insertAlarm_entries (pool : AlarmPool κ) (hw : HwAlarm) (time : Nat) (callback : κ)
    (id : Nat) (createIfPast : Bool) (d : Delays) :
    (insertAlarm pool hw time callback id createIfPast d).pool.entries =
      Function.update pool.entries id ⟨time, callback⟩ ∧
    (insertAlarm pool hw time callback id createIfPast d).id = id := by
  unfold insertAlarm
  dsimp only
  split
  · split <;> exact ⟨rfl, rfl⟩
  · exact ⟨rfl, rfl⟩

theorem le_insertAlarm_time (pool : AlarmPool κ) (hw : HwAlarm) (time : Nat) (callback : κ)
    (createIfPast : Bool) (d : Delays) :
    hw.time ≤ (insertAlarm pool hw time callback id createIfPast d).hw.time := by
  have hle := le_setTarget_time hw time d
  unfold insertAlarm
  dsimp only
  split
  · split <;> exact hle
  · exact le_refl _

theorem insertAlarm_inserted (h : PoolQueued n pool waiting free) (hw : HwAlarm) (time : Nat)
    (callback : κ) (d : Delays) (ha : PheapQueue.Allocated ⟨waiting, free, pool.key⟩ n id) :
    Inserted n pool.key hw waiting free time d id
      (insertAlarm pool hw time callback id false d) := by
  have hins := (Queued.insertNode h ha time).1
  have hiff := Queued.insertNode_first_iff h ha time
  dsimp only at hins hiff
  unfold insertAlarm
  dsimp only
  by_cases hfirst :
      id = (phInsertNode (Heap.before (Function.update pool.key id time)) pool.heap id).2
  · have hle := hiff.1 hfirst.symm
    rw [if_pos hfirst]
    cases hm : (hardwareAlarmSetTarget hw time d).2 with
    | false =>
      rw [if_neg (by simp)]
      refine .first hle (Prod.ext rfl hm) rfl ?_
      unfold PoolQueued
      rw [key_update]
      exact hins
    | true =>
      rw [if_pos ⟨rfl, rfl⟩]
      refine .missed hle (Prod.ext rfl hm) rfl ?_
      have hrem := (hins.removeAndFreeNode (Finset.mem_insert_self id waiting)).1
      dsimp only at hrem
      rw [Finset.erase_insert ha.1] at hrem
      unfold PoolQueued
      rw [key_update]
      exact hrem
  · rw [if_neg hfirst]
    refine .later ?_ rfl rfl ?_
    · by_contra hall
      push Not at hall
      exact hfirst (hiff.2 hall).symm
    · unfold PoolQueued
      rw [key_update]
      exact hins

/-- A new alarm gets the first free node. -/
theorem addAlarm_inserted {rest : List Nat} (h : PoolQueued n pool waiting (id :: rest))
    (hw : HwAlarm) (time : Nat) (callback : κ) (d : Delays) :
    Inserted n pool.key hw waiting rest time d id
        (addAlarmUnderLock pool hw time callback 0 false d) ∧
      (addAlarmUnderLock pool hw time callback 0 false d).pool.entries =
        Function.update pool.entries id ⟨time, callback⟩ ∧
      (addAlarmUnderLock pool hw time callback 0 false d).id = id := by
  obtain ⟨hq, hid⟩ := Queued.newNode_cons h rfl
  have ha := Queued.allocated_of_free h rfl
  have hid0 : id ≠ 0 := Nat.one_le_iff_ne_zero.1 ha.2.2.1
  have hq' : PoolQueued n { pool with heap := (phNewNode pool.heap).1 } waiting rest := hq
  rw [addAlarm_new pool hw time callback (by rwa [hid]), hid]
  exact ⟨insertAlarm_inserted hq' hw time callback d ha, insertAlarm_entries _ ..⟩

/-- Adding the alarm that has been called again, under its old node. -/
theorem insertAlarm_again (h : PoolQueued n pool waiting free) (hw : HwAlarm) (time : Nat)
    (callback : κ) (d : Delays) (ha : PheapQueue.Allocated ⟨waiting, free, pool.key⟩ n id) :
    PoolQueued n (insertAlarm pool hw time callback id true d).pool (insert id waiting) free := by
  have hins := (Queued.insertNode h ha time).1
  unfold insertAlarm PoolQueued
  simp only [Bool.true_eq_false, and_false, if_false]
  split
  · rw [key_update]
    exact hins
  · rw [key_update]
    exact hins

/-! ## Steps -/

variable {s : AlarmSystem κ}

theorem PoolQueued.head (h : PoolQueued n pool waiting free) :
    if waiting = ∅ then phPeekHead pool.heap = 0
    else phPeekHead pool.heap ∈ waiting ∧
      ∀ b ∈ waiting, pool.key (phPeekHead pool.heap) ≤ pool.key b := Queued.peekHead h

theorem PoolQueued.allocated (h : PoolQueued n pool waiting free) {b : Nat} (hb : b ∈ waiting) :
    b ∉ free ∧ 1 ≤ b ∧ b ≤ n := by
  obtain ⟨hn, t, hh, helems, -⟩ := h
  have hmem : b ∈ t.elems := helems ▸ (show b ∈ waiting.val from hb)
  have hrange := hh.shelf.range b (Multiset.mem_add.2 (.inl hmem))
  exact ⟨hh.shelf.disjoint b hmem, hrange.1, hn ▸ hrange.2⟩

theorem PoolQueued.head_ne_zero_iff (h : PoolQueued n pool waiting free) :
    phPeekHead pool.heap ≠ 0 ↔ waiting.Nonempty := by
  have hhead := h.head
  split at hhead
  · rename_i hempty
    simp [hhead, hempty]
  · rename_i hne
    have hpos := (h.allocated hhead.1).2.1
    exact iff_of_true (by omega) (Finset.nonempty_iff_ne_empty.2 hne)

/-- Where `alarm_pool_add_alarm_at` is after a round, missed or not. -/
def AddPc.after (time : Nat) (callback : κ) (fireIfPast missed : Bool) : AddPc κ :=
  if missed = true ∧ fireIfPast = true then .callback time callback else .idle

/-- The alarm has been added to the pool. -/
def Added.accepted (r : Added κ) : Bool := decide (r.id ≠ 0 ∧ r.missed ≠ some true)

/-- The party whose step it is is elsewhere. -/
def Elsewhere (s : AlarmSystem κ) : AlarmStep κ → Prop
  | .elapse _ => False
  | .irq _ => s.pc ≠ .idle
  | .scan _ _ => s.pc ≠ .loop
  | .ret _ _ _ => ∀ id entry, s.pc ≠ .call id entry
  | .addAlarmAt _ _ _ => s.add ≠ .idle
  | .attempt _ =>
    ∀ time callback fireIfPast missed, s.add ≠ .attempt time callback fireIfPast missed
  | .returned _ => ∀ time callback, s.add ≠ .callback time callback
  | .cancel _ => False

/-- What a step can do. -/
inductive AlarmMove (s s' : AlarmSystem κ) (waiting waiting' : Finset Nat) : AlarmStep κ → Prop
  | still {st : AlarmStep κ} (hs : s' = s) (helse : Elsewhere s st) (hwait : waiting' = waiting) :
      AlarmMove s s' waiting waiting' st
  | elapse (d : Nat) (hs : s' = { s with hw := s.hw.elapse d }) (hwait : waiting' = waiting) :
      AlarmMove s s' waiting waiting' (.elapse d)
  /-- The interrupt's handler runs. -/
  | irq (d : Nat) (hpc : s.pc = .idle)
      (hs : s' = { s with
        hw := (hardwareAlarmIrqHandler s.hw d).1
        pc := if (hardwareAlarmIrqHandler s.hw d).2 then .loop else .idle })
      (hwait : waiting' = waiting) : AlarmMove s s' waiting waiting' (.irq d)
  /-- The handler finds no alarm. -/
  | clear (m : Nat) (d : Delays) (hpc : s.pc = .loop) (hempty : waiting = ∅)
      (hs : s' = { s with pc := .idle }) (hwait : waiting' = waiting) :
      AlarmMove s s' waiting waiting' (.scan m d)
  /-- It sets the hardware alarm for the first, which is not due. -/
  | set (m : Nat) (d : Delays) (id : Nat) (hpc : s.pc = .loop) (hid : id ∈ waiting)
      (hle : ∀ b ∈ waiting, s.pool.key id ≤ s.pool.key b)
      (hs : s' = { s with
        hw := (hardwareAlarmSetTarget s.hw (s.pool.key id) d).1
        pc := if (hardwareAlarmSetTarget s.hw (s.pool.key id) d).2 then .loop else .idle })
      (hwait : waiting' = waiting) : AlarmMove s s' waiting waiting' (.scan m d)
  /-- It takes the first, which is due, and calls it. -/
  | call (m : Nat) (d : Delays) (id : Nat) (hpc : s.pc = .loop) (hid : id ∈ waiting)
      (hle : ∀ b ∈ waiting, s.pool.key id ≤ s.pool.key b) (hdue : s.pool.key id ≤ s.hw.time - m)
      (hentries : s'.pool.entries = s.pool.entries) (hhw : s'.hw = s.hw)
      (hpc' : s'.pc = .call id (s.pool.entries id)) (hadd : s'.add = s.add)
      (hwait : waiting' = waiting.erase id) : AlarmMove s s' waiting waiting' (.scan m d)
  /-- The alarm called is added again. -/
  | again (a : Int) (m : Nat) (d : Delays) (id : Nat) (entry : AlarmPoolEntry κ)
      (hpc : s.pc = .call id entry) (ha : a ≠ 0 ∧ s.pool.alarmInProgress ≠ 0) (hid : id ∉ waiting)
      (hentries : s'.pool.entries = Function.update s.pool.entries id
        ⟨delayedByUs (if a < 0 then entry.target else s.hw.time) a.natAbs, entry.callback⟩)
      (hhw : s.hw.time ≤ s'.hw.time) (hpc' : s'.pc = .loop) (hadd : s'.add = s.add)
      (hwait : waiting' = insert id waiting) : AlarmMove s s' waiting waiting' (.ret a m d)
  /-- It is not. -/
  | done (a : Int) (m : Nat) (d : Delays) (id : Nat) (entry : AlarmPoolEntry κ)
      (hpc : s.pc = .call id entry) (ha : ¬(a ≠ 0 ∧ s.pool.alarmInProgress ≠ 0))
      (hentries : s'.pool.entries = s.pool.entries) (hhw : s'.hw = s.hw) (hpc' : s'.pc = .loop)
      (hadd : s'.add = s.add) (hwait : waiting' = waiting) :
      AlarmMove s s' waiting waiting' (.ret a m d)
  | request (time : Nat) (callback : κ) (fireIfPast : Bool) (hadd : s.add = .idle)
      (hs : s' = { s with add := .attempt time callback fireIfPast false })
      (hwait : waiting' = waiting) :
      AlarmMove s s' waiting waiting' (.addAlarmAt time callback fireIfPast)
  /-- There is no node for a new alarm. -/
  | full (d : Delays) {time : Nat} {callback : κ} {fireIfPast missed : Bool}
      (hadd : s.add = .attempt time callback fireIfPast missed)
      (hacc : (addAlarmUnderLock s.pool s.hw time callback 0 false d).accepted = false)
      (hnode : (phNewNode s.pool.heap).2 = 0) (hs : s' = { s with add := .idle, result := -1 })
      (hwait : waiting' = waiting) : AlarmMove s s' waiting waiting' (.attempt d)
  /-- A new alarm, with another before it. -/
  | later (d : Delays) (id : Nat) {time : Nat} {callback : κ} {fireIfPast missed : Bool}
      (hadd : s.add = .attempt time callback fireIfPast missed)
      (hacc : (addAlarmUnderLock s.pool s.hw time callback 0 false d).accepted = true)
      (hid : id ∉ waiting) (hb : ∃ b ∈ waiting, s.pool.key b < time)
      (hentries : s'.pool.entries = Function.update s.pool.entries id ⟨time, callback⟩)
      (hhw : s'.hw = s.hw) (hpc' : s'.pc = s.pc)
      (hadd' : s'.add = .after time callback fireIfPast missed)
      (hwait : waiting' = insert id waiting) : AlarmMove s s' waiting waiting' (.attempt d)
  /-- A new alarm that comes first; the hardware alarm is set for it. -/
  | first (d : Delays) (id : Nat) {time : Nat} {callback : κ} {fireIfPast missed : Bool}
      (hadd : s.add = .attempt time callback fireIfPast missed)
      (hacc : (addAlarmUnderLock s.pool s.hw time callback 0 false d).accepted = true)
      (hid : id ∉ waiting) (hle : ∀ b ∈ waiting, time ≤ s.pool.key b)
      (hset : hardwareAlarmSetTarget s.hw time d = (s'.hw, false))
      (hentries : s'.pool.entries = Function.update s.pool.entries id ⟨time, callback⟩)
      (hpc' : s'.pc = s.pc) (hadd' : s'.add = .idle) (hwait : waiting' = insert id waiting) :
      AlarmMove s s' waiting waiting' (.attempt d)
  /-- A new alarm that would come first and is missed. -/
  | missed (d : Delays) (id : Nat) {time : Nat} {callback : κ} {fireIfPast missed : Bool}
      (hadd : s.add = .attempt time callback fireIfPast missed)
      (hacc : (addAlarmUnderLock s.pool s.hw time callback 0 false d).accepted = false)
      (hid : id ∉ waiting)
      (hnode : (phNewNode s.pool.heap).2 ≠ 0) (hle : ∀ b ∈ waiting, time ≤ s.pool.key b)
      (hset : hardwareAlarmSetTarget s.hw time d = (s'.hw, true))
      (hentries : s'.pool.entries = Function.update s.pool.entries id ⟨time, callback⟩)
      (hpc' : s'.pc = s.pc) (hadd' : s'.add = .after time callback fireIfPast true)
      (hwait : waiting' = waiting) : AlarmMove s s' waiting waiting' (.attempt d)
  /-- The callback of an alarm that was missed returns. -/
  | returned (a : Int) {time : Nat} {callback : κ} (hadd : s.add = .callback time callback)
      (hpool : s'.pool = s.pool) (hhw : s'.hw = s.hw) (hpc' : s'.pc = s.pc)
      (hadd' : s'.add = if a = 0 then .idle else
        .attempt (delayedByUs (if a < 0 then time else s.hw.time) a.natAbs) callback true true)
      (hwait : waiting' = waiting) : AlarmMove s s' waiting waiting' (.returned a)
  | cancel (alarmId : Nat) (hrc : (alarmPoolCancelAlarm s.pool alarmId).2 = true)
      (hid : alarmId % 2 ^ 8 ∈ waiting) (hentries : s'.pool.entries = s.pool.entries)
      (hhw : s'.hw = s.hw) (hpc' : s'.pc = s.pc) (hadd : s'.add = s.add)
      (hwait : waiting' = waiting.erase (alarmId % 2 ^ 8)) :
      AlarmMove s s' waiting waiting' (.cancel alarmId)
  /-- There is no such alarm, or it is being called. -/
  | cancelNone (alarmId : Nat) (hrc : (alarmPoolCancelAlarm s.pool alarmId).2 = false)
      (hentries : s'.pool.entries = s.pool.entries) (hhw : s'.hw = s.hw)
      (hpc' : s'.pc = s.pc) (hadd : s'.add = s.add) (hwait : waiting' = waiting) :
      AlarmMove s s' waiting waiting' (.cancel alarmId)

/-- A step, and the alarms that wait after it. -/
def Moves (n : Nat) (s : AlarmSystem κ) (waiting : Finset Nat) (st : AlarmStep κ) : Prop :=
  ∃ waiting' free', AlarmInv n (alarmStep s st) waiting' free' ∧
    AlarmMove s (alarmStep s st) waiting waiting' st

variable {waiting : Finset Nat} {free : List Nat}

theorem AlarmInv.still (h : AlarmInv n s waiting free) {st : AlarmStep κ} (hs : alarmStep s st = s)
    (helse : Elsewhere s st) : Moves n s waiting st :=
  ⟨waiting, free, hs.symm ▸ h, .still hs helse rfl⟩

theorem AlarmInv.scan (h : AlarmInv n s waiting free) (hpc : s.pc = .loop) (m : Nat) (d : Delays) :
    Moves n s waiting (.scan m d) := by
  have hs : alarmStep s (.scan m d) = alarmScan s m d := by simp only [alarmStep, hpc]
  unfold Moves
  rw [hs]
  by_cases hne : phPeekHead s.pool.heap = 0
  · have hempty : waiting = ∅ := Finset.not_nonempty_iff_eq_empty.1 fun hw =>
      h.queued.head_ne_zero_iff.2 hw hne
    have hres : alarmScan s m d = { s with pc := .idle } := by
      simp only [alarmScan, hne, if_true]
    rw [hres]
    exact ⟨waiting, free, ⟨h.queued, fun _ _ he => by cases he⟩, .clear m d hpc hempty rfl rfl⟩
  · have hwait := h.queued.head_ne_zero_iff.1 hne
    have hhead := h.queued.head
    rw [if_neg (Finset.nonempty_iff_ne_empty.1 hwait)] at hhead
    by_cases hdue : (s.pool.entries (phPeekHead s.pool.heap)).target ≤ s.hw.time - m
    · have hrem := Queued.removeHead h.queued false hwait
      dsimp only at hrem
      obtain ⟨hq, -, hpeek⟩ := hrem
      rw [hpeek] at hq
      refine ⟨waiting.erase (phPeekHead s.pool.heap), free, ⟨?_, fun id entry he => ?_⟩,
        .call m d _ hpc hhead.1 hhead.2 hdue ?_ ?_ ?_ ?_ rfl⟩
      · simp only [alarmScan, if_neg hne, if_pos hdue]
        exact hq
      · simp only [alarmScan, if_neg hne, if_pos hdue, AlarmPc.call.injEq] at he
        rw [← he.1]
        exact ⟨by simp, h.queued.allocated hhead.1⟩
      all_goals simp only [alarmScan, if_neg hne, if_pos hdue]
    · have hres : alarmScan s m d =
          { s with
            hw := (hardwareAlarmSetTarget s.hw
              (s.pool.entries (phPeekHead s.pool.heap)).target d).1
            pc := if (hardwareAlarmSetTarget s.hw
              (s.pool.entries (phPeekHead s.pool.heap)).target d).2 then .loop else .idle } := by
        simp only [alarmScan, if_neg hne, if_neg hdue]
      rw [hres]
      refine ⟨waiting, free, ⟨h.queued, fun id entry he => ?_⟩,
        .set m d _ hpc hhead.1 hhead.2 rfl rfl⟩
      dsimp only at he
      split at he <;> cases he

/-- The alarm called is added again, for the time that its callback asks for. -/
theorem alarmRet_again {id : Nat} {entry : AlarmPoolEntry κ} {a : Int} {m : Nat} {d : Delays}
    {r : Added κ} (hagain : a ≠ 0 ∧ s.pool.alarmInProgress ≠ 0) (hid : id ≠ 0)
    (hr : insertAlarm s.pool (s.hw.elapse m)
      (delayedByUs (if a < 0 then entry.target else s.hw.time) a.natAbs) entry.callback id true d = r) :
    alarmRet s id entry a m d =
      { s with pool := { r.pool with alarmInProgress := 0 }, hw := r.hw, pc := .loop } := by
  simp only [alarmRet, if_pos hagain, addAlarm_reuse _ _ _ _ hid, hr]

theorem AlarmInv.ret (h : AlarmInv n s waiting free) {id : Nat} {entry : AlarmPoolEntry κ}
    (hpc : s.pc = .call id entry) (a : Int) (m : Nat) (d : Delays) :
    Moves n s waiting (.ret a m d) := by
  have hs : alarmStep s (.ret a m d) = alarmRet s id entry a m d := by
    simp only [alarmStep, hpc]
  have ha := h.called id entry hpc
  unfold Moves
  rw [hs]
  by_cases hagain : a ≠ 0 ∧ s.pool.alarmInProgress ≠ 0
  · have hid : id ≠ 0 := Nat.one_le_iff_ne_zero.1 ha.2.2.1
    rw [alarmRet_again hagain hid rfl]
    refine ⟨insert id waiting, free, ⟨?_, fun _ _ he => by cases he⟩,
      .again a m d id entry hpc hagain ha.1 ?_ ?_ rfl rfl rfl⟩
    · exact insertAlarm_again h.queued (s.hw.elapse m) _ entry.callback d ha
    · exact (insertAlarm_entries s.pool (s.hw.elapse m) _ entry.callback id true d).1
    · refine le_trans ?_ (le_insertAlarm_time s.pool (s.hw.elapse m) _ entry.callback true d)
      rw [HwAlarm.elapse_time]
      exact Nat.le_add_right ..
  · have hpc' : (alarmRet s id entry a m d).pc = .loop := by
      simp only [alarmRet, if_neg hagain]
    refine ⟨waiting, free ++ [id], ⟨?_, fun _ _ he => ?_⟩,
      .done a m d id entry hpc hagain ?_ ?_ hpc' ?_ rfl⟩
    · simp only [alarmRet, if_neg hagain]
      exact Queued.freeNode h.queued ha
    · rw [hpc'] at he
      cases he
    all_goals simp only [alarmRet, if_neg hagain]

theorem AlarmInv.cancel (h : AlarmInv n s waiting free) (alarmId : Nat) :
    Moves n s waiting (.cancel alarmId) := by
  have hpc : (alarmStep s (.cancel alarmId)).pc = s.pc := rfl
  by_cases hrem : phContainsNode s.pool.heap (alarmId % 2 ^ 8) = true ∧
      alarmId / 2 ^ 8 % 2 ^ 8 = s.pool.entryIdsHigh (alarmId % 2 ^ 8) ∧ alarmId % 2 ^ 8 ∈ waiting
  · obtain ⟨hcont, hhigh, hmem⟩ := hrem
    have hq := (Queued.removeAndFreeNode h.queued hmem).1
    have hrc : (alarmPoolCancelAlarm s.pool alarmId).2 = true := by
      simp only [alarmPoolCancelAlarm, hcont, if_true, if_pos hhigh]
      exact (Queued.removeAndFreeNode h.queued hmem).2
    have hpool : (alarmStep s (.cancel alarmId)).pool =
        { s.pool with
          heap := (phRemoveAndFreeNode (timerPoolEntryComparator s.pool) s.pool.heap
            (alarmId % 2 ^ 8)).1 } := by
      simp only [alarmStep, alarmPoolCancelAlarm, hcont, if_true, if_pos hhigh]
    refine ⟨waiting.erase (alarmId % 2 ^ 8), free ++ [alarmId % 2 ^ 8],
      ⟨by rw [hpool]; exact hq, fun id entry he => ?_⟩,
      .cancel alarmId hrc hmem (by rw [hpool]) rfl rfl rfl rfl⟩
    obtain ⟨hw, hf, hr⟩ := h.called id entry (hpc ▸ he)
    have hne : id ≠ alarmId % 2 ^ 8 := fun he => hw (he ▸ hmem)
    exact ⟨fun hm => hw (Finset.mem_of_mem_erase hm),
      fun hm => (List.mem_append.1 hm).elim hf fun he => hne (List.mem_singleton.1 he), hr⟩
  · have hpool : (alarmStep s (.cancel alarmId)).pool.heap = s.pool.heap ∧
        (alarmStep s (.cancel alarmId)).pool.entries = s.pool.entries ∧
        (alarmPoolCancelAlarm s.pool alarmId).2 = false := by
      simp only [alarmStep, alarmPoolCancelAlarm]
      split
      · split
        · have hmem : alarmId % 2 ^ 8 ∉ waiting := fun hm => hrem ⟨‹_›, ‹_›, hm⟩
          have hno := Queued.removeAndFreeNode_of_notMem h.queued hmem
          exact ⟨congrArg Prod.fst hno, rfl, congrArg Prod.snd hno⟩
        · exact ⟨rfl, rfl, rfl⟩
      · split <;> exact ⟨rfl, rfl, rfl⟩
    have hq : PoolQueued n (alarmStep s (.cancel alarmId)).pool waiting free := by
      unfold PoolQueued AlarmPool.key
      rw [hpool.1, hpool.2.1]
      exact h.queued
    exact ⟨waiting, free, ⟨hq, fun id entry he => h.called id entry he⟩,
      .cancelNone alarmId hpool.2.2 hpool.2.1 rfl rfl rfl rfl⟩

/-- A round that has had a node. -/
theorem alarmAttempt_fields {time : Nat} {callback : κ} {d : Delays} {r : Added κ}
    (hadded : addAlarmUnderLock s.pool s.hw time callback 0 false d = r) (hid : r.id ≠ 0)
    (fireIfPast missed : Bool) :
    (alarmAttempt s time callback fireIfPast missed d).pool = r.pool ∧
      (alarmAttempt s time callback fireIfPast missed d).hw = r.hw ∧
      (alarmAttempt s time callback fireIfPast missed d).pc = s.pc ∧
      (alarmAttempt s time callback fireIfPast missed d).add =
        .after time callback fireIfPast (r.missed.getD missed) := by
  simp only [alarmAttempt, hadded, if_neg hid, AddPc.after]
  split <;> exact ⟨rfl, rfl, rfl, rfl⟩

theorem AlarmInv.attempt (h : AlarmInv n s waiting free) {time : Nat} {callback : κ}
    {fireIfPast missed : Bool} (hadd : s.add = .attempt time callback fireIfPast missed)
    (d : Delays) : Moves n s waiting (.attempt d) := by
  have hs : alarmStep s (.attempt d) = alarmAttempt s time callback fireIfPast missed d := by
    simp only [alarmStep, hadd]
  unfold Moves
  rw [hs]
  cases free with
  | nil =>
    have hnew := Queued.newNode_nil h.queued rfl
    have hres : alarmAttempt s time callback fireIfPast missed d =
        { s with add := .idle, result := -1 } := by
      simp [alarmAttempt, addAlarmUnderLock, hnew]
    rw [hres]
    exact ⟨waiting, [], ⟨h.queued, h.called⟩,
      .full d hadd (by simp [Added.accepted, addAlarmUnderLock, hnew]) (by rw [hnew]) rfl rfl⟩
  | cons id rest =>
    have hnode := (Queued.newNode_cons h.queued rfl).2
    have halloc := Queued.allocated_of_free h.queued rfl
    have hid0 : id ≠ 0 := Nat.one_le_iff_ne_zero.1 halloc.2.2.1
    have hcalled : ∀ id' entry, s.pc = .call id' entry → id' ∉ waiting ∧ id' ≠ id ∧ id' ∉ rest ∧
        1 ≤ id' ∧ id' ≤ n := fun id' entry he => by
      obtain ⟨hw, hf, hlo, hhi⟩ := h.called id' entry he
      rw [List.mem_cons, not_or] at hf
      exact ⟨hw, hf.1, hf.2, hlo, hhi⟩
    obtain ⟨hins, hentries, hrid⟩ := addAlarm_inserted h.queued s.hw time callback d
    generalize hadded : addAlarmUnderLock s.pool s.hw time callback 0 false d = r
      at hins hentries hrid
    obtain ⟨hpool, hhw, hpc, hadd'⟩ :=
      alarmAttempt_fields hadded (hrid ▸ hid0) fireIfPast missed
    generalize alarmAttempt s time callback fireIfPast missed d = s' at hpool hhw hpc hadd'
    rw [← hpool] at hentries
    cases hins with
    | later hb hhw' hm hq =>
      rw [hm, Option.getD_none] at hadd'
      refine ⟨insert id waiting, rest, ⟨hpool ▸ hq, fun id' entry he => ?_⟩,
        .later d id hadd (by simp [hadded, Added.accepted, hrid, hid0, hm]) halloc.1 hb hentries
          (hhw.trans hhw') hpc hadd' rfl⟩
      obtain ⟨hw, hne, hf, hr⟩ := hcalled id' entry (hpc ▸ he)
      exact ⟨by simp [hw, hne], hf, hr⟩
    | first hle hset hm hq =>
      rw [hm, Option.getD_some] at hadd'
      rw [← hhw] at hset
      refine ⟨insert id waiting, rest, ⟨hpool ▸ hq, fun id' entry he => ?_⟩,
        .first d id hadd (by simp [hadded, Added.accepted, hrid, hid0, hm]) halloc.1 hle hset
          hentries hpc (hadd'.trans (by simp [AddPc.after])) rfl⟩
      obtain ⟨hw, hne, hf, hr⟩ := hcalled id' entry (hpc ▸ he)
      exact ⟨by simp [hw, hne], hf, hr⟩
    | missed hle hset hm hq =>
      rw [hm, Option.getD_some] at hadd'
      rw [← hhw] at hset
      refine ⟨waiting, rest ++ [id], ⟨hpool ▸ hq, fun id' entry he => ?_⟩,
        .missed d id hadd (by simp [hadded, Added.accepted, hm]) halloc.1 (by rwa [hnode]) hle hset
          hentries hpc hadd' rfl⟩
      obtain ⟨hw, hne, hf, hr⟩ := hcalled id' entry (hpc ▸ he)
      exact ⟨hw, by simp [hf, hne], hr⟩

/-- **What a step can do.** -/
theorem alarm_step_cases (h : AlarmInv n s waiting free) (st : AlarmStep κ) :
    Moves n s waiting st := by
  cases st with
  | elapse d => exact ⟨waiting, free, ⟨h.queued, h.called⟩, .elapse d rfl rfl⟩
  | irq d =>
    cases hpc : s.pc with
    | idle =>
      have hs : alarmStep s (.irq d) =
          { s with
            hw := (hardwareAlarmIrqHandler s.hw d).1
            pc := if (hardwareAlarmIrqHandler s.hw d).2 then .loop else .idle } := by
        simp only [alarmStep, hpc]
      refine ⟨waiting, free, ⟨by rw [hs]; exact h.queued, fun id entry he => ?_⟩,
        .irq d hpc hs rfl⟩
      rw [hs] at he
      dsimp only at he
      split at he <;> cases he
    | loop => exact h.still (by simp only [alarmStep, hpc]) (by simp [Elsewhere, hpc])
    | call id entry => exact h.still (by simp only [alarmStep, hpc]) (by simp [Elsewhere, hpc])
  | scan m d =>
    cases hpc : s.pc with
    | loop => exact h.scan hpc m d
    | idle => exact h.still (by simp only [alarmStep, hpc]) (by simp [Elsewhere, hpc])
    | call id entry => exact h.still (by simp only [alarmStep, hpc]) (by simp [Elsewhere, hpc])
  | ret a m d =>
    cases hpc : s.pc with
    | call id entry => exact h.ret hpc a m d
    | idle => exact h.still (by simp only [alarmStep, hpc]) (by simp [Elsewhere, hpc])
    | loop => exact h.still (by simp only [alarmStep, hpc]) (by simp [Elsewhere, hpc])
  | cancel alarmId => exact h.cancel alarmId
  | attempt d =>
    cases hadd : s.add with
    | attempt time callback fireIfPast missed => exact h.attempt hadd d
    | idle => exact h.still (by simp only [alarmStep, hadd]) (by simp [Elsewhere, hadd])
    | callback time callback =>
      exact h.still (by simp only [alarmStep, hadd]) (by simp [Elsewhere, hadd])
  | addAlarmAt time callback fireIfPast =>
    cases hadd : s.add with
    | idle =>
      have hs : alarmStep s (.addAlarmAt time callback fireIfPast) =
          { s with add := .attempt time callback fireIfPast false } := by
        simp only [alarmStep, hadd]
      exact ⟨waiting, free, by rw [hs]; exact ⟨h.queued, h.called⟩,
        .request time callback fireIfPast hadd hs rfl⟩
    | attempt _ _ _ _ => exact h.still (by simp only [alarmStep, hadd]) (by simp [Elsewhere, hadd])
    | callback _ _ => exact h.still (by simp only [alarmStep, hadd]) (by simp [Elsewhere, hadd])
  | returned a =>
    cases hadd : s.add with
    | callback time callback =>
      have hs : (alarmStep s (.returned a)).pool = s.pool ∧ (alarmStep s (.returned a)).hw = s.hw ∧
          (alarmStep s (.returned a)).pc = s.pc ∧
          (alarmStep s (.returned a)).add = if a = 0 then .idle else
            .attempt (delayedByUs (if a < 0 then time else s.hw.time) a.natAbs) callback true
              true := by
        simp only [alarmStep, hadd]
        split <;> exact ⟨rfl, rfl, rfl, rfl⟩
      obtain ⟨hpool, hhw, hpc, hadd'⟩ := hs
      exact ⟨waiting, free, ⟨hpool ▸ h.queued, fun id entry he => h.called id entry (hpc ▸ he)⟩,
        .returned a hadd hpool hhw hpc hadd' rfl⟩
    | idle => exact h.still (by simp only [alarmStep, hadd]) (by simp [Elsewhere, hadd])
    | attempt _ _ _ _ => exact h.still (by simp only [alarmStep, hadd]) (by simp [Elsewhere, hadd])

theorem time_le_step (h : AlarmInv n s waiting free) (st : AlarmStep κ) :
    s.hw.time ≤ (alarmStep s st).hw.time := by
  obtain ⟨waiting', free', -, hmove⟩ := alarm_step_cases h st
  generalize alarmStep s st = s' at hmove
  cases hmove with
  | elapse d hs => simp [hs]
  | irq d _ hs => exact hs ▸ le_irqHandler_time s.hw d
  | set m d id _ _ _ hs => exact hs ▸ le_setTarget_time s.hw _ d
  | again _ _ _ _ _ _ _ _ _ hhw => exact hhw
  | first d id _ _ _ _ hset =>
    exact le_trans (le_setTarget_time s.hw _ d) (by rw [hset])
  | missed d id _ _ _ _ _ hset =>
    exact le_trans (le_setTarget_time s.hw _ d) (by rw [hset])
  | still hs | clear _ _ _ _ hs | request _ _ _ _ hs | full _ _ _ _ hs => simp [hs]
  | call _ _ _ _ _ _ _ _ hhw | done _ _ _ _ _ _ _ _ hhw | later _ _ _ _ _ _ _ hhw
  | returned _ _ _ hhw | cancel _ _ _ _ hhw | cancelNone _ _ _ hhw =>
    exact (congrArg HwAlarm.time hhw).ge

theorem time_le_run (h : AlarmInv n s waiting free) (steps : List (AlarmStep κ)) :
    s.hw.time ≤ (Trace.run alarmStep s steps).hw.time := by
  induction steps generalizing s waiting free with
  | nil => exact le_rfl
  | cons st steps ih =>
    obtain ⟨waiting', free', h', -⟩ := alarm_step_cases h st
    exact (time_le_step h st).trans (ih h')

end VolumeControl
