import VolumeControl.Lib.Agenda
import VolumeControl.Time.AlarmMoves

/-!
# The pool is an agenda

What the pool is for: an alarm that has been added is called once by the handler, at
its time or later, and never while another is due before it, unless it is cancelled
first. An alarm that `alarm_pool_add_alarm_at` takes for missed, and calls itself, is
no affair of the pool.
The heap, its nodes and the ids are forgotten; the alarms that wait are a multiset,
`AlarmPool.waiting`, and every step of the system is a move of the agenda that
they make (`alarms_agenda`). So of every run the books are balanced
(`alarms_balanced`).
-/

open Trace

namespace VolumeControl

variable {κ : Type*} {n : Nat}

/-- The alarms in the heap. -/
def AlarmPool.waiting (pool : AlarmPool κ) : Multiset (AlarmPoolEntry κ) :=
  (((List.range' 1 pool.heap.maxNodes).filter (phContainsNode pool.heap)).map pool.entries :)

/-- What a step does to the alarms that wait. -/
def alarmEvent (s : AlarmSystem κ) : AlarmStep κ → Agenda.Event (AlarmPoolEntry κ)
  | .scan n d =>
    match s.pc, (alarmStep s (.scan n d)).pc with
    | .loop, .call _ entry => .served entry
    | _, _ => .none
  | .ret again _ _ =>
    match s.pc with
    | .call _ entry =>
      if again ≠ 0 ∧ s.pool.alarmInProgress ≠ 0 then
        let base := if again < 0 then entry.target else s.hw.time
        .joined ⟨delayedByUs base again.natAbs, entry.callback⟩
      else .none
    | _ => .none
  | .attempt d =>
    match s.add with
    | .attempt time callback _ _ =>
      if (addAlarmUnderLock s.pool s.hw time callback 0 false d).accepted then
        .joined ⟨time, callback⟩
      else .none
    | _ => .none
  | .cancel alarmId =>
    if (alarmPoolCancelAlarm s.pool alarmId).2 then .withdrawn (s.pool.entries (alarmId % 2 ^ 8))
    else .none
  | .elapse _ => .none
  | .irq _ => .none
  | .addAlarmAt _ _ _ => .none
  | .returned _ => .none

variable {s s' : AlarmSystem κ} {pool : AlarmPool κ} {waiting waiting' : Finset Nat}
  {free free' : List Nat} {st : AlarmStep κ}

theorem PoolQueued.waiting_eq (h : PoolQueued n pool waiting free) :
    pool.waiting = waiting.val.map pool.entries := by
  have hnodes : (((List.range' 1 pool.heap.maxNodes).filter (phContainsNode pool.heap) :
      List Nat) : Multiset Nat) = waiting.val := by
    refine (Multiset.Nodup.ext ?_ waiting.nodup).2 fun b => ?_
    · exact Multiset.coe_nodup.2 ((List.nodup_range' ..).filter _)
    · rw [Multiset.mem_coe, List.mem_filter, List.mem_range'_1, Finset.mem_val, h.1]
      constructor
      · rintro ⟨⟨hb, -⟩, hc⟩
        rw [Queued.containsNode h (by omega)] at hc
        exact of_decide_eq_true hc
      · intro hb
        obtain ⟨-, hlo, hhi⟩ := h.allocated hb
        refine ⟨⟨hlo, by omega⟩, ?_⟩
        rw [Queued.containsNode h (by omega)]
        exact decide_eq_true hb
  rw [AlarmPool.waiting, ← Multiset.map_coe, hnodes]

section Waiting

variable {id : Nat} {e : AlarmPoolEntry κ} (h : AlarmInv n s waiting free)
  (h' : AlarmInv n s' waiting' free')
include h h'

theorem waiting_same (hwait : waiting' = waiting) (hentries : s'.pool.entries = s.pool.entries) :
    s'.pool.waiting = s.pool.waiting := by
  rw [h.queued.waiting_eq, h'.queued.waiting_eq, hwait, hentries]

/-- An entry is written for a node that no alarm has. -/
theorem waiting_update (hwait : waiting' = waiting)
    (hentries : s'.pool.entries = Function.update s.pool.entries id e) (hid : id ∉ waiting) :
    s'.pool.waiting = s.pool.waiting := by
  rw [h.queued.waiting_eq, h'.queued.waiting_eq, hwait]
  refine Multiset.map_congr rfl fun b hb => ?_
  rw [hentries, Function.update_of_ne (ne_of_mem_of_not_mem hb hid)]

theorem waiting_insert (hwait : waiting' = insert id waiting)
    (hentries : s'.pool.entries = Function.update s.pool.entries id e) (hid : id ∉ waiting) :
    s'.pool.waiting = e ::ₘ s.pool.waiting := by
  rw [h.queued.waiting_eq, h'.queued.waiting_eq, hwait, Finset.insert_val_of_notMem hid,
    Multiset.map_cons, hentries, Function.update_self]
  refine congrArg (e ::ₘ ·) (Multiset.map_congr rfl fun b hb => ?_)
  rw [Function.update_of_ne (ne_of_mem_of_not_mem hb hid)]

theorem waiting_erase (hwait : waiting' = waiting.erase id)
    (hentries : s'.pool.entries = s.pool.entries) (hid : id ∈ waiting) :
    s.pool.waiting = s.pool.entries id ::ₘ s'.pool.waiting := by
  rw [h.queued.waiting_eq, h'.queued.waiting_eq, hwait, hentries, Finset.erase_val,
    ← Multiset.map_cons, Multiset.cons_erase (show id ∈ waiting.val from hid)]

end Waiting

/-- A step of a party that is elsewhere is no event. -/
theorem alarmEvent_elsewhere (h : Elsewhere s st) : alarmEvent s st = .none := by
  cases st with
  | scan m d =>
    unfold alarmEvent
    cases hpc : s.pc with
    | loop => exact absurd hpc h
    | idle => rfl
    | call id entry => rfl
  | ret again m d =>
    unfold alarmEvent
    cases hpc : s.pc with
    | call id entry => exact absurd hpc (h id entry)
    | idle => rfl
    | loop => rfl
  | attempt d =>
    unfold alarmEvent
    cases hadd : s.add with
    | attempt time callback fireIfPast missed =>
      exact absurd hadd (h time callback fireIfPast missed)
    | idle => rfl
    | callback time callback => rfl
  | cancel alarmId => exact absurd h id
  | _ => rfl

/-- A scan that does not end in a call is no event. -/
theorem alarmEvent_scan {m : Nat} {d : Delays} (hpc : ∀ id entry, s'.pc ≠ .call id entry)
    (hs' : alarmStep s (.scan m d) = s') : alarmEvent s (.scan m d) = .none := by
  simp only [alarmEvent, hs']
  split
  · rename_i h
    exact absurd h (hpc _ _)
  · rfl

/-- **A step is a move of the agenda.** -/
theorem alarm_step_agenda (h : AlarmInv n s waiting free) (st : AlarmStep κ) :
    Agenda.Move AlarmPoolEntry.target s.hw.time s.pool.waiting (alarmEvent s st)
      (alarmStep s st).pool.waiting := by
  obtain ⟨waiting', free', h', hmove⟩ := alarm_step_cases h st
  generalize hs' : alarmStep s st = s' at h' hmove
  have hnone (hev : alarmEvent s st = .none) (hwait : waiting' = waiting)
      (hentries : s'.pool.entries = s.pool.entries) :
      Agenda.Move AlarmPoolEntry.target s.hw.time s.pool.waiting (alarmEvent s st)
        s'.pool.waiting := by
    rw [hev, waiting_same h h' hwait hentries]
    exact .none _
  cases hmove with
  | still hs helse hwait => exact hnone (alarmEvent_elsewhere helse) hwait (by rw [hs])
  | elapse d hs hwait => exact hnone rfl hwait (by rw [hs])
  | irq d _ hs hwait => exact hnone rfl hwait (by rw [hs])
  | clear m d _ _ hs hwait =>
    exact hnone (alarmEvent_scan (by rw [hs]; simp) hs') hwait (by rw [hs])
  | set m d id _ _ _ hs hwait =>
    refine hnone (alarmEvent_scan (fun _ _ => ?_) hs') hwait (by rw [hs])
    rw [hs]
    dsimp only
    split
    · simp
    · simp
  | call m d id hpc hid hle hdue hentries _ hpc' _ hwait =>
    have hev : alarmEvent s (.scan m d) = .served (s.pool.entries id) := by
      simp only [alarmEvent, hpc, hs', hpc']
    rw [hev, waiting_erase h h' hwait hentries hid]
    refine .serve _ _ (le_trans hdue (Nat.sub_le ..)) fun e he => ?_
    rw [h'.queued.waiting_eq, hwait, hentries] at he
    obtain ⟨b, hb, rfl⟩ := Multiset.mem_map.1 he
    exact hle b (Finset.mem_of_mem_erase hb)
  | again a m d id entry hpc ha hid hentries _ _ _ hwait =>
    have hev : alarmEvent s (.ret a m d) =
        .joined
          ⟨delayedByUs (if a < 0 then entry.target else s.hw.time) a.natAbs, entry.callback⟩ := by
      simp only [alarmEvent, hpc, if_pos ha]
    rw [hev, waiting_insert h h' hwait hentries hid]
    exact .join _ _
  | done a m d id entry hpc ha hentries _ _ _ hwait =>
    exact hnone (by simp only [alarmEvent, hpc, if_neg ha]) hwait hentries
  | request _ _ _ _ hs hwait => exact hnone rfl hwait (by rw [hs])
  | full d hadd hacc _ hs hwait =>
    refine hnone ?_ hwait (by rw [hs])
    simp only [alarmEvent, hadd, hacc, Bool.false_eq_true, if_false]
  | @later d id time callback _ _ hadd hacc hid _ hentries _ _ _ hwait =>
    have hev : alarmEvent s (.attempt d) = .joined ⟨time, callback⟩ := by
      simp only [alarmEvent, hadd, hacc, if_true]
    rw [hev, waiting_insert h h' hwait hentries hid]
    exact .join _ _
  | @first d id time callback _ _ hadd hacc hid _ _ hentries _ _ hwait =>
    have hev : alarmEvent s (.attempt d) = .joined ⟨time, callback⟩ := by
      simp only [alarmEvent, hadd, hacc, if_true]
    rw [hev, waiting_insert h h' hwait hentries hid]
    exact .join _ _
  | missed d id hadd hacc hid _ _ _ hentries _ _ hwait =>
    have hev : alarmEvent s (.attempt d) = .none := by
      simp only [alarmEvent, hadd, hacc, Bool.false_eq_true, if_false]
    rw [hev, waiting_update h h' hwait hentries hid]
    exact .none _
  | returned a _ hpool _ _ _ hwait => exact hnone rfl hwait (by rw [hpool])
  | cancel alarmId hrc hid hentries _ _ _ hwait =>
    have hev : alarmEvent s (.cancel alarmId) =
        .withdrawn (s.pool.entries (alarmId % 2 ^ 8)) := by
      simp only [alarmEvent, hrc, if_true]
    rw [hev, waiting_erase h h' hwait hentries hid]
    exact .withdraw _ _
  | cancelNone alarmId hrc hentries _ _ _ hwait =>
    refine hnone ?_ hwait hentries
    simp only [alarmEvent, hrc, Bool.false_eq_true, if_false]

/-! ## Runs -/

theorem alarms_moves (hn : n ≠ 0) (time : Nat) (null : κ) (steps : List (AlarmStep κ)) :
    AllSteps alarmStep (fun s st => Agenda.Move AlarmPoolEntry.target s.hw.time s.pool.waiting
      (alarmEvent s st) (alarmStep s st).pool.waiting) (.init n time null) steps := by
  rw [allSteps_iff]
  intro pre st post _
  obtain ⟨waiting, free, h⟩ := run_inv (fun s => ∃ waiting free, AlarmInv n s waiting free)
    (fun _ st ⟨_, _, h⟩ => have ⟨_, _, h', _⟩ := alarm_step_cases h st; ⟨_, _, h'⟩)
    ⟨∅, _, alarmInv_init hn time null⟩ pre
  exact alarm_step_agenda h st

theorem waiting_init (hn : n ≠ 0) (time : Nat) (null : κ) :
    (AlarmSystem.init n time null).pool.waiting = 0 := by
  rw [(alarmInv_init hn time null).queued.waiting_eq]
  rfl

/-- **The pool is an agenda**, whatever the order of the steps: the handler calls an alarm when it is
due and none is due before it, and every alarm added to the pool has been called by the handler or
cancelled, once, or waits. -/
theorem alarms_agenda (hn : n ≠ 0) (time : Nat) (null : κ) (steps : List (AlarmStep κ)) :
    AllSteps alarmStep (fun s st => Agenda.Move AlarmPoolEntry.target s.hw.time s.pool.waiting
        (alarmEvent s st) (alarmStep s st).pool.waiting) (.init n time null) steps ∧
      ((outputs alarmStep alarmEvent (.init n time null) steps).map Agenda.Event.joins).sum =
        ((outputs alarmStep alarmEvent (.init n time null) steps).map Agenda.Event.leaves).sum +
          (run alarmStep (.init n time null) steps).pool.waiting := by
  have hmoves := alarms_moves hn time null steps
  have hbooks := Agenda.balanced_run (fun s : AlarmSystem κ => s.hw.time)
    (fun s : AlarmSystem κ => s.pool.waiting) hmoves
  rw [waiting_init hn, zero_add] at hbooks
  exact ⟨hmoves, hbooks⟩

/-- Three alarms: the first called is added again, the second cancelled. -/
def threeAlarms : List (AlarmStep Nat) :=
  let d : Delays := ⟨1, 1, 1, 1, 1⟩
  [.addAlarmAt 90 7 false, .attempt d, .addAlarmAt 50 8 false, .attempt d, .addAlarmAt 70 9 false,
    .attempt d, .elapse 60, .irq 1, .elapse 1, .scan 1 d, .ret 100 1 d, .cancel 3, .scan 0 d]

theorem alarms_agenda_threeAlarms :
    ((outputs alarmStep alarmEvent (.init 4 0 0) threeAlarms).map Agenda.Event.joins).sum =
      {⟨50, 8⟩, ⟨70, 9⟩} + {⟨90, 7⟩, ⟨169, 8⟩} := by
  rw [(alarms_agenda (by decide) 0 0 threeAlarms).2]
  decide +kernel

end VolumeControl
