import VolumeControl.Lib.Run
import VolumeControl.Time.AlarmMoves

/-!
# No alarm is forgotten

While alarms wait and the handler is not running, the hardware alarm is set for
the first of them or earlier (`Covered`). A step keeps this exactly if it does
not strand an alarm (`covered_step_iff`), so that it holds throughout a run
exactly when no step strands one (`alarms_covered_iff`).

A step strands an alarm in two ways, both by writing the register when the target
has just passed and nothing has raised the interrupt, with the handler idle and an
alarm waiting: `alarm_pool_add_alarm_at` of a time that passes while
`hardware_alarm_set_target` is at work, and `hardware_alarm_irq_handler` that arms
the alarm again for the high word of the time.
-/

open Trace

namespace VolumeControl

variable {κ : Type*} {n : Nat}

/-- The hardware alarm is set for the first alarm that waits, or earlier. -/
def Covered (s : AlarmSystem κ) : Prop :=
  s.pc = .idle → phPeekHead s.pool.heap ≠ 0 →
    s.hw.WillFire ∧ s.hw.target ≤ (s.pool.entries (phPeekHead s.pool.heap)).target

/-- An alarm is added that would come first, and its time passes meanwhile. -/
def StrandsAdding (s : AlarmSystem κ) (d : Delays) : AddPc κ → Prop
  | .attempt time _ _ _ =>
    s.pc = .idle ∧ phPeekHead s.pool.heap ≠ 0 ∧ (phNewNode s.pool.heap).2 ≠ 0 ∧
      time ≤ (s.pool.entries (phPeekHead s.pool.heap)).target ∧ s.hw.Late time d
  | .idle => False
  | .callback _ _ => False

/-- The hardware alarm is armed for a time that has passed, with an alarm waiting. -/
def Strands (s : AlarmSystem κ) : AlarmStep κ → Prop
  | .irq d => s.pc = .idle ∧ phPeekHead s.pool.heap ≠ 0 ∧ s.hw.LateAgain d
  | .attempt d => StrandsAdding s d s.add
  | .elapse _ => False
  | .scan _ _ => False
  | .ret _ _ _ => False
  | .addAlarmAt _ _ _ => False
  | .returned _ => False
  | .cancel _ => False

section Decidable

variable [DecidableEq κ]

instance (s : AlarmSystem κ) : Decidable (Covered s) := inferInstanceAs (Decidable (_ → _ → _ ∧ _))

instance (s : AlarmSystem κ) (d : Delays) : (add : AddPc κ) → Decidable (StrandsAdding s d add)
  | .attempt _ _ _ _ => inferInstanceAs (Decidable (_ ∧ _))
  | .idle => inferInstanceAs (Decidable False)
  | .callback _ _ => inferInstanceAs (Decidable False)

instance (s : AlarmSystem κ) : (st : AlarmStep κ) → Decidable (Strands s st)
  | .irq _ => inferInstanceAs (Decidable (_ ∧ _))
  | .attempt d => inferInstanceAs (Decidable (StrandsAdding s d s.add))
  | .elapse _ => inferInstanceAs (Decidable False)
  | .scan _ _ => inferInstanceAs (Decidable False)
  | .ret _ _ _ => inferInstanceAs (Decidable False)
  | .addAlarmAt _ _ _ => inferInstanceAs (Decidable False)
  | .returned _ => inferInstanceAs (Decidable False)
  | .cancel _ => inferInstanceAs (Decidable False)

end Decidable

variable {s s' : AlarmSystem κ} {waiting waiting' : Finset Nat} {free free' : List Nat}
  {pool : AlarmPool κ} {st : AlarmStep κ}

/-- Times no later than the first alarm are no later than any. -/
theorem PoolQueued.le_head_iff (h : PoolQueued n pool waiting free) (hne : waiting.Nonempty)
    (time : Nat) :
    time ≤ (pool.entries (phPeekHead pool.heap)).target ↔ ∀ b ∈ waiting, time ≤ pool.key b := by
  have hhead := h.head
  rw [if_neg (Finset.nonempty_iff_ne_empty.1 hne)] at hhead
  exact ⟨fun hle b hb => le_trans hle (hhead.2 b hb), fun hall => hall _ hhead.1⟩

theorem covered_iff (h : PoolQueued n s.pool waiting free) :
    Covered s ↔ (s.pc = .idle → waiting.Nonempty →
      s.hw.WillFire ∧ ∀ b ∈ waiting, s.hw.target ≤ s.pool.key b) := by
  unfold Covered
  rw [h.head_ne_zero_iff]
  refine forall_congr' fun _ => forall_congr' fun hne => ?_
  rw [h.le_head_iff hne]

/-- The handler is at work: it will set the hardware alarm itself. -/
theorem covered_of_pc (h : s.pc ≠ .idle) : Covered s := fun hpc => absurd hpc h

/-! ## Steps -/

/-- The times of the alarms that wait stay when another alarm gets its own. -/
theorem key_of_mem {id : Nat} {e : AlarmPoolEntry κ}
    (h : s'.pool.entries = Function.update s.pool.entries id e) (hid : id ∉ waiting) :
    ∀ b ∈ waiting, s'.pool.key b = s.pool.key b := fun b hb => by
  simp only [AlarmPool.key, h, Function.update_of_ne (ne_of_mem_of_not_mem hb hid)]

theorem key_self {id : Nat} {e : AlarmPoolEntry κ}
    (h : s'.pool.entries = Function.update s.pool.entries id e) : s'.pool.key id = e.target := by
  simp only [AlarmPool.key, h, Function.update_self]

/-- An alarm that the hardware alarm is set for no later than joins those that wait. -/
theorem forall_mem_insert_le {id t : Nat} {e : AlarmPoolEntry κ}
    (h : s'.pool.entries = Function.update s.pool.entries id e) (hid : id ∉ waiting)
    (ht : t ≤ e.target) (hle : ∀ b ∈ waiting, t ≤ s.pool.key b) :
    ∀ b ∈ insert id waiting, t ≤ s'.pool.key b := by
  intro b hb
  rcases Finset.mem_insert.1 hb with rfl | hb
  · rwa [key_self h]
  · rw [key_of_mem h hid b hb]
    exact hle b hb

/-- Alarms that no longer wait leave the others covered. -/
theorem Covered.subset (hc : Covered s) (h : PoolQueued n s.pool waiting free)
    (h' : PoolQueued n s'.pool waiting' free') (hsub : waiting' ⊆ waiting)
    (hentries : s'.pool.entries = s.pool.entries) (hhw : s'.hw = s.hw) (hpc : s'.pc = s.pc) :
    Covered s' := by
  refine (covered_iff h').2 fun hidle hne => ?_
  obtain ⟨hfire, hle⟩ := (covered_iff h).1 hc (hpc ▸ hidle) (hne.mono hsub)
  rw [hhw]
  refine ⟨hfire, fun b hb => ?_⟩
  simp only [AlarmPool.key, hentries]
  exact hle b (hsub hb)

/-- The handler's interrupt, in a state that is covered. -/
theorem covered_irq_iff (hc : Covered s) (hpc : s.pc = .idle) (d : Nat) :
    Covered { s with
        hw := (hardwareAlarmIrqHandler s.hw d).1
        pc := if (hardwareAlarmIrqHandler s.hw d).2 then .loop else .idle } ↔
      ¬Strands s (.irq d) := by
  cases hcb : (hardwareAlarmIrqHandler s.hw d).2 with
  | true =>
    refine iff_of_true (covered_of_pc (by simp)) fun hst => ?_
    have hhi := ((irqHandler_callback_iff s.hw d).1 hcb).2
    exact absurd hst.2.2.2.1 (by omega)
  | false =>
    by_cases hne : phPeekHead s.pool.heap = 0
    · exact iff_of_true (fun _ h0 => absurd hne h0) fun hst => hst.2.1 hne
    · obtain ⟨hfire, hle⟩ := hc hpc hne
      obtain ⟨htarget, hiff⟩ := irqHandler_again hfire.1 hcb
      constructor
      · intro hcov hst
        exact hiff.1 (hcov (by simp) hne).1 hst.2.2
      · intro hst _ _
        refine ⟨hiff.2 fun hl => hst ⟨hpc, hne, hl⟩, ?_⟩
        dsimp only
        rw [htarget]
        exact hle

/-- A new alarm that is missed when others wait, all of them no earlier. -/
theorem covered_missed_iff (h : PoolQueued n s.pool waiting free)
    (h' : PoolQueued n s'.pool waiting free') (hc : Covered s) {d : Delays} {id time : Nat}
    {callback : κ} {fireIfPast missed : Bool}
    (hadd : s.add = .attempt time callback fireIfPast missed) (hid : id ∉ waiting)
    (hnode : (phNewNode s.pool.heap).2 ≠ 0) (hle : ∀ b ∈ waiting, time ≤ s.pool.key b)
    (hset : hardwareAlarmSetTarget s.hw time d = (s'.hw, true))
    (hentries : s'.pool.entries = Function.update s.pool.entries id ⟨time, callback⟩)
    (hpc : s'.pc = s.pc) : Covered s' ↔ ¬Strands s (.attempt d) := by
  have hst : Strands s (.attempt d) ↔ s.pc = .idle ∧ waiting.Nonempty ∧
      (phNewNode s.pool.heap).2 ≠ 0 ∧ time ≤ (s.pool.entries (phPeekHead s.pool.heap)).target ∧
      s.hw.Late time d := by
    simp only [Strands, StrandsAdding, hadd, h.head_ne_zero_iff]
  rw [hst, covered_iff h', hpc]
  by_cases hidle : s.pc = .idle ∧ waiting.Nonempty
  · obtain ⟨hfire, hbefore⟩ := (covered_iff h).1 hc hidle.1 hidle.2
    have hmissed : (hardwareAlarmSetTarget s.hw time d).2 = true := by rw [hset]
    by_cases hlt : s.hw.time - d.read < time
    · -- the register was written
      obtain ⟨htarget, hiff⟩ := setTarget_missed_due hfire.1 hlt hmissed
      rw [hset] at htarget hiff
      have hhead := (h.le_head_iff hidle.2 time).2 hle
      constructor
      · exact fun hcov hst => hiff.1 (hcov hidle.1 hidle.2).1 hst.2.2.2.2
      · refine fun hst _ _ =>
          ⟨hiff.2 fun hl => hst ⟨hidle.1, hidle.2, hnode, hhead, hl⟩, fun x hx => ?_⟩
        rw [htarget, key_of_mem hentries hid x hx]
        exact hle x hx
    · -- it was not
      rw [setTarget_missed_of_le (not_lt.1 hlt)] at hset
      have hhw : s'.hw = s.hw := (congrArg Prod.fst hset).symm
      rw [hhw]
      refine iff_of_true (fun _ _ => ⟨hfire, fun x hx => ?_⟩) fun hst => hlt hst.2.2.2.2.1
      rw [key_of_mem hentries hid x hx]
      exact hbefore x hx
  · exact iff_of_true (fun h1 h2 => absurd ⟨h1, h2⟩ hidle) fun hst => hidle ⟨hst.1, hst.2.1⟩

/-- A step that does nothing strands no alarm. -/
theorem not_strands (h : Elsewhere s st) : ¬Strands s st := by
  intro hst
  cases st with
  | irq d => exact h hst.1
  | attempt d =>
    cases hadd : s.add with
    | attempt time callback fireIfPast missed => exact h time callback fireIfPast missed hadd
    | idle => simp only [Strands, StrandsAdding, hadd] at hst
    | callback time callback => simp only [Strands, StrandsAdding, hadd] at hst
  | _ => exact hst

/-- **A step keeps the alarms covered** exactly if it does not strand one. -/
theorem covered_step_iff (h : AlarmInv n s waiting free) (hc : Covered s) (st : AlarmStep κ) :
    Covered (alarmStep s st) ↔ ¬Strands s st := by
  obtain ⟨waiting', free', h', hmove⟩ := alarm_step_cases h st
  generalize alarmStep s st = s' at h' hmove
  have hcov := (covered_iff h.queued).1 hc
  cases hmove with
  | still hs helse => exact iff_of_true (hs ▸ hc) (not_strands helse)
  | elapse d hs =>
    refine iff_of_true (fun hpc hne => ?_) id
    rw [hs] at hpc hne ⊢
    obtain ⟨hfire, hle⟩ := hc hpc hne
    exact ⟨hfire.elapse d, by rwa [HwAlarm.elapse_target]⟩
  | irq d hpc hs => exact hs ▸ covered_irq_iff hc hpc d
  | clear m d _ hempty hs hwait =>
    refine iff_of_true ((covered_iff h'.queued).2 fun _ hne => ?_) id
    rw [hwait, hempty] at hne
    exact absurd hne Finset.not_nonempty_empty
  | set m d id _ hid hle hs hwait =>
    refine iff_of_true ?_ fun hst => hst
    cases hmiss : (hardwareAlarmSetTarget s.hw (s.pool.key id) d).2 with
    | true => exact covered_of_pc (by simp [hs, hmiss])
    | false =>
      obtain ⟨hfire, htarget⟩ := setTarget_set hmiss
      refine (covered_iff h'.queued).2 fun _ _ => ?_
      rw [hs, hwait]
      exact ⟨hfire, fun b hb => by rw [htarget]; exact hle b hb⟩
  | call m d id _ _ _ _ _ _ hpc' =>
    exact iff_of_true (covered_of_pc (by simp [hpc'])) fun hst => hst
  | again a m d id entry _ _ _ _ _ hpc' =>
    exact iff_of_true (covered_of_pc (by simp [hpc'])) fun hst => hst
  | done a m d id entry _ _ _ _ hpc' =>
    exact iff_of_true (covered_of_pc (by simp [hpc'])) fun hst => hst
  | request time callback fireIfPast _ hs => exact iff_of_true (hs ▸ hc) id
  | full d hadd _ hnode hs =>
    refine iff_of_true (hs ▸ hc) fun hst => ?_
    simp only [Strands, StrandsAdding, hadd] at hst
    exact hst.2.2.1 hnode
  | @later d id time callback _ _ hadd _ hid hb hentries hhw hpc' _ hwait =>
    obtain ⟨b, hb, hlt⟩ := hb
    refine iff_of_true ((covered_iff h'.queued).2 fun hidle _ => ?_) fun hst => ?_
    · obtain ⟨hfire, hle⟩ := hcov (hpc' ▸ hidle) ⟨b, hb⟩
      rw [hhw, hwait]
      exact ⟨hfire, forall_mem_insert_le hentries hid (le_trans (hle b hb) (le_of_lt hlt)) hle⟩
    · simp only [Strands, StrandsAdding, hadd] at hst
      have hle := (h.queued.le_head_iff ⟨b, hb⟩ time).1 hst.2.2.2.1 b hb
      exact absurd hlt (not_lt.2 hle)
  | @first d id time callback _ _ hadd _ hid hle hset hentries hpc' _ hwait =>
    have hset' := setTarget_set (show (hardwareAlarmSetTarget s.hw time d).2 = false
      by rw [hset])
    rw [hset] at hset'
    refine iff_of_true ((covered_iff h'.queued).2 fun _ _ => ?_) fun hst => ?_
    · rw [hwait]
      exact ⟨hset'.1, forall_mem_insert_le hentries hid (le_of_eq hset'.2)
        fun b hb => by rw [hset'.2]; exact hle b hb⟩
    · simp only [Strands, StrandsAdding, hadd] at hst
      have hmissed := setTarget_late hst.2.2.2.2
      rw [hset] at hmissed
      cases hmissed
  | missed d id hadd _ hid hnode hle hset hentries hpc' _ hwait =>
    exact covered_missed_iff h.queued (hwait ▸ h'.queued) hc hadd hid hnode hle hset hentries hpc'
  | returned a _ hpool hhw hpc' =>
    refine iff_of_true ?_ id
    unfold Covered
    rw [hpool, hhw, hpc']
    exact hc
  | cancel alarmId _ _ hentries hhw hpc' _ hwait =>
    exact iff_of_true (hc.subset h.queued h'.queued (hwait.trans_subset (Finset.erase_subset _ _))
      hentries hhw hpc') fun hst => hst
  | cancelNone alarmId _ hentries hhw hpc' _ hwait =>
    exact iff_of_true (hc.subset h.queued h'.queued hwait.subset hentries hhw hpc') fun hst => hst

/-! ## Runs -/

theorem alarms_covered (hn : n ≠ 0) {time : Nat} {null : κ} {steps : List (AlarmStep κ)}
    (h : AllSteps alarmStep (fun s st => ¬Strands s st) (.init n time null) steps) :
    Covered (run alarmStep (.init n time null) steps) :=
  (h.run_inv (fun s => (∃ waiting free, AlarmInv n s waiting free) ∧ Covered s)
    (fun _ st ⟨⟨_, _, hs⟩, hc⟩ hst =>
      have ⟨_, _, h', _⟩ := alarm_step_cases hs st
      ⟨⟨_, _, h'⟩, (covered_step_iff hs hc st).2 hst⟩)
    ⟨⟨∅, _, alarmInv_init hn time null⟩, fun _ h0 => absurd rfl h0⟩).2

/-- **No alarm is forgotten** in a run exactly when no step strands one. -/
theorem alarms_covered_iff (hn : n ≠ 0) (time : Nat) (null : κ) (steps : List (AlarmStep κ)) :
    AllSteps alarmStep (fun s st => Covered (alarmStep s st)) (.init n time null) steps ↔
      AllSteps alarmStep (fun s st => ¬Strands s st) (.init n time null) steps := by
  refine AllSteps.iff_of_inv
    (fun s => (∃ waiting free, AlarmInv n s waiting free) ∧ Covered s)
    (fun s st hs => ?_) (fun s st hs hc => ?_) ⟨⟨∅, _, alarmInv_init hn time null⟩, ?_⟩ steps
  · obtain ⟨⟨waiting, free, h⟩, hc⟩ := hs
    exact covered_step_iff h hc st
  · obtain ⟨⟨waiting, free, h⟩, -⟩ := hs
    obtain ⟨waiting', free', h', -⟩ := alarm_step_cases h st
    exact ⟨⟨waiting', free', h'⟩, hc⟩
  · exact fun _ h0 => absurd rfl h0

/-- Two alarms, the second added before the first; both are called. -/
def twoAlarms : List (AlarmStep Unit) :=
  let d : Delays := ⟨1, 1, 1, 1, 1⟩
  [.addAlarmAt 90 () false, .attempt d, .addAlarmAt 50 () false, .attempt d, .elapse 60, .irq 1,
    .elapse 1, .scan 1 d, .ret 0 0 d, .elapse 1, .scan 1 d, .elapse 40]

theorem alarms_covered_twoAlarms :
    AllSteps alarmStep (fun s st => Covered (alarmStep s st)) (.init 4 0 ()) twoAlarms :=
  (alarms_covered_iff (by decide) 0 () twoAlarms).2 (by decide +kernel)

/-- **An alarm that is due is called**: the interrupt has been raised, the handler it starts finds
the alarm due. -/
theorem due_alarm_called (hn : n ≠ 0) {time : Nat} {null : κ} {steps : List (AlarmStep κ)}
    (h : AllSteps alarmStep (fun s st => ¬Strands s st) (.init n time null) steps)
    (hs : run alarmStep (.init n time null) steps = s) (hpc : s.pc = .idle)
    (hne : phPeekHead s.pool.heap ≠ 0)
    (hdue : (s.pool.entries (phPeekHead s.pool.heap)).target ≤ s.hw.time) (k d m : Nat)
    (d' : Delays) :
    (s.hw.elapse k).ints = true ∧
      (run alarmStep s [.elapse k, .irq d, .elapse m, .scan m d']).pc =
        .call (phPeekHead s.pool.heap) (s.pool.entries (phPeekHead s.pool.heap)) := by
  obtain ⟨hfire, hle⟩ := (hs ▸ alarms_covered hn h : Covered s) hpc hne
  refine ⟨hfire.raised (le_trans hle hdue) k, ?_⟩
  have hcb : (hardwareAlarmIrqHandler (s.hw.elapse k) d).2 = true := by
    rw [irqHandler_callback_iff, HwAlarm.elapse_targetHi, HwAlarm.elapse_time]
    have htarget : s.hw.targetHi * 2 ^ 32 ≤ s.hw.target := Nat.le_add_right _ _
    exact ⟨by rw [HwAlarm.elapse_pending]; exact hfire.1,
      Nat.le_add_right_of_le (le_trans htarget (le_trans hle hdue))⟩
  have htime : s.hw.time ≤ (hardwareAlarmIrqHandler (s.hw.elapse k) d).1.time :=
    le_trans (by rw [HwAlarm.elapse_time]; exact Nat.le_add_right _ _) (le_irqHandler_time _ d)
  simp only [run_cons, run_nil, alarmStep, hpc, hcb, if_true, alarmScan, if_neg hne]
  rw [HwAlarm.elapse_time, Nat.add_sub_cancel, if_pos (le_trans hdue htime)]

theorem due_alarm_called_twoAlarms :
    (run alarmStep (.init 4 0 ()) (twoAlarms ++ [.elapse 1, .irq 1, .elapse 1, .scan 1 ⟨1, 1, 1, 1, 1⟩])).pc =
      .call 1 ⟨90, ()⟩ := by
  have hst : AllSteps alarmStep (fun s st => ¬Strands s st) (.init 4 0 ()) twoAlarms := by
    decide +kernel
  rw [run_append]
  refine (due_alarm_called (by decide) hst rfl (by decide +kernel) (by decide +kernel)
    (by decide +kernel) 1 1 1 ⟨1, 1, 1, 1, 1⟩).2.trans ?_
  decide +kernel

end VolumeControl
