import Mathlib.Algebra.Order.Archimedean.Real.Basic
import VolumeControl.Ir.Signal
import VolumeControl.Time.RepeatingTimer

/-!
# The receiver on its timer

`main` samples the line from a repeating timer of `IR_SAMPLE_US`. The calls of
that timer are never closer than the delay (`calls_apart`), whatever
else the alarm pool has to do, as long as the timer `Repeats`. If none is later
than `gmax` after the one before, every transmission that suits the two bounds is
received (`timer_receives`): half-bits of 889 us for calls up to 148 us apart.
-/

namespace VolumeControl

open Trace Wave

variable {κ : Type*} [DecidableEq κ] {n : ℕ}

/-- The calls of a timer with a positive delay are that far apart. -/
theorem Follows.apart {delayUs : ℕ} {a b : AlarmCall} (h : Follows delayUs a b.target)
    (hb : b.target ≤ b.time) : a.time + delayUs ≤ b.time := by
  rw [Follows, if_neg (by omega)] at h
  simp only [Int.natAbs_natCast] at h
  omega

theorem calls_apart {delayUs : ℕ} {calls : List AlarmCall}
    (h : calls.IsChain fun a b => Follows delayUs a b.target)
    (hlate : ∀ call ∈ calls, call.target ≤ call.time) :
    calls.IsChain fun a b => a.time + delayUs ≤ b.time :=
  h.imp_of_mem_imp fun _ b _ hb hab => hab.apart (hlate b hb)

/-- The calls of the callback `c` in a run from power-on. -/
def timerCalls (n time : ℕ) (null c : κ) (steps : List (AlarmStep κ)) : List AlarmCall :=
  (outputs alarmStep (calledAt c) (.init n time null) steps).flatten

/-- `main` asks for the timer of the receiver once. -/
def SamplesIr (n time : ℕ) (null c : κ) (steps : List (AlarmStep κ)) : Prop :=
  ∃ pre post, steps =
      pre ++
        alarmPoolAddRepeatingTimerUs (run alarmStep (.init n time null) pre) irSampleUs c :: post ∧
    ∀ st ∈ pre ++ post, requests c st = false

/-- **The receiver on its timer.** Whatever else uses the alarm pool, a run in which the calls of
`irq_sample_ir` are `gmax` apart at most receives every transmission that suits `gmax`, unless a
round of `alarm_pool_add_alarm_at` both adds an alarm and calls it (`Repeats`). -/
theorem timer_receives (hn : n ≠ 0) (time : ℕ) (null c : κ) (steps : List (AlarmStep κ))
    (hmain : SamplesIr n time null c steps)
    (hrep : AllSteps alarmStep (Repeats c irSampleUs) (.init n time null) steps)
    (hlt : (run alarmStep (.init n time null) steps).hw.time + irSampleUs < 2 ^ 63)
    {times : List ℝ}
    (htimes : (timerCalls n time null c steps).map (fun call => (call.time : ℝ)) = times)
    (hne : times ≠ []) {gmax : ℝ} (hgmax : (irSampleUs : ℝ) ≤ gmax)
    (hgap : times.IsChain fun a b => b ≤ a + gmax)
    {idle : ℝ} {ts : List (Transmission ℝ)} (hidle : 35 * gmax ≤ idle)
    (hts : ∀ t ∈ ts, t.TimedBy (irSampleUs : ℝ) gmax)
    (hend : stop (times.head hne) (remoteWave idle ts) ≤ times.getLast hne + gmax) :
    frames Ir.zero ((times.filter (· < stop (times.head hne) (remoteWave idle ts))).map
        (level (times.head hne) (remoteWave idle ts))) =
      ts.map fun t => t.frame.word.setWidth 32 := by
  have hreq : steps.countP (requests c) ≤ 1 := by
    obtain ⟨pre, post, rfl, hnone⟩ := hmain
    have hpre : pre.countP (requests c) = 0 := List.countP_eq_zero.2 fun st hst => by
      simp [hnone st (List.mem_append_left _ hst)]
    have hpost : post.countP (requests c) = 0 := List.countP_eq_zero.2 fun st hst => by
      simp [hnone st (List.mem_append_right _ hst)]
    rw [List.countP_append, List.countP_cons, hpre, hpost]
    split <;> omega
  obtain ⟨hfollow, hlate⟩ :=
    repeating_run (alarmInv_init hn time null) (onePlace_init hn time null hreq) hrep hlt
  have hapart := calls_apart hfollow hlate
  have hmin : times.IsChain fun a b => a + (irSampleUs : ℝ) ≤ b := by
    rw [← htimes, List.isChain_map]
    exact hapart.imp fun a b hab => by exact_mod_cast hab
  refine frames_ofTimes hne (by norm_num [irSampleUs]) hgmax ?_ hidle hts hend
  rw [List.isChain_iff_getElem] at hmin hgap ⊢
  exact fun i hi => ⟨hmin i hi, hgap i hi⟩

/-! ## The timer alone in its pool -/

/-- No time passes within the sections. -/
def noDelays : Delays := ⟨0, 0, 0, 0, 0⟩

def loneHw (t : Nat) : HwAlarm := ⟨t, t + 100, true, false, 0, true⟩

/-- The timer of the receiver alone in a pool of one, at `t`, to be called 100 us later. -/
structure Lone (t : Nat) (s : AlarmSystem Unit) : Prop where
  hw : s.hw = loneHw t
  pc : s.pc = .idle
  root : s.pool.heap.rootId = 1
  maxNodes : s.pool.heap.maxNodes = 1
  child : (s.pool.heap.nodes 1).child = 0
  target : (s.pool.entries 1).target = t + 100

def loneCycle : List (AlarmStep Unit) :=
  [.elapse 100, .irq 0, .scan 0 noDelays, .ret 100 0 noDelays, .scan 0 noDelays]

theorem untilMatch_lone {t : Nat} (h : t + 100 < 2 ^ 32) : (loneHw t).untilMatch = 100 := by
  unfold HwAlarm.untilMatch loneHw
  dsimp only
  omega

theorem elapse_zero (hw : HwAlarm) (h : hw.armed = true → hw.untilMatch ≠ 0) :
    hw.elapse 0 = hw := by
  unfold HwAlarm.elapse
  rw [if_neg fun hc => h hc.1 (Nat.le_zero.1 hc.2)]
  rfl

theorem setTarget_lone (hw : HwAlarm) {t : Nat} (h : t + 100 < 2 ^ 32) (ht : hw.time = t)
    (ha : hw.armed = true → hw.alarm = t + 100) :
    hardwareAlarmSetTarget hw (t + 100) noDelays = (loneHw t, false) := by
  have hquiet (p i : Bool) : ({ hw with pending := p, ints := i } : HwAlarm).elapse 0 =
      { hw with pending := p, ints := i } := by
    refine elapse_zero _ fun harmed => ?_
    have := ha harmed
    unfold HwAlarm.untilMatch
    dsimp only
    omega
  have hq : hw.elapse 0 = hw := hquiet hw.pending hw.ints
  have hwritten : hw.written (t + 100) noDelays = loneHw t := by
    simp only [HwAlarm.written, HwAlarm.beforeWrite, noDelays, hq]
    rw [hquiet]
    dsimp only
    rw [ht, Nat.mod_eq_of_lt h, Nat.div_eq_of_lt h, loneHw]
  have hlone : (loneHw t).elapse 0 = loneHw t := elapse_zero _ fun _ => by
    rw [untilMatch_lone h]
    decide
  have hlt : hw.time - noDelays.read < t + 100 := by
    rw [ht, noDelays]
    omega
  rw [setTarget_of_lt hlt, hwritten]
  simp only [noDelays, hlone, HwAlarm.outcome]
  rw [if_neg (by simp [loneHw]), if_neg (by simp [loneHw])]

theorem elapse_lone {t : Nat} (h : t + 100 < 2 ^ 32) :
    (loneHw t).elapse 100 = ⟨t + 100, t + 100, false, true, 0, true⟩ := by
  unfold HwAlarm.elapse
  rw [if_pos ⟨rfl, (untilMatch_lone h).le⟩]
  rfl

theorem irqHandler_lone (t : Nat) :
    hardwareAlarmIrqHandler ⟨t, t, false, true, 0, true⟩ 0 =
      (⟨t, t, false, false, 0, false⟩, true) := by
  unfold hardwareAlarmIrqHandler
  dsimp only
  rw [if_pos rfl, if_pos (Nat.zero_le _)]

/-- The state `s`, but for the one node, its alarm and the handler. -/
def withLone (s : AlarmSystem Unit) (nodes : PheapNodes) (root : Nat)
    (entries : Nat → AlarmPoolEntry Unit) (progress : Nat) (hw : HwAlarm) (pc : AlarmPc Unit) :
    AlarmSystem Unit :=
  ⟨⟨{ s.pool.heap with nodes := nodes, maxNodes := 1, rootId := root }, entries,
    s.pool.entryIdsHigh, progress⟩, hw, pc, s.add, s.result⟩

section Cycle

variable {t : Nat} (s : AlarmSystem Unit) (nodes : PheapNodes)
  (entries : Nat → AlarmPoolEntry Unit) (progress : Nat)

theorem lone_elapse (h : t + 100 < 2 ^ 32) :
    alarmStep (withLone s nodes 1 entries progress (loneHw t) .idle) (.elapse 100) =
      withLone s nodes 1 entries progress ⟨t + 100, t + 100, false, true, 0, true⟩ .idle := by
  simp only [alarmStep, withLone, elapse_lone h]

theorem lone_irq :
    alarmStep (withLone s nodes 1 entries progress ⟨t, t, false, true, 0, true⟩ .idle) (.irq 0) =
      withLone s nodes 1 entries progress ⟨t, t, false, false, 0, false⟩ .loop := by
  simp only [alarmStep, withLone, irqHandler_lone, if_true]

theorem lone_call (hchild : (nodes 1).child = 0) (htarget : (entries 1).target = t) :
    alarmStep (withLone s nodes 1 entries progress ⟨t, t, false, false, 0, false⟩ .loop)
        (.scan 0 noDelays) =
      withLone s (nodes.setSibling 1 0) 0 entries (makePublicId (s.pool.entryIdsHigh 1) 1)
        ⟨t, t, false, false, 0, false⟩ (.call 1 (entries 1)) := by
  simp [alarmStep, alarmScan, withLone, phPeekHead, htarget, phRemoveHead, phRemoveAnyHead,
    phMergeTwoPass, hchild]

theorem lone_again (h : t + 100 < 2 ^ 32) (hprogress : progress ≠ 0) (e : AlarmPoolEntry Unit) :
    alarmStep (withLone s nodes 0 entries progress ⟨t, t, false, false, 0, false⟩ (.call 1 e))
        (.ret 100 0 noDelays) =
      withLone s (Function.update nodes 1 ⟨0, 0, 0⟩) 1
        (Function.update entries 1 ⟨t + 100, e.callback⟩) 0 (loneHw t) .loop := by
  have hset := setTarget_lone ⟨t, t, false, false, 0, false⟩ h rfl (by simp)
  have hdelayed : delayedByUs t 100 = t + 100 := delayedByUs_of_lt (by omega)
  have helapse : (HwAlarm.mk t t false false 0 false).elapse 0 = ⟨t, t, false, false, 0, false⟩ :=
    elapse_zero _ (by simp)
  simp [alarmStep, alarmRet, withLone, hprogress, addAlarmUnderLock, hdelayed, phInsertNode,
    phMergeNodes, helapse, hset]

theorem lone_set (h : t + 100 < 2 ^ 32) (htarget : (entries 1).target = t + 100) :
    alarmStep (withLone s nodes 1 entries progress (loneHw t) .loop) (.scan 0 noDelays) =
      withLone s nodes 1 entries progress (loneHw t) .idle := by
  have hset := setTarget_lone (loneHw t) h rfl (fun _ => rfl)
  have hdue : ¬t + 100 ≤ (loneHw t).time := by
    show ¬t + 100 ≤ t
    omega
  simp [alarmStep, alarmScan, withLone, phPeekHead, htarget, hset, hdue]

end Cycle

/-- One call of the timer, at its time. -/
theorem lone_cycle {t : Nat} {s : AlarmSystem Unit} (h : Lone t s) (ht : t + 200 < 2 ^ 32) :
    Lone (t + 100) (run alarmStep s loneCycle) ∧
      outputs alarmStep (calledAt ()) s loneCycle = [[], [], [⟨t + 100, t + 100⟩], [], []] ∧
      AllSteps alarmStep (Repeats () 100) s loneCycle := by
  obtain ⟨hhw, hpc, hroot, hmax, hchild, htarget⟩ := h
  have hs : s = withLone s s.pool.heap.nodes 1 s.pool.entries s.pool.alarmInProgress
      (loneHw t) .idle := by
    rw [← hhw, ← hpc, ← hroot, withLone, ← hmax]
  have h1 := lone_elapse s s.pool.heap.nodes s.pool.entries s.pool.alarmInProgress
    (show t + 100 < 2 ^ 32 by omega)
  rw [← hs] at h1
  have h2 := lone_irq s s.pool.heap.nodes s.pool.entries s.pool.alarmInProgress (t := t + 100)
  have h3 := lone_call s s.pool.heap.nodes s.pool.entries s.pool.alarmInProgress hchild htarget
  have h4 := lone_again s (s.pool.heap.nodes.setSibling 1 0) s.pool.entries
    (makePublicId (s.pool.entryIdsHigh 1) 1) ht (by simp [makePublicId]) (s.pool.entries 1)
  have h5 := lone_set s (Function.update (s.pool.heap.nodes.setSibling 1 0) 1 ⟨0, 0, 0⟩)
    (Function.update s.pool.entries 1 ⟨t + 100 + 100, (s.pool.entries 1).callback⟩) 0 ht (by simp)
  refine ⟨?_, ?_, ?_⟩
  · simp only [loneCycle, run_cons, run_nil, h1, h2, h3, h4, h5]
    exact ⟨rfl, rfl, rfl, rfl, by simp [withLone], by simp [withLone]⟩
  · simp only [loneCycle, outputs, h1, h2, h3, h4, calledAt, h5]
    simp [withLone, htarget]
  · simp only [loneCycle, allSteps_cons, allSteps_nil, h1, h2, h3, h4, Repeats]
    simp [Returns, repeatingTimerCallback]

/-- `k` calls. -/
theorem lone_cycles {t : Nat} {s : AlarmSystem Unit} (h : Lone t s) (k : Nat)
    (ht : t + 100 * (k + 1) < 2 ^ 32) :
    Lone (t + 100 * k) (run alarmStep s (List.replicate k loneCycle).flatten) ∧
      ((outputs alarmStep (calledAt ()) s (List.replicate k loneCycle).flatten).flatten).map
          AlarmCall.time = List.range' (t + 100) k 100 ∧
      AllSteps alarmStep (Repeats () 100) s (List.replicate k loneCycle).flatten := by
  induction k generalizing t s with
  | zero => exact ⟨h, rfl, trivial⟩
  | succ k ih =>
    obtain ⟨hlone, hout, hrep⟩ := lone_cycle h (by omega)
    obtain ⟨hlone', hout', hrep'⟩ := ih hlone (by omega)
    rw [List.replicate_succ, List.flatten_cons, run_append, outputs_append, allSteps_append]
    refine ⟨by convert hlone' using 1; omega, ?_, hrep, hrep'⟩
    rw [hout, List.range'_succ, ← hout']
    rfl

/-- The receiver's timer, asked for at power-on, and 306 calls of it. -/
def loneStart : List (AlarmStep Unit) :=
  [alarmPoolAddRepeatingTimerUs (run alarmStep (.init 1 0 ()) []) irSampleUs (), .attempt noDelays]

theorem lone_start : Lone 0 (run alarmStep (.init 1 0 ()) loneStart) where
  hw := by decide +kernel
  pc := by decide +kernel
  root := by decide +kernel
  maxNodes := by decide +kernel
  child := by decide +kernel
  target := by decide +kernel

def loneRun : List (AlarmStep Unit) := loneStart ++ (List.replicate 306 loneCycle).flatten

noncomputable def loneTimes : List ℝ := (List.range' 100 306 100).map Nat.cast

/-- VOLUME UP with half-bits of 889 us. -/
noncomputable def loneTransmission : Transmission ℝ :=
  ⟨⟨true, false, 0x18, 0x13⟩, 889, Vector.replicate 13 (889, 889), 3000⟩

theorem loneTimes_ne : loneTimes ≠ [] := by simp [loneTimes]

theorem loneTimes_head : loneTimes.head loneTimes_ne = 100 := by
  show ((100 : ℕ) : ℝ) = 100
  norm_num

theorem loneTimes_last : loneTimes.getLast loneTimes_ne = 30600 := by
  simp only [loneTimes, List.getLast_eq_getElem]
  norm_num

theorem loneTransmission_timed : loneTransmission.TimedBy (irSampleUs : ℝ) 100 where
  start := by constructor <;> norm_num [loneTransmission, irSampleUs]
  halves h hh := by
    obtain rfl : h = (889, 889) := by
      simp [loneTransmission] at hh
      exact hh
    norm_num [irSampleUs]
  gap := by norm_num [loneTransmission]

theorem stop_lone : stop 100 (remoteWave 3500 [loneTransmission]) = 30603 := by
  have hbits : ShiftRegister.bits (24#5) ++ ShiftRegister.bits (19#6) =
      [true, true, false, false, false, false, true, false, false, true, true] := by decide
  simp [remoteWave, Transmission.wave, Transmission.bits, loneTransmission, Rc5Frame.bits, stop,
    bitWave, hbits]
  norm_num

/-- **VOLUME UP is received** by the timer alone in its pool. -/
theorem timer_receives_volUp :
    frames Ir.zero ((loneTimes.filter (· < stop 100 (remoteWave 3500 [loneTransmission]))).map
      (level 100 (remoteWave 3500 [loneTransmission]))) = [0x1613] := by
  obtain ⟨hlone, htimes, hrep⟩ := lone_cycles lone_start 306 (by decide)
  have hstart : (outputs alarmStep (calledAt ()) (.init 1 0 ()) loneStart).flatten = [] := by
    decide +kernel
  have hcalls : (timerCalls 1 0 () () loneRun).map (fun call => (call.time : ℝ)) = loneTimes := by
    rw [timerCalls, loneRun, outputs_append, List.flatten_append, hstart, List.nil_append,
      loneTimes, ← htimes, List.map_map]
    rfl
  have hmain : SamplesIr 1 0 () () loneRun := by
    refine ⟨[], .attempt noDelays :: (List.replicate 306 loneCycle).flatten, rfl, fun st hst => ?_⟩
    simp only [List.nil_append, List.mem_cons, List.mem_flatten, List.mem_replicate] at hst
    obtain rfl | ⟨_, ⟨-, rfl⟩, hst⟩ := hst
    · rfl
    · fin_cases hst <;> rfl
  have hrepeats : AllSteps alarmStep (Repeats () irSampleUs) (.init 1 0 ()) loneRun :=
    (allSteps_append ..).2 ⟨by decide +kernel, hrep⟩
  have hlt : (run alarmStep (.init 1 0 ()) loneRun).hw.time + irSampleUs < 2 ^ 63 := by
    rw [loneRun, run_append, hlone.hw]
    decide
  have hgap : loneTimes.IsChain fun a b => b ≤ a + 100 := by
    rw [loneTimes, List.isChain_map]
    refine (List.isChain_range' 100 306 100).imp fun a b hab => ?_
    rw [hab]
    push_cast
    exact le_rfl
  have hts : ∀ t ∈ [loneTransmission], t.TimedBy (irSampleUs : ℝ) 100 := by
    simpa using loneTransmission_timed
  have hend : stop (loneTimes.head loneTimes_ne) (remoteWave 3500 [loneTransmission]) ≤
      loneTimes.getLast loneTimes_ne + 100 := by
    rw [loneTimes_head, loneTimes_last, stop_lone]
    norm_num
  have h := timer_receives (by decide) 0 () () loneRun hmain hrepeats hlt hcalls loneTimes_ne
    (by norm_num [irSampleUs]) hgap (by norm_num) hts hend
  rw [loneTimes_head] at h
  exact h

end VolumeControl
