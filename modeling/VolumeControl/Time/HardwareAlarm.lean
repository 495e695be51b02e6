import Mathlib

/-!
# A hardware alarm

One alarm of the timer: a compare register with the low word of the time, and
beside it, in memory, the high word of the target and the bit that says that a
callback is due. Time passes between any two accesses of the driver; `elapse` is
what the timer does meanwhile.

`WillFire`: a callback is due and its interrupt will come, at the target or before
it. It stays so while time passes (`WillFire.elapse`), and
`hardware_alarm_set_target` makes it so unless the target was passed before the
register was written (`Late`).
-/

namespace VolumeControl

structure HwAlarm where
  /-- Microseconds since boot, the two words of the counter. -/
  time : Nat
  /-- `alarm[n]`, and whether the timer compares it. -/
  alarm : Nat
  armed : Bool
  /-- The interrupt has been raised. -/
  ints : Bool
  targetHi : Nat
  /-- The alarm's bit of `timer_callbacks_pending`. -/
  pending : Bool
  deriving DecidableEq, Repr

namespace HwAlarm

/-- How long until the low word of the time is `alarm`. -/
def untilMatch (hw : HwAlarm) : Nat := (hw.alarm + 2 ^ 32 - hw.time % 2 ^ 32) % 2 ^ 32

/-- `n` microseconds pass. An alarm that is armed fires when the low word matches, and disarms. -/
def elapse (hw : HwAlarm) (n : Nat) : HwAlarm :=
  if hw.armed = true ∧ hw.untilMatch ≤ n then
    { hw with time := hw.time + n, armed := false, ints := true }
  else { hw with time := hw.time + n }

/-- The target in full. -/
def target (hw : HwAlarm) : Nat := hw.targetHi * 2 ^ 32 + hw.alarm

end HwAlarm

/-- How long it takes from one access to the next when a target is set: `read` from the first look
at the time to the lock, which an interrupt may come between, the others within the lock. -/
structure Delays where
  read : Nat
  lock : Nat
  write : Nat
  armed : Nat
  check : Nat
  deriving DecidableEq, Repr

def hardwareAlarmSetTarget (hw : HwAlarm) (t : Nat) (d : Delays) : HwAlarm × Bool :=
  if hw.time - d.read ≥ t then (hw, true)
  else
    let hw := hw.elapse d.lock
    let oldPending := hw.pending
    let hw := { hw with pending := true, ints := false }.elapse d.write
    -- writing the time arms the alarm
    let hw := { hw with alarm := t % 2 ^ 32, armed := true, targetHi := t / 2 ^ 32 }.elapse d.armed
    if hw.armed = false then (hw, false)
    else
      let hw := hw.elapse d.check
      if hw.time ≥ t then
        if oldPending = false then
          ({ hw with armed := false, ints := false, pending := oldPending }, true)
        else (hw, true)
      else (hw, false)

/-- The first part of the interrupt handler; whether it calls back. `d` passes between its look at
the time and arming the alarm again. -/
def hardwareAlarmIrqHandler (hw : HwAlarm) (d : Nat) : HwAlarm × Bool :=
  let hw := { hw with ints := false }
  if hw.pending = true then
    if hw.time / 2 ^ 32 ≥ hw.targetHi then ({ hw with pending := false }, true)
    else ({ hw.elapse d with armed := true }, false)
  else (hw, false)

/-! ## An interrupt will come -/

namespace HwAlarm

variable {hw : HwAlarm} {n t : Nat}

@[simp] theorem elapse_time (hw : HwAlarm) (n : Nat) : (hw.elapse n).time = hw.time + n := by
  unfold elapse
  split <;> rfl

@[simp] theorem elapse_pending (hw : HwAlarm) (n : Nat) : (hw.elapse n).pending = hw.pending := by
  unfold elapse
  split <;> rfl

@[simp] theorem elapse_target (hw : HwAlarm) (n : Nat) : (hw.elapse n).target = hw.target := by
  unfold elapse
  split <;> rfl

@[simp] theorem elapse_alarm (hw : HwAlarm) (n : Nat) : (hw.elapse n).alarm = hw.alarm := by
  unfold elapse
  split <;> rfl

@[simp] theorem elapse_targetHi (hw : HwAlarm) (n : Nat) :
    (hw.elapse n).targetHi = hw.targetHi := by
  unfold elapse
  split <;> rfl

theorem elapse_ints_of (h : hw.ints = true) : (hw.elapse n).ints = true := by
  unfold elapse
  split
  · rfl
  · exact h

/-- Before its target an alarm matches no later than at it. -/
theorem time_add_untilMatch_le (h : hw.time ≤ hw.target) :
    hw.time + hw.untilMatch ≤ hw.target := by
  unfold untilMatch
  unfold target at *
  omega

/-- A callback is due, and its interrupt has been raised or will be by the target. -/
def WillFire (hw : HwAlarm) : Prop :=
  hw.pending = true ∧ (hw.ints = true ∨ hw.armed = true ∧ hw.time ≤ hw.target)

instance (hw : HwAlarm) : Decidable hw.WillFire := inferInstanceAs (Decidable (_ ∧ _))

theorem WillFire.elapse (h : hw.WillFire) (n : Nat) : (hw.elapse n).WillFire := by
  obtain ⟨hp, hints | ⟨harmed, hle⟩⟩ := h
  · exact ⟨by rwa [elapse_pending], .inl (elapse_ints_of hints)⟩
  · refine ⟨by rwa [elapse_pending], ?_⟩
    have hmatch := time_add_untilMatch_le hle
    unfold HwAlarm.elapse
    by_cases hn : hw.untilMatch ≤ n
    · rw [if_pos ⟨harmed, hn⟩]
      exact .inl rfl
    · rw [if_neg (fun h => hn h.2)]
      refine .inr ⟨harmed, ?_⟩
      show hw.time + n ≤ hw.target
      omega

/-- From the target on the interrupt has been raised. -/
theorem WillFire.raised (h : hw.WillFire) (hle : hw.target ≤ hw.time) (n : Nat) :
    (hw.elapse n).ints = true := by
  obtain ⟨-, hints | ⟨harmed, hle'⟩⟩ := h
  · exact elapse_ints_of hints
  · have hmatch := time_add_untilMatch_le hle'
    unfold HwAlarm.elapse
    rw [if_pos ⟨harmed, by omega⟩]

theorem elapse_armed_or (hw : HwAlarm) (n : Nat) (h : hw.armed = true) :
    (hw.elapse n).armed = true ∧ n < hw.untilMatch ∧ (hw.elapse n).ints = hw.ints ∨
      (hw.elapse n).armed = false ∧ hw.untilMatch ≤ n ∧ (hw.elapse n).ints = true := by
  unfold HwAlarm.elapse
  by_cases hn : hw.untilMatch ≤ n
  · rw [if_pos ⟨h, hn⟩]
    exact .inr ⟨rfl, hn, rfl⟩
  · rw [if_neg (fun h => hn h.2)]
    exact .inl ⟨h, by omega, rfl⟩

end HwAlarm

/-! ## Setting a target -/

/-- The timer when `hardware_alarm_set_target` is about to write the register. -/
def HwAlarm.beforeWrite (hw : HwAlarm) (d : Delays) : HwAlarm :=
  { hw.elapse d.lock with pending := true, ints := false }.elapse d.write

/-- And when it has. -/
def HwAlarm.written (hw : HwAlarm) (t : Nat) (d : Delays) : HwAlarm :=
  { hw.beforeWrite d with alarm := t % 2 ^ 32, armed := true, targetHi := t / 2 ^ 32 }

/-- The register is written when the target has passed and nothing has raised the interrupt; the low
word of the time comes round to it only after the call. -/
def HwAlarm.Late (hw : HwAlarm) (t : Nat) (d : Delays) : Prop :=
  hw.time - d.read < t ∧ t < (hw.written t d).time ∧ (hw.written t d).ints = false ∧
    d.armed + d.check < (hw.written t d).untilMatch

instance (hw : HwAlarm) (t : Nat) (d : Delays) : Decidable (hw.Late t d) :=
  inferInstanceAs (Decidable (_ ∧ _))

section SetTarget

variable {hw : HwAlarm} {t : Nat} {d : Delays}

theorem written_pending : (hw.written t d).pending = true := by
  simp [HwAlarm.written, HwAlarm.beforeWrite]

theorem written_time (hw : HwAlarm) (t : Nat) (d : Delays) :
    (hw.written t d).time = hw.time + d.lock + d.write := by
  simp only [HwAlarm.written, HwAlarm.beforeWrite, HwAlarm.elapse_time]

theorem written_target : (hw.written t d).target = t := by
  unfold HwAlarm.target HwAlarm.written
  dsimp only
  omega

theorem setTarget_missed_of_le (h : t ≤ hw.time - d.read) :
    hardwareAlarmSetTarget hw t d = (hw, true) := by
  rw [hardwareAlarmSetTarget, if_pos h]

/-- How the call ends: `first` is the alarm when it is seen armed or not, `last` when the time is
looked at again. -/
def HwAlarm.outcome (first last : HwAlarm) (oldPending : Bool) (t : Nat) : HwAlarm × Bool :=
  if first.armed = false then (first, false)
  else if last.time ≥ t then
    if oldPending = false then
      ({ last with armed := false, ints := false, pending := oldPending }, true)
    else (last, true)
  else (last, false)

/-- What is left of the call once the register has been written. -/
theorem setTarget_of_lt (h : hw.time - d.read < t) :
    hardwareAlarmSetTarget hw t d = ((hw.written t d).elapse d.armed).outcome
      (((hw.written t d).elapse d.armed).elapse d.check) (hw.elapse d.lock).pending t := by
  rw [hardwareAlarmSetTarget, if_neg (by omega)]
  rfl

/-- Written in time, it will fire. -/
theorem written_willFire (h : (hw.written t d).time ≤ t) : (hw.written t d).WillFire :=
  ⟨written_pending, .inr ⟨rfl, by rwa [written_target]⟩⟩

/-- **A target that is not missed is set.** -/
theorem setTarget_set (h : (hardwareAlarmSetTarget hw t d).2 = false) :
    (hardwareAlarmSetTarget hw t d).1.WillFire ∧ (hardwareAlarmSetTarget hw t d).1.target = t := by
  by_cases hlt : hw.time - d.read < t
  · rw [setTarget_of_lt hlt, HwAlarm.outcome] at h ⊢
    by_cases harmed : ((hw.written t d).elapse d.armed).armed = false
    · -- it has fired already
      rw [if_pos harmed]
      have hints : ((hw.written t d).elapse d.armed).ints = true := by
        rcases (hw.written t d).elapse_armed_or d.armed rfl with ⟨ha, -⟩ | ⟨-, -, hi⟩
        · simp [harmed] at ha
        · exact hi
      exact ⟨⟨by rw [HwAlarm.elapse_pending, written_pending], .inl hints⟩,
        by rw [HwAlarm.elapse_target, written_target]⟩
    · rw [if_neg harmed] at h ⊢
      by_cases htime : (((hw.written t d).elapse d.armed).elapse d.check).time ≥ t
      · rw [if_pos htime] at h
        split at h <;> cases h
      · rw [if_neg htime]
        simp only [HwAlarm.elapse_time] at htime
        exact ⟨((written_willFire (by omega)).elapse _).elapse _,
          by rw [HwAlarm.elapse_target, HwAlarm.elapse_target, written_target]⟩
  · rw [setTarget_missed_of_le (by omega)] at h
    cases h

/-- The time to a match runs down. -/
theorem untilMatch_elapse {n : Nat} (h : n < hw.untilMatch) :
    (hw.elapse n).untilMatch = hw.untilMatch - n := by
  have halarm := hw.elapse_alarm n
  have htime := hw.elapse_time n
  unfold HwAlarm.untilMatch at h ⊢
  rw [halarm, htime]
  omega

/-- **A target that is missed when a callback was due** keeps it due, unless it was missed late. -/
theorem setTarget_missed_due (hp : hw.pending = true) (hlt : hw.time - d.read < t)
    (h : (hardwareAlarmSetTarget hw t d).2 = true) :
    (hardwareAlarmSetTarget hw t d).1.target = t ∧
      ((hardwareAlarmSetTarget hw t d).1.WillFire ↔ ¬hw.Late t d) := by
  rw [setTarget_of_lt hlt, HwAlarm.outcome] at h ⊢
  simp only [HwAlarm.elapse_pending, hp, Bool.true_eq_false, if_false] at h ⊢
  by_cases harmed : ((hw.written t d).elapse d.armed).armed = false
  · rw [if_pos harmed] at h
    cases h
  rw [if_neg harmed] at h ⊢
  have htime : (((hw.written t d).elapse d.armed).elapse d.check).time ≥ t := by
    by_contra hc
    rw [if_neg hc] at h
    cases h
  rw [if_pos htime]
  refine ⟨by rw [HwAlarm.elapse_target, HwAlarm.elapse_target, written_target], ?_⟩
  obtain ⟨ha, hn, hi⟩ :=
    ((hw.written t d).elapse_armed_or d.armed rfl).resolve_right fun hf => harmed hf.1
  have huntil := untilMatch_elapse hn
  have hpend : (((hw.written t d).elapse d.armed).elapse d.check).pending = true := by
    rw [HwAlarm.elapse_pending, HwAlarm.elapse_pending, written_pending]
  have htarget : (((hw.written t d).elapse d.armed).elapse d.check).target = t := by
    rw [HwAlarm.elapse_target, HwAlarm.elapse_target, written_target]
  rcases ((hw.written t d).elapse d.armed).elapse_armed_or d.check ha with
    ⟨hc, hcn, hci⟩ | ⟨-, hcn, hci⟩
  · -- it has not fired: only an interrupt from before may be raised
    rw [hi] at hci
    simp only [HwAlarm.elapse_time] at htime
    have hwritten : t < (hw.written t d).time := by
      by_contra hle
      have hmatch := HwAlarm.time_add_untilMatch_le (by rw [written_target]; omega :
        (hw.written t d).time ≤ (hw.written t d).target)
      rw [written_target] at hmatch
      omega
    unfold HwAlarm.WillFire HwAlarm.Late
    rw [hci, htarget, HwAlarm.elapse_time, HwAlarm.elapse_time]
    cases hints : (hw.written t d).ints with
    | true => simp [written_pending]
    | false =>
      simp only [Bool.false_eq_true, false_or, true_and, not_and]
      constructor
      · rintro ⟨-, -, hle⟩
        omega
      · intro hl
        have := hl hlt hwritten
        omega
  · exact iff_of_true ⟨hpend, .inl hci⟩ fun hl => by
      have := hl.2.2.2
      omega

theorem le_outcome {n : Nat} {first last : HwAlarm} (oldPending : Bool) (t : Nat)
    (hfirst : n ≤ first.time) (hlast : n ≤ last.time) :
    n ≤ (first.outcome last oldPending t).1.time := by
  unfold HwAlarm.outcome
  split
  · exact hfirst
  · split
    · split
      · exact hlast
      · exact hlast
    · exact hlast

theorem le_setTarget_time (hw : HwAlarm) (t : Nat) (d : Delays) :
    hw.time ≤ (hardwareAlarmSetTarget hw t d).1.time := by
  by_cases hlt : hw.time - d.read < t
  · have hfirst : hw.time ≤ ((hw.written t d).elapse d.armed).time := by
      rw [HwAlarm.elapse_time, written_time]
      omega
    rw [setTarget_of_lt hlt]
    exact le_outcome _ _ hfirst (by rw [HwAlarm.elapse_time]; exact Nat.le_add_right_of_le hfirst)
  · rw [setTarget_missed_of_le (Nat.le_of_not_lt hlt)]

theorem outcome_missed {first last : HwAlarm} {oldPending : Bool}
    (h : (first.outcome last oldPending t).2 = true) :
    t ≤ (first.outcome last oldPending t).1.time := by
  unfold HwAlarm.outcome at h ⊢
  by_cases hfirst : first.armed = false
  · rw [if_pos hfirst] at h
    cases h
  · rw [if_neg hfirst] at h ⊢
    by_cases htime : last.time ≥ t
    · rw [if_pos htime]
      split
      · exact htime
      · exact htime
    · rw [if_neg htime] at h
      cases h

/-- Only a target that has passed is missed. -/
theorem le_of_setTarget_missed (h : (hardwareAlarmSetTarget hw t d).2 = true) :
    t ≤ (hardwareAlarmSetTarget hw t d).1.time := by
  by_cases hlt : hw.time - d.read < t
  · rw [setTarget_of_lt hlt] at h ⊢
    exact outcome_missed h
  · rw [setTarget_missed_of_le (Nat.le_of_not_lt hlt)]
    exact le_trans (Nat.le_of_not_lt hlt) (Nat.sub_le ..)

/-- A target that passes before the register is written is missed. -/
theorem setTarget_late (h : hw.Late t d) : (hardwareAlarmSetTarget hw t d).2 = true := by
  obtain ⟨hlt, hwritten, -, huntil⟩ := h
  have harmed : ((hw.written t d).elapse d.armed).armed = true := by
    rcases (hw.written t d).elapse_armed_or d.armed rfl with ⟨ha, -⟩ | ⟨-, hle, -⟩
    · exact ha
    · omega
  have htime : (((hw.written t d).elapse d.armed).elapse d.check).time ≥ t := by
    simp only [HwAlarm.elapse_time]
    omega
  rw [setTarget_of_lt hlt, HwAlarm.outcome, if_neg (by simp [harmed]), if_pos htime]
  split <;> rfl

end SetTarget

/-! ## The interrupt -/

/-- The alarm is armed again when its target has passed, and nothing has raised the interrupt. -/
def HwAlarm.LateAgain (hw : HwAlarm) (d : Nat) : Prop :=
  hw.pending = true ∧ hw.time < hw.targetHi * 2 ^ 32 ∧ hw.target < hw.time + d ∧
    ({ hw with ints := false }.elapse d).ints = false

instance (hw : HwAlarm) (d : Nat) : Decidable (hw.LateAgain d) :=
  inferInstanceAs (Decidable (_ ∧ _))

variable {hw : HwAlarm} {d : Nat}

/-- The handler calls back from the high word of the target on. -/
theorem irqHandler_callback_iff (hw : HwAlarm) (d : Nat) :
    (hardwareAlarmIrqHandler hw d).2 = true ↔
      hw.pending = true ∧ hw.targetHi * 2 ^ 32 ≤ hw.time := by
  unfold hardwareAlarmIrqHandler
  dsimp only
  have hdiv : hw.time / 2 ^ 32 ≥ hw.targetHi ↔ hw.targetHi * 2 ^ 32 ≤ hw.time :=
    Nat.le_div_iff_mul_le (by decide)
  by_cases hp : hw.pending = true
  · rw [if_pos hp]
    by_cases hhi : hw.time / 2 ^ 32 ≥ hw.targetHi
    · rw [if_pos hhi]
      exact iff_of_true rfl ⟨hp, hdiv.1 hhi⟩
    · rw [if_neg hhi]
      exact iff_of_false Bool.false_ne_true fun h => hhi (hdiv.2 h.2)
  · rw [if_neg hp]
    exact iff_of_false Bool.false_ne_true fun h => hp h.1

theorem le_irqHandler_time (hw : HwAlarm) (d : Nat) :
    hw.time ≤ (hardwareAlarmIrqHandler hw d).1.time := by
  unfold hardwareAlarmIrqHandler
  dsimp only
  split
  · split
    · exact le_refl _
    · show hw.time ≤ (HwAlarm.elapse _ d).time
      rw [HwAlarm.elapse_time]
      exact Nat.le_add_right _ _
  · exact le_refl _

/-- A handler that does not call back leaves the alarm set. -/
theorem irqHandler_again (hp : hw.pending = true) (h : (hardwareAlarmIrqHandler hw d).2 = false) :
    (hardwareAlarmIrqHandler hw d).1.target = hw.target ∧
      ((hardwareAlarmIrqHandler hw d).1.WillFire ↔ ¬hw.LateAgain d) := by
  have hhi : hw.time < hw.targetHi * 2 ^ 32 := by
    by_contra hle
    have := (irqHandler_callback_iff hw d).2 ⟨hp, by omega⟩
    rw [h] at this
    cases this
  have hres : (hardwareAlarmIrqHandler hw d).1 =
      { ({ hw with ints := false } : HwAlarm).elapse d with armed := true } := by
    have hdiv : ¬hw.time / 2 ^ 32 ≥ hw.targetHi := fun hge =>
      absurd ((Nat.le_div_iff_mul_le (by decide)).1 hge) (by omega)
    unfold hardwareAlarmIrqHandler
    dsimp only
    rw [if_pos hp, if_neg hdiv]
  rw [hres]
  have htarget : ({ ({ hw with ints := false } : HwAlarm).elapse d with armed := true } :
      HwAlarm).target = hw.target := by
    unfold HwAlarm.target
    simp
  refine ⟨htarget, ?_⟩
  unfold HwAlarm.WillFire HwAlarm.LateAgain
  rw [htarget]
  have hpend := HwAlarm.elapse_pending { hw with ints := false } d
  have htime := HwAlarm.elapse_time { hw with ints := false } d
  generalize ({ hw with ints := false } : HwAlarm).elapse d = e at hpend htime
  dsimp only at hpend htime ⊢
  rw [hpend, htime]
  cases hi : e.ints with
  | true => simp [hp]
  | false =>
    simp only [hp, hhi, Bool.false_eq_true, false_or, true_and, and_true]
    omega

end VolumeControl
