import VolumeControl.Lib.Burst
import VolumeControl.Main.Shown

/-!
# Presses the host sees

A report is a press of a key when the report before it does not hold the key.
The IR block sends a release before its press; the knob and the mute button do
not. `main_presses_iff` says exactly which runs show the host every rising edge
of the knob and every push of the mute button once.
-/

namespace VolumeControl

open Trace Burst

/-- Reports with the report before each, `prev` before the first. -/
def withPrev (prev : Report) : List Sent → List (Report × Sent)
  | [] => []
  | e :: l => (prev, e) :: withPrev e.report l

/-- The reports one iteration sends, with the report before each. -/
def stepReports (s : MainState) (i : Inputs) : List (Report × Sent) :=
  withPrev (hostReport s) ((iteration s i).sent.drop s.sent.length)

/-- A rising edge of pin 16 is a press of its key that the host sees. -/
def KnobPress (s : MainState) (i : Inputs) : Prop :=
  s.lastState = false → i.pin16 = true →
    ∃ p ∈ stepReports s i, p.2.site = .knob ∧ p.2.report = ⟨0, oneKey (knobKey i)⟩ ∧
      VisiblePress p.1 p.2.report (knobKey i)

/-- The presses of MUTE by the mute branch that the host sees in one iteration. -/
def mutePresses (s : MainState) (i : Inputs) : Nat :=
  (stepReports s i).countP fun p => p.2.site = .mute ∧ VisiblePress p.1 p.2.report HidKey.mute

/-- Per iteration: whether pin 18 is low, and how many presses of MUTE the host sees. -/
abbrev muteTrace (s : MainState) (is : List Inputs) : List (Bool × Nat) :=
  outputs iteration (fun s i => (!i.pin18, mutePresses s i)) s is

/-- No actuation is lost or doubled along the run. -/
def PressesSeen (s : MainState) (is : List Inputs) : Prop :=
  AllSteps iteration KnobPress s is ∧ OncePerBurst (muteTrace s is)

/-! ## The reports of an iteration -/

theorem mem_of_mem_withPrev {prev : Report} {l : List Sent} {p : Report × Sent}
    (h : p ∈ withPrev prev l) : p.2 ∈ l := by
  induction l generalizing prev with
  | nil => simp [withPrev] at h
  | cons e l ih =>
    rcases List.mem_cons.1 h with rfl | h
    · exact List.mem_cons_self
    · exact List.mem_cons_of_mem _ (ih h)

theorem withPrev_append (prev : Report) (l l' : List Sent) :
    withPrev prev (l ++ l') =
      withPrev prev l ++ withPrev ((l.getLast?.map Sent.report).getD prev) l' := by
  induction l generalizing prev with
  | nil => rfl
  | cons e l ih =>
    cases l with
    | nil => rfl
    | cons e' l => simpa [withPrev, List.getLast?_eq_some_getLast] using ih e.report

theorem stepReports_eq {s : MainState} (hnew : s.rc5New = false) (i : Inputs) :
    stepReports s i =
      withPrev (hostReport s) (knobSent s.lastState i ++ muteSent s.clear i ++
        ((newKeystate s.rc5Data s.rc5Last i).map irSent).getD []) := by
  rw [stepReports, iteration_eq hnew]
  simp [List.append_assoc]

theorem site_of_mem_knobSent {last : Bool} {i : Inputs} {e : Sent} (h : e ∈ knobSent last i) :
    e.site = .knob ∨ e.site = .knobRelease := by
  simp only [knobSent] at h
  split_ifs at h <;> aesop

theorem site_of_mem_muteSent {clear : Bool} {i : Inputs} {e : Sent} (h : e ∈ muteSent clear i) :
    e.site = .mute ∨ e.site = .muteRelease := by
  simp only [muteSent] at h
  split_ifs at h <;> aesop

theorem site_of_mem_irSent {o : Option Rc5Data} {e : Sent} (h : e ∈ (o.map irSent).getD []) :
    e.site = .irRelease ∨ e.site = .irKey := by
  cases o with
  | none => simp at h
  | some d =>
    simp only [Option.map_some, Option.getD_some, irSent] at h
    split_ifs at h <;> aesop

theorem knobKey_cases (i : Inputs) : knobKey i = HidKey.volumeUp ∨ knobKey i = HidKey.volumeDown := by
  unfold knobKey; split <;> simp

theorem mem_hostReport_iff {s : MainState} (h : LoopInv s) {k : Byte} (hk : k ≠ 0) :
    k ∈ (hostReport s).keycode ↔ (shown s).key s.rc5Data = k := by
  rw [h.host, mem_oneKey]
  exact ⟨fun h => (h.resolve_right hk).symm, fun h => .inl h.symm⟩

/-! ## The knob -/

theorem knobPress_iff {s : MainState} (h : LoopInv s) (i : Inputs) :
    KnobPress s i ↔ (s.lastState = false → i.pin16 = true →
      ¬ (shown s = .irKey ∧ rc5Key s.rc5Data = knobKey i)) := by
  refine imp_congr_right fun hl => imp_congr_right fun h16 => ?_
  have hk0 : knobKey i ≠ 0 := by rcases knobKey_cases i with e | e <;> rw [e] <;> decide
  have hkm : HidKey.mute ≠ knobKey i := by rcases knobKey_cases i with e | e <;> rw [e] <;> decide
  -- the knob's report is the first of the iteration, so the report before it is the host's
  have hfirst : (∃ p ∈ stepReports s i, p.2.site = .knob ∧ p.2.report = ⟨0, oneKey (knobKey i)⟩ ∧
      VisiblePress p.1 p.2.report (knobKey i)) ↔ knobKey i ∉ (hostReport s).keycode := by
    rw [stepReports_eq h.new]
    constructor
    · rintro ⟨p, hp, hsite, hrep, hvis⟩
      simp only [knobSent, hl, h16, Bool.false_eq_true, if_false, if_true, List.cons_append,
        List.nil_append, withPrev, List.mem_cons] at hp
      rcases hp with rfl | rfl | hp
      · exact hvis.2
      · cases hsite
      · have := mem_of_mem_withPrev hp
        rcases List.mem_append.1 this with hm | hm
        · rcases site_of_mem_muteSent hm with e | e <;> simp [e] at hsite
        · rcases site_of_mem_irSent hm with e | e <;> simp [e] at hsite
    · intro hnot
      refine ⟨(hostReport s, ⟨.knob, ⟨0, oneKey (knobKey i)⟩⟩), ?_, rfl, rfl, by simp, hnot⟩
      simp [knobSent, hl, h16, withPrev]
  rw [hfirst, mem_hostReport_iff h hk0]
  cases hsh : shown s with
  | nothing => simpa [Shown.key] using hk0.symm
  | muteButton => simpa [Shown.key] using hkm
  | irKey => simp [Shown.key]

/-! ## The mute button -/

/-- The push of the mute button is seen unless the report before it holds MUTE; a move of the
knob in the same iteration has put a release there. -/
theorem mutePresses_low {s : MainState} (h : LoopInv s) {i : Inputs} (h18 : i.pin18 = false) :
    mutePresses s i =
      if s.lastState = i.pin16 ∧ (shown s).key s.rc5Data = HidKey.mute then 0 else 1 := by
  have hknob (prev : Report) : (withPrev prev (knobSent s.lastState i)).countP
      (fun p => p.2.site = .mute ∧ VisiblePress p.1 p.2.report HidKey.mute) = 0 := by
    rw [List.countP_eq_zero]
    intro p hp
    rcases site_of_mem_knobSent (mem_of_mem_withPrev hp) with e | e <;> simp [e]
  have hir (prev : Report) (o : Option Rc5Data) : (withPrev prev ((o.map irSent).getD [])).countP
      (fun p => p.2.site = .mute ∧ VisiblePress p.1 p.2.report HidKey.mute) = 0 := by
    rw [List.countP_eq_zero]
    intro p hp
    rcases site_of_mem_irSent (mem_of_mem_withPrev hp) with e | e <;> simp [e]
  have hmem := mem_hostReport_iff h (k := HidKey.mute) (by decide)
  rw [mutePresses, stepReports_eq h.new, withPrev_append, withPrev_append, List.countP_append,
    List.countP_append, hknob, hir]
  by_cases hl : s.lastState = i.pin16
  · by_cases hm : (shown s).key s.rc5Data = HidKey.mute
    · simp [muteSent, h18, knobSent, hl, hm, withPrev, VisiblePress, hmem]
    · simp [muteSent, h18, knobSent, hl, hm, withPrev, VisiblePress, hmem]
  · simp [muteSent, h18, knobSent, hl, withPrev, VisiblePress, Report.zero, HidKey.mute]

/-! ## Whole runs -/

/-- A rising edge of the knob does not meet its own key, held by the remote. -/
def KnobUnheld (s : MainState) (i : Inputs) : Prop :=
  s.lastState = false → i.pin16 = true → ¬ (shown s = .irKey ∧ rc5Key s.rc5Data = knobKey i)

/-- The mute button goes down while the remote does not hold MUTE, or in an iteration that moves
the knob; while it stays down the knob does not move and the remote shows no other key. -/
def MuteAlone (s : MainState) (i : Inputs) : Prop :=
  i.pin18 = false →
    (s.clear = false → s.lastState = i.pin16 →
      ¬ (shown s = .irKey ∧ rc5Key s.rc5Data = HidKey.mute)) ∧
    (s.clear = true → s.lastState = i.pin16 ∧ (shown s = .irKey → rc5Key s.rc5Data = HidKey.mute))

theorem muteAlone_iff {s : MainState} (h : LoopInv s) (i : Inputs) :
    (i.pin18 = false → mutePresses s i = if s.clear then 0 else 1) ↔ MuteAlone s i := by
  refine imp_congr_right fun h18 => ?_
  rw [mutePresses_low h h18]
  have hpushed := h.pushed
  have hmute := h.mute
  cases hc : s.clear with
  | false =>
    cases hsh : shown s with
    | nothing => simp [Shown.key, HidKey.mute]
    | muteButton => simp [hmute hsh] at hc
    | irKey =>
      by_cases hl : s.lastState = i.pin16 <;> by_cases hk : rc5Key s.rc5Data = HidKey.mute <;>
        simp [Shown.key, hl, hk]
  | true =>
    cases hsh : shown s with
    | nothing => exact absurd hsh (hpushed hc)
    | muteButton => simp [Shown.key]
    | irKey =>
      by_cases hl : s.lastState = i.pin16 <;> by_cases hk : rc5Key s.rc5Data = HidKey.mute <;>
        simp [Shown.key, hl, hk]

/-- `clear` is the mark of the iteration before. -/
theorem firstOnly_muteTrace {s : MainState} (hnew : s.rc5New = false) (is : List Inputs) :
    FirstOnly s.clear (muteTrace s is) ↔
      AllSteps iteration (fun s i => i.pin18 = false → mutePresses s i = if s.clear then 0 else 1)
        s is := by
  induction is generalizing s with
  | nil => simp [FirstOnly, outputs]
  | cons i is ih =>
    have hc : (iteration s i).clear = !i.pin18 := by rw [iteration_eq hnew]
    have ih := ih (s := iteration s i) (by rw [iteration_eq hnew])
    rw [hc] at ih
    simp [FirstOnly, outputs, ih]

/-- **Every actuation is a press the host sees, once**, at every moment of a run, exactly in the
runs in which no knob edge and no push of the mute button meets its key already held and nothing
else is sent while the mute button is down. -/
theorem main_presses_iff (pin16 : Bool) (time : BitVec 32) (is : List Inputs) :
    (∀ pre, pre <+: is → PressesSeen (.start pin16 time) pre) ↔
      AllSteps iteration (fun s i => KnobUnheld s i ∧ MuteAlone s i) (.start pin16 time) is := by
  have hknob : (∀ pre, pre <+: is → AllSteps iteration KnobPress (.start pin16 time) pre) ↔
      AllSteps iteration KnobPress (.start pin16 time) is :=
    ⟨fun h => h is List.prefix_rfl, fun h pre hp => h.of_prefix hp⟩
  have hmute : (∀ pre, pre <+: is → OncePerBurst (muteTrace (.start pin16 time) pre)) ↔
      AllSteps iteration (fun s i => i.pin18 = false → mutePresses s i = if s.clear then 0 else 1)
        (.start pin16 time) is := by
    rw [← firstOnly_muteTrace rfl, show (MainState.start pin16 time).clear = false from rfl,
      ← forall_prefix_oncePerBurst_iff]
    constructor
    · intro h p hp
      obtain ⟨pre, hpre, rfl⟩ := prefix_outputs_iff.1 hp
      exact h pre hpre
    · exact fun h pre hpre => h _ (prefix_outputs_iff.2 ⟨pre, hpre, rfl⟩)
  simp only [PressesSeen, forall_and, hknob, hmute, ← allSteps_and]
  exact AllSteps.iff_of_inv LoopInv
    (fun s i h => and_congr (knobPress_iff h i) (muteAlone_iff h i))
    (fun s i h _ => loopInv_iteration h i) (loopInv_start pin16 time) is

instance (s : MainState) (i : Inputs) : Decidable (KnobPress s i) :=
  inferInstanceAs (Decidable (_ → _ → _))

/-- The remote holds VOLUME UP and the knob is turned up: no press. The knob is turned while the
mute button is down: two presses of MUTE. -/
theorem main_presses_counterexample :
    ¬ PressesSeen (.start false 0)
      [⟨false, true, true, false, 13, 0x1613, 1000, 1000⟩,
       ⟨true, true, true, false, 0, 0x1613, 2000, 2000⟩] ∧
    ¬ PressesSeen (.start true 0)
      [⟨true, true, false, false, 0, 0, 1000, 1000⟩,
       ⟨false, true, false, false, 0, 0, 2000, 2000⟩] := by
  constructor
  · rintro ⟨h, -⟩
    revert h
    decide
  · rintro ⟨-, h⟩
    have := h [] [(true, 1), (true, 1)] [] (by decide) (by decide) (by decide) (by decide) (by decide)
    revert this
    decide

end VolumeControl
