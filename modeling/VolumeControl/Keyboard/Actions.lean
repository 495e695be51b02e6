import VolumeControl.Keyboard.VimShift

/-!
# Events that are no presses

Only a DOWN should change the mode, and an event that is neither DOWN nor UP
should do nothing at all. Two cases of vim mode do not look at the action:
I leaves the mode and X and D drop its shift whatever the event is.
`inertUnlessPressed_iff`: everything else is as it should be.
-/

namespace VolumeControl

open Trace

/-- All reports sent. -/
def Hid.reports (h : Hid) : List Report := h.calls.filterMap Call.report?

/-- Nothing has changed, and no report been sent. -/
structure Unchanged (s s' : Keyboard) : Prop where
  currentMode : s'.currentMode = s.currentMode
  currentModifiers : s'.currentModifiers = s.currentModifiers
  shiftDown : s'.shiftDown = s.shiftDown
  depressedKeys : s'.hid.depressedKeys = s.hid.depressedKeys
  modifiers : s'.hid.modifiers = s.hid.modifiers
  reports : s'.hid.reports = s.hid.reports

/-- Neither a press nor a release. -/
def Invalid (action : Action) : Prop := action ≠ .down ∧ action ≠ .up

/-- An event other than DOWN leaves the mode, and one that is neither DOWN nor UP everything. -/
def InertUnlessPressed (s : Keyboard) (action : Action) (key : Byte) : Prop :=
  (action ≠ .down → (processInput s action key).currentMode = s.currentMode) ∧
    (Invalid action → Unchanged s (processInput s action key))

/-- In vim mode, without SHIFT and CTRL, an event of I other than DOWN, or one of X or D that is
neither DOWN nor UP while vim mode's shift is down. -/
def ActsUnpressed (s : Keyboard) (action : Action) (key : Byte) : Prop :=
  s.currentMode = .vim ∧ s.currentModifiers = 0 ∧
    (action ≠ .down ∧ key = HidKey.i ∨
      Invalid action ∧ s.shiftDown = true ∧ (key = HidKey.x ∨ key = HidKey.d))

/-! ## The mode -/

section
variable {s s₁ : Keyboard} {action : Action}

theorem currentMode_dropShift (s : Keyboard) : s.dropShift.currentMode = s.currentMode := by
  unfold Keyboard.dropShift
  split <;> rfl

/-- I leaves vim mode, whatever the action. -/
theorem currentMode_vim_i (s : Keyboard) (action : Action) :
    (vimProcessInput s action (wide HidKey.i)).currentMode = .normal := by
  rfl

theorem VimCase.currentMode {key : BitVec 16} {code : Option Byte}
    (h : VimCase s action key code s₁) (hi : key ≠ wide HidKey.i) :
    s₁.currentMode = s.currentMode := by
  cases h with
  | send | pass | skip => rfl
  | delete => exact currentMode_dropShift _
  | visual => split <;> rfl
  | leave heq => exact absurd heq hi

theorem InputCase.currentMode {key : Byte} {code : Option Byte}
    (h : InputCase s action key code s₁) (hne : action ≠ .down)
    (hi : wide key ||| s.currentModifiers = wide HidKey.i → s.currentMode ≠ .vim) :
    s₁.currentMode = s.currentMode := by
  cases h with
  | send | skip => rfl
  | vim hmode h => exact h.currentMode fun heq => hi heq hmode
  | setMode _ _ hdown => exact absurd hdown hne

theorem wide_or_eq_wide {modifiers : BitVec 16} (h : modifiers ∈ flagSets) {key c : Byte} :
    wide key ||| modifiers = wide c ↔ key = c ∧ modifiers = 0 := by
  have hflags : ∀ modifiers ∈ flagSets, ∀ c : Byte, wide c ||| modifiers = wide c →
      modifiers = 0 := by
    rw [forall_mem_flagSets]
    decide +kernel
  constructor
  · intro heq
    have hkey : key = c := by
      have hlow := congrArg (BitVec.setWidth 8) heq
      rwa [setWidth_wide_or h, wide, BitVec.setWidth_setWidth_of_le _ (by decide),
        BitVec.setWidth_eq] at hlow
    subst hkey
    exact ⟨rfl, hflags modifiers h key heq⟩
  · rintro ⟨rfl, rfl⟩
    exact BitVec.or_zero

/-- Without SHIFT and CTRL a key goes to vim mode as it is. -/
theorem processInput_vim {key : Byte} (hmode : s.currentMode = .vim)
    (hzero : s.currentModifiers = 0) (hplain : plain key = true) (hlt : key < 0xf0) :
    processInput s action key = vimProcessInput s action (wide key) := by
  have hwide : wide key ||| s.currentModifiers = wide key := by
    rw [hzero]
    exact BitVec.or_zero
  unfold processInput
  rw [trackModifiers_of_plain hplain]
  simp only [hmode]
  rw [if_pos hlt, hwide, ← hmode]

theorem currentMode_processInput (hm : s.currentModifiers ∈ flagSets) (hne : action ≠ .down)
    {key : Byte} (hacts : ¬ ActsUnpressed s action key) :
    (processInput s action key).currentMode = s.currentMode := by
  refine (processInput_case s action key).currentMode hne fun heq hmode => ?_
  obtain ⟨rfl, hzero⟩ := (wide_or_eq_wide (trackModifiers_mem_flagSets hm action key)).1 heq
  rw [trackModifiers_of_plain (by decide)] at hzero
  exact hacts ⟨hmode, hzero, .inl ⟨hne, rfl⟩⟩

end

/-! ## Everything else -/

theorem sendOverHid_invalid {action : Action} (h : Invalid action) (hid : Hid) (key : Byte) :
    sendOverHid hid action key = hid := by
  cases action with
  | down => exact absurd rfl h.1
  | up => exact absurd rfl h.2
  | none | other => simp [sendOverHid]

theorem trackModifiers_invalid {action : Action} (h : Invalid action) (modifiers : BitVec 16)
    (key : Byte) : trackModifiers modifiers action key = modifiers := by
  cases action with
  | down => exact absurd rfl h.1
  | up => exact absurd rfl h.2
  | none | other => simp [trackModifiers, trackFlag]

section
variable {s s₁ : Keyboard} {action : Action}

theorem Unchanged.refl (s : Keyboard) : Unchanged s s := ⟨rfl, rfl, rfl, rfl, rfl, rfl⟩

theorem Unchanged.printf (s : Keyboard) (format : String) (args : List Byte) :
    Unchanged s { s with hid.calls := s.hid.calls ++ [.printf format args] } := by
  refine ⟨rfl, rfl, rfl, rfl, rfl, ?_⟩
  simp [Hid.reports, Call.report?]

theorem send_invalid (h : Invalid action) (s : Keyboard) (key : Byte) :
    s.sendOverHid action key = s :=
  congrArg (fun hid => { s with hid }) (sendOverHid_invalid h s.hid key)

theorem dropShift_of_up (h : s.shiftDown = false) : s.dropShift = s := by
  simp [Keyboard.dropShift, h]

/-- Neither DOWN nor UP: vim mode acts for I, and drops its shift for X and D. -/
theorem VimCase.unchanged {key : BitVec 16} {code : Option Byte}
    (h : VimCase s action key code s₁) (hinv : Invalid action) (hi : key ≠ wide HidKey.i)
    (hx : key = wide HidKey.x ∨ key = wide HidKey.d → s.shiftDown = false) : Unchanged s s₁ := by
  cases h with
  | send code =>
    rw [send_invalid hinv]
    exact .refl s
  | delete hkey =>
    rw [send_invalid hinv, dropShift_of_up (hx hkey)]
    exact .refl s
  | visual hdown => exact absurd hdown hinv.1
  | leave heq => exact absurd heq hi
  | pass code =>
    rw [send_invalid hinv]
    exact .printf s _ _
  | skip => exact .refl s

/-- X and D drop vim mode's shift, whatever the action. -/
theorem shiftDown_vim_drop (s : Keyboard) (action : Action) {key : BitVec 16}
    (hkey : key = wide HidKey.x ∨ key = wide HidKey.d) :
    (vimProcessInput s action key).shiftDown = false := by
  obtain rfl | rfl := hkey
  · exact shiftDown_dropShift
  · exact shiftDown_dropShift

theorem InputCase.unchanged {key : Byte} {code : Option Byte}
    (h : InputCase s action key code s₁) (hm : s.currentModifiers ∈ flagSets)
    (hinv : Invalid action) (hacts : ¬ ActsUnpressed s action key) : Unchanged s s₁ := by
  cases h with
  | send code =>
    rw [send_invalid hinv]
    exact .refl s
  | vim hmode h =>
    refine h.unchanged hinv (fun heq => hacts ?_) fun hkey => ?_
    · obtain ⟨hi, hzero⟩ := (wide_or_eq_wide hm).1 heq
      exact ⟨hmode, hzero, .inl ⟨hinv.1, hi⟩⟩
    · refine Bool.eq_false_iff.2 fun hdown => hacts ?_
      simp only [wide_or_eq_wide hm, ← or_and_right] at hkey
      exact ⟨hmode, hkey.2, .inr ⟨hinv, hdown, hkey.1⟩⟩
  | setMode _ _ hdown => exact absurd hdown hinv.1
  | skip => exact .refl s

theorem unchanged_processInput (hm : s.currentModifiers ∈ flagSets) (hinv : Invalid action)
    {key : Byte} (hacts : ¬ ActsUnpressed s action key) :
    Unchanged s (processInput s action key) := by
  have h := processInput_case s action key
  rw [trackModifiers_invalid hinv] at h
  exact h.unchanged hm hinv hacts

theorem not_acts_of_inert {key : Byte} (h : InertUnlessPressed s action key) :
    ¬ ActsUnpressed s action key := by
  rintro ⟨hmode, hzero, ⟨hne, rfl⟩ | ⟨hinv, hdown, hkey⟩⟩
  · have hstays := h.1 hne
    rw [processInput_vim hmode hzero (by decide) (by decide), currentMode_vim_i, hmode] at hstays
    cases hstays
  · have hstays := (h.2 hinv).shiftDown
    have hplain : plain key = true := by
      obtain rfl | rfl := hkey <;> decide
    have hlt : key < 0xf0 := by
      obtain rfl | rfl := hkey <;> decide
    rw [processInput_vim hmode hzero hplain hlt, shiftDown_vim_drop s action
      (hkey.imp (congrArg wide) (congrArg wide)), hdown] at hstays
    cases hstays

end

/-! ## Reachable states -/

structure EventInv (s : Keyboard) : Prop extends ShiftInv s where
  currentModifiers : s.currentModifiers ∈ flagSets

theorem eventInv_start : EventInv .start := ⟨shiftInv_start, by decide⟩

theorem EventInv.step {s : Keyboard} (h : EventInv s) (e : KeyEvent) : EventInv (keyStep s e) where
  toShiftInv := h.toShiftInv.step e
  currentModifiers := by
    rw [keyStep, (processInput_step s e.action e.key h.vim).currentModifiers]
    exact trackModifiers_mem_flagSets h.currentModifiers e.action e.key

/-- **An event that is no press is inert**, but for I, X and D in vim mode. -/
theorem inertUnlessPressed_iff (es : List KeyEvent) (action : Action) (key : Byte) :
    InertUnlessPressed (run keyStep .start es) action key ↔
      ¬ ActsUnpressed (run keyStep .start es) action key := by
  have h : EventInv (run keyStep .start es) :=
    run_inv EventInv (fun _ e h => h.step e) eventInv_start es
  refine ⟨not_acts_of_inert, fun hacts => ⟨fun hne => ?_, fun hinv => ?_⟩⟩
  · exact currentMode_processInput h.currentModifiers hne hacts
  · exact unchanged_processInput h.currentModifiers hinv hacts

/-- I is held while vim mode is entered: its release leaves the mode. -/
theorem inertUnlessPressed_counterexample :
    ¬ ∀ es action key, InertUnlessPressed (run keyStep .start es) action key := by
  intro h
  have hmode := (h [⟨.down, HidKey.i⟩, ⟨.down, vimKey⟩] .up HidKey.i).1 (by decide)
  revert hmode
  decide

end VolumeControl
