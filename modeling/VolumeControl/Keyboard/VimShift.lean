import VolumeControl.Keyboard.Release

/-!
# Vim mode's own shift

`shiftDown` is vim mode's own left shift, the bit of left shift in the modifier
byte is shared with the physical key. `vim_shift_contained`: the one is never
down without the other, and in a stay in vim mode that starts with the bit clear
they go together and are both clear at its end, whatever keys arrive.
-/

namespace VolumeControl

open Trace CaseTable

def keyStep (s : Keyboard) (e : KeyEvent) : Keyboard := processInput s e.action e.key

/-- The bit of left shift in a report. -/
def Report.leftShift (r : Report) : Bool := r.modifier.getLsbD 1

/-! ## The last report sent -/

def Call.report? : Call → Option Report
  | .keyboardUpdate modifiers keyCodes => some ⟨modifiers, keyCodes⟩
  | _ => none

def Hid.lastReport? (h : Hid) : Option Report := (h.calls.filterMap Call.report?).getLast?

/-- The last report sent is the current one. -/
def Hid.Shown (h : Hid) : Prop := h.lastReport?.getD Report.zero = h.report

theorem Hid.shown_update (h : Hid) : h.update.Shown := by
  simp [Shown, lastReport?, update, Call.report?, report]

theorem shown_sendOverHid {h : Hid} (hs : h.Shown) (action : Action) (key : Byte) :
    (sendOverHid h action key).Shown := by
  unfold sendOverHid
  split
  · cases action with
    | down | up => exact Hid.shown_update _
    | none | other => exact hs
  · cases action with
    | down | up => exact Hid.shown_update _
    | none | other => exact hs

theorem shown_printf {h : Hid} (hs : h.Shown) (format : String) (args : List Byte) :
    Hid.Shown { h with calls := h.calls ++ [.printf format args] } := by
  unfold Hid.Shown at hs ⊢
  rw [show Hid.report { h with calls := h.calls ++ [.printf format args] } = h.report from rfl, ← hs]
  simp [Hid.lastReport?, Call.report?]

section
variable {s s₁ : Keyboard}

theorem shown_dropShift (hs : s.hid.Shown) : s.dropShift.hid.Shown := by
  unfold Keyboard.dropShift
  split
  · exact shown_sendOverHid hs _ _
  · exact hs

theorem VimCase.shown {action : Action} {key : BitVec 16} {code : Option Byte}
    (h : VimCase s action key code s₁) (hs : s.hid.Shown) : s₁.hid.Shown := by
  cases h with
  | send code => exact shown_sendOverHid hs _ _
  | delete => exact shown_dropShift (s := s.sendOverHid _ _) (shown_sendOverHid hs _ _)
  | visual => split <;> exact shown_sendOverHid hs _ _
  | leave => exact shown_dropShift hs
  | pass code => exact shown_sendOverHid (shown_printf hs _ _) _ _
  | skip => exact hs

theorem InputCase.shown {action : Action} {key : Byte} {code : Option Byte}
    (h : InputCase s action key code s₁) (hs : s.hid.Shown) : s₁.hid.Shown := by
  cases h with
  | send code => exact shown_sendOverHid hs _ _
  | vim _ h => exact h.shown hs
  | setMode | skip => exact hs

theorem shown_processInput (hs : s.hid.Shown) (action : Action) (key : Byte) :
    (processInput s action key).hid.Shown :=
  (processInput_case s action key).shown hs

end

/-! ## The bit of left shift -/

theorem eq_shiftLeft_of_index : ∀ key : Byte, isModifier key = true → modifierIndex key = 1 →
    key = HidKey.shiftLeft := by
  decide +kernel

/-- Only left shift touches the bit. -/
theorem leftShift_send (r : Report) (action : Action) {code : Byte}
    (h : code ≠ HidKey.shiftLeft) : (r.send action code).leftShift = r.leftShift := by
  have hne : ¬ (isModifier code = true ∧ modifierIndex code = 1) :=
    fun hm => h (eq_shiftLeft_of_index code hm.1 hm.2)
  have hsend := getLsbD_modifier_send r action code 1
  rw [or_iff_right fun hd => hne ⟨hd.2.1, hd.2.2.1⟩,
    and_iff_left fun hu => hne ⟨hu.2.1, hu.2.2⟩] at hsend
  exact Bool.eq_iff_iff.2 hsend

theorem leftShift_sendCode (r : Report) (action : Action) {code : Option Byte}
    (h : code ≠ some HidKey.shiftLeft) : (r.sendCode action code).leftShift = r.leftShift := by
  cases code with
  | none => rfl
  | some code => exact leftShift_send r action fun he => h (congrArg some he)

theorem leftShift_syncShift (r : Report) (was now : Bool) :
    (r.syncShift was now).leftShift = if was = now then r.leftShift else now := by
  have hdown : (r.send .down HidKey.shiftLeft).leftShift = true :=
    (getLsbD_modifier_send r .down HidKey.shiftLeft 1).2 (.inl (by decide))
  have hup : (r.send .up HidKey.shiftLeft).leftShift = false := by
    refine Bool.eq_false_iff.2 fun h => ?_
    have := (getLsbD_modifier_send r .up HidKey.shiftLeft 1).1 h
    revert this
    simp [show isModifier HidKey.shiftLeft = true by decide,
      show modifierIndex HidKey.shiftLeft = 1 by decide]
  cases was <;> cases now <;> simp [Report.syncShift, hdown, hup]

/-- Vim mode sends left shift for no key. -/
theorem vimCode_ne_shiftLeft (key : BitVec 16) : vimCode key ≠ some HidKey.shiftLeft := by
  have hcases : ∀ c ∈ vimCases, c.2 ≠ some HidKey.shiftLeft := forall_mem_of_all (by decide)
  rw [vimCode_eq_lookup]
  refine getD_lookup_of (P := (· ≠ some HidKey.shiftLeft)) (fun c hc _ => hcases c hc) ?_
  unfold defaultCode
  split_ifs with hplain
  · intro he
    rw [Option.some.inj he] at hplain
    exact absurd hplain (by decide)
  · exact (Option.some_ne_none _).symm

theorem keyCode_vim_ne_shiftLeft (modifiers : BitVec 16) (key : Byte) :
    keyCode .vim modifiers key ≠ some HidKey.shiftLeft := by
  unfold keyCode
  split_ifs
  · exact vimCode_ne_shiftLeft _
  · exact (Option.some_ne_none _).symm

/-! ## Runs -/

structure ShiftInv (s : Keyboard) : Prop where
  vim : s.shiftDown = true → s.currentMode = .vim
  leftShift : s.shiftDown = true → s.hid.report.leftShift = true
  shown : s.hid.Shown

theorem shiftInv_start : ShiftInv .start where
  vim h := by cases h
  leftShift h := by cases h
  shown := rfl

section
variable {s : Keyboard}

theorem ShiftInv.up (h : ShiftInv s) (hmode : s.currentMode ≠ .vim) : s.shiftDown = false :=
  Bool.eq_false_iff.2 fun hdown => hmode (h.vim hdown)

theorem leftShift_keyStep (h : ShiftInv s) (hvim : s.currentMode = .vim) (e : KeyEvent) :
    (keyStep s e).hid.report.leftShift =
      if s.shiftDown = (keyStep s e).shiftDown then s.hid.report.leftShift
      else (keyStep s e).shiftDown := by
  have hreport := (processInput_step s e.action e.key h.vim).report
  rw [keyStep, hreport, leftShift_syncShift, leftShift_sendCode]
  rw [hvim]
  exact keyCode_vim_ne_shiftLeft _ _

theorem ShiftInv.step (h : ShiftInv s) (e : KeyEvent) : ShiftInv (keyStep s e) where
  vim := (processInput_step s e.action e.key h.vim).shiftDown h.vim
  leftShift hdown := by
    cases hs : s.shiftDown with
    | true => simp [leftShift_keyStep h (h.vim hs), hs, hdown, h.leftShift hs]
    | false =>
      have hreport := (processInput_step s e.action e.key h.vim).report
      rw [keyStep] at hdown ⊢
      rw [hreport, leftShift_syncShift, hdown]
      simp [hs]
  shown := shown_processInput h.shown e.action e.key

/-- A change of mode sends no code, so a bit that was clear goes with `shiftDown` after it. -/
theorem ShiftInv.enter (h : ShiftInv s) (e : KeyEvent) (hmode : s.currentMode ≠ .vim)
    (henter : (keyStep s e).currentMode = .vim) (hclear : s.hid.report.leftShift = false) :
    (keyStep s e).hid.report.leftShift = (keyStep s e).shiftDown := by
  have hstep := processInput_step s e.action e.key h.vim
  have hnone := hstep.currentMode.resolve_left fun hsame => hmode (hsame.symm.trans henter)
  rw [keyStep, hstep.report, leftShift_syncShift, hnone, h.up hmode]
  split_ifs with hsame
  · exact hclear.trans hsame
  · rfl

/-- The report of left shift has been sent. -/
theorem ShiftInv.sent (h : ShiftInv s) (hdown : s.shiftDown = true) :
    ∃ r, s.hid.lastReport? = some r ∧ r.leftShift = true := by
  have hshown := h.shown
  have hshift := h.leftShift hdown
  unfold Hid.Shown at hshown
  rw [← hshown] at hshift
  cases hlast : s.hid.lastReport? with
  | none => simp [hlast, Report.zero, Report.leftShift] at hshift
  | some r => exact ⟨r, rfl, by simpa [hlast] using hshift⟩

/-- In vim mode the bit keeps going with `shiftDown`. -/
theorem ShiftInv.stay (h : ShiftInv s) (heq : s.hid.report.leftShift = s.shiftDown)
    {stay : List KeyEvent} (hstay : AllSteps keyStep (fun s _ => s.currentMode = .vim) s stay) :
    (run keyStep s stay).hid.report.leftShift = (run keyStep s stay).shiftDown := by
  have hinv := hstay.run_inv (fun s => ShiftInv s ∧ s.hid.report.leftShift = s.shiftDown) ?_
    ⟨h, heq⟩
  · exact hinv.2
  · rintro s e ⟨h, heq⟩ hvim
    refine ⟨h.step e, ?_⟩
    rw [leftShift_keyStep h hvim, heq]
    split_ifs with hsame
    · exact hsame
    · rfl

end

/-- **Vim mode's own shift is never leaked.** -/
theorem vim_shift_contained (es : List KeyEvent) :
    let s := run keyStep .start es
    (s.currentMode ≠ .vim → s.shiftDown = false) ∧
      (s.shiftDown = true → s.hid.report.leftShift = true ∧
        ∃ r, s.hid.lastReport? = some r ∧ r.leftShift = true) ∧
      ∀ e stay, s.currentMode ≠ .vim → (keyStep s e).currentMode = .vim →
        s.hid.report.leftShift = false →
        AllSteps keyStep (fun s _ => s.currentMode = .vim) (keyStep s e) stay →
          let s' := run keyStep (keyStep s e) stay
          (s'.currentMode = .vim → s'.hid.report.leftShift = s'.shiftDown) ∧
            (s'.currentMode ≠ .vim → s'.hid.report.leftShift = false) := by
  intro s
  have h : ShiftInv s := run_inv ShiftInv (fun _ e h => h.step e) shiftInv_start es
  refine ⟨h.up, fun hdown => ⟨h.leftShift hdown, h.sent hdown⟩, ?_⟩
  intro e stay hmode henter hclear hstay s'
  have hinv : ShiftInv s' := run_inv ShiftInv (fun _ e h => h.step e) (h.step e) stay
  have hbit : s'.hid.report.leftShift = s'.shiftDown :=
    (h.step e).stay (h.enter e hmode henter hclear) hstay
  exact ⟨fun _ => hbit, fun hleft => hbit.trans (hinv.up hleft)⟩

/-- Vim mode is entered, V pressed, and H moves the cursor with left shift down. -/
theorem vim_shift_contained_v :
    let s' := run keyStep (keyStep .start ⟨.down, vimKey⟩) [⟨.down, HidKey.v⟩, ⟨.down, HidKey.h⟩]
    s'.currentMode = .vim ∧ s'.shiftDown = true ∧ s'.hid.report.leftShift = s'.shiftDown :=
  have hmode : (run keyStep (keyStep .start ⟨.down, vimKey⟩)
      [⟨.down, HidKey.v⟩, ⟨.down, HidKey.h⟩]).currentMode = .vim := by decide
  ⟨hmode, by decide, ((vim_shift_contained []).2.2 ⟨.down, vimKey⟩ _ (by decide) (by decide)
    (by decide) (by decide)).1 hmode⟩

end VolumeControl
