import VolumeControl.Keyboard.SendOverHid
import VolumeControl.Lib.CaseTable

/-!
# process_input

Key events go through `process_input`, which keeps a mode and the state of
SHIFT and CTRL, and passes codes on to `send_over_hid`.

`keyCode` is the code a key stands for in a mode. `processInput_report` says
that an event sends the code of its key, and that vim mode's own left shift
follows `shiftDown`.
-/

namespace VolumeControl

open CaseTable

def vimKey : Byte := specialKey0
def functionKey : Byte := specialKey1

/-- `enum mode`. -/
inductive Mode where
  | normal
  | vim
  | function
  deriving DecidableEq, Repr

/-- `enum modifiers`: bits above the byte of a key code. -/
def modifierShift : BitVec 16 := 1 <<< 8
def modifierCtrl : BitVec 16 := 1 <<< 9

/-- `current_mode`, `current_modifiers`, `shift_down` and the state of `send_over_hid`. -/
structure Keyboard where
  currentMode : Mode
  currentModifiers : BitVec 16
  shiftDown : Bool
  hid : Hid
  deriving DecidableEq, Repr

def Keyboard.start : Keyboard := ⟨.normal, 0, false, Hid.start⟩

def Keyboard.sendOverHid (s : Keyboard) (action : Action) (key : Byte) : Keyboard :=
  { s with hid := VolumeControl.sendOverHid s.hid action key }

section
open HidKey

def keymapNormal : List Byte :=
  [digit1, digit2, digit3, digit4, digit5, digit6, digit7, digit8, digit9, digit0, minus, equal]

def keymapFn : List Byte := [f1, f2, f3, f4, f5, f6, f7, f8, f9, f10, f11, f12]

def functionProcessInput (s : Keyboard) (action : Action) (key : Byte) : Keyboard :=
  match (keymapNormal.zip keymapFn).lookup key with
  | some fn => s.sendOverHid action fn
  | none => s.sendOverHid action key

/-- `if (shift_down) { send_over_hid(ACTION_UP, HID_KEY_SHIFT_LEFT); shift_down = false; }` -/
def Keyboard.dropShift (s : Keyboard) : Keyboard :=
  if s.shiftDown then { s.sendOverHid .up shiftLeft with shiftDown := false } else s

/-- A key code as `vim_process_input` takes it. -/
def wide (key : Byte) : BitVec 16 := key.setWidth 16

def vimProcessInput (s : Keyboard) (action : Action) (key : BitVec 16) : Keyboard :=
  if key = wide digit0 then s.sendOverHid action home
  else if key = wide digit4 ||| modifierShift then s.sendOverHid action endKey
  else if key = wide h ||| modifierShift then s.sendOverHid action pageUp
  else if key = wide l ||| modifierShift then s.sendOverHid action pageDown
  else if key = wide h then s.sendOverHid action arrowLeft
  else if key = wide j then s.sendOverHid action arrowDown
  else if key = wide k then s.sendOverHid action arrowUp
  else if key = wide l then s.sendOverHid action arrowRight
  else if key = wide x then (s.sendOverHid action delete).dropShift
  else if key = wide d then (s.sendOverHid action delete).dropShift
  else if key = wide v then
    if action = .down then
      if s.shiftDown then { s.sendOverHid .up shiftLeft with shiftDown := false }
      else { s.sendOverHid .down shiftLeft with shiftDown := true }
    else s
  else if key = wide i then { s.dropShift with currentMode := .normal }
  else
    let key := key.setWidth 8
    if key ≠ shiftLeft ∧ key ≠ shiftRight ∧ key ≠ controlLeft ∧ key ≠ controlRight then
      -- the argument of `%04x` is missing
      let s := { s with hid.calls := s.hid.calls ++ [Call.printf "0x%04x\n" []] }
      s.sendOverHid action key
    else s

/-- `current_modifiers` after an event of a key that goes with `flag`. -/
def trackFlag (flag : BitVec 16) (action : Action) (modifiers : BitVec 16) : BitVec 16 :=
  match action with
  | .down => modifiers ||| flag
  | .up => modifiers &&& ~~~flag
  | _ => modifiers

/-- The first two blocks of `process_input`. -/
def trackModifiers (modifiers : BitVec 16) (action : Action) (key : Byte) : BitVec 16 :=
  let modifiers := if key = shiftLeft ∨ key = shiftRight then
    trackFlag modifierShift action modifiers else modifiers
  if key = controlLeft ∨ key = controlRight then
    trackFlag modifierCtrl action modifiers else modifiers

def processInput (s : Keyboard) (action : Action) (key : Byte) : Keyboard :=
  let s := { s with currentModifiers := trackModifiers s.currentModifiers action key }
  match s.currentMode with
  | .normal =>
    if key < 0xf0 then s.sendOverHid action key
    else if key = vimKey ∧ action = .down then { s with currentMode := .vim }
    else if key = functionKey ∧ action = .down then { s with currentMode := .function }
    else s
  | .vim =>
    if key < 0xf0 then vimProcessInput s action (wide key ||| s.currentModifiers) else s
  | .function =>
    if key < 0xf0 then functionProcessInput s action key
    else if key = functionKey ∧ action = .down then { s with currentMode := .normal }
    else s

/-! ## The code of a key -/

def functionCode (key : Byte) : Byte := ((keymapNormal.zip keymapFn).lookup key).getD key

/-- The code vim mode sends for a key; the others have none. -/
def vimCode (key : BitVec 16) : Option Byte :=
  if key = wide digit0 then some home
  else if key = wide digit4 ||| modifierShift then some endKey
  else if key = wide h ||| modifierShift then some pageUp
  else if key = wide l ||| modifierShift then some pageDown
  else if key = wide h then some arrowLeft
  else if key = wide j then some arrowDown
  else if key = wide k then some arrowUp
  else if key = wide l then some arrowRight
  else if key = wide x then some delete
  else if key = wide d then some delete
  else if key = wide v then none
  else if key = wide i then none
  else
    let key := key.setWidth 8
    if key ≠ shiftLeft ∧ key ≠ shiftRight ∧ key ≠ controlLeft ∧ key ≠ controlRight then some key
    else none

/-- The cases of the switch in `vim_process_input`, with the codes they send. -/
def vimCases : List (BitVec 16 × Option Byte) :=
  [(wide digit0, some home), (wide digit4 ||| modifierShift, some endKey),
    (wide h ||| modifierShift, some pageUp), (wide l ||| modifierShift, some pageDown),
    (wide h, some arrowLeft), (wide j, some arrowDown), (wide k, some arrowUp),
    (wide l, some arrowRight), (wide x, some delete), (wide d, some delete), (wide v, none),
    (wide i, none)]

/-- Not SHIFT or CTRL. -/
def plain (key : Byte) : Bool :=
  key ≠ shiftLeft && key ≠ shiftRight && key ≠ controlLeft && key ≠ controlRight

theorem trackModifiers_of_plain {key : Byte} (h : plain key = true) (modifiers : BitVec 16)
    (action : Action) : trackModifiers modifiers action key = modifiers := by
  simp [plain] at h
  simp [trackModifiers, h]

/-- The code of a key that no case is about. -/
def defaultCode (key : Byte) : Option Byte := if plain key then some key else none

theorem vimCode_eq_lookup (key : BitVec 16) :
    vimCode key = (vimCases.lookup key).getD (defaultCode (key.setWidth 8)) := by
  simp only [vimCases, getD_lookup_cons, List.lookup_nil, Option.getD_none]
  simp [vimCode, defaultCode, plain, and_assoc]

/-- The code a key stands for, under a mode and the modifiers held. -/
def keyCode (mode : Mode) (modifiers : BitVec 16) (key : Byte) : Option Byte :=
  if key < 0xf0 then
    match mode with
    | .normal => some key
    | .vim => vimCode (wide key ||| modifiers)
    | .function => some (functionCode key)
  else none

end

/-! ## What an event does -/

section
open HidKey

/-- What `vim_process_input` does for a key that stands for `code`. -/
inductive VimCase (s : Keyboard) (action : Action) (key : BitVec 16) :
    Option Byte → Keyboard → Prop where
  | send (code : Byte) : VimCase s action key (some code) (s.sendOverHid action code)
  | delete (h : key = wide x ∨ key = wide d) :
    VimCase s action key (some delete) (s.sendOverHid action delete).dropShift
  | visual (h : action = .down) :
    VimCase s action key none
      (if s.shiftDown then { s.sendOverHid .up shiftLeft with shiftDown := false }
      else { s.sendOverHid .down shiftLeft with shiftDown := true })
  | leave (h : key = wide i) :
    VimCase s action key none { s.dropShift with currentMode := .normal }
  | pass (code : Byte) :
    VimCase s action key (some code)
      ({ s with hid.calls := s.hid.calls ++ [Call.printf "0x%04x\n" []] }.sendOverHid action code)
  | skip : VimCase s action key none s

/-- What `process_input` does after its first two blocks, for a key that stands for `code`. -/
inductive InputCase (s : Keyboard) (action : Action) (key : Byte) :
    Option Byte → Keyboard → Prop where
  | send (code : Byte) : InputCase s action key (some code) (s.sendOverHid action code)
  | vim {code : Option Byte} {s' : Keyboard} (hmode : s.currentMode = .vim)
      (h : VimCase s action (wide key ||| s.currentModifiers) code s') :
    InputCase s action key code s'
  | setMode (mode : Mode) (hmode : s.currentMode ≠ .vim) (hdown : action = .down) :
    InputCase s action key none { s with currentMode := mode }
  | skip : InputCase s action key none s

end

section
variable {s s₁ s₂ : Keyboard} {action : Action} {code₁ code₂ : Option Byte} {c : Prop}
  [Decidable c]

theorem VimCase.ite {key : BitVec 16} (h₁ : c → VimCase s action key code₁ s₁)
    (h₂ : VimCase s action key code₂ s₂) :
    VimCase s action key (if c then code₁ else code₂) (if c then s₁ else s₂) := by
  split
  · exact h₁ ‹c›
  · exact h₂

theorem InputCase.ite {key : Byte} (h₁ : InputCase s action key code₁ s₁)
    (h₂ : InputCase s action key code₂ s₂) :
    InputCase s action key (if c then code₁ else code₂) (if c then s₁ else s₂) := by
  split
  · exact h₁
  · exact h₂

theorem vimProcessInput_case (s : Keyboard) (action : Action) (key : BitVec 16) :
    VimCase s action key (vimCode key) (vimProcessInput s action key) := by
  unfold vimProcessInput vimCode
  refine .ite (fun _ => .send _) <| .ite (fun _ => .send _) <| .ite (fun _ => .send _) <|
    .ite (fun _ => .send _) <| .ite (fun _ => .send _) <| .ite (fun _ => .send _) <|
    .ite (fun _ => .send _) <| .ite (fun _ => .send _) <| .ite (fun hx => .delete (.inl hx)) <|
    .ite (fun hd => .delete (.inr hd)) <| .ite (fun _ => ?_) <| .ite .leave <|
    .ite (fun _ => .pass _) .skip
  -- V: the toggle is on DOWN only
  split
  · exact .visual ‹_›
  · exact .skip

theorem processInput_case (s : Keyboard) (action : Action) (key : Byte) :
    let modifiers := trackModifiers s.currentModifiers action key
    InputCase { s with currentModifiers := modifiers } action key
      (keyCode s.currentMode modifiers key) (processInput s action key) := by
  intro modifiers
  unfold processInput keyCode
  cases hmode : s.currentMode with
  | normal =>
    refine .ite (.send _) ?_
    split_ifs with hvim hfn
    · exact .setMode .vim nofun hvim.2
    · exact .setMode .function nofun hfn.2
    · exact .skip
  | vim => exact .ite (.vim rfl (vimProcessInput_case _ _ _)) .skip
  | function =>
    refine .ite ?_ ?_
    · unfold functionProcessInput functionCode
      cases (keymapNormal.zip keymapFn).lookup key <;> exact .send _
    · split_ifs with hfn
      · exact .setMode .normal nofun hfn.2
      · exact .skip

end

/-! ## What an event does to the report -/

/-- The report after an event of a key that stands for `code`. -/
def Report.sendCode (r : Report) (action : Action) (code : Option Byte) : Report :=
  match code with
  | some code => r.send action code
  | none => r

/-- The report after vim mode's own shift has gone from `was` to `now`. -/
def Report.syncShift (r : Report) (was now : Bool) : Report :=
  match was, now with
  | true, false => r.send .up HidKey.shiftLeft
  | false, true => r.send .down HidKey.shiftLeft
  | _, _ => r

@[simp] theorem Report.syncShift_self (r : Report) (b : Bool) : r.syncShift b b = r := by
  cases b <;> rfl

@[simp] theorem Keyboard.report_sendOverHid (s : Keyboard) (action : Action) (key : Byte) :
    (s.sendOverHid action key).hid.report = s.hid.report.send action key :=
  sendOverHid_report ..

@[simp] theorem Keyboard.shiftDown_sendOverHid (s : Keyboard) (action : Action) (key : Byte) :
    (s.sendOverHid action key).shiftDown = s.shiftDown := rfl

/-- What an event of a key that stands for `code` does. -/
structure KeyStep (s : Keyboard) (action : Action) (code : Option Byte) (s' : Keyboard) : Prop where
  report : s'.hid.report = (s.hid.report.sendCode action code).syncShift s.shiftDown s'.shiftDown
  currentModifiers : s'.currentModifiers = s.currentModifiers
  /-- An event that changes the mode sends nothing. -/
  currentMode : s'.currentMode = s.currentMode ∨ code = none
  /-- Vim mode's own shift is down in vim mode only. -/
  shiftDown : (s.shiftDown = true → s.currentMode = .vim) →
    s'.shiftDown = true → s'.currentMode = .vim

section
variable {s s₁ : Keyboard} {action : Action} {code : Option Byte}

theorem KeyStep.skip : KeyStep s action none s where
  report := by simp [Report.sendCode]
  currentModifiers := rfl
  currentMode := .inl rfl
  shiftDown h := h

theorem KeyStep.send (key : Byte) : KeyStep s action (some key) (s.sendOverHid action key) where
  report := by simp [Report.sendCode]
  currentModifiers := rfl
  currentMode := .inl rfl
  shiftDown h := h

/-- A change of mode with vim mode's shift up. -/
theorem KeyStep.setMode (h : KeyStep s action none s₁) (hs : s₁.shiftDown = false) (mode : Mode) :
    KeyStep s action none { s₁ with currentMode := mode } where
  report := h.report
  currentModifiers := h.currentModifiers
  currentMode := .inr rfl
  shiftDown _ hd := by simp [hs] at hd

theorem KeyStep.dropShift (h : KeyStep s action code s₁) (hs : s₁.shiftDown = s.shiftDown) :
    KeyStep s action code s₁.dropShift := by
  unfold Keyboard.dropShift
  cases hd : s₁.shiftDown with
  | false => simpa [hd] using h
  | true =>
    have hr := h.report
    rw [hs, Report.syncShift_self] at hr
    exact {
      report := by simp [hr, ← hs, hd, Report.syncShift]
      currentModifiers := h.currentModifiers
      currentMode := h.currentMode
      shiftDown := fun _ h' => by simp at h' }

theorem shiftDown_dropShift : s.dropShift.shiftDown = false := by
  unfold Keyboard.dropShift
  cases hs : s.shiftDown <;> simp [hs]

theorem VimCase.step {key : BitVec 16} (h : VimCase s action key code s₁)
    (hvim : s.currentMode = .vim) : KeyStep s action code s₁ := by
  cases h with
  | send code => exact .send code
  | delete => exact (KeyStep.send HidKey.delete).dropShift rfl
  | visual =>
    cases hs : s.shiftDown with
    | true =>
      exact ⟨by simp [hs, Report.sendCode, Report.syncShift], rfl, .inl rfl, fun _ h => by simp at h⟩
    | false =>
      exact ⟨by simp [hs, Report.sendCode, Report.syncShift], rfl, .inl rfl, fun _ _ => hvim⟩
  | leave => exact (KeyStep.skip.dropShift rfl).setMode shiftDown_dropShift .normal
  | pass code =>
    refine ⟨?_, rfl, .inl rfl, id⟩
    rw [Keyboard.report_sendOverHid, Keyboard.shiftDown_sendOverHid, Report.syncShift_self]
    rfl
  | skip => exact .skip

theorem InputCase.step {key : Byte} (h : InputCase s action key code s₁)
    (hshift : s.shiftDown = true → s.currentMode = .vim) : KeyStep s action code s₁ := by
  cases h with
  | send code => exact .send code
  | vim hmode h => exact h.step hmode
  | setMode mode hmode => exact .setMode .skip (Bool.eq_false_iff.2 (mt hshift hmode)) mode
  | skip => exact .skip

/-- **An event sends the code of its key**, and left shift follows `shiftDown`. -/
theorem processInput_step (s : Keyboard) (action : Action) (key : Byte)
    (hshift : s.shiftDown = true → s.currentMode = .vim) :
    let modifiers := trackModifiers s.currentModifiers action key
    KeyStep { s with currentModifiers := modifiers } action
      (keyCode s.currentMode modifiers key) (processInput s action key) :=
  (processInput_case s action key).step hshift

end

end VolumeControl
