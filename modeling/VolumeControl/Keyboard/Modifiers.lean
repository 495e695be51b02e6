import VolumeControl.Keyboard.ProcessInput
import VolumeControl.Lib.Grid
import VolumeControl.Lib.SharedFlag

/-!
# Modifiers bound to several keys

The report has one bit for each modifier code, whatever the number of keys with
that code, and `current_modifiers` one flag for the left and the right key of a
kind. Both are flags with several sources: `modifierByte_exact_iff` for the
positions of a side's key map, `currentModifiers_exact_iff` for the keys.
-/

namespace VolumeControl

open Trace SharedFlag

/-- The keyboard, and the sources of events that are down. -/
structure Board (ι : Type*) where
  keyboard : Keyboard
  held : List ι

def Board.start {ι : Type*} : Board ι := ⟨Keyboard.start, []⟩

section
variable {ι : Type*}

def eventAction (e : Event ι) : Action := if e.down then .down else .up

/-- A source goes down or up; `code` is its key code. -/
def boardStep [DecidableEq ι] (code : ι → Byte) (s : Board ι) (e : Event ι) : Board ι :=
  ⟨processInput s.keyboard (eventAction e) (code e.source), heldStep s.held e⟩

@[simp] theorem eventAction_eq_down {e : Event ι} : eventAction e = .down ↔ e.down = true := by
  cases h : e.down <;> simp [eventAction, h]

end

/-! ## The modifier byte -/

/-- A position of the matrix. -/
abbrev Position (l : Layout) := Fin l.rowCount × Fin l.colCount

def codeAt (l : Layout) (p : Position l) : Byte := Grid.get l.keymap p.1 p.2

/-- The codes `0xE0` to `0xE7`. -/
def modifierCode (i : Fin 8) : Byte := 0xE0#8 + BitVec.ofNat 8 i

/-- Bit `i` of the modifier byte of the report. -/
def Board.modifierBit {ι : Type*} (s : Board ι) (i : Fin 8) : Prop :=
  s.keyboard.hid.modifiers.getLsbD i = true

/-- Each modifier bit is set when a position bound to its code is down. -/
def ModifierByteExact (l : Layout) (s : Board (Position l)) : Prop :=
  ∀ i, Exact (codeAt l · = modifierCode i) s.held (s.modifierBit i)

/-- No position of a modifier goes up while another one with its code is down. -/
def ModifierReleasedAlone (l : Layout) (s : Board (Position l)) (e : Event (Position l)) : Prop :=
  ∀ i, ReleasedAlone (codeAt l · = modifierCode i) s.held e

instance (l : Layout) (s : Board (Position l)) (e : Event (Position l)) :
    Decidable (ModifierReleasedAlone l s e) := by
  unfold ModifierReleasedAlone
  infer_instance

theorem eq_modifierCode_iff (i : Fin 8) (key : Byte) :
    key = modifierCode i ↔ isModifier key = true ∧ modifierIndex key = i := by
  revert i key
  decide +kernel

theorem modifierCode_lt (i : Fin 8) : modifierCode i < 0xf0 := by
  revert i
  decide

theorem report_processInput_normal {s : Keyboard} (h : s.currentMode = .normal) (action : Action)
    (key : Byte) : (processInput s action key).hid.report =
      if key < 0xf0 then s.hid.report.send action key else s.hid.report := by
  unfold processInput
  simp only [h]
  split_ifs <;> simp [Keyboard.report_sendOverHid]

theorem modifierBit_follows {l : Layout} {s : Board (Position l)} (e : Event (Position l))
    (h : s.keyboard.currentMode = .normal) (i : Fin 8) :
    Follows (codeAt l · = modifierCode i) e (s.modifierBit i)
      ((boardStep (codeAt l) s e).modifierBit i) := by
  have hreport := report_processInput_normal h (eventAction e) (codeAt l e.source)
  have hbit : (boardStep (codeAt l) s e).modifierBit i ↔
      (if codeAt l e.source < 0xf0 then
        s.keyboard.hid.report.send (eventAction e) (codeAt l e.source)
        else s.keyboard.hid.report).modifier.getLsbD i = true := by
    rw [← hreport]
    rfl
  have hsend := getLsbD_modifier_send s.keyboard.hid.report (eventAction e) (codeAt l e.source) i
  constructor
  · intro hb
    obtain ⟨hmod, hindex⟩ := (eq_modifierCode_iff i _).1 hb
    rw [hbit, if_pos (hb ▸ modifierCode_lt i), hsend]
    cases hd : e.down <;> simp [eventAction, hd, hmod, hindex]
  · intro hb
    have hother : ¬ (isModifier (codeAt l e.source) = true ∧
        modifierIndex (codeAt l e.source) = i) := (eq_modifierCode_iff i _).not.1 hb
    rw [hbit]
    split_ifs
    · rw [hsend, or_iff_right fun h => hother ⟨h.2.1, h.2.2.1⟩,
        and_iff_left fun h => hother ⟨h.2.1, h.2.2⟩]
      rfl
    · rfl

/-- **The modifier byte is exact** in a run in normal mode exactly when no position of a modifier
goes up with another one of its code down. -/
theorem modifierByte_exact_iff (l : Layout) (es : List (Event (Position l)))
    (h : AllSteps (boardStep (codeAt l))
      (fun s e => WellFormed s.held e ∧ s.keyboard.currentMode = .normal) .start es) :
    AllSteps (boardStep (codeAt l)) (fun s e => ModifierByteExact l (boardStep (codeAt l) s e))
        .start es ↔
      AllSteps (boardStep (codeAt l)) (ModifierReleasedAlone l) .start es :=
  run_exact_iff Board.held (fun i s => s.modifierBit i) (fun i => (codeAt l · = modifierCode i))
    (fun _ => True) (fun s _ => s.keyboard.currentMode = .normal) (fun _ _ => rfl)
    (fun _ _ _ => trivial)
    (fun _ e i _ hmode => modifierBit_follows e hmode i) trivial rfl
    (fun _ => by simp [Board.modifierBit, Board.start, Keyboard.start, Hid.start]) h

/-- The two positions of GUI on the left side. -/
def upperGui : Position leftLayout := (⟨2, by decide⟩, ⟨1, by decide⟩)
def lowerGui : Position leftLayout := (⟨4, by decide⟩, ⟨2, by decide⟩)

/-- One after the other. -/
theorem modifierByte_exact_gui : AllSteps (boardStep (codeAt leftLayout))
    (fun s e => ModifierByteExact leftLayout (boardStep (codeAt leftLayout) s e)) .start
      [⟨true, upperGui⟩, ⟨false, upperGui⟩, ⟨true, lowerGui⟩, ⟨false, lowerGui⟩] :=
  (modifierByte_exact_iff leftLayout _ (by decide)).2 (by decide)

/-- GUI is held at both of its positions, and released at one. -/
theorem modifierByte_exact_counterexample : ¬ ∀ (l : Layout) (es : List (Event (Position l))),
    AllSteps (boardStep (codeAt l))
        (fun s e => WellFormed s.held e ∧ s.keyboard.currentMode = .normal) .start es →
      AllSteps (boardStep (codeAt l)) (fun s e => ModifierByteExact l (boardStep (codeAt l) s e))
        .start es := by
  intro h
  have hall := h leftLayout [⟨true, upperGui⟩, ⟨true, lowerGui⟩, ⟨false, upperGui⟩] (by decide)
  have hgui := (hall.2.2.1 3).2 ⟨lowerGui, by decide, by decide⟩
  exact absurd hgui (by unfold Board.modifierBit; decide)

/-- The right side has one position for each of its modifiers. -/
theorem rightLayout_modifier_inj (i : Fin 8) {p q : Position rightLayout}
    (hp : codeAt rightLayout p = modifierCode i) (hq : codeAt rightLayout q = modifierCode i) :
    p = q := by
  have hall : ∀ (r r' : Fin 5) (c c' : Fin 8), isModifier (codeAt rightLayout (r, c)) = true →
      codeAt rightLayout (r, c) = codeAt rightLayout (r', c') → r = r' ∧ c = c' := by
    decide +kernel
  have hmod := ((eq_modifierCode_iff i _).1 hp).1
  exact Prod.ext_iff.2 (hall p.1 q.1 p.2 q.2 hmod (hp.trans hq.symm))

/-- On the right side the modifier byte is always exact. -/
theorem modifierByte_exact_right (es : List (Event (Position rightLayout)))
    (h : AllSteps (boardStep (codeAt rightLayout))
      (fun s e => WellFormed s.held e ∧ s.keyboard.currentMode = .normal) .start es) :
    AllSteps (boardStep (codeAt rightLayout))
      (fun s e => ModifierByteExact rightLayout (boardStep (codeAt rightLayout) s e)) .start es := by
  refine (modifierByte_exact_iff rightLayout es h).2 (allSteps_iff.2 ?_)
  intro pre e post _ i _ hb p _ hp
  exact rightLayout_modifier_inj i hp hb

/-! ## The flags of SHIFT and CTRL -/

inductive ModifierFlag where
  | shift
  | ctrl
  deriving DecidableEq, Repr

def ModifierFlag.index : ModifierFlag → Nat
  | shift => 8
  | ctrl => 9

def ModifierFlag.bit : ModifierFlag → BitVec 16
  | shift => modifierShift
  | ctrl => modifierCtrl

/-- The two keys of a flag. -/
def ModifierFlag.Of : ModifierFlag → Byte → Prop
  | shift, key => key = HidKey.shiftLeft ∨ key = HidKey.shiftRight
  | ctrl, key => key = HidKey.controlLeft ∨ key = HidKey.controlRight

instance (flag : ModifierFlag) (key : Byte) : Decidable (flag.Of key) := by
  cases flag <;> unfold ModifierFlag.Of <;> infer_instance

/-- The flag is set in `current_modifiers`. -/
def ModifierFlag.SetIn (flag : ModifierFlag) (modifiers : BitVec 16) : Prop :=
  modifiers &&& flag.bit ≠ 0

theorem ModifierFlag.bit_eq (flag : ModifierFlag) : flag.bit = BitVec.twoPow 16 flag.index := by
  cases flag <;> rfl

theorem ModifierFlag.setIn_iff {flag : ModifierFlag} {modifiers : BitVec 16} :
    flag.SetIn modifiers ↔ modifiers.getLsbD flag.index = true := by
  have hbit : BitVec.twoPow 16 flag.index ≠ 0 := by cases flag <;> decide
  rw [SetIn, bit_eq, BitVec.and_twoPow]
  split_ifs with h
  · exact iff_of_true hbit h
  · exact iff_of_false (fun h0 => h0 rfl) h

theorem setIn_trackFlag (flag flag' : ModifierFlag) (action : Action) (modifiers : BitVec 16)
    (haction : action = .down ∨ action = .up) :
    flag.SetIn (trackFlag flag'.bit action modifiers) ↔
      if flag = flag' then action = .down else flag.SetIn modifiers := by
  simp only [ModifierFlag.setIn_iff]
  rcases haction with rfl | rfl <;> cases flag <;> cases flag' <;>
    simp [trackFlag, ModifierFlag.index, ModifierFlag.bit, modifierShift, modifierCtrl]

theorem ModifierFlag.not_of_both (key : Byte) : ¬ (shift.Of key ∧ ctrl.Of key) := by
  rintro ⟨rfl | rfl, h⟩ <;> exact absurd h (by decide)

theorem trackModifiers_eq (modifiers : BitVec 16) (action : Action) (key : Byte) :
    trackModifiers modifiers action key =
      if ModifierFlag.shift.Of key then trackFlag ModifierFlag.shift.bit action modifiers
      else if ModifierFlag.ctrl.Of key then trackFlag ModifierFlag.ctrl.bit action modifiers
      else modifiers := by
  have hnot := ModifierFlag.not_of_both key
  unfold trackModifiers
  by_cases hs : ModifierFlag.shift.Of key
  · have hc : ¬ ModifierFlag.ctrl.Of key := fun hc => hnot ⟨hs, hc⟩
    rw [if_pos hs]
    exact (if_neg hc).trans (if_pos hs)
  · rw [if_neg hs]
    exact if_congr Iff.rfl (congrArg _ (if_neg hs)) (if_neg hs)

theorem setIn_trackModifiers (flag : ModifierFlag) {action : Action} (modifiers : BitVec 16)
    (key : Byte) (haction : action = .down ∨ action = .up) :
    flag.SetIn (trackModifiers modifiers action key) ↔
      if flag.Of key then action = .down else flag.SetIn modifiers := by
  rw [trackModifiers_eq]
  by_cases hs : ModifierFlag.shift.Of key
  · have hc : ¬ ModifierFlag.ctrl.Of key := fun hc => ModifierFlag.not_of_both key ⟨hs, hc⟩
    rw [if_pos hs, setIn_trackFlag _ _ _ _ haction]
    cases flag <;> simp [hs, hc]
  · rw [if_neg hs]
    by_cases hc : ModifierFlag.ctrl.Of key
    · rw [if_pos hc, setIn_trackFlag _ _ _ _ haction]
      cases flag <;> simp [hs, hc]
    · rw [if_neg hc]
      cases flag <;> simp [hs, hc]

/-- A flag follows its two keys. -/
theorem trackModifiers_follows (flag : ModifierFlag) (e : Event Byte) (modifiers : BitVec 16) :
    Follows flag.Of e (flag.SetIn modifiers)
      (flag.SetIn (trackModifiers modifiers (eventAction e) e.source)) := by
  have haction : eventAction e = .down ∨ eventAction e = .up := by
    cases hd : e.down <;> simp [eventAction, hd]
  rw [setIn_trackModifiers flag modifiers e.source haction, eventAction_eq_down]
  exact ⟨fun hb => by rw [if_pos hb], fun hb => by rw [if_neg hb]⟩

/-- A flag is set when one of its keys is down. -/
def FlagsExact (s : Board Byte) : Prop :=
  ∀ flag : ModifierFlag, Exact flag.Of s.held (flag.SetIn s.keyboard.currentModifiers)

/-- Neither key of a flag goes up while the other one is down. -/
def FlagReleasedAlone (s : Board Byte) (e : Event Byte) : Prop :=
  ∀ flag : ModifierFlag, ReleasedAlone flag.Of s.held e

theorem forall_flag {P : ModifierFlag → Prop} : (∀ flag, P flag) ↔ P .shift ∧ P .ctrl :=
  ⟨fun h => ⟨h .shift, h .ctrl⟩, fun h flag => by cases flag; exacts [h.1, h.2]⟩

instance (s : Board Byte) (e : Event Byte) : Decidable (FlagReleasedAlone s e) :=
  decidable_of_iff' _ forall_flag

/-- **The flags are exact** in a run exactly when neither key of a flag goes up with the other one
down. -/
theorem currentModifiers_exact_iff (es : List (Event Byte))
    (h : AllSteps (boardStep id) (fun s e => WellFormed s.held e) .start es) :
    AllSteps (boardStep id) (fun s e => FlagsExact (boardStep id s e)) .start es ↔
      AllSteps (boardStep id) FlagReleasedAlone .start es := by
  refine run_exact_iff Board.held (fun flag s => flag.SetIn s.keyboard.currentModifiers)
    ModifierFlag.Of (fun s => s.keyboard.shiftDown = true → s.keyboard.currentMode = .vim)
    (fun _ _ => True) (fun _ _ => rfl)
    (fun s e hs => (processInput_step s.keyboard (eventAction e) e.source hs).shiftDown hs)
    (fun s e flag hs _ => ?_) (fun hd => by cases hd) rfl (fun flag => ?_)
    (allSteps_and.2 ⟨h, allSteps_iff.2 fun _ _ _ _ => trivial⟩)
  · have hmodifiers := (processInput_step s.keyboard (eventAction e) e.source hs).currentModifiers
    rw [show (boardStep id s e).keyboard.currentModifiers = _ from hmodifiers]
    exact trackModifiers_follows flag e s.keyboard.currentModifiers
  · cases flag <;> exact fun hset => hset rfl

/-- Left SHIFT, then right SHIFT. -/
theorem currentModifiers_exact_shift : AllSteps (boardStep id)
    (fun s e => FlagsExact (boardStep id s e)) .start
      [⟨true, HidKey.shiftLeft⟩, ⟨false, HidKey.shiftLeft⟩, ⟨true, HidKey.shiftRight⟩,
        ⟨false, HidKey.shiftRight⟩] :=
  (currentModifiers_exact_iff _ (by decide)).2 (by decide)

/-- Both SHIFT keys are held, and left SHIFT is released. -/
theorem currentModifiers_exact_counterexample : ¬ ∀ es : List (Event Byte),
    AllSteps (boardStep id) (fun s e => WellFormed s.held e) .start es →
      AllSteps (boardStep id) (fun s e => FlagsExact (boardStep id s e)) .start es := by
  intro h
  have hall := h [⟨true, HidKey.shiftLeft⟩, ⟨true, HidKey.shiftRight⟩, ⟨false, HidKey.shiftLeft⟩]
    (by decide)
  have hset := (hall.2.2.1 .shift).2 ⟨HidKey.shiftRight, by decide, by decide⟩
  exact hset (by decide)

end VolumeControl
