import VolumeControl.Defines
import VolumeControl.Lib.SlotTable

/-!
# send_over_hid

The report that `send_over_hid` keeps in its static variables, one call of the
function, and the calls it makes in turn.

`Report.send` is what a call means for the report, diagnostics aside;
`sendOverHid_report` says that this is what the code does.
-/

namespace VolumeControl

open SlotTable

/-- A call with an effect outside. -/
inductive Call where
  | printf (format : String) (args : List Byte)
  | usbTask
  | keyboardUpdate (modifiers : Byte) (keyCodes : Vector Byte 6)
  deriving DecidableEq, Repr

/-- The static variables, and the calls made so far. -/
structure Hid where
  depressedKeys : Vector Byte 6
  modifiers : Byte
  calls : List Call
  deriving DecidableEq, Repr

def Hid.start : Hid := ⟨oneKey 0, 0, []⟩

/-- The report kept by `send_over_hid`. -/
def Hid.report (s : Hid) : Report := ⟨s.modifiers, s.depressedKeys⟩

def Hid.diagnose (s : Hid) (format : String) (key : Byte) : Hid :=
  { s with calls := s.calls ++ [.printf format [key], .printf "\n" [], .usbTask] }

def Hid.update (s : Hid) : Hid :=
  { s with calls := s.calls ++ [.keyboardUpdate s.modifiers s.depressedKeys] }

/-- `(key & 0xf0) == 0xe0`. -/
def isModifier (key : Byte) : Bool := key &&& 0xf0 == 0xe0

def modifierIndex (key : Byte) : Nat := (key &&& 0x0f).toNat

/-- `uint8_t bit = 1 << (key & 0x0f)`: 0 for an index above 7. -/
def modifierBit (key : Byte) : Byte := 1#8 <<< modifierIndex key

/-- The first loop of a DOWN: a diagnostic for every slot that holds the key. -/
def Hid.diagnoseHeld (s : Hid) (key : Byte) : Hid :=
  s.depressedKeys.toList.foldl
    (fun s' slot => if slot = key then s'.diagnose
      "SEND OVER HID: Key 0x%02x received a down event, but was already pressed\r\n\r" key
      else s') s

def sendOverHid (s : Hid) (action : Action) (key : Byte) : Hid :=
  if isModifier key then
    let bit := modifierBit key
    match action with
    | .down =>
      let s := if s.modifiers &&& bit ≠ 0 then s.diagnose
        "SEND OVER HID: modifier 0x%02x received a down event but was already pressed\r\n\r" key
        else s
      { s with modifiers := s.modifiers ||| bit }.update
    | .up =>
      -- `modifiers & bit == 0` is `modifiers & (bit == 0)` in C
      let s := if s.modifiers &&& (if bit = 0 then 1 else 0) ≠ 0 then s.diagnose
        "SEND OVER HID: modifier 0x%02x received an up event but wasn't pressed down\r\n\r" key
        else s
      { s with modifiers := s.modifiers &&& ~~~bit }.update
    | _ => s
  else
    match action with
    | .down =>
      let s := s.diagnoseHeld key
      { s with depressedKeys := put 0 key s.depressedKeys }.update
    | .up =>
      let s' := if s.depressedKeys.toList.contains key then
          { s with depressedKeys := clear 0 key s.depressedKeys }
        else if key ≠ HidKey.i then s.diagnose
          "SEND OVER HID: Key 0x%02x received an up event, but wasn't pressed down\r\n\r" key
        else s
      s'.update
    | _ => s

/-! ## What a call means for the report -/

@[simp] theorem Hid.depressedKeys_diagnose (s : Hid) (format : String) (key : Byte) :
    (s.diagnose format key).depressedKeys = s.depressedKeys := rfl

@[simp] theorem Hid.modifiers_diagnose (s : Hid) (format : String) (key : Byte) :
    (s.diagnose format key).modifiers = s.modifiers := rfl

theorem Hid.report_diagnoseHeld (s : Hid) (key : Byte) : (s.diagnoseHeld key).report = s.report := by
  unfold diagnoseHeld
  generalize s.depressedKeys.toList = slots
  induction slots generalizing s with
  | nil => rfl
  | cons slot slots ih =>
    rw [List.foldl_cons, ih]
    split <;> rfl

@[simp] theorem Hid.depressedKeys_diagnoseHeld (s : Hid) (key : Byte) :
    (s.diagnoseHeld key).depressedKeys = s.depressedKeys :=
  congrArg Report.keycode (s.report_diagnoseHeld key)

@[simp] theorem Hid.modifiers_diagnoseHeld (s : Hid) (key : Byte) :
    (s.diagnoseHeld key).modifiers = s.modifiers :=
  congrArg Report.modifier (s.report_diagnoseHeld key)

/-- `key` goes down or up in the report. -/
def Report.send (r : Report) (action : Action) (key : Byte) : Report :=
  match action, isModifier key with
  | .down, true => { r with modifier := r.modifier ||| modifierBit key }
  | .up, true => { r with modifier := r.modifier &&& ~~~modifierBit key }
  | .down, false => { r with keycode := put 0 key r.keycode }
  | .up, false => { r with keycode := clear 0 key r.keycode }
  | _, _ => r

/-- **A call of `send_over_hid` is one key going down or up.** -/
theorem sendOverHid_report (s : Hid) (action : Action) (key : Byte) :
    (sendOverHid s action key).report = s.report.send action key := by
  cases hm : isModifier key with
  | true =>
    cases action <;> simp [sendOverHid, Report.send, hm, Hid.report, Hid.update, apply_ite]
  | false =>
    cases action with
    | down => simp [sendOverHid, Report.send, hm, Hid.report, Hid.update]
    | up =>
      by_cases hk : key ∈ s.depressedKeys.toList
      · simp only [sendOverHid, Report.send, hm, List.contains_iff_mem.2 hk, if_true]
        rfl
      · -- the key is in no slot: diagnostic or not, the table stays
        have hc : clear 0#8 key s.depressedKeys = s.depressedKeys := clear_of_not_mem hk
        simp [sendOverHid, Report.send, hm, Vector.mem_toList_iff.not.1 hk, Hid.report,
          Hid.update, apply_ite, hc]
    | none | other => simp [sendOverHid, Report.send, hm, Hid.report]

/-! ## The two parts of the report -/

section
variable (r : Report) (action : Action) (key : Byte)

theorem getLsbD_modifierBit (i : Nat) :
    (modifierBit key).getLsbD i = decide (i < 8 ∧ modifierIndex key = i) := by
  rw [modifierBit, BitVec.getLsbD_shiftLeft, BitVec.getLsbD_one]
  by_cases h : modifierIndex key = i
  · simp [h]
  · simp [h]; omega

/-- A modifier key sets or clears its own bit. -/
theorem getLsbD_modifier_send (i : Nat) :
    (r.send action key).modifier.getLsbD i = true ↔
      (action = .down ∧ isModifier key = true ∧ modifierIndex key = i ∧ i < 8) ∨
        r.modifier.getLsbD i = true ∧
          ¬ (action = .up ∧ isModifier key = true ∧ modifierIndex key = i) := by
  cases hm : isModifier key with
  | false => cases action <;> simp [Report.send, hm]
  | true =>
    cases action with
    | down => simp [Report.send, hm, getLsbD_modifierBit]; tauto
    | up =>
      simp only [Report.send, hm, BitVec.getLsbD_and, BitVec.getLsbD_not, getLsbD_modifierBit]
      by_cases hi : r.modifier.getLsbD i = true
      · have := BitVec.lt_of_getLsbD hi
        simp [hi, this]
      · simp [hi]
    | none | other => simp [Report.send]

/-- Other keys take or free a slot. -/
theorem occupied_send_down (h : isModifier key = false) (hk : key ≠ 0)
    (hf : 0 ∈ r.keycode.toList) :
    (occupied 0 (r.send .down key).keycode).Perm (key :: occupied 0 r.keycode) := by
  simpa [Report.send, h] using occupied_put hk hf

theorem occupied_send_up (h : isModifier key = false) :
    occupied 0 (r.send .up key).keycode = (occupied 0 r.keycode).erase key := by
  simpa [Report.send, h] using occupied_clear

theorem keycode_send_of_isModifier (h : isModifier key = true) :
    (r.send action key).keycode = r.keycode := by
  cases action <;> simp [Report.send, h]

end

end VolumeControl
