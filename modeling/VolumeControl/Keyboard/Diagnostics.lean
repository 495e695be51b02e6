import VolumeControl.Keyboard.VimShift

/-!
# Diagnostics

`send_over_hid` complains about a DOWN of a key that is down and an UP of a key
that is not. `newCalls_down` and the lemmas after it say what each of its four
detectors does; the one for an UP of a modifier never fires, since
`modifiers & bit == 0` is 0 for every modifier. `diagnoses_exactly_iff`: that is
the only event that goes unnoticed, and no diagnostic changes the report.
-/

namespace VolumeControl

open Trace SlotTable

def hidStep (s : Hid) (e : KeyEvent) : Hid := sendOverHid s e.action e.key

/-- The calls that a call of `send_over_hid` makes. -/
def newCalls (s : Hid) (action : Action) (key : Byte) : List Call :=
  (sendOverHid s action key).calls.drop s.calls.length

/-- The call prints something. -/
def Diagnoses (s : Hid) (action : Action) (key : Byte) : Prop :=
  ∃ format args, Call.printf format args ∈ newCalls s action key

/-- The key is in a slot, or its modifier bit is set. -/
def Hid.Holds (s : Hid) (key : Byte) : Prop :=
  if isModifier key then s.modifiers.getLsbD (modifierIndex key) = true
  else key ∈ s.depressedKeys

instance (s : Hid) (key : Byte) : Decidable (s.Holds key) :=
  decidable_of_iff (if isModifier key then s.modifiers.getLsbD (modifierIndex key) = true
    else s.depressedKeys.toList.any fun slot => slot = key) (by
      simp [Hid.Holds, -Vector.any_toList])

/-- A DOWN of a key that is down, or an UP of one that is not. -/
def Contradicts (s : Hid) (action : Action) (key : Byte) : Prop :=
  action = .down ∧ s.Holds key ∨ action = .up ∧ ¬ s.Holds key

/-- The call prints something when the event contradicts the state, but for an UP of I, and what it
sends and keeps is the key going down or up in any case. -/
def DiagnosesExactly (s : Hid) (action : Action) (key : Byte) : Prop :=
  (Diagnoses s action key ↔ Contradicts s action key ∧ ¬ (action = .up ∧ key = HidKey.i)) ∧
    (sendOverHid s action key).report = s.report.send action key ∧
    (newCalls s action key).filterMap Call.report? = [s.report.send action key]

/-! ## The calls of a call -/

/-- What a diagnostic calls. -/
def message (format : String) (key : Byte) : List Call :=
  [.printf format [key], .printf "\n" [], .usbTask]

section
variable {s : Hid} {key : Byte}

theorem calls_diagnoseHeld (s : Hid) (key : Byte) : (s.diagnoseHeld key).calls = s.calls ++
    (s.depressedKeys.toList.filter (· = key)).flatMap fun _ => message
      "SEND OVER HID: Key 0x%02x received a down event, but was already pressed\r\n\r" key := by
  unfold Hid.diagnoseHeld
  generalize s.depressedKeys.toList = slots
  induction slots generalizing s with
  | nil => simp
  | cons slot slots ih =>
    rw [List.foldl_cons, ih]
    by_cases hslot : slot = key
    · simp [hslot, Hid.diagnose, message]
    · simp [hslot]

/-- The call of `keyboard_update` comes last. -/
theorem newCalls_of (ds : List Call) {action : Action}
    (h : (sendOverHid s action key).calls = s.calls ++ ds ++
      [.keyboardUpdate (sendOverHid s action key).modifiers
        (sendOverHid s action key).depressedKeys]) :
    newCalls s action key = ds ++ [.keyboardUpdate (s.report.send action key).modifier
      (s.report.send action key).keycode] := by
  rw [newCalls, h, List.append_assoc, List.drop_left, ← sendOverHid_report]
  rfl

theorem newCalls_modifier_down (hm : isModifier key = true) : newCalls s .down key =
    (if s.modifiers &&& modifierBit key ≠ 0 then message
      "SEND OVER HID: modifier 0x%02x received a down event but was already pressed\r\n\r" key
      else []) ++
    [.keyboardUpdate (s.report.send .down key).modifier (s.report.send .down key).keycode] := by
  apply newCalls_of
  by_cases h : s.modifiers &&& modifierBit key = 0#8 <;>
    simp [sendOverHid, hm, h, Hid.update, Hid.diagnose, message]

theorem newCalls_modifier_up (hm : isModifier key = true) (hbit : modifierBit key ≠ 0#8) :
    newCalls s .up key =
      [.keyboardUpdate (s.report.send .up key).modifier (s.report.send .up key).keycode] := by
  refine newCalls_of [] ?_
  simp [sendOverHid, hm, hbit, Hid.update]

theorem newCalls_down (hm : isModifier key = false) : newCalls s .down key =
    ((s.depressedKeys.toList.filter (· = key)).flatMap fun _ => message
      "SEND OVER HID: Key 0x%02x received a down event, but was already pressed\r\n\r" key) ++
    [.keyboardUpdate (s.report.send .down key).modifier (s.report.send .down key).keycode] := by
  apply newCalls_of
  simp [sendOverHid, hm, Hid.update, calls_diagnoseHeld]

theorem newCalls_up (hm : isModifier key = false) : newCalls s .up key =
    (if key ∈ s.depressedKeys ∨ key = HidKey.i then [] else message
      "SEND OVER HID: Key 0x%02x received an up event, but wasn't pressed down\r\n\r" key) ++
    [.keyboardUpdate (s.report.send .up key).modifier (s.report.send .up key).keycode] := by
  apply newCalls_of
  by_cases hk : key ∈ s.depressedKeys
  · simp [sendOverHid, hm, hk, Hid.update]
  · by_cases hi : key = HidKey.i
    · subst hi
      simp [sendOverHid, hm, hk, Hid.update]
    · simp [sendOverHid, hm, hk, hi, Hid.update, Hid.diagnose, message]

/-! ## What they print -/

theorem mem_message (format : String) (key : Byte) :
    ∃ format' args, Call.printf format' args ∈ message format key :=
  ⟨format, [key], List.mem_cons_self⟩

theorem report?_message (format : String) (key : Byte) :
    (message format key).filterMap Call.report? = [] := by
  rfl

theorem diagnoses_iff {action : Action} {ds : List Call} {modifiers : Byte}
    {keyCodes : Vector Byte 6}
    (h : newCalls s action key = ds ++ [.keyboardUpdate modifiers keyCodes]) :
    Diagnoses s action key ↔ ∃ format args, Call.printf format args ∈ ds := by
  simp [Diagnoses, h]

theorem modifierIndex_lt : ∀ key : Byte, key ≤ 0xe7 → isModifier key = true →
    modifierIndex key < 8 := by
  decide +kernel

theorem modifierBit_ne_zero (hindex : modifierIndex key < 8) : modifierBit key ≠ 0#8 := by
  intro h
  have hbit := getLsbD_modifierBit key (modifierIndex key)
  simp [h, hindex] at hbit

theorem and_modifierBit_ne_zero_iff (m : Byte) (hindex : modifierIndex key < 8) :
    m &&& modifierBit key ≠ 0 ↔ m.getLsbD (modifierIndex key) = true := by
  have hbit := modifierBit_ne_zero hindex
  rw [show modifierBit key = BitVec.twoPow 8 (modifierIndex key) from rfl] at hbit ⊢
  rw [BitVec.and_twoPow]
  split_ifs with h
  · exact iff_of_true hbit h
  · exact iff_of_false (fun h0 => h0 rfl) h

theorem diagnoses_down_iff (hhi : key ≤ 0xe7) : Diagnoses s .down key ↔ s.Holds key := by
  unfold Hid.Holds
  cases hm : isModifier key with
  | true =>
    rw [diagnoses_iff (newCalls_modifier_down hm), if_pos rfl,
      ← and_modifierBit_ne_zero_iff _ (modifierIndex_lt key hhi hm)]
    split_ifs with h
    · exact iff_of_true (mem_message _ key) h
    · exact iff_of_false (by simp) h
  | false =>
    rw [diagnoses_iff (newCalls_down hm), if_neg Bool.false_ne_true]
    constructor
    · rintro ⟨format, args, hcall⟩
      obtain ⟨slot, hslot, -⟩ := List.mem_flatMap.1 hcall
      obtain ⟨hmem, heq⟩ := List.mem_filter.1 hslot
      exact Vector.mem_toList_iff.1 (of_decide_eq_true heq ▸ hmem)
    · intro hmem
      have hslot : key ∈ s.depressedKeys.toList.filter (· = key) :=
        List.mem_filter.2 ⟨Vector.mem_toList_iff.2 hmem, by simp⟩
      exact ⟨_, [key], List.mem_flatMap.2 ⟨key, hslot, List.mem_cons_self⟩⟩

theorem diagnoses_up_iff (hm : isModifier key = false) :
    Diagnoses s .up key ↔ ¬ s.Holds key ∧ key ≠ HidKey.i := by
  unfold Hid.Holds
  rw [diagnoses_iff (newCalls_up hm), hm, if_neg Bool.false_ne_true]
  split_ifs with h
  · exact iff_of_false (by simp) fun hno => h.elim hno.1 hno.2
  · exact iff_of_true (mem_message _ key) (not_or.1 h)

/-- The detector for an UP of a modifier never fires. -/
theorem not_diagnoses_modifier_up (hhi : key ≤ 0xe7) (hm : isModifier key = true) :
    ¬ Diagnoses s .up key := by
  have hbit := modifierBit_ne_zero (modifierIndex_lt key hhi hm)
  have hcalls : newCalls s .up key = [] ++
      [.keyboardUpdate (s.report.send .up key).modifier (s.report.send .up key).keycode] :=
    newCalls_modifier_up hm hbit
  rw [diagnoses_iff hcalls]
  simp

/-- One report is sent, with a diagnostic or without. -/
theorem reports_newCalls {action : Action} (haction : action = .down ∨ action = .up)
    (hhi : key ≤ 0xe7) :
    (newCalls s action key).filterMap Call.report? = [s.report.send action key] := by
  rcases haction with rfl | rfl <;> cases hm : isModifier key
  · rw [newCalls_down hm, List.filterMap_append, List.filterMap_flatMap]
    simp [report?_message, Call.report?]
  · rw [newCalls_modifier_down hm, List.filterMap_append]
    split_ifs <;> simp [report?_message, Call.report?]
  · rw [newCalls_up hm, List.filterMap_append]
    split_ifs <;> simp [report?_message, Call.report?]
  · rw [newCalls_modifier_up hm (modifierBit_ne_zero (modifierIndex_lt key hhi hm))]
    rfl

end

/-- An UP of a modifier that is not down. -/
def UpOfClearModifier (s : Hid) (action : Action) (key : Byte) : Prop :=
  action = .up ∧ isModifier key = true ∧ ¬ s.Holds key

/-- **Every event that contradicts the state is noticed**, but for an UP of a modifier. -/
theorem diagnoses_exactly_iff (es : List KeyEvent) {action : Action} {key : Byte}
    (haction : action = .down ∨ action = .up) (hhi : key ≤ 0xe7) :
    DiagnosesExactly (run hidStep .start es) action key ↔
      ¬ UpOfClearModifier (run hidStep .start es) action key := by
  generalize run hidStep .start es = s
  have hreports := reports_newCalls (s := s) haction hhi
  have hprints : (Diagnoses s action key ↔
      Contradicts s action key ∧ ¬ (action = .up ∧ key = HidKey.i)) ↔
        ¬ UpOfClearModifier s action key := by
    rcases haction with rfl | rfl
    · simp [Contradicts, UpOfClearModifier, diagnoses_down_iff hhi]
    · cases hm : isModifier key with
      | true =>
        have hi : key ≠ HidKey.i := by
          rintro rfl
          exact absurd hm (by decide)
        simp [Contradicts, UpOfClearModifier, not_diagnoses_modifier_up hhi hm, hm, hi]
      | false => simp [Contradicts, UpOfClearModifier, diagnoses_up_iff hm, hm]
  exact ⟨fun h => hprints.1 h.1, fun h => ⟨hprints.2 h, sendOverHid_report s action key, hreports⟩⟩

/-- A goes down twice. -/
theorem diagnoses_exactly_a : DiagnosesExactly (run hidStep .start [⟨.down, 0x04⟩]) .down 0x04 :=
  (diagnoses_exactly_iff [⟨.down, 0x04⟩] (.inl rfl) (by decide)).2 nofun

/-- Left SHIFT goes up without having gone down. -/
theorem diagnoses_exactly_counterexample : ¬ ∀ (es : List KeyEvent) (action : Action) (key : Byte),
    action = .down ∨ action = .up → 1 ≤ key → key ≤ 0xe7 →
      DiagnosesExactly (run hidStep .start es) action key := by
  intro h
  have hshift := (h [] .up HidKey.shiftLeft (.inr rfl) (by decide) (by decide)).1
  exact not_diagnoses_modifier_up (by decide) (by decide)
    (hshift.2 ⟨.inr ⟨rfl, by decide⟩, by decide⟩)

end VolumeControl
