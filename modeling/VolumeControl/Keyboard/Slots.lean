import Mathlib.Data.List.Induction
import Mathlib.Tactic.IntervalCases
import VolumeControl.Keyboard.SendOverHid
import VolumeControl.Lib.Run

/-!
# The six slots

`outstanding` are the DOWNs that no later UP has cancelled. The slots of the
report hold some of them, and all of them as long as there were never more than
six: `slots_outstanding`.
-/

namespace VolumeControl

open SlotTable Trace

/-- A call `send_over_hid(ACTION_DOWN, key)` or `send_over_hid(ACTION_UP, key)`. -/
structure KeyCall where
  down : Bool
  key : Byte
  key_ne_zero : key ≠ 0

def KeyCall.action (call : KeyCall) : Action := if call.down then .down else .up

def callStep (s : Hid) (call : KeyCall) : Hid := sendOverHid s call.action call.key

def outstandingStep (l : List Byte) (call : KeyCall) : List Byte :=
  if call.down then call.key :: l else l.erase call.key

/-- The keys of the DOWNs not cancelled yet, once for each. -/
def outstanding (calls : List KeyCall) : List Byte := run outstandingStep [] calls

/-- Those that are not modifiers. -/
def outstandingKeys (calls : List KeyCall) : List Byte :=
  (outstanding calls).filter (!isModifier ·)

/-- The DOWNs of a key not cancelled yet. -/
def out (calls : List KeyCall) (k : Byte) : Nat := (outstanding calls).count k

variable {calls : List KeyCall} {call : KeyCall}

theorem outstandingKeys_of_isModifier (h : isModifier call.key = true) :
    outstandingKeys (calls ++ [call]) = outstandingKeys calls := by
  rw [outstandingKeys, outstanding, run_snoc, outstandingStep]
  split_ifs
  · simp [h, outstandingKeys, outstanding]
  · rw [← List.erase_filter, List.erase_of_not_mem (by simp [h])]
    rfl

theorem outstandingKeys_down (h : isModifier call.key = false) (hd : call.down = true) :
    outstandingKeys (calls ++ [call]) = call.key :: outstandingKeys calls := by
  rw [outstandingKeys, outstanding, run_snoc, outstandingStep, if_pos hd]
  simp [h, outstandingKeys, outstanding]

theorem outstandingKeys_up (hd : call.down = false) :
    outstandingKeys (calls ++ [call]) = (outstandingKeys calls).erase call.key := by
  rw [outstandingKeys, outstanding, run_snoc, outstandingStep, hd, if_neg Bool.false_ne_true,
    ← List.erase_filter]
  rfl

/-! ## The slots -/

theorem keycode_callStep (s : Hid) (call : KeyCall) :
    (callStep s call).depressedKeys = (s.report.send call.action call.key).keycode :=
  congrArg Report.keycode (sendOverHid_report s call.action call.key)

theorem callStep_down (s : Hid) (h : isModifier call.key = false) (hd : call.down = true) :
    (callStep s call).depressedKeys = put 0 call.key s.depressedKeys := by
  rw [keycode_callStep]
  simp [Report.send, KeyCall.action, hd, h, Hid.report]

theorem callStep_up (s : Hid) (h : isModifier call.key = false) (hd : call.down = false) :
    (callStep s call).depressedKeys = clear 0 call.key s.depressedKeys := by
  rw [keycode_callStep]
  simp [Report.send, KeyCall.action, hd, h, Hid.report]

theorem modifier_callStep (s : Hid) (call : KeyCall) :
    (callStep s call).modifiers = (s.report.send call.action call.key).modifier :=
  congrArg Report.modifier (sendOverHid_report s call.action call.key)

/-- Modifier calls leave the slots alone, the others the modifier byte. -/
theorem callStep_frame (s : Hid) (call : KeyCall) :
    (isModifier call.key = true → (callStep s call).depressedKeys = s.depressedKeys) ∧
      (isModifier call.key = false → (callStep s call).modifiers = s.modifiers) := by
  constructor
  · intro h
    rw [keycode_callStep]
    exact keycode_send_of_isModifier s.report call.action call.key h
  · intro h
    rw [modifier_callStep]
    cases call.action <;> simp [Report.send, h, Hid.report]

variable (calls) in
theorem subperm_outstandingKeys :
    (occupied 0 (run callStep .start calls).depressedKeys).Subperm (outstandingKeys calls) := by
  induction calls using List.reverseRecOn with
  | nil => decide
  | append_singleton calls call ih =>
    rw [run_snoc]
    cases h : isModifier call.key with
    | true =>
      rw [(callStep_frame _ call).1 h, outstandingKeys_of_isModifier h]
      exact ih
    | false =>
      cases hd : call.down with
      | true =>
        rw [callStep_down _ h hd, outstandingKeys_down h hd]
        exact occupied_put_subperm call.key_ne_zero ih
      | false =>
        rw [callStep_up _ h hd, outstandingKeys_up hd, occupied_clear]
        exact ih.erase call.key

/-- Up to six keys the slots hold them all. -/
theorem perm_outstandingKeys
    (hsix : ∀ pre, pre <+: calls → (outstandingKeys pre).length ≤ 6) :
    (occupied 0 (run callStep .start calls).depressedKeys).Perm (outstandingKeys calls) := by
  induction calls using List.reverseRecOn with
  | nil => decide
  | append_singleton calls call ih =>
    have ih := ih fun pre hpre => hsix pre (hpre.trans (List.prefix_append _ _))
    rw [run_snoc]
    cases h : isModifier call.key with
    | true =>
      rw [(callStep_frame _ call).1 h, outstandingKeys_of_isModifier h]
      exact ih
    | false =>
      cases hd : call.down with
      | true =>
        have hlt := hsix _ List.prefix_rfl
        rw [outstandingKeys_down h hd, List.length_cons, Nat.add_one_le_iff] at hlt
        rw [callStep_down _ h hd, outstandingKeys_down h hd]
        exact occupied_put_perm call.key_ne_zero ih hlt
      | false =>
        rw [callStep_up _ h hd, outstandingKeys_up hd, occupied_clear]
        exact ih.erase call.key

theorem isModifier_of_mem_range {k : Byte} (hlo : 0xe0 ≤ k) (hhi : k ≤ 0xef) :
    isModifier k = true := by
  have hlo : 224 ≤ k.toNat := hlo
  have hhi : k.toNat ≤ 239 := hhi
  rw [← BitVec.setWidth_eq k, ← BitVec.ofNat_toNat]
  interval_cases k.toNat <;> rfl

/-- **The slots hold keys that are down, and all of them up to six.** -/
theorem slots_outstanding (calls : List KeyCall) :
    let s := run callStep .start calls
    (∀ k ≠ 0, isModifier k = false → s.depressedKeys.toList.count k ≤ out calls k) ∧
      ((∀ pre, pre <+: calls → (outstandingKeys pre).length ≤ 6) →
        ∀ k ≠ 0, isModifier k = false → s.depressedKeys.toList.count k = out calls k) ∧
      (∀ k ∈ s.depressedKeys, ¬ (0xe0 ≤ k ∧ k ≤ 0xef)) ∧
      ∀ call,
        (isModifier call.key = true → (callStep s call).depressedKeys = s.depressedKeys) ∧
        (isModifier call.key = false → (callStep s call).modifiers = s.modifiers) := by
  intro s
  have hslots (k : Byte) (hk : k ≠ 0) :
      s.depressedKeys.toList.count k = (occupied 0 s.depressedKeys).count k := by
    rw [occupied, List.count_filter (by simpa using hk)]
  have hkeys (k : Byte) (h : isModifier k = false) :
      (outstandingKeys calls).count k = out calls k := by
    rw [outstandingKeys, List.count_filter (by simp [h])]
    rfl
  refine ⟨fun k hk h => ?_, fun hsix k hk h => ?_, fun k hmem hk => ?_, callStep_frame s⟩
  · rw [hslots k hk, ← hkeys k h]
    exact (subperm_outstandingKeys calls).count_le k
  · rw [hslots k hk, ← hkeys k h]
    exact (perm_outstandingKeys hsix).count_eq k
  · have hne : k ≠ 0 := by
      rintro rfl
      exact absurd hk.1 (by decide)
    have hoccupied : k ∈ occupied 0 s.depressedKeys :=
      List.mem_filter.2 ⟨Vector.mem_toList_iff.2 hmem, by simpa using hne⟩
    have hkey := (List.mem_filter.1 ((subperm_outstandingKeys calls).subset hoccupied)).2
    rw [isModifier_of_mem_range hk.1 hk.2] at hkey
    exact absurd hkey (by decide)

end VolumeControl
