import Mathlib.Data.List.Nodup
import VolumeControl.Keyboard.ProcessInput
import VolumeControl.Lib.Run

/-!
# Releases

Physical runs of the keyboard: a key goes down, then up. `held` keeps for every
key that is down the mode and the modifiers it was pressed under, which decide
the code its press sent.

`DeskInv`: as long as every release sends the code of its press, the slots hold
the codes of the keys held, and the modifier byte shows no more than the keys
held and vim mode's own shift. `DeskInv.stuck`: a release that sends another
code leaves the code of its press in a slot.
-/

namespace VolumeControl

open Trace SlotTable CaseTable

structure KeyEvent where
  action : Action
  key : Byte
  deriving DecidableEq, Repr

/-- A key that is down, with what it was pressed under. -/
structure Press where
  key : Byte
  mode : Mode
  modifiers : BitVec 16
  deriving DecidableEq, Repr

/-- The code the press sent. -/
def Press.code (p : Press) : Option Byte := keyCode p.mode p.modifiers p.key

structure Desk where
  keyboard : Keyboard
  held : List Press
  deriving DecidableEq, Repr

def Desk.start : Desk := ⟨Keyboard.start, []⟩

/-- `current_modifiers` as the event is translated. -/
def Desk.modifiersAt (s : Desk) (e : KeyEvent) : BitVec 16 :=
  trackModifiers s.keyboard.currentModifiers e.action e.key

/-- The code the event sends. -/
def Desk.codeAt (s : Desk) (e : KeyEvent) : Option Byte :=
  keyCode s.keyboard.currentMode (s.modifiersAt e) e.key

def deskStep (s : Desk) (e : KeyEvent) : Desk where
  keyboard := processInput s.keyboard e.action e.key
  held := match e.action with
    | .down => ⟨e.key, s.keyboard.currentMode, s.modifiersAt e⟩ :: s.held
    | .up => s.held.eraseP (·.key = e.key)
    | _ => s.held

/-- Neither a modifier nor a key that only switches modes. -/
def ordinary (key : Byte) : Bool := key < 0xe0

theorem lt_of_ordinary {key : Byte} (h : ordinary key = true) : key < 0xf0 := by
  have hlt : key < 0xe0 := of_decide_eq_true h
  bv_omega

theorem not_isModifier_of_ordinary {key : Byte} (h : ordinary key = true) :
    isModifier key = false := by
  revert key
  decide +kernel

/-- An event of a well-formed run: DOWN of a key that is up, with at most five other ordinary keys
down if it is one, or UP of a key that is down. -/
def Physical (s : Desk) (e : KeyEvent) : Prop :=
  e.key ≠ 0 ∧
    match e.action with
    | .down => (∀ p ∈ s.held, p.key ≠ e.key) ∧
        (ordinary e.key = true → (s.held.filter (ordinary ·.key)).length < 6)
    | .up => ∃ p ∈ s.held, p.key = e.key
    | _ => False

instance (s : Desk) (e : KeyEvent) : Decidable (Physical s e) := by
  unfold Physical
  cases e.action <;> infer_instance

/-! ## The codes of a key -/

/-- The values of `current_modifiers`. -/
def flagSets : List (BitVec 16) :=
  [0, modifierShift, modifierCtrl, modifierShift ||| modifierCtrl]

theorem forall_mem_flagSets {P : BitVec 16 → Prop} : (∀ modifiers ∈ flagSets, P modifiers) ↔
    P 0 ∧ P modifierShift ∧ P modifierCtrl ∧ P (modifierShift ||| modifierCtrl) := by
  simp [flagSets]

theorem trackFlag_mem_flagSets (action : Action) : ∀ modifiers ∈ flagSets,
    trackFlag modifierShift action modifiers ∈ flagSets ∧
      trackFlag modifierCtrl action modifiers ∈ flagSets := by
  rw [forall_mem_flagSets]
  cases action with
  | down | up | none => decide
  | other => simp [trackFlag, flagSets]

theorem trackModifiers_mem_flagSets {modifiers : BitVec 16} (h : modifiers ∈ flagSets)
    (action : Action) (key : Byte) : trackModifiers modifiers action key ∈ flagSets := by
  unfold trackModifiers
  split_ifs
  · exact (trackFlag_mem_flagSets action _ (trackFlag_mem_flagSets action _ h).1).2
  · exact (trackFlag_mem_flagSets action _ h).1
  · exact (trackFlag_mem_flagSets action _ h).2
  · exact h

/-- The flags lie above the byte of the key. -/
theorem setWidth_wide_or {modifiers : BitVec 16} (h : modifiers ∈ flagSets) (key : Byte) :
    (wide key ||| modifiers).setWidth 8 = key := by
  have hlow : ∀ modifiers ∈ flagSets, modifiers.setWidth 8 = 0#8 := by
    rw [forall_mem_flagSets]
    decide
  rw [BitVec.setWidth_or, hlow modifiers h, wide, BitVec.setWidth_setWidth_of_le _ (by decide)]
  simp

/-- The keys that vim mode sends nothing for. No mode sends their codes for another key. -/
def silent (key : Byte) : Bool := key = HidKey.v || key = HidKey.i

/-- What the codes a key has in the three modes have in common. -/
def KeyFacts (key : Byte) (code : Option Byte) : Prop :=
  match code with
  | none => key ≥ 0xf0 ∨ isModifier key = true ∨ silent key = true
  | some c =>
    (c = 0 → key = 0) ∧ (isModifier c = false → ordinary key = true) ∧
      ((silent c || isModifier c || silent key || isModifier key) = true → c = key)

instance (key : Byte) (code : Option Byte) : Decidable (KeyFacts key code) := by
  unfold KeyFacts
  split <;> infer_instance

theorem keyFacts_self : ∀ key : Byte, key < 0xf0 → KeyFacts key (some key) := by
  decide +kernel

theorem keyFacts_vimCases : ∀ c ∈ vimCases, KeyFacts (c.1.setWidth 8) c.2 :=
  forall_mem_of_all (by decide)

theorem keyFacts_keymapFn : ∀ c ∈ keymapNormal.zip keymapFn, KeyFacts c.1 (some c.2) :=
  forall_mem_of_all (by decide)

theorem isModifier_of_not_plain {key : Byte} (h : plain key = false) : isModifier key = true := by
  revert key
  decide +kernel

theorem keyFacts_vimCode {code : BitVec 16} {key : Byte} (hkey : code.setWidth 8 = key)
    (hlt : key < 0xf0) : KeyFacts key (vimCode code) := by
  rw [vimCode_eq_lookup, hkey]
  refine getD_lookup_of (fun c hc hcode => ?_) ?_
  · have hfacts := keyFacts_vimCases c hc
    rwa [hcode, hkey] at hfacts
  · rw [defaultCode]
    split
    · exact keyFacts_self key hlt
    · next hplain => exact .inr (.inl (isModifier_of_not_plain (by simpa using hplain)))

theorem keyFacts (mode : Mode) {modifiers : BitVec 16} (h : modifiers ∈ flagSets) (key : Byte) :
    KeyFacts key (keyCode mode modifiers key) := by
  unfold keyCode
  split
  · next hlt =>
    cases mode with
    | normal => exact keyFacts_self key hlt
    | vim => exact keyFacts_vimCode (setWidth_wide_or h key) hlt
    | function =>
      exact getD_lookup_of (P := fun c => KeyFacts key (some c))
        (fun c hc hcase => hcase ▸ keyFacts_keymapFn c hc) (keyFacts_self key hlt)
  · next hge => exact .inl (BitVec.not_lt.1 hge)

/-! ## The invariant -/

/-- The release of a key sends what its press sent, if anything. -/
def ReleasedAsPressed (s : Desk) (e : KeyEvent) : Prop :=
  e.action = .up → ∀ p ∈ s.held, p.key = e.key → p.code = none ∨ s.codeAt e = p.code

/-- The slot a code takes. -/
def slotCode (code : Option Byte) : Option Byte := code.filter (!isModifier ·)

theorem slotCode_of_isModifier {c : Byte} (h : isModifier c = true) : slotCode (some c) = none := by
  simp [slotCode, Option.filter_some, h]

theorem slotCode_of_not_isModifier {c : Byte} (h : isModifier c = false) :
    slotCode (some c) = some c := by
  simp [slotCode, Option.filter_some, h]

theorem slotCode_eq_some {code : Option Byte} {c : Byte} :
    slotCode code = some c ↔ code = some c ∧ isModifier c = false := by
  simp [slotCode, Option.filter_eq_some_iff]

structure DeskInv (s : Desk) : Prop where
  distinct : (s.held.map Press.key).Nodup
  currentModifiers : s.keyboard.currentModifiers ∈ flagSets
  pressModifiers : ∀ p ∈ s.held, p.modifiers ∈ flagSets
  /-- The slots hold the codes of the keys held. -/
  slots : (occupied 0 s.keyboard.hid.report.keycode).Perm
    (s.held.filterMap fun p => slotCode p.code)
  /-- A modifier bit belongs to a key held, or is vim mode's own shift. -/
  modifier : ∀ i, s.keyboard.hid.report.modifier.getLsbD i = true →
    (∃ p ∈ s.held, ∃ c, p.code = some c ∧ isModifier c = true ∧ modifierIndex c = i) ∨
      i = 1 ∧ s.keyboard.shiftDown = true
  shiftDown : s.keyboard.shiftDown = true → s.keyboard.currentMode = .vim

theorem deskInv_start : DeskInv .start where
  distinct := .nil
  currentModifiers := by decide
  pressModifiers p hp := by cases hp
  slots := by decide
  modifier i h := by simp [Desk.start, Keyboard.start, Hid.start, Hid.report] at h
  shiftDown h := by cases h

section
variable (r : Report) (was now : Bool)

theorem keycode_syncShift : (r.syncShift was now).keycode = r.keycode := by
  cases was <;> cases now <;> rfl

/-- Vim mode's shift touches bit 1 only. -/
theorem getLsbD_modifier_syncShift {i : Nat}
    (h : (r.syncShift was now).modifier.getLsbD i = true) :
    r.modifier.getLsbD i = true ∧ (i = 1 → was = true → now = true) ∨ i = 1 ∧ now = true := by
  have hidx : modifierIndex HidKey.shiftLeft = 1 := by decide
  have hmod : isModifier HidKey.shiftLeft = true := by decide
  cases was <;> cases now
  · simpa [Report.syncShift] using h
  · rcases (getLsbD_modifier_send _ _ _ _).1 h with ⟨-, -, hi, -⟩ | ⟨h, -⟩
    · exact .inr ⟨hi.symm.trans hidx, rfl⟩
    · exact .inl ⟨h, fun _ _ => rfl⟩
  · rcases (getLsbD_modifier_send _ _ _ _).1 h with ⟨h, -⟩ | ⟨h, hne⟩
    · cases h
    · exact .inl ⟨h, fun hi => absurd ⟨rfl, hmod, hidx.trans hi.symm⟩ hne⟩
  · exact .inl ⟨by simpa [Report.syncShift] using h, fun _ _ => rfl⟩

theorem getLsbD_modifier_sendCode (action : Action) (code : Option Byte) {i : Nat}
    (h : (r.sendCode action code).modifier.getLsbD i = true) :
    (action = .down ∧ ∃ c, code = some c ∧ isModifier c = true ∧ modifierIndex c = i) ∨
      r.modifier.getLsbD i = true ∧
        ∀ c, code = some c → action = .up → isModifier c = true → modifierIndex c ≠ i := by
  cases code with
  | none => exact .inr ⟨h, fun c hc => by cases hc⟩
  | some c =>
    rcases (getLsbD_modifier_send _ _ _ _).1 h with ⟨ha, hm, hi, -⟩ | ⟨h, hne⟩
    · exact .inl ⟨ha, c, rfl, hm, hi⟩
    · refine .inr ⟨h, fun c' hc' ha hm hi => hne ⟨ha, ?_⟩⟩
      obtain rfl := Option.some.inj hc'
      exact ⟨hm, hi⟩

theorem occupied_sendCode_up (code : Option Byte) :
    occupied 0 (r.sendCode .up code).keycode =
      (occupied 0 r.keycode).diff (slotCode code).toList := by
  cases code with
  | none => rfl
  | some c =>
    cases hc : isModifier c with
    | true =>
      rw [slotCode_of_isModifier hc, Report.sendCode, keycode_send_of_isModifier _ _ _ hc]
      rfl
    | false =>
      rw [slotCode_of_not_isModifier hc]
      exact (occupied_send_up r c hc).trans (by simp)

end

section
variable {s : Desk} {e : KeyEvent}

theorem deskStep_keycode (h : DeskInv s) : (deskStep s e).keyboard.hid.report.keycode =
    (s.keyboard.hid.report.sendCode e.action (s.codeAt e)).keycode :=
  (congrArg Report.keycode (processInput_step _ _ _ h.shiftDown).report).trans
    (keycode_syncShift ..)

/-- A bit of the new report comes from the event, from a key held or from vim mode's shift. -/
theorem deskStep_modifier (h : DeskInv s) {i : Nat}
    (hi : (deskStep s e).keyboard.hid.report.modifier.getLsbD i = true) :
    (e.action = .down ∧ ∃ c, s.codeAt e = some c ∧ isModifier c = true ∧ modifierIndex c = i) ∨
      (∃ p ∈ s.held, (∃ c, p.code = some c ∧ isModifier c = true ∧ modifierIndex c = i) ∧
        (e.action = .up → s.codeAt e ≠ p.code)) ∨
      i = 1 ∧ (deskStep s e).keyboard.shiftDown = true := by
  have hr := (processInput_step s.keyboard e.action e.key h.shiftDown).report
  have hsync := (congrArg (fun r : Report => r.modifier.getLsbD i) hr).symm.trans hi
  rcases getLsbD_modifier_syncShift _ _ _ hsync with ⟨hsend, hshift⟩ | hv
  · rcases getLsbD_modifier_sendCode _ _ _ hsend with hd | ⟨hold, hup⟩
    · exact .inl hd
    · rcases h.modifier i hold with ⟨p, hp, c, hc, hm, hci⟩ | ⟨hi1, hs⟩
      · exact .inr (.inl ⟨p, hp, ⟨c, hc, hm, hci⟩, fun ha he => hup c (he.trans hc) ha hm hci⟩)
      · exact .inr (.inr ⟨hi1, hshift hi1 hs⟩)
  · exact .inr (.inr hv)

theorem deskStep_currentModifiers (h : DeskInv s) :
    (deskStep s e).keyboard.currentModifiers = s.modifiersAt e :=
  (processInput_step s.keyboard e.action e.key h.shiftDown).currentModifiers

theorem deskStep_currentMode (h : DeskInv s) :
    (deskStep s e).keyboard.currentMode = s.keyboard.currentMode ∨ s.codeAt e = none :=
  (processInput_step s.keyboard e.action e.key h.shiftDown).currentMode

theorem deskStep_shiftDown (h : DeskInv s) (hs : (deskStep s e).keyboard.shiftDown = true) :
    (deskStep s e).keyboard.currentMode = .vim :=
  (processInput_step s.keyboard e.action e.key h.shiftDown).shiftDown h.shiftDown hs

/-- The keys held after an event: those before and the one that went down. -/
theorem mem_held_deskStep {p : Press} (hp : p ∈ (deskStep s e).held) :
    p ∈ s.held ∨ e.action = .down ∧ p = ⟨e.key, s.keyboard.currentMode, s.modifiersAt e⟩ := by
  unfold deskStep at hp
  cases ha : e.action <;> simp only [ha] at hp
  case down => exact (List.mem_cons.1 hp).elim (fun h => .inr ⟨rfl, h⟩) .inl
  case up => exact .inl (List.mem_of_mem_eraseP hp)
  all_goals exact .inl hp

theorem held_deskStep_distinct (hphys : Physical s e) (h : (s.held.map Press.key).Nodup) :
    ((deskStep s e).held.map Press.key).Nodup := by
  have hact := hphys.2
  unfold deskStep
  cases ha : e.action <;> simp only [ha] at hact
  case down =>
    have hnew : e.key ∉ s.held.map Press.key := by simpa using hact.1
    exact List.nodup_cons.2 ⟨hnew, h⟩
  case up => exact h.sublist (List.eraseP_sublist.map Press.key)

/-- The press of a key puts it among the keys held. -/
theorem held_deskStep_down (hdown : e.action = .down) : (deskStep s e).held =
    ⟨e.key, s.keyboard.currentMode, s.modifiersAt e⟩ :: s.held := by
  simp [deskStep, hdown]

/-- The release of a key takes its press out of the keys held. -/
theorem held_deskStep_up (hup : e.action = .up) (hheld : ∃ p ∈ s.held, p.key = e.key) :
    ∃ q l₁ l₂, q.key = e.key ∧ s.held = l₁ ++ q :: l₂ ∧ (deskStep s e).held = l₁ ++ l₂ := by
  obtain ⟨p, hp, hkey⟩ := hheld
  obtain ⟨q, l₁, l₂, -, hqk, hsplit, herase⟩ :=
    List.exists_of_eraseP (p := fun p : Press => decide (p.key = e.key)) hp (by simpa using hkey)
  exact ⟨q, l₁, l₂, by simpa using hqk, hsplit, by simpa [deskStep, hup] using herase⟩

theorem DeskInv.modifiersAt_mem (h : DeskInv s) : s.modifiersAt e ∈ flagSets :=
  trackModifiers_mem_flagSets h.currentModifiers ..

theorem DeskInv.pressFacts (h : DeskInv s) {p : Press} (hp : p ∈ s.held) :
    KeyFacts p.key p.code :=
  keyFacts p.mode (h.pressModifiers p hp) p.key

theorem DeskInv.eventFacts (h : DeskInv s) : KeyFacts e.key (s.codeAt e) :=
  keyFacts s.keyboard.currentMode h.modifiersAt_mem e.key

/-- Every code in a slot is that of an ordinary key held. -/
theorem DeskInv.length_slots_le (h : DeskInv s) :
    (occupied 0 s.keyboard.hid.report.keycode).length ≤
      (s.held.filter (ordinary ·.key)).length := by
  have hle : ∀ l : List Press, (∀ p ∈ l, p ∈ s.held) →
      (l.filterMap fun p => slotCode p.code).length ≤ (l.filter (ordinary ·.key)).length := by
    intro l hl
    induction l with
    | nil => simp
    | cons p l ih =>
      have ih := ih fun q hq => hl q (List.mem_cons_of_mem _ hq)
      rw [List.filterMap_cons, List.filter_cons]
      cases hc : slotCode p.code with
      | none => exact Nat.le_trans ih (by split <;> simp)
      | some c =>
        obtain ⟨hcode, hmod⟩ := slotCode_eq_some.1 hc
        have hfacts := h.pressFacts (hl p List.mem_cons_self)
        rw [hcode] at hfacts
        rw [if_pos (hfacts.2.1 hmod)]
        simpa using ih
  rw [h.slots.length_eq]
  exact hle s.held fun p hp => hp

/-- A press puts its code in a free slot. -/
theorem DeskInv.slots_down (h : DeskInv s) (hphys : Physical s e) (hdown : e.action = .down) :
    (occupied 0 (deskStep s e).keyboard.hid.report.keycode).Perm
      ((deskStep s e).held.filterMap fun p => slotCode p.code) := by
  have hcode : Press.code ⟨e.key, s.keyboard.currentMode, s.modifiersAt e⟩ = s.codeAt e := rfl
  have hfacts := h.eventFacts (e := e)
  rw [deskStep_keycode h, hdown, held_deskStep_down hdown, List.filterMap_cons, hcode]
  cases hc : s.codeAt e with
  | none => exact h.slots
  | some c =>
    rw [hc] at hfacts
    cases hm : isModifier c with
    | true =>
      rw [slotCode_of_isModifier hm, Report.sendCode, keycode_send_of_isModifier _ _ _ hm]
      exact h.slots
    | false =>
      have hact := hphys.2
      rw [hdown] at hact
      have hlt := hact.2 (hfacts.2.1 hm)
      have hfree := free_mem_of_length_lt (Nat.lt_of_le_of_lt h.length_slots_le hlt)
      rw [slotCode_of_not_isModifier hm]
      refine (occupied_send_down _ c hm (fun h0 => hphys.1 (hfacts.1 h0)) hfree).trans ?_
      exact h.slots.cons c

/-- The code of a silent key is in no slot while the key is held. -/
theorem DeskInv.silent_not_mem (h : DeskInv s) {q : Press} (hq : q ∈ s.held)
    (hnone : q.code = none) (hsilent : silent q.key = true) :
    q.key ∉ occupied 0 s.keyboard.hid.report.keycode := by
  intro hmem
  obtain ⟨p, hp, hpc⟩ := List.mem_filterMap.1 (h.slots.mem_iff.1 hmem)
  obtain ⟨hcode, -⟩ := slotCode_eq_some.1 hpc
  have hfacts := h.pressFacts hp
  rw [hcode] at hfacts
  have hkey : q.key = p.key := hfacts.2.2 (by simp [hsilent])
  obtain rfl := List.inj_on_of_nodup_map h.distinct hp hq hkey.symm
  simp [hnone] at hcode

/-- A key whose press sent nothing takes nothing out at its release. -/
theorem DeskInv.codeAt_not_mem (h : DeskInv s) {q : Press} (hq : q ∈ s.held) (hqk : q.key = e.key)
    (hnone : q.code = none) {c : Byte} (hc : slotCode (s.codeAt e) = some c) :
    c ∉ occupied 0 s.keyboard.hid.report.keycode := by
  obtain ⟨hcode, hmod⟩ := slotCode_eq_some.1 hc
  have hpress := h.pressFacts hq
  have hevent := h.eventFacts (e := e)
  rw [hnone, hqk] at hpress
  rw [hcode] at hevent
  rcases hpress with hmode | hkey | hsilent
  · -- a key that switches modes sends nothing at all
    unfold Desk.codeAt keyCode at hcode
    rw [if_neg (BitVec.not_lt.2 hmode)] at hcode
    cases hcode
  · have hck : c = e.key := hevent.2.2 (by simp [hkey])
    simp [hck, hkey] at hmod
  · have hck : c = e.key := hevent.2.2 (by simp [hsilent])
    rw [hck, ← hqk]
    exact h.silent_not_mem hq hnone (hqk ▸ hsilent)

/-- The release of a key as it was pressed takes its code out. -/
theorem DeskInv.slots_up (h : DeskInv s) (hup : e.action = .up)
    (hheld : ∃ p ∈ s.held, p.key = e.key) (hrel : ReleasedAsPressed s e) :
    (occupied 0 (deskStep s e).keyboard.hid.report.keycode).Perm
      ((deskStep s e).held.filterMap fun p => slotCode p.code) := by
  obtain ⟨q, l₁, l₂, hqk, hsplit, hheld⟩ := held_deskStep_up hup hheld
  have hq : q ∈ s.held := by simp [hsplit]
  have hslots := h.slots
  rw [hsplit, List.filterMap_append, List.filterMap_cons] at hslots
  rw [deskStep_keycode h, hup, occupied_sendCode_up, hheld, List.filterMap_append]
  rcases hrel hup q hq hqk with hnone | hsame
  · -- the press sent nothing; neither does the release, or nothing that is there
    have hsame : (occupied 0 s.keyboard.hid.report.keycode).diff (slotCode (s.codeAt e)).toList
        = occupied 0 s.keyboard.hid.report.keycode := by
      cases hc : slotCode (s.codeAt e) with
      | none => rfl
      | some c => simpa using List.erase_of_not_mem (h.codeAt_not_mem hq hqk hnone hc)
    rw [hnone] at hslots
    rw [hsame]
    exact hslots
  · rw [hsame]
    cases hc : slotCode q.code with
    | none => simpa [hc] using hslots
    | some c =>
      rw [hc] at hslots
      have hmid := hslots.trans List.perm_middle
      simpa using hmid.erase c

/-- The release of a key as it was pressed takes its modifier bit with it. -/
theorem DeskInv.modifier_up (h : DeskInv s) (hup : e.action = .up)
    (hheld : ∃ p ∈ s.held, p.key = e.key) (hrel : ReleasedAsPressed s e) {i : Nat}
    (hi : (deskStep s e).keyboard.hid.report.modifier.getLsbD i = true) :
    (∃ p ∈ (deskStep s e).held, ∃ c, p.code = some c ∧ isModifier c = true ∧ modifierIndex c = i) ∨
      i = 1 ∧ (deskStep s e).keyboard.shiftDown = true := by
  obtain ⟨q, l₁, l₂, hqk, hsplit, hheld⟩ := held_deskStep_up hup hheld
  rcases deskStep_modifier h hi with ⟨ha, -⟩ | ⟨p, hp, ⟨c, hc⟩, hne⟩ | hv
  · simp [hup] at ha
  · -- the key that holds the bit is another one
    have hpq : p ≠ q := by
      rintro rfl
      rcases hrel hup p hp hqk with hnone | hsame
      · simp [hnone] at hc
      · exact hne hup hsame
    refine .inl ⟨p, ?_, c, hc⟩
    rw [hsplit] at hp
    rw [hheld]
    simpa [hpq] using hp
  · exact .inr hv

theorem DeskInv.modifier_down (h : DeskInv s) (hdown : e.action = .down) {i : Nat}
    (hi : (deskStep s e).keyboard.hid.report.modifier.getLsbD i = true) :
    (∃ p ∈ (deskStep s e).held, ∃ c, p.code = some c ∧ isModifier c = true ∧ modifierIndex c = i) ∨
      i = 1 ∧ (deskStep s e).keyboard.shiftDown = true := by
  rw [held_deskStep_down hdown]
  rcases deskStep_modifier h hi with ⟨-, hc⟩ | ⟨p, hp, hc, -⟩ | hv
  · exact .inl ⟨_, List.mem_cons_self, hc⟩
  · exact .inl ⟨p, List.mem_cons_of_mem _ hp, hc⟩
  · exact .inr hv

theorem DeskInv.step (h : DeskInv s) (hphys : Physical s e) (hrel : ReleasedAsPressed s e) :
    DeskInv (deskStep s e) := by
  have hact := hphys.2
  refine ⟨held_deskStep_distinct hphys h.distinct, ?_, fun p hp => ?_, ?_, fun i hi => ?_,
    deskStep_shiftDown h⟩
  · rw [deskStep_currentModifiers h]
    exact h.modifiersAt_mem
  · rcases mem_held_deskStep hp with hp | ⟨-, rfl⟩
    · exact h.pressModifiers p hp
    · exact h.modifiersAt_mem
  · cases ha : e.action <;> simp only [ha] at hact
    case down => exact h.slots_down hphys ha
    case up => exact h.slots_up ha hact hrel
  · cases ha : e.action <;> simp only [ha] at hact
    case down => exact h.modifier_down ha hi
    case up => exact h.modifier_up ha hact hrel hi

/-- The release of a key that stands for another code now leaves the code of its press behind. -/
theorem DeskInv.stuck (h : DeskInv s) (hup : e.action = .up) {q : Press} (hq : q ∈ s.held)
    {c : Byte} (hqc : q.code = some c) (hmod : isModifier c = false)
    (hdiffer : s.codeAt e ≠ some c) :
    c ∈ occupied 0 (deskStep s e).keyboard.hid.report.keycode := by
  have hmem : c ∈ occupied 0 s.keyboard.hid.report.keycode :=
    h.slots.mem_iff.2 (List.mem_filterMap.2 ⟨q, hq, slotCode_eq_some.2 ⟨hqc, hmod⟩⟩)
  rw [deskStep_keycode h, hup, occupied_sendCode_up]
  cases hc : slotCode (s.codeAt e) with
  | none => exact hmem
  | some c' =>
    have hne : c ≠ c' := fun hcc => hdiffer (by rw [hcc]; exact (slotCode_eq_some.1 hc).1)
    simpa using (List.mem_erase_of_ne hne).2 hmem

/-- If a release leaves every slot free it sends what its press sent, unless that is a modifier. -/
theorem DeskInv.releasedAsPressed_of_free (h : DeskInv s) (hup : e.action = .up) {q : Press}
    (hq : q ∈ s.held) (hfree : (deskStep s e).keyboard.hid.depressedKeys = Vector.replicate 6 0)
    (hmod : ∀ c, q.code = some c → isModifier c = true → s.codeAt e = some c) :
    q.code = none ∨ s.codeAt e = q.code := by
  cases hqc : q.code with
  | none => exact .inl rfl
  | some c =>
    right
    cases hm : isModifier c with
    | true => exact hmod c hqc hm
    | false =>
      by_contra hdiffer
      have hmem := h.stuck hup hq hqc hm hdiffer
      have hnil := occupied_eq_nil_iff.2 hfree
      exact List.not_mem_nil (hnil ▸ hmem)

/-- With no key held the slots are free. -/
theorem DeskInv.slots_free (h : DeskInv s) (hheld : s.held = []) :
    s.keyboard.hid.depressedKeys = Vector.replicate 6 0 := by
  have := h.slots
  rw [hheld] at this
  exact occupied_eq_nil_iff.1 this.eq_nil

/-- With no key held and vim mode's shift up the modifier byte is 0. -/
theorem DeskInv.modifiers_zero (h : DeskInv s) (hheld : s.held = [])
    (hshift : s.keyboard.shiftDown = false) : s.keyboard.hid.modifiers = 0 := by
  apply BitVec.eq_of_getLsbD_eq
  intro i _
  by_contra hi
  have hi : s.keyboard.hid.modifiers.getLsbD i = true := by simpa using hi
  rcases h.modifier i hi with ⟨p, hp, -⟩ | ⟨-, hs⟩
  · simp [hheld] at hp
  · simp [hshift] at hs

end

end VolumeControl
