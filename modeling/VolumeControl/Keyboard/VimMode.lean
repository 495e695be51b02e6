import VolumeControl.Keyboard.Release

/-!
# Keys within a mode

Runs that change the mode with no other key held. Outside vim mode the code of
a key is then the same at its press and at its release; in vim mode it also
depends on SHIFT and CTRL. `report_empty_of_sameVimCase`: back in normal mode
with no key held the report is empty, in a run in which vim mode takes the same
case for a key at its press and at its release. `slots_free_iff_sameVimCase`: the
first release that takes another case leaves a slot taken.
-/

namespace VolumeControl

open Trace CaseTable

/-- Only the key of the event is down when the mode changes. -/
def ModeAlone (s : Desk) (e : KeyEvent) : Prop :=
  (deskStep s e).keyboard.currentMode ≠ s.keyboard.currentMode → ∀ p ∈ s.held, p.key = e.key

/-- The switch takes the same case for both, no case for both, or one that sends nothing for the
first. -/
def SameCase (press release : BitVec 16) : Prop :=
  press = release ∨ (vimCases.lookup press = none ∧ vimCases.lookup release = none) ∨
    press = wide HidKey.v ∨ press = wide HidKey.i

/-- A key pressed and released in vim mode takes the same case both times. -/
def SameVimCase (s : Desk) (e : KeyEvent) : Prop :=
  e.action = .up → s.keyboard.currentMode = .vim → ∀ p ∈ s.held, p.key = e.key → p.mode = .vim →
    SameCase (wide e.key ||| p.modifiers) (wide e.key ||| s.modifiersAt e)

instance (s : Desk) (e : KeyEvent) : Decidable (ModeAlone s e) := by
  unfold ModeAlone
  infer_instance

instance (press release : BitVec 16) : Decidable (SameCase press release) := by
  unfold SameCase
  infer_instance

instance (s : Desk) (e : KeyEvent) : Decidable (SameVimCase s e) := by
  unfold SameVimCase
  infer_instance

/-! ## The cases of the switch -/

section
variable {a b : BitVec 16}

theorem eq_of_vimCases_none : ∀ c ∈ vimCases,
    c.2 = none → c.1 = wide HidKey.v ∨ c.1 = wide HidKey.i :=
  forall_mem_of_all (by decide)

theorem ordinary_of_vimCases : ∀ c ∈ vimCases, ordinary (c.1.setWidth 8) = true :=
  forall_mem_of_all (by decide)

/-- No case sends what a key of no case sends. -/
theorem vimCases_ne_default : ∀ c ∈ vimCases,
    defaultCode (c.1.setWidth 8) ≠ none ∧ defaultCode (c.1.setWidth 8) ≠ c.2 :=
  forall_mem_of_all (by decide)

/-- Two cases for one key send different codes. -/
theorem vimCases_nodup : (vimCases.map fun c => (c.1.setWidth 8, c.2)).Nodup := by decide

theorem lookup_vimCases_of_not_ordinary (h : ordinary (a.setWidth 8) = false) :
    vimCases.lookup a = none := by
  refine lookup_eq_none fun c hc hca => ?_
  rw [← hca, ordinary_of_vimCases c hc] at h
  cases h

/-- **A key sends the same code under the same case only**, or nothing at its press. -/
theorem sameCase_iff (h : a.setWidth 8 = b.setWidth 8) :
    (vimCode a = none ∨ vimCode b = vimCode a) ↔ SameCase a b := by
  constructor
  · intro hcode
    rw [vimCode_eq_lookup, vimCode_eq_lookup, h] at hcode
    cases ha : vimCases.lookup a with
    | none =>
      cases hb : vimCases.lookup b with
      | none => exact .inr (.inl ⟨ha, hb⟩)
      | some c =>
        obtain ⟨hnone, hne⟩ := vimCases_ne_default _ (mem_of_lookup hb)
        rw [ha, hb] at hcode
        exact hcode.elim (absurd · hnone) fun hc => absurd hc.symm hne
    | some c =>
      have hmem := mem_of_lookup ha
      rw [ha, Option.getD_some] at hcode
      rcases hcode with hnone | hsame
      · exact .inr (.inr (eq_of_vimCases_none _ hmem hnone))
      · cases hb : vimCases.lookup b with
        | none =>
          rw [hb] at hsame
          exact absurd (h ▸ hsame) (vimCases_ne_default _ hmem).2
        | some c' =>
          rw [hb] at hsame
          have hpair : (a.setWidth 8, c) = (b.setWidth 8, c') := Prod.ext h hsame.symm
          have hcase := List.inj_on_of_nodup_map vimCases_nodup hmem (mem_of_lookup hb) hpair
          exact .inl (congrArg Prod.fst hcase)
  · rintro (rfl | ⟨ha, hb⟩ | rfl | rfl)
    · exact .inr rfl
    · exact .inr (by rw [vimCode_eq_lookup, vimCode_eq_lookup, ha, hb, h])
    · exact .inl (by decide)
    · exact .inl (by decide)

end

/-! ## Runs -/

/-- Every key held was pressed in the mode in effect, or its press sent nothing. -/
structure ModeInv (s : Desk) : Prop extends DeskInv s where
  mode : ∀ p ∈ s.held, p.mode = s.keyboard.currentMode ∨ p.code = none

theorem modeInv_start : ModeInv .start where
  toDeskInv := deskInv_start
  mode p hp := by cases hp

section
variable {s : Desk} {e : KeyEvent}

/-- Where only the key of the event is down, its release leaves no key down. -/
theorem held_deskStep_alone (hup : e.action = .up) (hdist : (s.held.map Press.key).Nodup)
    (halone : ∀ p ∈ s.held, p.key = e.key) : (deskStep s e).held = [] := by
  simp only [deskStep, hup]
  rcases hs : s.held with _ | ⟨p, _ | ⟨q, l⟩⟩
  · rfl
  · simp [halone p (by simp [hs])]
  · have hp := halone p (by simp [hs])
    have hq := halone q (by simp [hs])
    simp [hs, hp, hq] at hdist

/-- At its press and at its release a key comes to the switch in the same low byte. -/
theorem DeskInv.wide_key_eq (h : DeskInv s) {p : Press} (hp : p ∈ s.held) :
    (wide e.key ||| p.modifiers).setWidth 8 = (wide e.key ||| s.modifiersAt e).setWidth 8 := by
  rw [setWidth_wide_or (h.pressModifiers p hp), setWidth_wide_or h.modifiersAt_mem]

theorem ModeInv.releasedAsPressed (h : ModeInv s) (hcase : SameVimCase s e) :
    ReleasedAsPressed s e := by
  intro hup p hp hkey
  rcases h.mode p hp with hmode | hnone
  · rw [Desk.codeAt, Press.code, hkey, hmode]
    unfold keyCode
    split
    · cases hm : s.keyboard.currentMode with
      | vim => exact (sameCase_iff (h.wide_key_eq hp)).2 (hcase hup hm p hp hkey (hmode.trans hm))
      | normal | function => exact .inr rfl
    · exact .inl rfl
  · exact .inl hnone

theorem ModeInv.step (h : ModeInv s) (hphys : Physical s e) (halone : ModeAlone s e)
    (hcase : SameVimCase s e) : ModeInv (deskStep s e) := by
  refine ⟨h.toDeskInv.step hphys (h.releasedAsPressed hcase), fun p hp => ?_⟩
  by_cases hmode : (deskStep s e).keyboard.currentMode = s.keyboard.currentMode
  · rw [hmode]
    rcases mem_held_deskStep hp with hp | ⟨-, rfl⟩
    · exact h.mode p hp
    · exact .inl rfl
  · -- the mode changes: the key of the event is the only one down, and sends nothing
    have hact := hphys.2
    cases ha : e.action <;> simp only [ha] at hact
    case down =>
      rcases mem_held_deskStep hp with hp | ⟨-, rfl⟩
      · exact absurd (halone hmode p hp) (hact.1 p hp)
      · exact .inr ((deskStep_currentMode h.toDeskInv).resolve_left hmode)
    case up =>
      rw [held_deskStep_alone ha h.distinct (halone hmode)] at hp
      cases hp

/-- A release that takes another case than the press leaves a slot taken. -/
theorem ModeInv.sameVimCase_of_free (h : ModeInv s)
    (hfree : (deskStep s e).keyboard.hid.depressedKeys = Vector.replicate 6 0) :
    SameVimCase s e := by
  intro hup hm p hp hkey hmode
  by_cases hord : ordinary e.key = true
  · have hlt := lt_of_ordinary hord
    have hcode : p.code = vimCode (wide e.key ||| p.modifiers) := by
      rw [Press.code, hmode, hkey]
      exact if_pos hlt
    have hcodeAt : s.codeAt e = vimCode (wide e.key ||| s.modifiersAt e) := by
      rw [Desk.codeAt, hm]
      exact if_pos hlt
    refine (sameCase_iff (h.wide_key_eq hp)).1 ?_
    rw [← hcode, ← hcodeAt]
    refine h.releasedAsPressed_of_free hup hp hfree fun c hc hmod => ?_
    have hfacts := h.pressFacts hp
    rw [hc, hkey] at hfacts
    have hck : c = e.key := hfacts.2.2 (by simp [hmod])
    rw [hck, not_isModifier_of_ordinary hord] at hmod
    cases hmod
  · -- no case is about a modifier or a key that switches modes
    have hord : ordinary e.key = false := by simpa using hord
    refine .inr (.inl ⟨lookup_vimCases_of_not_ordinary ?_, lookup_vimCases_of_not_ordinary ?_⟩)
    · rwa [setWidth_wide_or (h.pressModifiers p hp)]
    · rwa [setWidth_wide_or h.modifiersAt_mem]

end

/-- **Within a mode every release undoes its press**, where vim mode takes the same case for a key
at both. -/
theorem report_empty_of_sameVimCase (evs : List KeyEvent)
    (h : AllSteps deskStep (fun s e => Physical s e ∧ ModeAlone s e ∧ SameVimCase s e) .start evs)
    (hheld : (run deskStep .start evs).held = [])
    (hmode : (run deskStep .start evs).keyboard.currentMode = .normal) :
    (run deskStep .start evs).keyboard.hid.report = ⟨0, Vector.replicate 6 0⟩ := by
  have hinv : ModeInv (run deskStep .start evs) :=
    h.run_inv ModeInv (fun s e hs ok => hs.step ok.1 ok.2.1 ok.2.2) modeInv_start
  have hshift : (run deskStep .start evs).keyboard.shiftDown = false := by
    by_contra hs
    have := hinv.shiftDown (by simpa using hs)
    simp [hmode] at this
  rw [Hid.report, hinv.slots_free hheld, hinv.modifiers_zero hheld hshift]

/-- In vim mode SHIFT is held around H. -/
theorem report_empty_of_sameVimCase_shift :
    (run deskStep .start [⟨.down, vimKey⟩, ⟨.up, vimKey⟩, ⟨.down, HidKey.shiftLeft⟩,
      ⟨.down, HidKey.h⟩, ⟨.up, HidKey.h⟩, ⟨.up, HidKey.shiftLeft⟩, ⟨.down, HidKey.i⟩,
      ⟨.up, HidKey.i⟩]).keyboard.hid.report = ⟨0, Vector.replicate 6 0⟩ :=
  report_empty_of_sameVimCase _ (by decide) (by decide) (by decide)

/-- In vim mode SHIFT is released before H: PAGE UP stays. -/
theorem report_empty_counterexample :
    ¬ ∀ evs, AllSteps deskStep (fun s e => Physical s e ∧ ModeAlone s e) .start evs →
      (run deskStep .start evs).held = [] → (run deskStep .start evs).keyboard.currentMode = .normal →
        (run deskStep .start evs).keyboard.hid.report = ⟨0, Vector.replicate 6 0⟩ := by
  intro h
  have := h [⟨.down, vimKey⟩, ⟨.up, vimKey⟩, ⟨.down, HidKey.shiftLeft⟩, ⟨.down, HidKey.h⟩,
    ⟨.up, HidKey.shiftLeft⟩, ⟨.up, HidKey.h⟩, ⟨.down, HidKey.i⟩, ⟨.up, HidKey.i⟩]
    (by decide) (by decide) (by decide)
  revert this
  decide

/-- Up to the first release that takes another case no key sticks, and that release leaves a slot
taken. -/
theorem slots_free_iff_sameVimCase (evs : List KeyEvent) (e : KeyEvent)
    (h : AllSteps deskStep (fun s e => Physical s e ∧ ModeAlone s e ∧ SameVimCase s e) .start evs)
    (hphys : Physical (run deskStep .start evs) e) (halone : ModeAlone (run deskStep .start evs) e)
    (hheld : (deskStep (run deskStep .start evs) e).held = []) :
    (deskStep (run deskStep .start evs) e).keyboard.hid.depressedKeys = Vector.replicate 6 0 ↔
      SameVimCase (run deskStep .start evs) e := by
  have hinv : ModeInv (run deskStep .start evs) :=
    h.run_inv ModeInv (fun s e hs ok => hs.step ok.1 ok.2.1 ok.2.2) modeInv_start
  exact ⟨hinv.sameVimCase_of_free,
    fun hcase => (hinv.step hphys halone hcase).slots_free hheld⟩

end VolumeControl
