import VolumeControl.Keyboard.Release

/-!
# Keys held across a change of mode

Without SHIFT and CTRL the code of a key depends on the mode alone, at its press
and again at its release. `slots_free_of_modesAgree`: no key sticks in a run
that releases a key in another mode than it was pressed in only where the two
modes agree on the key. `slots_free_iff_modesAgree`: the first release where
they do not agree leaves a slot taken.
-/

namespace VolumeControl

open Trace CaseTable

def vimKeys : List Byte :=
  [HidKey.digit0, HidKey.h, HidKey.j, HidKey.k, HidKey.l, HidKey.x, HidKey.d, HidKey.v, HidKey.i]

/-- The keys that a mode sends another code for, or none. -/
def remaps (mode : Mode) (key : Byte) : Bool :=
  match mode with
  | .normal => false
  | .vim => vimKeys.contains key
  | .function => keymapNormal.contains key

/-- A key released in another mode than it was pressed in is remapped by neither, or was pressed
in vim mode and is V or I. -/
def ModesAgree (s : Desk) (e : KeyEvent) : Prop :=
  e.action = .up → ∀ p ∈ s.held, p.key = e.key → p.mode ≠ s.keyboard.currentMode →
    (remaps p.mode e.key = false ∧ remaps s.keyboard.currentMode e.key = false) ∨
      p.mode = .vim ∧ silent e.key = true

instance (s : Desk) (e : KeyEvent) : Decidable (ModesAgree s e) := by
  unfold ModesAgree
  infer_instance

/-! ## The modes without SHIFT and CTRL -/

theorem mem_of_remaps {mode : Mode} {key : Byte} (h : remaps mode key = true) :
    key ∈ vimKeys ++ keymapNormal := by
  cases mode with
  | normal => cases h
  | vim => exact List.mem_append_left _ (List.contains_iff_mem.1 h)
  | function => exact List.mem_append_right _ (List.contains_iff_mem.1 h)

theorem remaps_of_vimCases : ∀ c ∈ vimCases, wide (c.1.setWidth 8) = c.1 →
    remaps .vim (c.1.setWidth 8) = true :=
  forall_mem_of_all (by decide)

theorem remaps_of_keymapFn : ∀ c ∈ keymapNormal.zip keymapFn, remaps .function c.1 = true :=
  forall_mem_of_all (by decide)

theorem keyCode_of_not_remaps {mode : Mode} {key : Byte} (h : remaps mode key = false)
    (hplain : plain key = true) (hlt : key < 0xf0) : keyCode mode 0 key = some key := by
  unfold keyCode
  rw [if_pos hlt]
  cases mode with
  | normal => rfl
  | vim =>
    have hkey : (wide key).setWidth 8 = key := by simp [wide]
    have hzero : wide key ||| 0 = wide key := BitVec.or_zero
    dsimp only
    rw [hzero, vimCode_eq_lookup, hkey, defaultCode, if_pos hplain]
    refine getD_lookup_of (P := (· = some key)) (fun c hc hcase => ?_) rfl
    have hremaps := remaps_of_vimCases c hc
    simp [hcase, hkey, h] at hremaps
  | function =>
    refine getD_lookup_of (P := (some · = some key)) (fun c hc hcase => ?_) rfl
    have hremaps := remaps_of_keymapFn c hc
    simp [hcase, h] at hremaps

theorem agree_iff_of_mem {mode mode' : Mode} (hne : mode ≠ mode') : ∀ key ∈ vimKeys ++ keymapNormal,
    ((keyCode mode 0 key = none ∨ keyCode mode' 0 key = keyCode mode 0 key) ↔
      (remaps mode key = false ∧ remaps mode' key = false) ∨ mode = .vim ∧ silent key = true) := by
  apply forall_mem_of_all
  revert hne
  cases mode <;> cases mode' <;> decide +kernel

/-- **Without SHIFT and CTRL, two modes agree on the keys that neither remaps**, and on V and I
pressed in vim mode. -/
theorem agree_iff {mode mode' : Mode} (hne : mode ≠ mode') {key : Byte}
    (hplain : plain key = true) :
    (keyCode mode 0 key = none ∨ keyCode mode' 0 key = keyCode mode 0 key) ↔
      (remaps mode key = false ∧ remaps mode' key = false) ∨ mode = .vim ∧ silent key = true := by
  by_cases hmem : key ∈ vimKeys ++ keymapNormal
  · exact agree_iff_of_mem hne key hmem
  have hno (mode : Mode) : remaps mode key = false := by
    by_contra hr
    exact hmem (mem_of_remaps (by simpa using hr))
  simp only [hno, and_self, true_or, iff_true]
  by_cases hlt : key < 0xf0
  · right
    rw [keyCode_of_not_remaps (hno _) hplain hlt, keyCode_of_not_remaps (hno _) hplain hlt]
  · left
    exact if_neg hlt

/-- Without SHIFT and CTRL every modifier stands for itself in every mode. -/
theorem keyCode_of_isModifier (mode : Mode) {key : Byte} (hplain : plain key = true)
    (h : isModifier key = true) : keyCode mode 0 key = some key := by
  have hkeys : ∀ key ∈ vimKeys ++ keymapNormal, isModifier key = false :=
    forall_mem_of_all (by decide)
  have hlt : ∀ key : Byte, isModifier key = true → key < 0xf0 := by decide +kernel
  refine keyCode_of_not_remaps ?_ hplain (hlt key h)
  by_contra hr
  simp [hkeys key (mem_of_remaps (by simpa using hr))] at h

/-- Without SHIFT and CTRL every key is pressed and released under no modifiers. -/
structure PlainInv (s : Desk) : Prop extends DeskInv s where
  noModifiers : s.keyboard.currentModifiers = 0
  noPressModifiers : ∀ p ∈ s.held, p.modifiers = 0

theorem plainInv_start : PlainInv .start where
  toDeskInv := deskInv_start
  noModifiers := rfl
  noPressModifiers p hp := by cases hp

section
variable {s : Desk} {e : KeyEvent}

theorem PlainInv.modifiersAt_eq (h : PlainInv s) (hplain : plain e.key = true) :
    s.modifiersAt e = 0 := by
  rw [Desk.modifiersAt, trackModifiers_of_plain hplain, h.noModifiers]

/-- A code depends on the mode and the key alone, at the press and at the release. -/
theorem PlainInv.code_eq (h : PlainInv s) {p : Press} (hp : p ∈ s.held) :
    p.code = keyCode p.mode 0 p.key := by
  rw [Press.code, h.noPressModifiers p hp]

theorem PlainInv.codeAt_eq (h : PlainInv s) (hplain : plain e.key = true) :
    s.codeAt e = keyCode s.keyboard.currentMode 0 e.key := by
  rw [Desk.codeAt, h.modifiersAt_eq hplain]

theorem PlainInv.releasedAsPressed_iff (h : PlainInv s) (hplain : plain e.key = true) :
    ReleasedAsPressed s e ↔ ModesAgree s e := by
  refine forall_congr' fun hup => forall₃_congr fun p hp hkey => ?_
  rw [h.codeAt_eq hplain, h.code_eq hp, hkey]
  by_cases hmode : p.mode = s.keyboard.currentMode
  · simp [hmode]
  · simp only [hmode, ne_eq, not_false_eq_true, true_imp_iff]
    exact agree_iff hmode hplain

theorem PlainInv.step (h : PlainInv s) (hphys : Physical s e) (hplain : plain e.key = true)
    (hmodes : ModesAgree s e) : PlainInv (deskStep s e) := by
  have hmods := h.modifiersAt_eq hplain
  have hrel := (h.releasedAsPressed_iff hplain).2 hmodes
  refine ⟨h.toDeskInv.step hphys hrel, ?_, fun p hp => ?_⟩
  · rw [deskStep_currentModifiers h.toDeskInv, hmods]
  · rcases mem_held_deskStep hp with hp | ⟨-, rfl⟩
    · exact h.noPressModifiers p hp
    · exact hmods

/-- A release where the modes do not agree leaves a slot taken. -/
theorem PlainInv.modesAgree_of_free (h : PlainInv s) (hplain : plain e.key = true)
    (hfree : (deskStep s e).keyboard.hid.depressedKeys = Vector.replicate 6 0) :
    ModesAgree s e := by
  refine (h.releasedAsPressed_iff hplain).1 fun hup q hq hqk => ?_
  refine h.releasedAsPressed_of_free hup hq hfree fun c hc hm => ?_
  have hfacts := h.pressFacts hq
  rw [hc] at hfacts
  obtain rfl : c = q.key := hfacts.2.2 (by simp [hm])
  rw [h.codeAt_eq hplain, ← hqk]
  exact keyCode_of_isModifier _ (hqk ▸ hplain) hm

end

/-- **No key sticks across a change of mode** whose keys mean the same when they are released. -/
theorem slots_free_of_modesAgree (evs : List KeyEvent)
    (h : AllSteps deskStep (fun s e => Physical s e ∧ plain e.key = true ∧ ModesAgree s e)
      .start evs)
    (hheld : (run deskStep .start evs).held = []) :
    (run deskStep .start evs).keyboard.hid.depressedKeys = Vector.replicate 6 0 := by
  have hinv : PlainInv (run deskStep .start evs) :=
    h.run_inv PlainInv (fun s e hs ok => hs.step ok.1 ok.2.1 ok.2.2) plainInv_start
  exact hinv.slots_free hheld

/-- A is held while vim mode is entered. -/
theorem slots_free_of_modesAgree_a :
    (run deskStep .start [⟨.down, 0x04⟩, ⟨.down, vimKey⟩, ⟨.up, 0x04⟩,
      ⟨.up, vimKey⟩]).keyboard.hid.depressedKeys = Vector.replicate 6 0 :=
  slots_free_of_modesAgree _ (by decide) (by decide)

/-- H is held while vim mode is entered: vim mode releases the left arrow in its place. -/
theorem slots_free_counterexample :
    ¬ ∀ evs, AllSteps deskStep (fun s e => Physical s e ∧ plain e.key = true) .start evs →
      (run deskStep .start evs).held = [] →
        (run deskStep .start evs).keyboard.hid.depressedKeys = Vector.replicate 6 0 := by
  intro h
  have := h [⟨.down, HidKey.h⟩, ⟨.down, vimKey⟩, ⟨.up, HidKey.h⟩, ⟨.up, vimKey⟩]
    (by decide) (by decide)
  revert this
  decide

/-- Up to the first release where the modes do not agree no key sticks, and that release leaves a
slot taken. -/
theorem slots_free_iff_modesAgree (evs : List KeyEvent) (e : KeyEvent)
    (h : AllSteps deskStep (fun s e => Physical s e ∧ plain e.key = true ∧ ModesAgree s e)
      .start evs)
    (hphys : Physical (run deskStep .start evs) e) (hplain : plain e.key = true)
    (hheld : (deskStep (run deskStep .start evs) e).held = []) :
    (deskStep (run deskStep .start evs) e).keyboard.hid.depressedKeys = Vector.replicate 6 0 ↔
      ModesAgree (run deskStep .start evs) e := by
  have hinv : PlainInv (run deskStep .start evs) :=
    h.run_inv PlainInv (fun s e hs ok => hs.step ok.1 ok.2.1 ok.2.2) plainInv_start
  exact ⟨hinv.modesAgree_of_free hplain,
    fun hmodes => (hinv.step hphys hplain hmodes).slots_free hheld⟩

end VolumeControl
