import VolumeControl.Main.Loop

/-!
# What the host is shown

The knob, the mute button and the IR remote write one shared report. At the end
of an iteration the host is shown one of three things (`Shown`): nothing, the
mute button's MUTE, or the key of the IR keystate in effect. `shown` reads it
off the last call of `keyboard_update`, `shown_iteration` says how an iteration
changes it, and `LoopInv` is the invariant that ties the last report to it.

- `main_no_stuck_key`: a key is shown only while the mute button is down or the
  IR keystate has it.
- `main_holds_ir_key_iff`: exactly when the key of the IR keystate stays shown.
-/

namespace VolumeControl

open Trace

/-- The report the host has: the last one sent. -/
def hostReport (s : MainState) : Report := (s.sent.getLast?.map Sent.report).getD Report.zero

/-- What the host is shown between iterations. -/
inductive Shown where
  | nothing
  | muteButton
  | irKey
  deriving DecidableEq, Repr

def shown (s : MainState) : Shown :=
  match s.sent.getLast? with
  | some ⟨.mute, _⟩ => .muteButton
  | some ⟨.irKey, _⟩ => .irKey
  | _ => .nothing

/-- The key of what is shown, under the keystate `d`. -/
def Shown.key (d : Rc5Data) : Shown → Byte
  | .nothing => 0
  | .muteButton => HidKey.mute
  | .irKey => rc5Key d

/-- What is shown after an iteration: the IR block writes last, the knob first. -/
def Shown.next (sh : Shown) (s : MainState) (i : Inputs) : Shown :=
  if (newKeystate s.rc5Data s.rc5Last i).isSome then .irKey
  else if i.pin18 = false then .muteButton
  else if s.clear = true ∨ s.lastState ≠ i.pin16 then .nothing
  else sh

/-- The invariant of the loop. -/
structure LoopInv (s : MainState) : Prop where
  new : s.rc5New = false
  host : hostReport s = ⟨0, oneKey ((shown s).key s.rc5Data)⟩
  mute : shown s = .muteButton → s.clear = true
  pushed : s.clear = true → shown s ≠ .nothing

theorem loopInv_start (pin16 : Bool) (time : BitVec 32) : LoopInv (.start pin16 time) :=
  ⟨rfl, rfl, (by cases ·), (by cases ·)⟩

/-- The last call of `keyboard_update` after an iteration. -/
theorem getLast?_sent_iteration {s : MainState} (hnew : s.rc5New = false) (i : Inputs) :
    (iteration s i).sent.getLast? =
      match newKeystate s.rc5Data s.rc5Last i with
      | some d => some ⟨.irKey, ⟨0, oneKey (rc5Key d)⟩⟩
      | none =>
        if i.pin18 = false then some ⟨.mute, ⟨0, oneKey HidKey.mute⟩⟩
        else if s.clear = true then some ⟨.muteRelease, Report.zero⟩
        else if s.lastState ≠ i.pin16 then some ⟨.knobRelease, Report.zero⟩
        else s.sent.getLast? := by
  rw [iteration_eq hnew]
  cases newKeystate s.rc5Data s.rc5Last i with
  | some d => simp [irSent, ← List.append_assoc]
  | none =>
    cases h18 : i.pin18 <;> cases hc : s.clear <;> by_cases hk : s.lastState = i.pin16 <;>
      simp [muteSent, knobSent, h18, hk, ← List.append_assoc]

theorem shown_iteration {s : MainState} (hnew : s.rc5New = false) (i : Inputs) :
    shown (iteration s i) = (shown s).next s i := by
  simp only [shown, getLast?_sent_iteration hnew i, Shown.next]
  cases newKeystate s.rc5Data s.rc5Last i with
  | some d => simp
  | none =>
    cases h18 : i.pin18 <;> cases hc : s.clear <;> by_cases hk : s.lastState = i.pin16 <;> simp [hk]

theorem hostReport_iteration {s : MainState} (h : LoopInv s) (i : Inputs) :
    hostReport (iteration s i) = ⟨0, oneKey ((shown (iteration s i)).key (iteration s i).rc5Data)⟩ := by
  have hh := h.host
  simp only [hostReport, getLast?_sent_iteration h.new, shown_iteration h.new, Shown.next]
  rw [iteration_eq h.new]
  cases hk : newKeystate s.rc5Data s.rc5Last i with
  | some d => simp [Shown.key]
  | none =>
    cases h18 : i.pin18 with
    | false => simp [Shown.key]
    | true =>
      cases hc : s.clear with
      | true => simp [Shown.key, Report.zero]
      | false =>
        by_cases hl : s.lastState = i.pin16
        · simpa [hl, hostReport] using hh
        · simp [hl, Shown.key, Report.zero]

theorem loopInv_iteration {s : MainState} (h : LoopInv s) (i : Inputs) : LoopInv (iteration s i) where
  new := by rw [iteration_eq h.new]
  host := hostReport_iteration h i
  mute := by
    rw [shown_iteration h.new, iteration_eq h.new]
    -- MUTE is shown after an iteration with pin 18 low; with pin 18 high it would have been
    -- shown before, and then `clear` was set and has cleared it
    have hm := h.mute
    cases h18 : i.pin18 with
    | false => simp
    | true =>
      simp only [Shown.next, h18]
      split_ifs <;> simp_all
  pushed := by
    rw [shown_iteration h.new, iteration_eq h.new]
    cases h18 : i.pin18 with
    | true => simp
    | false =>
      simp only [Shown.next, h18]
      split_ifs <;> simp

theorem loopInv_run (pin16 : Bool) (time : BitVec 32) (is : List Inputs) :
    LoopInv (run iteration (.start pin16 time) is) :=
  run_inv LoopInv (fun _ i h => loopInv_iteration h i) (loopInv_start pin16 time) is

/-! ## No stuck key -/

theorem shown_muteButton {s : MainState} (h : LoopInv s) {i : Inputs}
    (hm : shown (iteration s i) = .muteButton) : i.pin18 = false := by
  have hc := (loopInv_iteration h i).mute hm
  rw [iteration_eq h.new] at hc
  simpa using hc

theorem rc5Key_eq_zero {d : Rc5Data} (h : d.address ≠ 0x18) : rc5Key d = 0 := by
  simp only [rc5Key, if_neg h]

/-- **No stuck key.** At the end of every iteration a key in the last report is MUTE, with pin 18
read low in this iteration, or the key of the IR keystate in effect. -/
theorem main_no_stuck_key (pin16 : Bool) (time : BitVec 32) (is : List Inputs) (i : Inputs) :
    let s := run iteration (.start pin16 time) (is ++ [i])
    (∀ e, s.sent.getLast? = some e → ∀ k ∈ e.report.keycode, k ≠ 0 →
      (k = HidKey.mute ∧ i.pin18 = false) ∨ (s.rc5Data.address = 0x18 ∧ k = rc5Key s.rc5Data)) ∧
    (i.pin18 = true → s.rc5Data = Rc5Data.zero →
      ∀ e, s.sent.getLast? = some e → e.report = Report.zero) := by
  intro s
  have hpre := loopInv_run pin16 time is
  have hs : s = iteration (run iteration (.start pin16 time) is) i := run_snoc ..
  have hinv : LoopInv s := hs ▸ loopInv_iteration hpre i
  have hlast (e : Sent) (he : s.sent.getLast? = some e) :
      e.report = ⟨0, oneKey ((shown s).key s.rc5Data)⟩ := by
    have := hinv.host
    simpa [hostReport, he] using this
  have hmute (hm : shown s = .muteButton) : i.pin18 = false :=
    shown_muteButton hpre (hs ▸ hm)
  constructor
  · intro e he k hk hk0
    rw [hlast e he, mem_oneKey] at hk
    obtain rfl := hk.resolve_right hk0
    cases hsh : shown s with
    | nothing => simp [hsh, Shown.key] at hk0
    | muteButton => exact .inl ⟨rfl, hmute hsh⟩
    | irKey =>
      refine .inr ⟨?_, rfl⟩
      by_contra ha
      exact hk0 (by simp [hsh, Shown.key, rc5Key_eq_zero ha])
  · intro h18 hd e he
    rw [hlast e he, hd]
    cases hsh : shown s with
    | nothing => rfl
    | muteButton => simp [hmute hsh] at h18
    | irKey => rfl

/-! ## A held IR key -/

/-- The host has exactly the key of the IR keystate in effect. -/
def IrKeyHeld (s : MainState) : Prop := hostReport s = ⟨0, oneKey (rc5Key s.rc5Data)⟩

instance (s : MainState) : Decidable (IrKeyHeld s) := inferInstanceAs (Decidable (_ = _))

/-- At the end of every iteration with pin 18 high the IR key is held. -/
def HoldsIrKey (s : MainState) (is : List Inputs) : Prop :=
  ∀ pre i post, is = pre ++ i :: post → i.pin18 = true → IrKeyHeld (run iteration s (pre ++ [i]))

/-- With pin 18 high, a release sent by the knob or the mute button meets no IR key, or a new
keystate arrives in the same iteration. -/
def KeepsIrKey (s : MainState) (i : Inputs) : Prop :=
  i.pin18 = true → s.lastState ≠ i.pin16 ∨ s.clear = true →
    rc5Key s.rc5Data = 0 ∨ (newKeystate s.rc5Data s.rc5Last i).isSome = true

theorem irKeyHeld_iff {s : MainState} (h : LoopInv s) :
    IrKeyHeld s ↔ (shown s).key s.rc5Data = rc5Key s.rc5Data := by
  rw [IrKeyHeld, h.host, Report.mk.injEq, oneKey_inj]
  simp

theorem irKeyHeld_iteration_iff {s : MainState} (h : LoopInv s)
    (hheld : s.clear = false → IrKeyHeld s) (i : Inputs) :
    (i.pin18 = true → IrKeyHeld (iteration s i)) ↔ KeepsIrKey s i := by
  refine imp_congr_right fun h18 => ?_
  rw [irKeyHeld_iff (loopInv_iteration h i), shown_iteration h.new, iteration_eq h.new]
  simp only [Shown.next]
  cases newKeystate s.rc5Data s.rc5Last i with
  | some d => simp [Shown.key]
  | none =>
    by_cases hrel : s.clear = true ∨ s.lastState ≠ i.pin16
    · rw [if_pos hrel]
      simpa [h18, hrel.symm, Shown.key] using eq_comm
    · simp only [not_or, Bool.not_eq_true, not_not] at hrel
      have := (irKeyHeld_iff h).1 (hheld hrel.1)
      simp [h18, hrel, this]

/-- **The IR key stays held** at the end of every iteration with pin 18 high exactly in the runs
in which no release of the knob or the mute button meets an IR key. -/
theorem main_holds_ir_key_iff (pin16 : Bool) (time : BitVec 32) (is : List Inputs) :
    HoldsIrKey (.start pin16 time) is ↔ AllSteps iteration KeepsIrKey (.start pin16 time) is := by
  have hread : HoldsIrKey (.start pin16 time) is ↔
      AllSteps iteration (fun s i => i.pin18 = true → IrKeyHeld (iteration s i))
        (.start pin16 time) is := by
    rw [allSteps_iff]
    simp only [HoldsIrKey, run_snoc]
  rw [hread]
  -- with `clear` unset the previous iteration has read pin 18 high
  refine AllSteps.iff_of_inv (fun s => LoopInv s ∧ (s.clear = false → IrKeyHeld s))
    (fun s i h => irKeyHeld_iteration_iff h.1 h.2 i) (fun s i h hP => ?_)
    ⟨loopInv_start pin16 time, fun _ => rfl⟩ is
  refine ⟨loopInv_iteration h.1 i, fun hc => hP ?_⟩
  rw [iteration_eq h.1.new] at hc
  simpa using hc

/-- The remote holds VOLUME UP; turning the knob takes it away. -/
theorem main_holds_ir_key_counterexample :
    ¬ HoldsIrKey (.start true 0)
      [⟨true, true, true, false, 13, 0x1613, 1000, 1000⟩,
       ⟨false, true, true, false, 0, 0x1613, 2000, 2000⟩] := by
  intro h
  have := h [_] _ [] rfl rfl
  revert this
  decide

end VolumeControl
