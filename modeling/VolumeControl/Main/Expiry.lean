import VolumeControl.Lib.Watchdog
import VolumeControl.Main.Loop

/-!
# The release of an IR key

`main` releases the IR key when no frame has come for 100000 us, measured on
the 32 bits of `time_us_32`, which wrap every 71 minutes. `irBlocks_sent` says
that the reports are those of the keystates of `Watchdog.Ideal`, on unbounded
time.
-/

namespace VolumeControl

open Trace Watchdog

def releaseUs : Nat := 100000

/-- The receive and the send block of an iteration. -/
def irBlocks (s : MainState) (i : Inputs) : MainState := sendIr (receiveIr i s)

/-- An iteration with `ir` inactive, at the time `now`, which does not advance in it. -/
structure IrIteration where
  inputs : Inputs
  now : Nat
  inactive : inputs.irActive = false
  time : inputs.time = BitVec.ofNat 32 now
  time' : inputs.time' = BitVec.ofNat 32 now

/-- The frame that waits. -/
def IrIteration.frame (i : IrIteration) : Option Rc5Data :=
  if i.inputs.irValueBits = 13 then some (rc5Decode i.inputs.irValue) else none

def IrIteration.poll (i : IrIteration) : Poll Rc5Data := ⟨i.now, i.frame⟩

/-! ## The reference -/

/-- The frame in effect after an iteration, and the time of the last frame. -/
def inEffect (r : Ideal Rc5Data) (i : IrIteration) : Ideal Rc5Data :=
  r.poll releaseUs Rc5Data.zero i.poll

def keystateReports (d : Rc5Data) : List Report :=
  if rc5Key d = 0 then [Report.zero] else [Report.zero, ⟨0, oneKey (rc5Key d)⟩]

/-- The reports due in an iteration. -/
def dueReports (r : Ideal Rc5Data) (i : IrIteration) : List Report :=
  if (inEffect r i).value = r.value then [] else keystateReports (inEffect r i).value

/-! ## One iteration -/

/-- The variables of the receive block. -/
def MainState.timer (s : MainState) : Timer 32 Rc5Data := ⟨s.rc5Last, s.rc5Data⟩

theorem irBlocks_eq {s : MainState} (hnew : s.rc5New = false) (i : Inputs) :
    irBlocks s i =
      { s with
        rc5Data := (newKeystate s.rc5Data s.rc5Last i).getD s.rc5Data
        rc5Last := rc5LastAfter s.rc5Last i
        sent := s.sent ++ ((newKeystate s.rc5Data s.rc5Last i).map irSent).getD [] } := by
  rw [irBlocks, receiveIr_eq, sendIr_eq]
  cases newKeystate s.rc5Data s.rc5Last i <;> simp [hnew]

/-- The comparison of the receive block. -/
theorem late_iff (s : MainState) (i : IrIteration) :
    i.inputs.time - s.rc5Last > 100000 ↔
      (BitVec.ofNat 32 i.now - s.timer.last).toNat > releaseUs := by
  rw [i.time]
  exact BitVec.lt_def

theorem filter_ne (d d' : Rc5Data) :
    (some d').filter (d ≠ ·) = if d' = d then none else some d' := by
  by_cases h : d' = d
  · simp [h]
  · simp [h, Ne.symm h]

theorem newKeystate_eq (s : MainState) (i : IrIteration) :
    newKeystate s.rc5Data s.rc5Last i.inputs =
      if (s.timer.poll releaseUs Rc5Data.zero i.poll).value = s.rc5Data then none
      else some (s.timer.poll releaseUs Rc5Data.zero i.poll).value := by
  unfold newKeystate IrIteration.poll IrIteration.frame
  by_cases h13 : i.inputs.irValueBits = 13
  · simp only [i.inactive, h13, Timer.poll_some, Bool.false_eq_true, if_true, if_false, filter_ne]
  · by_cases hlate : i.inputs.time - s.rc5Last > 100000
    · have hpoll := Timer.poll_late Rc5Data.zero ((late_iff s i).1 hlate)
      simp only [i.inactive, h13, hlate, hpoll, Bool.false_eq_true, if_true, if_false, filter_ne]
    · have hpoll := Timer.poll_early Rc5Data.zero ((late_iff s i).not.1 hlate)
      simp only [i.inactive, h13, hlate, hpoll, Bool.false_eq_true, if_false]
      exact (if_pos rfl).symm

theorem rc5LastAfter_eq (s : MainState) (i : IrIteration) :
    rc5LastAfter s.rc5Last i.inputs = (s.timer.poll releaseUs Rc5Data.zero i.poll).last := by
  unfold rc5LastAfter IrIteration.poll IrIteration.frame
  by_cases h13 : i.inputs.irValueBits = 13
  · simp only [i.inactive, h13, Timer.poll_some, i.time, Bool.false_eq_true, if_true, if_false]
  · by_cases hlate : i.inputs.time - s.rc5Last > 100000
    · have hpoll := Timer.poll_late Rc5Data.zero ((late_iff s i).1 hlate)
      simp only [i.inactive, h13, hlate, hpoll, i.time', Bool.false_eq_true, if_true, if_false]
    · have hpoll := Timer.poll_early Rc5Data.zero ((late_iff s i).not.1 hlate)
      simp only [i.inactive, h13, hlate, hpoll, Bool.false_eq_true, if_false]
      rfl

/-- The blocks poll the timer and report its changes. -/
theorem irBlocks_step {s : MainState} (hnew : s.rc5New = false) (i : IrIteration) :
    (irBlocks s i.inputs).rc5New = false ∧
      (irBlocks s i.inputs).timer = s.timer.poll releaseUs Rc5Data.zero i.poll ∧
      (irBlocks s i.inputs).sent = s.sent ++
        if (s.timer.poll releaseUs Rc5Data.zero i.poll).value = s.rc5Data then []
        else irSent (s.timer.poll releaseUs Rc5Data.zero i.poll).value := by
  rw [irBlocks_eq hnew, newKeystate_eq, rc5LastAfter_eq]
  refine ⟨hnew, ?_, ?_⟩
  · split_ifs with h
    · rw [MainState.timer, Option.getD_none, ← h]
    · rfl
  · split_ifs <;> rfl

theorem map_report_irSent (d : Rc5Data) : (irSent d).map (·.report) = keystateReports d := by
  unfold irSent keystateReports
  by_cases h : rc5Key d = 0 <;> simp only [h, if_true, if_false, ne_eq, not_true, not_false_iff] <;>
    rfl

/-! ## Runs -/

theorem sent_run {s : MainState} {r : Ideal Rc5Data} {now : Nat} {is : List IrIteration}
    (hnew : s.rc5New = false) (h : Agree releaseUs Rc5Data.zero now s.timer r)
    (hchain : (now :: is.map (·.now)).IsChain fun a b => a ≤ b ∧ b - a < 2 ^ 32 - 100001) :
    (run irBlocks s (is.map (·.inputs))).sent.map (·.report) =
      s.sent.map (·.report) ++ (outputs inEffect dueReports r is).flatten := by
  induction is generalizing s r now with
  | nil => simp [outputs]
  | cons i is ih =>
    rw [List.map_cons, List.isChain_cons_cons] at hchain
    obtain ⟨⟨hle, hgap⟩, hchain⟩ := hchain
    obtain ⟨hnew', htimer, hsent⟩ := irBlocks_step hnew i
    have hpoll := h.poll (p := i.poll) hle (by simp only [IrIteration.poll, releaseUs]; omega)
    have hdue : ((irBlocks s i.inputs).sent).map (·.report) =
        s.sent.map (·.report) ++ dueReports r i := by
      rw [hsent, List.map_append, dueReports, inEffect, ← hpoll.value, ← h.value]
      split_ifs with hv hv' hv'
      · rfl
      · exact absurd hv hv'
      · exact absurd hv' hv
      · rw [map_report_irSent]
    rw [List.map_cons, run_cons, ih hnew' (htimer ▸ hpoll) hchain, hdue, outputs,
      List.flatten_cons, List.append_assoc]
    rfl

/-- **Key presses and releases on the wrapping clock are those on unbounded time.** -/
theorem irBlocks_sent (pin16 : Bool) (start : Nat) (is : List IrIteration)
    (hchain : (is.map (·.now)).IsChain fun a b => a ≤ b ∧ b - a < 2 ^ 32 - 100001) :
    (run irBlocks (MainState.start pin16 (BitVec.ofNat 32 start)) (is.map (·.inputs))).sent.map
        (·.report) =
      (outputs inEffect dueReports ⟨start, Rc5Data.zero⟩ is).flatten := by
  cases is with
  | nil => rfl
  | cons i is =>
    have hfirst : (i.now :: (i :: is).map (·.now)).IsChain
        fun a b => a ≤ b ∧ b - a < 2 ^ 32 - 100001 :=
      List.isChain_cons_cons.2 ⟨⟨Nat.le_refl _, by simp⟩, hchain⟩
    exact sent_run rfl (agree_rest i.now _ start) hfirst

/-- An iteration that reads `valueBits` and `value` from `ir`. -/
def IrIteration.of (now : Nat) (valueBits value : BitVec 32) : IrIteration where
  inputs := ⟨false, false, true, false, valueBits, value, BitVec.ofNat 32 now, BitVec.ofNat 32 now⟩
  now := now
  inactive := rfl
  time := rfl
  time' := rfl

/-- A frame just before the clock wraps, and its release after that. -/
theorem irBlocks_sent_wrap :
    (run irBlocks (MainState.start true (BitVec.ofNat 32 (2 ^ 32 - 50)))
      ([IrIteration.of (2 ^ 32 - 40) 13 0x1613, IrIteration.of (2 ^ 32 + 50) 0 0x1613,
        IrIteration.of (2 ^ 32 + 100000) 0 0x1613].map (·.inputs))).sent.map (·.report) =
      [Report.zero, ⟨0, oneKey HidKey.volumeUp⟩, Report.zero] :=
  (irBlocks_sent true (2 ^ 32 - 50) [IrIteration.of (2 ^ 32 - 40) 13 0x1613,
    IrIteration.of (2 ^ 32 + 50) 0 0x1613, IrIteration.of (2 ^ 32 + 100000) 0 0x1613]
    (by decide)).trans (by decide)

end VolumeControl
