import VolumeControl.Lib.Walk
import VolumeControl.Main.Shown

/-!
# Turning the knob

The knob is a rotary encoder on the pins 16 and 17. Its position is an integer,
and one full cycle of the two pins is a detent of four positions. `main` reacts
to the rising edges of pin 16: those upwards come between the positions `4 k`
and `4 k + 1`, and press VOLUME DOWN; those downwards come between `4 k + 3` and
`4 k + 2`, and press VOLUME UP.

`knob_presses` counts the presses of any walk of the knob that the loop keeps up
with. A turn in one direction presses one key only, once for each detent; a
contact that bounces at the boundary presses again each time it comes back.
-/

namespace VolumeControl

open Trace Walk

/-- Pin 16 at a position of the knob. -/
def pin16At (p : Int) : Bool := p % 4 = 1 ∨ p % 4 = 2

def pin17At (p : Int) : Bool := p % 4 = 2 ∨ p % 4 = 3

/-- The iteration reads the pins at the position `p`. -/
def ReadsAt (i : Inputs) (p : Int) : Prop := i.pin16 = pin16At p ∧ i.pin17 = pin17At p

/-- The detents below a position, for the edges at `4 k + 1` and those at `4 k + 3`. -/
def detentUp (p : Int) : Int := (p + 3) / 4

def detentDown (p : Int) : Int := (p + 1) / 4

/-- The presses of a key by the knob. -/
def knobPresses (key : Byte) (sent : List Sent) : Nat :=
  sent.countP fun e => e.site = .knob ∧ e.report = ⟨0, oneKey key⟩

theorem knobPresses_append (key : Byte) (sent sent' : List Sent) :
    knobPresses key (sent ++ sent') = knobPresses key sent + knobPresses key sent' :=
  List.countP_append

theorem knobPresses_muteSent (key : Byte) (clear : Bool) (i : Inputs) :
    knobPresses key (muteSent clear i) = 0 := by
  cases h : i.pin18 <;> cases clear <;> simp [knobPresses, muteSent, h]

theorem knobPresses_irSent (key : Byte) (d : Rc5Data) : knobPresses key (irSent d) = 0 := by
  by_cases h : rc5Key d = 0 <;> simp [knobPresses, irSent, h]

/-- Only the knob's own reports count. -/
theorem knobPresses_iteration {s : MainState} (hnew : s.rc5New = false) (key : Byte) (i : Inputs) :
    knobPresses key (iteration s i).sent =
      knobPresses key s.sent + knobPresses key (knobSent s.lastState i) := by
  have hir (o : Option Rc5Data) : knobPresses key ((o.map irSent).getD []) = 0 := by
    cases o with
    | none => rfl
    | some d => exact knobPresses_irSent key d
  simp only [iteration_eq hnew, knobPresses_append, knobPresses_muteSent, hir, Nat.add_zero]

theorem knobPresses_knobSent {key : Byte} (hkey : key = HidKey.volumeUp ∨ key = HidKey.volumeDown)
    (last : Bool) (i : Inputs) : knobPresses key (knobSent last i) =
      if last = false ∧ i.pin16 = true ∧ knobKey i = key then 1 else 0 := by
  have hne : oneKey HidKey.volumeUp ≠ oneKey HidKey.volumeDown := by decide
  have hne' : HidKey.volumeUp ≠ HidKey.volumeDown := by decide
  rcases hkey with rfl | rfl <;> cases last <;> cases h16 : i.pin16 <;> cases h17 : i.pin17 <;>
    simp [knobPresses, knobSent, knobKey, h16, h17, hne, hne.symm, hne', hne'.symm]

/-- What a step of the knob presses. -/
theorem knobPresses_step {p q : Int} (hstep : |q - p| ≤ 1) {i : Inputs} (hi : ReadsAt i q) :
    knobPresses HidKey.volumeDown (knobSent (pin16At p) i) =
        (if detentUp p < detentUp q then 1 else 0) ∧
      knobPresses HidKey.volumeUp (knobSent (pin16At p) i) =
        (if detentDown q < detentDown p then 1 else 0) := by
  obtain ⟨h16, h17⟩ := hi
  obtain ⟨hlow, hhigh⟩ : -1 ≤ q - p ∧ q - p ≤ 1 := abs_le.1 hstep
  have hne : HidKey.volumeUp ≠ HidKey.volumeDown := by decide
  have hdown : knobKey i = HidKey.volumeDown ↔ pin16At q ≠ pin17At q := by
    rw [knobKey, h16, h17]
    split <;> simp_all
  have hup : knobKey i = HidKey.volumeUp ↔ pin16At q = pin17At q := by
    rw [knobKey, h16, h17]
    split <;> simp_all [hne.symm]
  rw [knobPresses_knobSent (.inr rfl), knobPresses_knobSent (.inl rfl)]
  unfold detentUp detentDown
  constructor
  · refine if_congr ?_ rfl rfl
    rw [hdown, h16]
    simp only [pin16At, pin17At, decide_eq_false_iff_not, decide_eq_true_eq, ne_eq, decide_eq_decide]
    omega
  · refine if_congr ?_ rfl rfl
    rw [hup, h16]
    simp only [pin16At, pin17At, decide_eq_false_iff_not, decide_eq_true_eq, decide_eq_decide]
    omega

theorem knobPresses_run {s : MainState} (hs : LoopInv s) {p : Int}
    (hp : s.lastState = pin16At p) {is : List Inputs} {ps : List Int}
    (hreads : List.Forall₂ ReadsAt is ps) (hwalk : Steps (fun p q => |q - p| ≤ 1) p ps) :
    knobPresses HidKey.volumeDown (run iteration s is).sent =
        knobPresses HidKey.volumeDown s.sent + climbs detentUp p ps ∧
      knobPresses HidKey.volumeUp (run iteration s is).sent =
        knobPresses HidKey.volumeUp s.sent + falls detentDown p ps := by
  induction hreads generalizing s p with
  | nil => exact ⟨rfl, rfl⟩
  | @cons i q is ps hi _ ih =>
    obtain ⟨hstep, hrest⟩ := hwalk
    obtain ⟨hdown, hup⟩ := knobPresses_step hstep hi
    have hlast : (iteration s i).lastState = pin16At q := hi.1
    obtain ⟨hdown', hup'⟩ := ih (loopInv_iteration hs i) hlast hrest
    rw [run_cons, hdown', hup', knobPresses_iteration hs.new, knobPresses_iteration hs.new, hp,
      hdown, hup, climbs, falls, Nat.add_assoc, Nat.add_assoc]
    exact ⟨rfl, rfl⟩

theorem knobPresses_start {p : Int} (time : BitVec 32) {is : List Inputs} {ps : List Int}
    (hreads : List.Forall₂ ReadsAt is ps) (hwalk : Steps (fun p q => |q - p| ≤ 1) p ps) :
    knobPresses HidKey.volumeDown (run iteration (.start (pin16At p) time) is).sent =
        climbs detentUp p ps ∧
      knobPresses HidKey.volumeUp (run iteration (.start (pin16At p) time) is).sent =
        falls detentDown p ps := by
  obtain ⟨hdown, hup⟩ := knobPresses_run (loopInv_start (pin16At p) time) rfl hreads hwalk
  exact ⟨hdown.trans (Nat.zero_add _), hup.trans (Nat.zero_add _)⟩

/-- No height of a detent changes by more than one where the knob does not. -/
theorem steps_detent {p : Int} {ps : List Int} (h : Steps (fun p q => |q - p| ≤ 1) p ps) :
    Steps (fun p q => |detentUp q - detentUp p| ≤ 1) p ps ∧
      Steps (fun p q => |detentDown q - detentDown p| ≤ 1) p ps := by
  refine ⟨h.imp fun p q hstep => ?_, h.imp fun p q hstep => ?_⟩
  · have hle := abs_le.1 hstep
    refine abs_le.2 ?_
    unfold detentUp
    omega
  · have hle := abs_le.1 hstep
    refine abs_le.2 ?_
    unfold detentDown
    omega

/-- **What the knob presses**, however it is turned: VOLUME DOWN once for each detent gained, and once
more for each time it has come back over one, and VOLUME UP once for each detent lost likewise. -/
theorem knob_presses (p : Int) (time : BitVec 32) (is : List Inputs) (ps : List Int)
    (hreads : List.Forall₂ ReadsAt is ps) (hwalk : Steps (fun p q => |q - p| ≤ 1) p ps) :
    let sent := (run iteration (.start (pin16At p) time) is).sent
    (knobPresses HidKey.volumeDown sent : Int) =
        detentUp (stop p ps) - detentUp p + falls detentUp p ps ∧
      (knobPresses HidKey.volumeUp sent : Int) =
        detentDown p - detentDown (stop p ps) + climbs detentDown p ps := by
  intro sent
  obtain ⟨hdown, hup⟩ := knobPresses_start time hreads hwalk
  have hup' := climbs_sub_falls (steps_detent hwalk).1
  have hdown' := climbs_sub_falls (steps_detent hwalk).2
  rw [hdown, hup]
  constructor
  · omega
  · omega

/-- The knob trembles at a detent: two presses, though it ends one position further only. -/
theorem knob_presses_tremble :
    let is : List Inputs := [1, 0, 1].map fun p => ⟨pin16At p, pin17At p, true, true, 0, 0, 0, 0⟩
    let sent := (run iteration (.start (pin16At 0) 0) is).sent
    (knobPresses HidKey.volumeDown sent : Int) =
        detentUp (stop 0 [1, 0, 1]) - detentUp 0 + falls detentUp 0 [1, 0, 1] ∧
      (knobPresses HidKey.volumeUp sent : Int) =
        detentDown 0 - detentDown (stop 0 [1, 0, 1]) + climbs detentDown 0 [1, 0, 1] :=
  knob_presses 0 0 _ [1, 0, 1] (by simp [ReadsAt])
    ⟨by decide, by decide, by decide, trivial⟩

/-- **A turn in one direction** presses its key once for each detent, and never the other key. -/
theorem knob_turn (p : Int) (time : BitVec 32) (is : List Inputs) (ps : List Int)
    (hreads : List.Forall₂ ReadsAt is ps) :
    let sent := (run iteration (.start (pin16At p) time) is).sent
    (Steps (fun p q => p ≤ q ∧ q ≤ p + 1) p ps →
        knobPresses HidKey.volumeDown sent = (detentUp (stop p ps) - detentUp p).toNat ∧
          knobPresses HidKey.volumeUp sent = 0) ∧
      (Steps (fun p q => q ≤ p ∧ p ≤ q + 1) p ps →
        knobPresses HidKey.volumeUp sent = (detentDown p - detentDown (stop p ps)).toNat ∧
          knobPresses HidKey.volumeDown sent = 0) := by
  intro sent
  constructor
  · intro hturn
    have hwalk : Steps (fun p q => |q - p| ≤ 1) p ps :=
      hturn.imp fun p q hstep => abs_le.2 (by omega)
    obtain ⟨hdown, hup⟩ := knobPresses_start time hreads hwalk
    have hgain := climbs_sub_falls (steps_detent hwalk).1
    have hfalls : falls detentUp p ps = 0 := falls_eq_zero <| hturn.imp fun p q hstep => by
      unfold detentUp
      omega
    have hother : falls detentDown p ps = 0 := falls_eq_zero <| hturn.imp fun p q hstep => by
      unfold detentDown
      omega
    rw [hdown, hup]
    exact ⟨by omega, hother⟩
  · intro hturn
    have hwalk : Steps (fun p q => |q - p| ≤ 1) p ps :=
      hturn.imp fun p q hstep => abs_le.2 (by omega)
    obtain ⟨hdown, hup⟩ := knobPresses_start time hreads hwalk
    have hgain := climbs_sub_falls (steps_detent hwalk).2
    have hclimbs : climbs detentDown p ps = 0 := climbs_eq_zero <| hturn.imp fun p q hstep => by
      unfold detentDown
      omega
    have hother : climbs detentUp p ps = 0 := climbs_eq_zero <| hturn.imp fun p q hstep => by
      unfold detentUp
      omega
    rw [hdown, hup]
    exact ⟨by omega, hother⟩

/-- Two detents up, from between two. -/
theorem knob_turn_two :
    let is : List Inputs := [3, 4, 5, 6, 7, 8, 9].map fun p =>
      ⟨pin16At p, pin17At p, true, true, 0, 0, 0, 0⟩
    let sent := (run iteration (.start (pin16At 2) 0) is).sent
    knobPresses HidKey.volumeDown sent = 2 ∧ knobPresses HidKey.volumeUp sent = 0 :=
  (knob_turn 2 0 _ [3, 4, 5, 6, 7, 8, 9] (by simp [ReadsAt])).1 (by simp)

end VolumeControl
