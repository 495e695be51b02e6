import VolumeControl.Ir.Signal
import VolumeControl.Lib.Channel
import VolumeControl.Main.Handover

/-!
# Delivery of the frames

What `main` decodes against what the line carried. The fields `value` and
`valueBits` are a slot for one frame: the time out of a reception with 13 bits
puts a frame there, `main`'s read of `value` takes it, and the next reception
to start clears the slot, whether the frame has been taken or not. As a
`Channel` this keeps the order, and it conveys every frame exactly when no
reception starts while a frame waits (`decoded_eq_frames_iff`). All of this is
about runs in which no tick disturbs `main` in its block (`Undisturbed`).

`taken_within` says how long a frame waits: three accesses of `main`, wherever
in its loop it is. `bursts_decoded` is the whole way from the line to
`rc5_decode`.
-/

namespace VolumeControl

open Trace ShiftRegister

/-- The frame that waits for `main`. -/
def waiting (s : Handover) : Option (BitVec 32) :=
  if s.ir.active = false ∧ s.ir.valueBits = 13 ∧ s.pc ≠ .reset then some s.ir.value else none

/-- The way of a frame from the interrupt to `main`. -/
def delivery : Channel Handover HandoverStep (BitVec 32) where
  step := handoverStep
  held s := (waiting s).toList
  put s st := match st with
    | .tick new => frameEnds s.ir new
    | .main => []
  take s st := match st with
    | .tick _ => []
    | .main => if s.pc = .readValue then [s.ir.value] else []

/-- No reception starts between `main`'s check for 13 bits and its read of `value`, and none
accepts a bit while `main` is in the block. -/
def Undisturbed (s : Handover) : HandoverStep → Prop
  | .tick new => (s.pc = .readValue → starts s.ir new = false) ∧
    (s.pc ≠ .outside → accepts s.ir new = false)
  | .main => True

/-- No reception starts while a frame waits. -/
def NoOverrun (s : Handover) : HandoverStep → Prop
  | .tick new => starts s.ir new = true → waiting s = none
  | .main => True

instance (s : Handover) : (st : HandoverStep) → Decidable (Undisturbed s st)
  | .tick new => inferInstanceAs (Decidable ((s.pc = .readValue → starts s.ir new = false) ∧
      (s.pc ≠ .outside → accepts s.ir new = false)))
  | .main => inferInstanceAs (Decidable True)

instance (s : Handover) : (st : HandoverStep) → Decidable (NoOverrun s st)
  | .tick new => inferInstanceAs (Decidable (starts s.ir new = true → waiting s = none))
  | .main => inferInstanceAs (Decidable True)

/-- What `main` knows of `ir` in the block. -/
structure BlockInv (s : Handover) : Prop where
  fresh : s.pc ≠ .outside → s.ir.active = true → s.ir.valueBits = 0
  checked : s.pc = .readValue → s.ir.active = false ∧ s.ir.valueBits = 13

/-! ## One step -/

/-- What a tick is to the channel. -/
theorem tick_cases (ir : Ir) (new : Bool) :
    (starts ir new = false ∧ accepts ir new = false ∧ frameEnds ir new = [] ∧
      (irqSampleIr ir new).active = ir.active ∧ (irqSampleIr ir new).value = ir.value ∧
      (irqSampleIr ir new).valueBits = ir.valueBits) ∨
    (starts ir new = true ∧ accepts ir new = false ∧ frameEnds ir new = [] ∧ ir.active = false ∧
      irqSampleIr ir new = ⟨true, new, 1, 0, 0⟩) ∨
    (starts ir new = false ∧ accepts ir new = false ∧ ir.active = true ∧
      frameEnds ir new = (if ir.valueBits = 13 then [ir.value] else []) ∧
      irqSampleIr ir new = { ir with active := false, count := ir.count + 1 }) ∨
    (starts ir new = false ∧ accepts ir new = true ∧ frameEnds ir new = [] ∧ ir.active = true ∧
      (irqSampleIr ir new).active = true) := by
  rcases irqSampleIr_cases ir new .zero with ⟨ha, hv, hb, hs, hacc, -⟩ | ⟨ha, e, hs, hacc, -⟩ |
    ⟨ha, e, hs, hacc, -⟩ | ⟨ha, e, hs, hacc, -⟩
  · exact .inl ⟨hs, hacc, by simp [frameEnds, ha], ha, hv, hb⟩
  · exact .inr (.inl ⟨hs, hacc, frameEnds_inactive ha new, ha, e⟩)
  · exact .inr (.inr (.inl ⟨hs, hacc, ha, by simp [frameEnds, ha, e], e⟩))
  · exact .inr (.inr (.inr ⟨hs, hacc, by simp [frameEnds, e], ha, by rw [e]⟩))

theorem BlockInv.step {s : Handover} (h : BlockInv s) {st : HandoverStep}
    (ok : Undisturbed s st) : BlockInv (handoverStep s st) := by
  cases st with
  | tick new =>
    obtain ⟨hstart, hacc⟩ := ok
    rcases tick_cases s.ir new with ⟨-, -, -, ha, -, hb⟩ | ⟨hs, -, -, -, e⟩ | ⟨-, -, ha, -, e⟩ |
      ⟨-, hs, -, ha, ha'⟩
    · exact ⟨fun hp h' => hb.trans (h.fresh hp (ha ▸ h')),
        fun hp => ⟨ha.trans (h.checked hp).1, hb.trans (h.checked hp).2⟩⟩
    · refine ⟨fun _ _ => by simp [handoverStep, e], fun hp => ?_⟩
      simp [hstart hp] at hs
    · refine ⟨fun _ h' => by simp [handoverStep, e] at h', fun hp => ?_⟩
      simp [(h.checked hp).1] at ha
    · have hout : s.pc = .outside := by
        by_contra hp
        simp [hacc hp] at hs
      exact ⟨fun hp => absurd hout hp, fun hp => by simp [handoverStep, hout] at hp⟩
  | main =>
    cases hpc : s.pc with
    | outside =>
      cases ha : s.ir.active with
      | true =>
        simp only [handoverStep, mainAccess, hpc, ha, if_true]
        exact ⟨fun hp => absurd rfl hp, fun hp => by cases hp⟩
      | false =>
        simp only [handoverStep, mainAccess, hpc, ha, Bool.false_eq_true, if_false]
        exact ⟨fun _ h' => by simp [ha] at h', fun hp => by cases hp⟩
    | checkBits =>
      have hfresh := h.fresh (by simp [hpc])
      simp only [handoverStep, mainAccess, hpc]
      by_cases h13 : s.ir.valueBits = 13
      · simp only [h13, if_true]
        refine ⟨fun _ => hfresh, fun _ => ⟨?_, h13⟩⟩
        by_contra ha
        simp [hfresh (by simpa using ha)] at h13
      · simp only [h13, if_false]
        exact ⟨fun _ => hfresh, fun hp => by cases hp⟩
    | readValue =>
      simp only [handoverStep, mainAccess, hpc]
      exact ⟨fun _ => h.fresh (by simp [hpc]), fun hp => by cases hp⟩
    | reset =>
      simp only [handoverStep, mainAccess, hpc]
      exact ⟨fun hp => absurd rfl hp, fun hp => by cases hp⟩

theorem waiting_active {s : Handover} (ha : s.ir.active = true) : waiting s = none := by
  simp [waiting, ha]

/-- A tick that starts no reception conveys what is in the slot. -/
theorem conveys_tick {s : Handover} (h : BlockInv s) {new : Bool}
    (hs : starts s.ir new = false) : delivery.Conveys s (.tick new) := by
  unfold Channel.Conveys
  rcases tick_cases s.ir new with ⟨-, -, he, ha, hv, hb⟩ | ⟨hs', -⟩ | ⟨-, -, ha, he, e⟩ |
    ⟨-, -, he, ha, ha'⟩
  · simp [delivery, he, waiting, handoverStep, ha, hv, hb]
  · simp [hs] at hs'
  · -- the time out: while `main` is in the block there is nothing to put
    have hpc : s.ir.valueBits = 13 → s.pc ≠ .reset := fun h13 hp => by
      simp [h.fresh (by simp [hp]) ha] at h13
    by_cases h13 : s.ir.valueBits = 13
    · simp [delivery, he, waiting, handoverStep, ha, e, h13, hpc h13]
    · have hput : frameEnds s.ir new = [] := he.trans (if_neg h13)
      have hheld : waiting (handoverStep s (.tick new)) = none :=
        if_neg fun hw => h13 (by simpa [handoverStep, e] using hw.2.1)
      simp [delivery, hput, hheld, waiting_active ha]
  · simp [delivery, he, waiting_active ha, waiting_active (s := handoverStep s (.tick new)) ha']

theorem conveys_main {s : Handover} (h : BlockInv s) : delivery.Conveys s .main := by
  unfold Channel.Conveys
  cases hpc : s.pc with
  | outside =>
    cases ha : s.ir.active <;> simp [delivery, waiting, handoverStep, mainAccess, hpc, ha]
  | checkBits =>
    by_cases h13 : s.ir.valueBits = 13 <;>
      simp [delivery, waiting, handoverStep, mainAccess, hpc, h13]
  | readValue =>
    obtain ⟨ha, h13⟩ := h.checked hpc
    simp [delivery, waiting, handoverStep, mainAccess, hpc, ha, h13]
  | reset => simp [delivery, waiting, handoverStep, mainAccess, hpc]

/-- A reception that starts puts nothing and clears the slot. -/
theorem held_start {s : Handover} {new : Bool} (hs : starts s.ir new = true) :
    delivery.put s (.tick new) = [] ∧ delivery.held (delivery.step s (.tick new)) = [] := by
  rcases tick_cases s.ir new with ⟨hs', -⟩ | ⟨-, -, he, -, e⟩ | ⟨hs', -⟩ | ⟨hs', -⟩
  · simp [hs] at hs'
  · simp [delivery, he, waiting, handoverStep, e]
  · simp [hs] at hs'
  · simp [hs] at hs'

theorem moves_step {s : Handover} (h : BlockInv s) (st : HandoverStep) : delivery.Moves s st := by
  cases st with
  | main => exact (conveys_main h).moves
  | tick new =>
    cases hs : starts s.ir new with
    | false => exact (conveys_tick h hs).moves
    | true =>
      obtain ⟨hput, hheld⟩ := held_start hs
      unfold Channel.Moves
      rw [hput, hheld]
      exact List.nil_sublist _

/-- **A frame is lost** exactly by a reception that starts while it waits. -/
theorem conveys_step_iff {s : Handover} (h : BlockInv s) (st : HandoverStep) :
    delivery.Conveys s st ↔ NoOverrun s st := by
  cases st with
  | main => exact iff_of_true (conveys_main h) trivial
  | tick new =>
    cases hs : starts s.ir new with
    | false => exact iff_of_true (conveys_tick h hs) fun hs' => by simp [hs] at hs'
    | true =>
      obtain ⟨hput, hheld⟩ := held_start hs
      unfold Channel.Conveys
      rw [hput, hheld, List.append_nil]
      cases hw : waiting s <;> simp [delivery, NoOverrun, hs, hw]

/-! ## Runs -/

theorem decoded_run (s : Handover) (steps : List HandoverStep) :
    (run handoverStep s steps).decoded.map Decoded.value =
      s.decoded.map Decoded.value ++ delivery.takes s steps := by
  induction steps generalizing s with
  | nil => simp
  | cons st steps ih =>
    rw [run_cons, ih, Channel.takes_cons, ← List.append_assoc]
    refine congrArg (· ++ _) ?_
    cases st with
    | tick new => simp [handoverStep, delivery]
    | main =>
      cases hpc : s.pc with
      | outside =>
        cases ha : s.ir.active <;> simp [handoverStep, mainAccess, delivery, hpc, ha]
      | checkBits => simp [handoverStep, mainAccess, delivery, hpc]
      | readValue => simp [handoverStep, mainAccess, delivery, hpc]
      | reset => simp [handoverStep, mainAccess, delivery, hpc]

/-- The samples of a run. -/
def ticks (steps : List HandoverStep) : List Bool :=
  steps.filterMap fun
    | .tick new => some new
    | .main => none

/-- `ir` as it would be if `main` never wrote to it, but for the count of a reception that is
over. -/
def Agrees (ir ir' : Ir) : Prop :=
  ∃ n, ir' = { ir with valueBits := n } ∧ (ir.active = true → n = ir.valueBits)

theorem Agrees.tick {ir ir' : Ir} (h : Agrees ir ir') (new : Bool) :
    frameEnds ir' new = frameEnds ir new ∧ Agrees (irqSampleIr ir new) (irqSampleIr ir' new) := by
  obtain ⟨n, rfl, hn⟩ := h
  by_cases hact : ir.active = true
  · rw [show { ir with valueBits := n } = ir by rw [hn hact]]
    exact ⟨rfl, _, rfl, fun _ => rfl⟩
  · have ha : ir.active = false := by simpa using hact
    have ha' : { ir with valueBits := n }.active = false := ha
    refine ⟨(frameEnds_inactive ha' new).trans (frameEnds_inactive ha new).symm, ?_⟩
    by_cases hl : new = ir.last
    · rw [irqSampleIr_idle ha hl, irqSampleIr_idle ha' hl]
      exact ⟨n, rfl, hn⟩
    · rw [irqSampleIr_start ha hl, irqSampleIr_start ha' hl]
      exact ⟨0, rfl, fun _ => rfl⟩

/-- No access of `main` moves anything but the count of a reception that is over. -/
theorem Agrees.main {s : Handover} {ir' : Ir} (h : Agrees s.ir ir') (hinv : BlockInv s) :
    Agrees (mainAccess s).ir ir' := by
  cases hpc : s.pc with
  | outside => cases ha : s.ir.active <;> simpa [mainAccess, hpc, ha] using h
  | checkBits => simpa [mainAccess, hpc] using h
  | readValue => simpa [mainAccess, hpc] using h
  | reset =>
    obtain ⟨n, rfl, hn⟩ := h
    refine ⟨n, by simp [mainAccess, hpc], fun ha => ?_⟩
    have ha' : s.ir.active = true := by simpa [mainAccess, hpc] using ha
    simp [mainAccess, hpc, hn ha', hinv.fresh (by simp [hpc]) ha']

theorem puts_run {s : Handover} {ir' : Ir} (hinv : BlockInv s) (h : Agrees s.ir ir')
    {steps : List HandoverStep} (ok : AllSteps handoverStep Undisturbed s steps) :
    delivery.puts s steps = frames ir' (ticks steps) := by
  induction steps generalizing s ir' with
  | nil => rfl
  | cons st steps ih =>
    obtain ⟨hok, hrest⟩ := ok
    have hinv' := hinv.step hok
    cases st with
    | tick new =>
      obtain ⟨he, hagree⟩ := h.tick new
      have hticks : ticks (.tick new :: steps) = new :: ticks steps := rfl
      rw [Channel.puts_cons, hticks, frames_cons, he]
      exact congrArg _ (ih hinv' hagree hrest)
    | main => exact ih hinv' (h.main hinv) hrest

theorem blockInv_start : BlockInv .start := ⟨fun hp => absurd rfl hp, fun hp => by cases hp⟩

theorem allSteps_moves {s : Handover} (hinv : BlockInv s) {steps : List HandoverStep}
    (ok : AllSteps handoverStep Undisturbed s steps) :
    AllSteps delivery.step delivery.Moves s steps :=
  ok.imp_of_inv BlockInv (fun _ _ h hok => h.step hok) (fun _ st h _ => moves_step h st) hinv

/-- What `main` has decoded, and the frame that waits. -/
def delivered (steps : List HandoverStep) : List (BitVec 32) :=
  (run handoverStep .start steps).decoded.map Decoded.value ++
    (waiting (run handoverStep .start steps)).toList

theorem delivered_eq (steps : List HandoverStep) : delivered steps =
    delivery.takes .start steps ++ delivery.held (run delivery.step .start steps) := by
  rw [delivered, decoded_run]
  rfl

theorem puts_start {steps : List HandoverStep} (ok : AllSteps handoverStep Undisturbed .start steps) :
    delivery.puts .start steps = frames Ir.zero (ticks steps) :=
  puts_run blockInv_start ⟨0, rfl, fun _ => rfl⟩ ok

theorem delivered_frames {steps : List HandoverStep}
    (ok : AllSteps handoverStep Undisturbed .start steps) :
    (delivered steps).Sublist (frames Ir.zero (ticks steps)) ∧
      (delivered steps = frames Ir.zero (ticks steps) ↔
        AllSteps handoverStep NoOverrun .start steps) := by
  rw [delivered_eq, ← puts_start ok]
  exact Channel.delivers BlockInv (fun _ _ h hok => h.step hok) (fun _ st h => moves_step h st)
    (fun _ st h => conveys_step_iff h st) blockInv_start ok

theorem delivered_sublist {steps : List HandoverStep}
    (ok : AllSteps handoverStep Undisturbed .start steps) :
    (delivered steps).Sublist (frames Ir.zero (ticks steps)) := (delivered_frames ok).1

theorem delivered_eq_iff {steps : List HandoverStep}
    (ok : AllSteps handoverStep Undisturbed .start steps) :
    delivered steps = frames Ir.zero (ticks steps) ↔
      AllSteps handoverStep NoOverrun .start steps := (delivered_frames ok).2

/-- **Every frame is decoded once, in order, unless it is overrun.** If no tick disturbs `main` in
its block, what it has decoded and the frame that waits are among the frames of the line, in their
order; they are all of them exactly when no reception has started while a frame waited. -/
theorem decoded_eq_frames_iff (steps : List HandoverStep)
    (ok : AllSteps handoverStep Undisturbed .start steps) :
    (delivered steps).Sublist (frames Ir.zero (ticks steps)) ∧
      (delivered steps = frames Ir.zero (ticks steps) ↔
        AllSteps handoverStep NoOverrun .start steps) :=
  delivered_frames ok

/-- A second frame ends before `main` has taken the first, which is lost. -/
theorem decoded_eq_frames_iff_overrun :
    (delivered (volUpTicks ++ volUpTicks)).Sublist
        (frames Ir.zero (ticks (volUpTicks ++ volUpTicks))) ∧
      (delivered (volUpTicks ++ volUpTicks) = frames Ir.zero (ticks (volUpTicks ++ volUpTicks)) ↔
        AllSteps handoverStep NoOverrun .start (volUpTicks ++ volUpTicks)) :=
  decoded_eq_frames_iff _ (by decide +kernel)

/-! ## From the line to `rc5_decode` -/

theorem BlockInv.run {s : Handover} (h : BlockInv s) {steps : List HandoverStep}
    (ok : AllSteps handoverStep Undisturbed s steps) : BlockInv (run handoverStep s steps) :=
  ok.run_inv BlockInv (fun _ _ hs hok => hs.step hok) h

theorem agrees_run {s : Handover} {ir' : Ir} (hinv : BlockInv s) (h : Agrees s.ir ir')
    {steps : List HandoverStep} (ok : AllSteps handoverStep Undisturbed s steps) :
    Agrees (run handoverStep s steps).ir (run irqSampleIr ir' (ticks steps)) := by
  induction steps generalizing s ir' with
  | nil => exact h
  | cons st steps ih =>
    obtain ⟨hok, hrest⟩ := ok
    cases st with
    | tick new => exact ih (hinv.step hok) (h.tick new).2 hrest
    | main => exact ih (hinv.step hok) (h.main hinv) hrest

theorem agrees_refl (ir : Ir) : Agrees ir ir := ⟨ir.valueBits, rfl, fun _ => rfl⟩

theorem ticks_append (steps steps' : List HandoverStep) :
    ticks (steps ++ steps') = ticks steps ++ ticks steps' := List.filterMap_append

/-- While the line has completed no frame there is nothing to overrun. -/
theorem noOverrun_of_frames_eq_nil {s : Handover} (hinv : BlockInv s) (hw : waiting s = none)
    {steps : List HandoverStep} (ok : AllSteps handoverStep Undisturbed s steps)
    (hframes : ∀ pre new, pre ++ [new] <+: ticks steps → frames s.ir pre = []) :
    AllSteps handoverStep NoOverrun s steps := by
  refine allSteps_iff.2 fun pre st post e => ?_
  cases st with
  | main => trivial
  | tick new =>
    intro _
    have hticks : ticks steps = ticks pre ++ [new] ++ ticks post := by
      rw [e, ticks_append, List.append_assoc]
      rfl
    have hpre := ok.of_prefix ⟨_, e.symm⟩
    have hputs := puts_run hinv (agrees_refl s.ir) hpre
    have hempty : delivery.held s = [] := by simp [delivery, hw]
    have hsub := Channel.moves_sublist (allSteps_moves hinv hpre)
    rw [hputs, hempty, hframes (ticks pre) new ⟨_, hticks.symm⟩] at hsub
    have hheld : (waiting (run handoverStep s pre)).toList = [] :=
      (List.append_eq_nil_iff.1 (List.sublist_nil.1 hsub)).2
    simpa using hheld

/-- How often `main` accesses `ir`. -/
def accesses (steps : List HandoverStep) : Nat := steps.countP (· = .main)

/-- The accesses of `main` until the frame that waits is taken. -/
def untilTaken (s : Handover) : Nat :=
  match waiting s, s.pc with
  | none, _ => 0
  | some _, .outside => 3
  | some _, .checkBits => 2
  | some _, .readValue => 1
  | some _, .reset => 0

theorem untilTaken_le (s : Handover) : untilTaken s ≤ 3 := by
  unfold untilTaken
  split <;> omega

theorem waiting_of_untilTaken {s : Handover} (h : untilTaken s = 0) : waiting s = none := by
  cases hw : waiting s with
  | none => rfl
  | some w =>
    have hpc : s.pc ≠ .reset := by
      intro hp
      simp [waiting, hp] at hw
    cases hp : s.pc <;> simp [untilTaken, hw, hp] at h hpc

/-- The line is high and the receiver inactive. -/
def Quiet (s : Handover) : Prop := s.ir.active = false ∧ s.ir.last = true

theorem Quiet.tick {s : Handover} (h : Quiet s) :
    (handoverStep s (.tick true)).ir = s.ir ∧ starts s.ir true = false ∧
      accepts s.ir true = false := by
  have hidle : irqSampleIr s.ir true = s.ir := irqSampleIr_idle h.1 h.2.symm
  exact ⟨hidle, by simp [starts, hidle, h.1], by simp [accepts, h.1]⟩

theorem untilTaken_tick {s : Handover} (h : Quiet s) :
    untilTaken (handoverStep s (.tick true)) = untilTaken s := by
  have hidle := h.tick.1
  have hwait : waiting (handoverStep s (.tick true)) = waiting s := by
    unfold waiting
    rw [hidle]
    rfl
  unfold untilTaken
  rw [hwait]
  rfl

theorem Quiet.main {s : Handover} (h : Quiet s) :
    Quiet (mainAccess s) ∧ untilTaken (mainAccess s) = untilTaken s - 1 := by
  obtain ⟨ha, hl⟩ := h
  cases hpc : s.pc with
  | outside =>
    by_cases h13 : s.ir.valueBits = 13#32 <;>
      simp [Quiet, mainAccess, untilTaken, waiting, hpc, ha, hl, h13]
  | checkBits =>
    by_cases h13 : s.ir.valueBits = 13#32 <;>
      simp [Quiet, mainAccess, untilTaken, waiting, hpc, ha, hl, h13]
  | readValue =>
    by_cases h13 : s.ir.valueBits = 13#32 <;>
      simp [Quiet, mainAccess, untilTaken, waiting, hpc, ha, hl, h13]
  | reset => simp [Quiet, mainAccess, untilTaken, waiting, hpc, ha, hl]

/-- **Three accesses of `main` take the frame**, wherever in its loop it is. -/
theorem taken_within {s : Handover} (h : Quiet s) {steps : List HandoverStep}
    (hhigh : ∀ new ∈ ticks steps, new = true) :
    Quiet (run handoverStep s steps) ∧
      untilTaken (run handoverStep s steps) = untilTaken s - accesses steps ∧
      AllSteps handoverStep NoOverrun s steps := by
  induction steps generalizing s with
  | nil => exact ⟨h, rfl, trivial⟩
  | cons st steps ih =>
    cases st with
    | tick new =>
      obtain rfl : new = true := hhigh new List.mem_cons_self
      obtain ⟨hir, hs, -⟩ := h.tick
      have hq : Quiet (handoverStep s (.tick true)) := by
        unfold Quiet
        rw [hir]
        exact h
      obtain ⟨hquiet, htaken, hno⟩ := ih hq fun new hnew => hhigh new (List.mem_cons_of_mem _ hnew)
      refine ⟨hquiet, ?_, fun hs' => by simp [hs] at hs', hno⟩
      rw [run_cons, htaken, untilTaken_tick h]
      rfl
    | main =>
      obtain ⟨hq, hmain⟩ := h.main
      obtain ⟨hquiet, htaken, hno⟩ := ih hq hhigh
      refine ⟨hquiet, ?_, trivial, hno⟩
      have haccess : accesses (.main :: steps) = accesses steps + 1 := by simp [accesses]
      change untilTaken (run handoverStep (mainAccess s) steps) = _
      rw [htaken, hmain, haccess]
      omega

/-- A burst with the accesses of `main` while it lasts, and those that follow while the line is
high: three at least. -/
structure Segment where
  burst : IrBurst
  during : List HandoverStep
  gap : List HandoverStep
  ticks_during : ticks during = burst.samples
  high : ∀ new ∈ ticks gap, new = true
  polled : 3 ≤ accesses gap

def Segment.steps (g : Segment) : List HandoverStep := g.during ++ g.gap

theorem Segment.ticks_gap (g : Segment) :
    ticks g.gap = List.replicate (ticks g.gap).length true :=
  List.eq_replicate_iff.2 ⟨rfl, g.high⟩

/-- At the end of a segment its frame has been taken, and nothing has been overrun. -/
theorem Segment.run_steps (g : Segment) {s : Handover} (hinv : BlockInv s) (hquiet : Quiet s)
    (hw : waiting s = none) (ok : AllSteps handoverStep Undisturbed s g.steps) :
    Quiet (run handoverStep s g.steps) ∧ waiting (run handoverStep s g.steps) = none ∧
      AllSteps handoverStep NoOverrun s g.steps := by
  obtain ⟨hok, -⟩ := (allSteps_append _ _ _).1 ok
  have hir : s.ir = ⟨false, true, s.ir.count, s.ir.value, s.ir.valueBits⟩ := by
    rw [← hquiet.1, ← hquiet.2]
  obtain ⟨hbody, -, hrun⟩ := g.burst.received s.ir.count s.ir.value s.ir.valueBits
  rw [← hir] at hbody hrun
  have hburst : AllSteps handoverStep NoOverrun s g.during := by
    refine noOverrun_of_frames_eq_nil hinv hw hok fun pre new hpre => ?_
    -- the word of the burst comes with its last sample only
    rw [g.ticks_during, IrBurst.samples] at hpre
    obtain ⟨rest, hrest⟩ : pre <+: g.burst.body := by
      obtain ⟨post, hpost⟩ := hpre
      have hpre : pre <+: g.burst.body ++ [true] := ⟨new :: post, by simpa using hpost⟩
      refine List.prefix_of_prefix_length_le hpre (List.prefix_append _ _) ?_
      have hlen := congrArg List.length hpost
      simp only [List.length_append, List.length_singleton] at hlen
      omega
    rw [← hrest, frames_append] at hbody
    exact (List.append_eq_nil_iff.1 hbody).1
  have hagree := agrees_run hinv (agrees_refl s.ir) hok
  rw [g.ticks_during, hrun] at hagree
  have hquiet' : Quiet (run handoverStep s g.during) := by
    obtain ⟨n, hn, -⟩ := hagree
    exact ⟨(congrArg Ir.active hn).symm, (congrArg Ir.last hn).symm⟩
  obtain ⟨hend, htaken, hgap⟩ := taken_within hquiet' g.high
  have hle := untilTaken_le (run handoverStep s g.during)
  have hpolled := g.polled
  rw [steps, run_append, allSteps_append]
  exact ⟨hend, waiting_of_untilTaken (by omega), hburst, hgap⟩

theorem run_segments {s : Handover} (hinv : BlockInv s) (hquiet : Quiet s)
    (hw : waiting s = none) {segments : List Segment}
    (ok : AllSteps handoverStep Undisturbed s (segments.flatMap Segment.steps)) :
    waiting (run handoverStep s (segments.flatMap Segment.steps)) = none ∧
      AllSteps handoverStep NoOverrun s (segments.flatMap Segment.steps) := by
  induction segments generalizing s with
  | nil => exact ⟨hw, trivial⟩
  | cons g segments ih =>
    rw [List.flatMap_cons, allSteps_append] at ok
    obtain ⟨hquiet', hw', hno⟩ := g.run_steps hinv hquiet hw ok.1
    obtain ⟨hend, hrest⟩ := ih (hinv.run ok.1) hquiet' hw' ok.2
    rw [List.flatMap_cons, run_append, allSteps_append]
    exact ⟨hend, hno, hrest⟩

theorem ticks_segments (segments : List Segment) : ticks (segments.flatMap Segment.steps) =
    stream (segments.map fun g => (g.burst, (ticks g.gap).length)) := by
  induction segments with
  | nil => rfl
  | cons g segments ih =>
    rw [List.flatMap_cons, ticks_append, ih, Segment.steps, ticks_append, g.ticks_during,
      g.ticks_gap]
    simp [stream]

/-- **Every frame of the remote reaches `rc5_decode`, once and in order**, when no tick disturbs
`main` in its block and it accesses `ir` three times between the end of each frame and the next. -/
theorem bursts_decoded (idle : List HandoverStep) (segments : List Segment)
    (hhigh : ∀ new ∈ ticks idle, new = true) (hidle : 35 ≤ (ticks idle).length)
    (ok : AllSteps handoverStep Undisturbed .start (idle ++ segments.flatMap Segment.steps)) :
    (run handoverStep .start (idle ++ segments.flatMap Segment.steps)).decoded.map
        (fun d => rc5Decode d.value) = segments.map (·.burst.frame.data) := by
  obtain ⟨hok, hok'⟩ := (allSteps_append _ _ _).1 ok
  have hticks : ticks idle = List.replicate (ticks idle).length true :=
    List.eq_replicate_iff.2 ⟨rfl, hhigh⟩
  obtain ⟨m, hm⟩ : ∃ m, (ticks idle).length = 35 + m := ⟨(ticks idle).length - 35, by omega⟩
  obtain ⟨hnil, cnt, w, n, hrun⟩ := frames_settle m
  rw [← hm, ← hticks] at hnil hrun
  have hno : AllSteps handoverStep NoOverrun .start idle := by
    refine noOverrun_of_frames_eq_nil blockInv_start rfl hok fun pre new hpre => ?_
    obtain ⟨rest, hrest⟩ := (List.prefix_append pre [new]).trans hpre
    rw [← hrest, frames_append] at hnil
    exact (List.append_eq_nil_iff.1 hnil).1
  have hquiet : Quiet (run handoverStep .start idle) := by
    obtain ⟨n', hn, -⟩ := agrees_run blockInv_start (agrees_refl Ir.zero) hok
    rw [hrun] at hn
    exact ⟨(congrArg Ir.active hn).symm, (congrArg Ir.last hn).symm⟩
  have hwait : waiting (run handoverStep .start idle) = none := by
    have hsub := delivered_sublist hok
    rw [hnil, List.sublist_nil] at hsub
    simpa using (List.append_eq_nil_iff.1 hsub).2
  obtain ⟨hend, hno'⟩ := run_segments (blockInv_start.run hok) hquiet hwait hok'
  have hall := (delivered_eq_iff ok).2 ((allSteps_append _ _ _).2 ⟨hno, hno'⟩)
  rw [delivered, run_append, hend, ticks_append, frames_append, hnil, hrun, ticks_segments,
    frames_stream_of_idle] at hall
  rw [Option.toList_none, List.append_nil, List.nil_append, List.map_map, ← run_append] at hall
  have hdecode := congrArg (List.map rc5Decode) hall
  rw [List.map_map, List.map_map] at hdecode
  exact hdecode.trans (List.map_congr_left fun g _ => rc5Decode_word g.burst.frame)

theorem ticks_map_tick (samples : List Bool) : ticks (samples.map .tick) = samples := by
  rw [ticks, List.filterMap_map]
  exact List.filterMap_some

/-- A key of the remote, and the loop once around after it. -/
def keyThenLoop (start : HalfBit) (f : Rc5Frame) : Segment where
  burst := ⟨f, start, evenHalves⟩
  during := (IrBurst.samples ⟨f, start, evenHalves⟩).map .tick
  gap := [.main, .tick true, .main, .main, .main]
  ticks_during := ticks_map_tick _
  high := by decide
  polled := by decide

/-- VOLUME UP and then VOLUME DOWN. -/
theorem bursts_decoded_two :
    (run handoverStep .start (List.replicate 35 (.tick true) ++
        [keyThenLoop ⟨8, by decide⟩ ⟨true, false, 0x18, 0x13⟩,
          keyThenLoop ⟨9, by decide⟩ ⟨true, true, 0x18, 0x12⟩].flatMap
          Segment.steps)).decoded.map (fun d => rc5Decode d.value) =
      [⟨0, 0x18, 0x13⟩, ⟨1, 0x18, 0x12⟩] :=
  bursts_decoded (List.replicate 35 (.tick true))
    [keyThenLoop ⟨8, by decide⟩ ⟨true, false, 0x18, 0x13⟩,
          keyThenLoop ⟨9, by decide⟩ ⟨true, true, 0x18, 0x12⟩]
    (by decide) (by decide) (by decide +kernel)

/-- **From the signal to `rc5_decode`.** The keys `main` decodes, and the one that waits, are those
sent, in order, exactly when no reception has started while a frame waited; no tick disturbs `main` in
its block. -/
theorem transmissions_decoded_iff {K : Type*} [Field K] [LinearOrder K] [IsStrictOrderedRing K]
    [Archimedean K] (S : Sampler K) (idle : K) (ts : List (Transmission K))
    (steps : List HandoverStep) (hidle : 35 * S.gmax ≤ idle) (hts : ∀ t ∈ ts, t.Timed S)
    (hticks : ticks steps = S.samples (Wave.level (S.time 0) (remoteWave idle ts)) 0
      (S.first (Wave.stop (S.time 0) (remoteWave idle ts))))
    (ok : AllSteps handoverStep Undisturbed .start steps) :
    (delivered steps).map rc5Decode = ts.map (·.frame.data) ↔
      AllSteps handoverStep NoOverrun .start steps := by
  obtain ⟨m, bursts, hm, hbursts, hsamples⟩ := samples_remoteWave hidle hts
  have hframes : frames Ir.zero (ticks steps) = bursts.map (·.1.word) := by
    rw [hticks, hsamples, frames_stream hm]
  have hdata : (bursts.map (·.1.word)).map rc5Decode = ts.map (·.frame.data) := by
    have hd := congrArg (List.map Rc5Frame.data) hbursts
    rw [List.map_map, List.map_map] at hd
    rw [List.map_map]
    exact (List.map_congr_left fun b _ => rc5Decode_word b.1.frame).trans hd
  rw [← delivered_eq_iff ok, hframes, ← hdata]
  constructor
  · intro h
    have hlen := congrArg List.length h
    rw [List.length_map, List.length_map] at hlen
    exact (hframes ▸ delivered_sublist ok).eq_of_length hlen
  · exact congrArg _

/-- Outside the block the interrupt may do anything. -/
theorem undisturbed_map_tick {s : Handover} (hpc : s.pc = .outside) (samples : List Bool) :
    AllSteps handoverStep Undisturbed s (samples.map .tick) := by
  induction samples generalizing s with
  | nil => trivial
  | cons new samples ih =>
    exact ⟨⟨fun hp => by simp [hpc] at hp, fun hp => absurd hpc hp⟩, ih hpc⟩

/-- The loop idle while VOLUME UP comes in: it then waits. -/
theorem transmissions_decoded_iff_volUp :
    let steps := (jittery.samples (Wave.level (jittery.time 0)
      (remoteWave 10000 [volUpTransmission])) 0 (jittery.first (Wave.stop (jittery.time 0)
        (remoteWave 10000 [volUpTransmission])))).map HandoverStep.tick
    (delivered steps).map rc5Decode = [⟨0, 0x18, 0x13⟩] ↔
      AllSteps handoverStep NoOverrun .start steps := by
  intro steps
  exact transmissions_decoded_iff jittery 10000 [volUpTransmission] steps
    (by norm_num [jittery]) (by simp [volUpTransmission_timed]) (ticks_map_tick _)
    (undisturbed_map_tick rfl _)

end VolumeControl
