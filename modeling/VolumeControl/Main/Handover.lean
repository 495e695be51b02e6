import Mathlib.Algebra.Order.Ring.Nat
import VolumeControl.Ir.Frame
import VolumeControl.Ir.Reception
import VolumeControl.Main.Loop

/-!
# Handing a frame from the interrupt to main

The timer interrupt and `main` share `ir` without a lock. A step of the system
is one run of the interrupt or one access of `main`'s receive block to `ir`:
the read of `active`, of `valueBits`, of `value`, and the write of 0 to
`valueBits`. Ticks may come between any two of them.

`MainPc` is the access that comes next. `decoded` and `resets` are ghost logs
of the reads of `value` and the writes of `valueBits`, each with what the
interrupt was doing; `reception` is the record of `Ir/Reception.lean`.

`handover_safe`: the hand-over is safe in every run in which no reception
starts between `main`'s check for 13 bits and its read of `value`, none accepts
a bit between the check of `active` and the write, and none accepts 2^32 bits.
`receiveIr_complete`: what `receiveIr` decodes in such a run is a complete
reception.
-/

namespace VolumeControl

open Trace ShiftRegister

inductive MainPc where
  /-- Before the read of `active`. -/
  | outside
  | checkBits
  | readValue
  | reset
  deriving DecidableEq, Repr

/-- What one pass through the receive block has read; fields it does not read stay 0. -/
structure IrReads where
  active : Bool
  valueBits : BitVec 32
  value : BitVec 32
  deriving DecidableEq, Repr

/-- A read of `value` for `rc5_decode`, and the latest reception at that moment. -/
structure Decoded where
  value : BitVec 32
  reception : Reception
  deriving DecidableEq, Repr

/-- A write of 0 to `valueBits`, and what it overwrote. -/
structure Reset where
  active : Bool
  before : BitVec 32
  deriving DecidableEq, Repr

structure Handover where
  ir : Ir
  pc : MainPc
  reads : IrReads
  passes : List IrReads
  reception : Reception
  decoded : List Decoded
  resets : List Reset
  deriving DecidableEq, Repr

def Handover.start : Handover :=
  ⟨Ir.zero, .outside, ⟨false, 0, 0⟩, [], Reception.zero, [], []⟩

inductive HandoverStep where
  | tick (sample : Bool)
  | main
  deriving DecidableEq, Repr

/-- The next access of `main` to `ir`. -/
def mainAccess (s : Handover) : Handover :=
  match s.pc with
  | .outside =>
    if s.ir.active then { s with passes := s.passes ++ [⟨true, 0, 0⟩] }
    else { s with pc := .checkBits, reads := ⟨false, 0, 0⟩ }
  | .checkBits =>
    { s with
      pc := if s.ir.valueBits = 13 then .readValue else .reset
      reads := { s.reads with valueBits := s.ir.valueBits } }
  | .readValue =>
    { s with
      pc := .reset
      reads := { s.reads with value := s.ir.value }
      decoded := s.decoded ++ [⟨s.ir.value, s.reception⟩] }
  | .reset =>
    { s with
      ir := { s.ir with valueBits := 0 }
      pc := .outside
      passes := s.passes ++ [s.reads]
      resets := s.resets ++ [⟨s.ir.active, s.ir.valueBits⟩] }

def handoverStep (s : Handover) : HandoverStep → Handover
  | .tick new => { s with ir := irqSampleIr s.ir new, reception := s.reception.observe s.ir new }
  | .main => mainAccess s

/-- Every value decoded is the word of a reception that has ended with 13 bits, no reception is
decoded twice, and no write of `valueBits` changes the count of a reception in progress. -/
structure HandoverSafe (s : Handover) : Prop where
  complete : ∀ d ∈ s.decoded, d.reception.ended = true ∧ d.reception.bits.length = 13 ∧
    d.value = shiftAll 0 d.reception.bits
  once : (s.decoded.map fun d => d.reception.started).Nodup
  noClobber : ∀ w ∈ s.resets, w.active = true → w.before = 0

/-- What a tick must not do: start a reception before `value` is read, accept a bit while `main`
is in the block, or take a reception to 2^32 bits. -/
def TickApart (s : Handover) : HandoverStep → Prop
  | .tick new =>
    (s.pc = .readValue → starts s.ir new = false) ∧
    (s.pc ≠ .outside → accepts s.ir new = false) ∧
    (accepts s.ir new = true → s.reception.bits.length + 1 < 2 ^ 32)
  | .main => True

instance (s : Handover) (st : HandoverStep) : Decidable (TickApart s st) := by
  cases st <;> unfold TickApart <;> infer_instance

/-! ## The invariant -/

structure HandoverInv (s : Handover) : Prop extends HandoverSafe s where
  tracks : Tracks s.ir s.reception
  bound : s.reception.bits.length < 2 ^ 32
  /-- In the block a reception in progress has accepted nothing. -/
  fresh : s.pc ≠ .outside → s.ir.active = true → s.reception.bits = []
  /-- What `main` has checked still holds when it reads `value`. -/
  checked : s.pc = .readValue → s.ir.active = false ∧ s.ir.valueBits = 13 ∧
    ∀ d ∈ s.decoded, d.reception.started ≠ s.reception.started
  older : ∀ d ∈ s.decoded, d.reception.started ≤ s.reception.started
  /-- A decoded reception is over, and cleared once `main` has left the block. -/
  cleared : ∀ d ∈ s.decoded, d.reception.started = s.reception.started →
    s.ir.active = false ∧ (s.pc = .reset ∨ s.ir.valueBits = 0)

theorem handoverInv_start : HandoverInv .start where
  complete := by simp [Handover.start]
  once := by simp [Handover.start]
  noClobber := by simp [Handover.start]
  tracks := tracks_zero
  bound := by simp [Handover.start, Reception.zero]
  fresh := by simp [Handover.start]
  checked := by simp [Handover.start]
  older := by simp [Handover.start]
  cleared := by simp [Handover.start]

theorem HandoverInv.tick {s : Handover} (h : HandoverInv s) {new : Bool}
    (ok : TickApart s (.tick new)) : HandoverInv (handoverStep s (.tick new)) := by
  obtain ⟨hstart, hacc, hlen⟩ := ok
  have ht := h.tracks.sample new
  rcases irqSampleIr_cases s.ir new s.reception with ⟨e1, e2, e3, -, -, er⟩ | ⟨hact, e, es, -, er⟩ |
    ⟨hact, e, -, -, er⟩ | ⟨hact, e, -, ea, er⟩
  · -- nothing moves but `last` and `count`
    rw [er] at ht
    refine { h with tracks := ?_, bound := ?_, fresh := ?_, checked := ?_, older := ?_, cleared := ?_ } <;>
      simp only [handoverStep, er, e1, e3]
    exacts [ht, h.bound, h.fresh, h.checked, h.older, h.cleared]
  · -- a reception starts: it is younger than every decoded one
    have hpc : s.pc ≠ .readValue := fun hp => by simp [hstart hp] at es
    have hlt (d : Decoded) (hd : d ∈ s.decoded) : d.reception.started < s.reception.started + 1 :=
      Nat.lt_succ_of_le (h.older d hd)
    rw [e, er] at ht
    refine { h with tracks := ?_, bound := ?_, fresh := ?_, checked := ?_, older := ?_, cleared := ?_ } <;>
      simp only [handoverStep, er, e]
    · exact ht
    · simp
    · simp
    · exact fun hp => absurd hp hpc
    · exact fun d hd => Nat.le_of_lt (hlt d hd)
    · exact fun d hd he => absurd he (Nat.ne_of_lt (hlt d hd))
  · -- a reception ends
    rw [e, er] at ht
    refine { h with tracks := ?_, bound := ?_, fresh := ?_, checked := ?_, older := ?_, cleared := ?_ } <;>
      simp only [handoverStep, er, e]
    · exact ht
    · exact h.bound
    · simp
    · exact fun hp => absurd hact (by simp [(h.checked hp).1])
    · exact h.older
    · exact fun d hd he => absurd hact (by simp [(h.cleared d hd he).1])
  · -- a bit is accepted: `main` is outside the block
    have hpc : s.pc = .outside := by
      by_contra hp
      simp [hacc hp] at ea
    rw [e, er] at ht
    refine { h with tracks := ?_, bound := ?_, fresh := ?_, checked := ?_, older := ?_, cleared := ?_ } <;>
      simp only [handoverStep, er, e]
    · exact ht
    · simpa using hlen ea
    · exact fun hp => absurd hpc hp
    · exact fun hp => by simp [hpc] at hp
    · exact h.older
    · exact fun d hd he => absurd hact (by simp [(h.cleared d hd he).1])

/-- A reception that has accepted nothing has a count of 0. -/
theorem Tracks.valueBits_eq_zero {ir : Ir} {r : Reception} (h : Tracks ir r) (hb : r.bits = []) :
    ir.valueBits = 0 := by
  rcases h.valueBits with e | ⟨-, e⟩
  · simpa [hb] using e
  · exact e

/-- A count of 13 is the number of bits of a reception that did not reach 2^32 of them. -/
theorem Tracks.length_eq {ir : Ir} {r : Reception} (h : Tracks ir r) (hlt : r.bits.length < 2 ^ 32)
    (h13 : ir.valueBits = 13) : r.bits.length = 13 := by
  rcases h.valueBits with e | ⟨-, e⟩
  · have := congrArg BitVec.toNat (e.symm.trans h13)
    rwa [BitVec.toNat_ofNat, Nat.mod_eq_of_lt hlt] at this
  · simp [h13] at e

/-- What is left of a decoded reception once `main` has cleared its count. -/
theorem HandoverInv.valueBits_cleared {s : Handover} (h : HandoverInv s) (hpc : s.pc ≠ .reset)
    (d : Decoded) (hd : d ∈ s.decoded) (he : d.reception.started = s.reception.started) :
    s.ir.valueBits = 0 :=
  (h.cleared d hd he).2.resolve_left hpc

/-- `main` reads `value`: the reception is decoded. -/
theorem HandoverInv.main_readValue {s : Handover} (h : HandoverInv s) (hpc : s.pc = .readValue) :
    HandoverInv (mainAccess s) := by
  obtain ⟨hina, h13, hnew⟩ := h.checked hpc
  have hended : s.reception.ended = true := by simpa [hina] using h.tracks.active
  simp only [mainAccess, hpc]
  refine { h with complete := ?_, once := ?_, fresh := ?_, checked := ?_, older := ?_, cleared := ?_ }
  · intro d hd
    rcases List.mem_append.1 hd with hd | hd
    · exact h.complete d hd
    · obtain rfl := List.mem_singleton.1 hd
      exact ⟨hended, h.tracks.length_eq h.bound h13, h.tracks.value⟩
  · rw [List.map_append, List.nodup_append]
    refine ⟨h.once, by simp, ?_⟩
    intro a ha b hb
    obtain ⟨d, hd, rfl⟩ := List.mem_map.1 ha
    obtain rfl : b = s.reception.started := by simpa using hb
    exact hnew d hd
  · exact fun _ => by simp [hina]
  · exact fun hp => by cases hp
  · intro d hd
    rcases List.mem_append.1 hd with hd | hd
    · exact h.older d hd
    · obtain rfl := List.mem_singleton.1 hd
      exact Nat.le_refl _
  · exact fun d _ _ => ⟨hina, .inl rfl⟩

/-- `main` writes `valueBits`. -/
theorem HandoverInv.main_reset {s : Handover} (h : HandoverInv s) (hpc : s.pc = .reset) :
    HandoverInv (mainAccess s) := by
  have hfresh := h.fresh (by simp [hpc])
  simp only [mainAccess, hpc]
  refine { h with noClobber := ?_, tracks := ?_, fresh := ?_, checked := ?_, cleared := ?_ }
  · intro w hw
    rcases List.mem_append.1 hw with hw | hw
    · exact h.noClobber w hw
    · obtain rfl := List.mem_singleton.1 hw
      exact fun ha => h.tracks.valueBits_eq_zero (hfresh ha)
  · refine ⟨h.tracks.active, h.tracks.value, ?_⟩
    cases ha : s.ir.active with
    | true => exact .inl (by simp [hfresh ha])
    | false => exact .inr ⟨by simpa [ha] using h.tracks.active, rfl⟩
  · exact fun hp => absurd rfl hp
  · exact fun hp => by cases hp
  · exact fun d hd he => ⟨(h.cleared d hd he).1, .inr rfl⟩

theorem HandoverInv.main {s : Handover} (h : HandoverInv s) : HandoverInv (mainAccess s) := by
  cases hpc : s.pc with
  | outside =>
    have hcl := h.valueBits_cleared (by simp [hpc])
    cases ha : s.ir.active with
    | true =>
      simp only [mainAccess, hpc, ha, if_true]
      exact { h with
        fresh := fun hp => absurd rfl hp
        checked := fun hp => by cases hp
        cleared := fun d hd he => ⟨(h.cleared d hd he).1, .inr (hcl d hd he)⟩ }
    | false =>
      simp only [mainAccess, hpc, ha, Bool.false_eq_true, if_false]
      exact { h with
        fresh := fun _ => by simp [ha]
        checked := fun hp => by cases hp
        cleared := fun d hd he => ⟨ha, .inr (hcl d hd he)⟩ }
  | checkBits =>
    have hcl := h.valueBits_cleared (by simp [hpc])
    have hne : s.pc ≠ .outside := by simp [hpc]
    simp only [mainAccess, hpc]
    by_cases h13 : s.ir.valueBits = 13
    · -- 13 bits: the reception is over, and no earlier pass has decoded it
      simp only [h13, if_true]
      have hina : s.ir.active = false := by
        by_contra ha
        have := h.tracks.valueBits_eq_zero (h.fresh hne (by simpa using ha))
        simp [h13] at this
      have hnew (d : Decoded) (hd : d ∈ s.decoded) : d.reception.started ≠ s.reception.started :=
        fun he => by simpa [h13] using hcl d hd he
      exact { h with
        fresh := fun _ => by simp [hina]
        checked := fun _ => ⟨hina, h13, hnew⟩
        cleared := fun d hd he => absurd he (hnew d hd) }
    · simp only [h13, if_false]
      exact { h with
        fresh := fun _ => h.fresh hne
        checked := fun hp => by cases hp
        cleared := fun d hd he => ⟨(h.cleared d hd he).1, .inl rfl⟩ }
  | readValue => exact h.main_readValue hpc
  | reset => exact h.main_reset hpc

theorem HandoverInv.step {s : Handover} (h : HandoverInv s) {st : HandoverStep}
    (ok : TickApart s st) : HandoverInv (handoverStep s st) := by
  cases st with
  | tick new => exact h.tick ok
  | main => exact h.main

/-- **The hand-over is safe** in every run whose ticks stay apart from the receive block. -/
theorem handover_safe (steps : List HandoverStep)
    (h : AllSteps handoverStep TickApart .start steps) :
    HandoverSafe (run handoverStep .start steps) :=
  (h.run_inv HandoverInv (fun _ _ hs ok => hs.step ok) handoverInv_start).toHandoverSafe

/-- Ticks that receive the frame of VOLUME UP and let it time out. -/
def volUpTicks : List HandoverStep :=
  (List.replicate 35 true ++ List.replicate 8 false ++
    Rc5Frame.line ⟨true, false, 0x18, 0x13⟩ evenHalves ++ List.replicate 34 true).map .tick

/-- An undisturbed pass decodes the frame. -/
theorem handover_safe_volUp :
    HandoverSafe (run handoverStep .start (volUpTicks ++ [.main, .main, .main, .main])) ∧
      (run handoverStep .start (volUpTicks ++ [.main, .main, .main, .main])).decoded.map
        Decoded.value = [0x1613] :=
  ⟨handover_safe _ (by decide +kernel), by decide +kernel⟩

/-- The next reception starts between the check for 13 bits and the read of `value`: `main`
decodes the 0 it starts from. -/
theorem handover_counterexample :
    ¬ HandoverSafe (run handoverStep .start (volUpTicks ++ [.main, .main, .tick false, .main])) := by
  intro h
  have := h.complete ⟨0, ⟨3, [], false⟩⟩ (by decide +kernel)
  simp at this

/-! ## The condition is needed -/

/-- A tick that is not apart breaks the hand-over as soon as `main` has finished its block. -/
theorem handover_unsafe_of_tick {s : Handover} (h : HandoverInv s) {new : Bool}
    (hbad : (s.pc = .readValue ∧ starts s.ir new = true) ∨
      (s.pc ≠ .outside ∧ accepts s.ir new = true)) :
    ¬ HandoverSafe (run handoverStep s [.tick new, .main, .main]) := by
  intro hsafe
  rcases irqSampleIr_cases s.ir new s.reception with ⟨-, -, -, es, ea, -⟩ | ⟨hact, e, es, ea, er⟩ |
    ⟨-, -, es, ea, -⟩ | ⟨hact, e, es, ea, er⟩
  · simp [es, ea] at hbad
  · -- `main` reads the word of a reception that has just started
    have hpc : s.pc = .readValue := by simpa [es, ea] using hbad
    have := hsafe.complete ⟨0, ⟨s.reception.started + 1, [], false⟩⟩
      (by simp [handoverStep, mainAccess, hpc, e, er])
    simp at this
  · simp [es, ea] at hbad
  · -- the reception in progress has one bit, which the write takes away
    have hne : s.pc ≠ .outside := by simpa [es, ea] using hbad
    have hb := h.fresh hne hact
    have h0 := h.tracks.valueBits_eq_zero hb
    have hclob := hsafe.noClobber ⟨true, 1⟩
    cases hpc : s.pc with
    | outside => exact hne hpc
    | checkBits => simp [handoverStep, mainAccess, hpc, e, h0] at hclob
    | readValue => simp [(h.checked hpc).1] at hact
    | reset => simp [handoverStep, mainAccess, hpc, e, h0] at hclob

/-! ## The receive block of the loop -/

/-- The word that a pass through the block decodes. -/
def IrReads.decodes (r : IrReads) : Option (BitVec 32) :=
  if r.active = false ∧ r.valueBits = 13 then some r.value else none

/-- The reads of an iteration of the loop. -/
def Inputs.irReads (i : Inputs) : IrReads := ⟨i.irActive, i.irValueBits, i.irValue⟩

theorem receiveIr_rc5Data {i : Inputs} {v : BitVec 32} (h : i.irReads.decodes = some v)
    (s : MainState) : (receiveIr i s).rc5Data = rc5Decode v := by
  obtain ⟨⟨ha, h13⟩, rfl⟩ : (i.irActive = false ∧ i.irValueBits = 13) ∧ i.irValue = v :=
    Option.ite_none_right_eq_some.1 h |>.imp_right Option.some.inj
  rw [receiveIr_eq]
  by_cases hd : s.rc5Data = rc5Decode i.irValue <;>
    simp [newKeystate, ha, h13, Option.filter, hd]

/-- A read of `value` is decoded in its pass: what has been decoded is what the passes made so far
decode, and what the one under way has. -/
structure PassInv (s : Handover) : Prop where
  decoded : s.decoded.map Decoded.value = s.passes.filterMap IrReads.decodes ++
    if s.pc = .reset then s.reads.decodes.toList else []
  active : s.pc ≠ .outside → s.reads.active = false
  bits : s.pc = .readValue → s.reads.valueBits = 13

theorem PassInv.step {s : Handover} (h : PassInv s) (st : HandoverStep) :
    PassInv (handoverStep s st) := by
  cases st with
  | tick new => exact ⟨h.decoded, h.active, h.bits⟩
  | main =>
    have hd := h.decoded
    cases hpc : s.pc with
    | outside =>
      cases ha : s.ir.active with
      | true =>
        simp only [handoverStep, mainAccess, hpc, ha, if_true]
        exact ⟨by simpa [hpc, IrReads.decodes] using hd, fun hp => absurd rfl hp, fun hp => by cases hp⟩
      | false =>
        simp only [handoverStep, mainAccess, hpc, ha, Bool.false_eq_true, if_false]
        exact ⟨by simpa [hpc] using hd, fun _ => rfl, fun hp => by cases hp⟩
    | checkBits =>
      have hact := h.active (by simp [hpc])
      simp only [handoverStep, mainAccess, hpc]
      by_cases h13 : s.ir.valueBits = 13
      · simp only [h13, if_true]
        exact ⟨by simpa [hpc] using hd, fun _ => hact, fun _ => rfl⟩
      · simp only [h13, if_false]
        have hnone : IrReads.decodes ⟨s.reads.active, s.ir.valueBits, s.reads.value⟩ = none :=
          if_neg fun hr => h13 hr.2
        exact ⟨by simpa [hpc, hnone] using hd, fun _ => hact, fun hp => by cases hp⟩
    | readValue =>
      have hact := h.active (by simp [hpc])
      have h13 := h.bits hpc
      simp only [handoverStep, mainAccess, hpc]
      exact ⟨by simpa [hpc, IrReads.decodes, hact, h13] using hd, fun _ => hact, fun hp => by cases hp⟩
    | reset =>
      simp only [handoverStep, mainAccess, hpc]
      refine ⟨?_, fun hp => absurd rfl hp, fun hp => by cases hp⟩
      cases hr : s.reads.decodes <;> simpa [hpc, hr] using hd

/-- **A keystate the loop takes from a frame** is that of a complete one, when its reads are those
of a pass whose ticks stayed apart. -/
theorem receiveIr_complete (steps : List HandoverStep)
    (h : AllSteps handoverStep TickApart .start steps) {i : Inputs}
    (hi : i.irReads ∈ (run handoverStep .start steps).passes) {v : BitVec 32}
    (hv : i.irReads.decodes = some v) (s : MainState) :
    ∃ bits : List Bool, bits.length = 13 ∧
      (receiveIr i s).rc5Data = rc5Decode (shiftAll 0 bits) := by
  have hpass : PassInv (run handoverStep .start steps) :=
    run_inv PassInv (fun _ st h => h.step st)
      ⟨rfl, fun hp => absurd rfl hp, fun hp => by cases hp⟩ steps
  have hsafe : HandoverInv (run handoverStep .start steps) :=
    h.run_inv HandoverInv (fun _ _ hs ok => hs.step ok) handoverInv_start
  have hmem : v ∈ (run handoverStep .start steps).decoded.map Decoded.value := by
    rw [hpass.decoded]
    exact List.mem_append_left _ (List.mem_filterMap.2 ⟨_, hi, hv⟩)
  obtain ⟨d, hd, rfl⟩ := List.mem_map.1 hmem
  obtain ⟨-, hlen, hval⟩ := hsafe.complete d hd
  exact ⟨d.reception.bits, hlen, by rw [receiveIr_rc5Data hv, hval]⟩

end VolumeControl
