import VolumeControl.Ir.Reception

/-!
# The receiver in terms of edges

`EdgeReceiver` is what `irqSampleIr` is for, said in absolute ticks: an edge is
accepted when it comes late enough after the edge before it, a reception ends
when none has come for too long. The interrupt knows neither ticks nor edges,
only `count` and `last`. `Refines` says what these two hold, and `count` is the
number of ticks since `EdgeReceiver.base`.

The second half reads the receptions off the run of the interrupt itself:
`Receives samples start t` is the stretch of active states from tick `start` to
tick `t`, `acceptedTicks` the ticks at which a bit was taken in it.
-/

namespace VolumeControl

open ShiftRegister Trace

/-- The tick from which edges are accepted in a reception that started at tick `start` and has
accepted the edges at the ticks `accepted`. The activating sample is counted, an accepted edge is
not: hence 11 ticks after the one and 12 after the other. -/
def opensAt (start : Nat) (accepted : List Nat) : Nat :=
  match accepted.getLast? with
  | none => start + 11
  | some t => t + 12

/-- The tick at which that reception times out. -/
def endsAt (start : Nat) (accepted : List Nat) : Nat :=
  match accepted.getLast? with
  | none => start + 33
  | some t => t + 34

/-- An edge: its tick, and the level of the line before it. -/
structure Edge where
  tick : Nat
  before : Bool
  deriving DecidableEq, Repr

/-- `prev` is the previous sample, `rest` the level of the line after the latest reception. -/
structure EdgeReceiver where
  tick : Nat
  prev : Bool
  rest : Bool
  active : Bool
  start : Nat
  accepted : List Edge
  deriving DecidableEq, Repr

namespace EdgeReceiver

def zero : EdgeReceiver := ⟨0, false, false, false, 0, []⟩

def ticks (s : EdgeReceiver) : List Nat := s.accepted.map Edge.tick

def opens (s : EdgeReceiver) : Nat := opensAt s.start s.ticks

def ends (s : EdgeReceiver) : Nat := endsAt s.start s.ticks

/-- The sample `new` is an edge, late enough to be accepted and in time. -/
def Accepts (s : EdgeReceiver) (new : Bool) : Prop :=
  new ≠ s.prev ∧ s.opens ≤ s.tick ∧ s.tick < s.ends

instance (s : EdgeReceiver) (new : Bool) : Decidable (s.Accepts new) :=
  inferInstanceAs (Decidable (_ ∧ _ ∧ _))

/-- One tick, without the clock. -/
def react (s : EdgeReceiver) (new : Bool) : EdgeReceiver :=
  if s.active then
    if s.tick = s.ends then { s with active := false, rest := s.prev }
    else if s.Accepts new then { s with accepted := s.accepted ++ [⟨s.tick, s.prev⟩] }
    else s
  else if new ≠ s.rest then { s with active := true, start := s.tick, accepted := [] }
  else s

def sample (s : EdgeReceiver) (new : Bool) : EdgeReceiver :=
  { s.react new with tick := s.tick + 1, prev := new }

/-- The tick from which `count` counts. -/
def base (s : EdgeReceiver) : Nat :=
  match s.ticks.getLast? with
  | none => s.start
  | some t => t + 1

theorem opens_eq (s : EdgeReceiver) : s.opens = s.base + 11 := by
  unfold opens base opensAt
  split <;> rfl

theorem ends_eq (s : EdgeReceiver) : s.ends = s.base + 33 := by
  unfold ends base endsAt
  split <;> rfl

section
variable {s : EdgeReceiver} {new : Bool}

theorem sample_idle (ha : s.active = false) (hl : new = s.rest) :
    s.sample new = { s with tick := s.tick + 1, prev := new } := by
  simp [sample, react, ha, hl]

theorem sample_start (ha : s.active = false) (hl : new ≠ s.rest) :
    s.sample new = ⟨s.tick + 1, new, s.rest, true, s.tick, []⟩ := by
  simp [sample, react, ha, hl]

theorem sample_timeout (ha : s.active = true) (ht : s.tick = s.ends) :
    s.sample new = ⟨s.tick + 1, new, s.prev, false, s.start, s.accepted⟩ := by
  simp [sample, react, ha, ht]

theorem sample_accept (ha : s.active = true) (hacc : s.Accepts new) :
    s.sample new = ⟨s.tick + 1, new, s.rest, true, s.start, s.accepted ++ [⟨s.tick, s.prev⟩]⟩ := by
  have ht : s.tick ≠ s.ends := Nat.ne_of_lt hacc.2.2
  simp [sample, react, ha, ht, hacc]

theorem sample_ignore (ha : s.active = true) (ht : s.tick ≠ s.ends) (hacc : ¬ s.Accepts new) :
    s.sample new = { s with tick := s.tick + 1, prev := new } := by
  simp [sample, react, ha, ht, hacc]

end

end EdgeReceiver

/-! ## What `count` and `last` hold -/

/-- `ir` as the edge receiver accounts for it. -/
structure Refines (ir : Ir) (s : EdgeReceiver) : Prop where
  active : ir.active = s.active
  last : ir.last = if s.active then s.prev else s.rest
  value : ir.value = shiftAll 0 (s.accepted.map Edge.before)
  valueBits : ir.valueBits = BitVec.ofNat 32 s.accepted.length
  count : s.active = true → s.tick = s.base + ir.count.toNat ∧ ir.count.toNat ≤ 33

theorem refines_zero : Refines Ir.zero EdgeReceiver.zero :=
  ⟨rfl, rfl, rfl, rfl, nofun⟩

namespace Refines

variable {ir : Ir} {s : EdgeReceiver} {new : Bool}

theorem last_active (h : Refines ir s) (ha : s.active = true) : ir.last = s.prev := by
  rw [h.last, if_pos ha]

theorem last_idle (h : Refines ir s) (ha : s.active = false) : ir.last = s.rest := by
  rw [h.last, ha]
  rfl

theorem tick_le (h : Refines ir s) (ha : s.active = true) : s.tick ≤ s.ends := by
  have hc := h.count ha
  rw [s.ends_eq]
  omega

/-- The time out comes at the tick `ends`, whatever the line does. -/
theorem timeout (h : Refines ir s) (ha : s.active = true) (ht : s.tick = s.ends) :
    irqSampleIr ir new = { ir with active := false, count := ir.count + 1 } := by
  have hc := h.count ha
  rw [s.ends_eq] at ht
  exact irqSampleIr_timeout (h.active.trans ha) (by omega)

/-- An edge before the tick `opens` only moves `last`. -/
theorem close (h : Refines ir s) (ha : s.active = true) (hl : new ≠ s.prev)
    (ht : s.tick < s.opens) :
    irqSampleIr ir new = { ir with count := ir.count + 1, last := new } := by
  have hc := h.count ha
  rw [s.opens_eq] at ht
  exact irqSampleIr_close (h.active.trans ha) (by omega) (by rwa [h.last_active ha])

theorem accept (h : Refines ir s) (ha : s.active = true) (hacc : s.Accepts new) :
    irqSampleIr ir new = ⟨true, new, 0, shiftIn ir.value s.prev, ir.valueBits + 1⟩ := by
  obtain ⟨hl, ho, he⟩ := hacc
  have hc := h.count ha
  rw [s.opens_eq] at ho
  rw [s.ends_eq] at he
  have hnew : (!new) = s.prev := by cases new <;> cases hp : s.prev <;> simp_all
  rw [irqSampleIr_accept (h.active.trans ha) (by omega) (by omega) (by rwa [h.last_active ha]),
    hnew]

/-- A sample that is neither the last nor accepted is counted. -/
theorem ignore (h : Refines ir s) (ha : s.active = true) (ht : s.tick ≠ s.ends)
    (hacc : ¬ s.Accepts new) :
    irqSampleIr ir new = { ir with count := ir.count + 1, last := new } := by
  have hle := h.tick_le ha
  by_cases hl : new = s.prev
  · have hlast : new = ir.last := hl.trans (h.last_active ha).symm
    have hc := h.count ha
    rw [s.ends_eq] at ht
    rw [irqSampleIr_same (h.active.trans ha) (by omega) hlast, hlast]
  · have ho : s.tick < s.opens := by
      by_contra hno
      exact hacc ⟨hl, by omega, by omega⟩
    exact h.close ha hl ho

/-- **One tick.** -/
theorem sample (h : Refines ir s) (new : Bool) : Refines (irqSampleIr ir new) (s.sample new) := by
  cases ha : s.active with
  | false =>
    have hir := h.active.trans ha
    by_cases hl : new = s.rest
    · rw [irqSampleIr_idle hir (by rw [h.last_idle ha, hl]), EdgeReceiver.sample_idle ha hl]
      exact ⟨h.active, by simp [ha, h.last_idle ha], h.value, h.valueBits, by simp [ha]⟩
    · rw [irqSampleIr_start hir (by rwa [h.last_idle ha]), EdgeReceiver.sample_start ha hl]
      exact ⟨rfl, rfl, rfl, rfl, fun _ => ⟨rfl, by simp⟩⟩
  | true =>
    have hir := h.active.trans ha
    by_cases ht : s.tick = s.ends
    · rw [h.timeout ha ht, EdgeReceiver.sample_timeout ha ht]
      exact ⟨rfl, h.last_active ha, h.value, h.valueBits, nofun⟩
    · by_cases hacc : s.Accepts new
      · rw [h.accept ha hacc, EdgeReceiver.sample_accept ha hacc]
        refine ⟨rfl, rfl, ?_, ?_, fun _ => ⟨?_, by simp⟩⟩
        · simp [h.value, shiftAll_snoc]
        · simp [h.valueBits, BitVec.ofNat_add]
        · simp [EdgeReceiver.base, EdgeReceiver.ticks]
      · have hle := h.tick_le ha
        rw [h.ignore ha ht hacc, EdgeReceiver.sample_ignore ha ht hacc]
        refine ⟨h.active, by simp [ha], h.value, h.valueBits, fun _ => ?_⟩
        obtain ⟨hc, hc'⟩ := h.count ha
        rw [s.ends_eq] at ht hle
        have hs := toNat_count_succ hc'
        change s.tick + 1 = s.base + (ir.count + 1#32).toNat ∧ (ir.count + 1#32).toNat ≤ 33
        omega

/-- The interrupt takes a bit exactly from the edges that the edge receiver accepts. -/
theorem accepts_iff (h : Refines ir s) (ha : s.active = true) :
    accepts ir new = true ↔ s.Accepts new := by
  have hir := h.active.trans ha
  simp only [accepts, hir, Bool.true_and, bne_iff_ne]
  by_cases hacc : s.Accepts new
  · rw [h.accept ha hacc]
    simp [hacc]
  · simp only [hacc, iff_false, ne_eq, not_not]
    by_cases ht : s.tick = s.ends
    · rw [h.timeout ha ht]
    · rw [h.ignore ha ht hacc]

/-- A reception ends exactly at the tick `ends`. -/
theorem inactive_iff (h : Refines ir s) (ha : s.active = true) :
    (irqSampleIr ir new).active = false ↔ s.tick = s.ends := by
  have hir := h.active.trans ha
  by_cases ht : s.tick = s.ends
  · rw [h.timeout ha ht]
    simp [ht]
  · simp only [ht, iff_false, Bool.not_eq_false]
    by_cases hacc : s.Accepts new
    · rw [h.accept ha hacc]
    · rw [h.ignore ha ht hacc]
      exact hir

end Refines

theorem refines_run (samples : List Bool) :
    Refines (run irqSampleIr .zero samples) (run EdgeReceiver.sample .zero samples) := by
  induction samples using List.reverseRecOn with
  | nil => exact refines_zero
  | append_singleton samples new ih =>
    rw [run_snoc, run_snoc]
    exact ih.sample new

/-! ## Receptions of a run -/

/-- The sample of tick `t`, for the ticks of `samples`. -/
def sampleAt (samples : List Bool) (t : Nat) : Bool := samples.getD t false

/-- `ir` before tick `t`. -/
def irAt (samples : List Bool) (t : Nat) : Ir := run irqSampleIr .zero (samples.take t)

/-- A reception starts at tick `start` and is still under way before tick `t`: `ir` is not active
before the one, and active ever since. -/
structure Receives (samples : List Bool) (start t : Nat) : Prop where
  lt : start < t
  le : t ≤ samples.length
  idle : (irAt samples start).active = false
  active : ∀ u, start < u → u ≤ t → (irAt samples u).active = true

/-- The sample of tick `t` differs from the one before. -/
def IsEdge (samples : List Bool) (t : Nat) : Prop := sampleAt samples t ≠ sampleAt samples (t - 1)

/-- The ticks after `start` and before `t` whose samples were taken as bits. -/
def acceptedTicks (samples : List Bool) (start t : Nat) : List Nat :=
  (List.range' (start + 1) (t - (start + 1))).filter
    fun u => accepts (irAt samples u) (sampleAt samples u)

/-- The edge receiver before tick `t`. -/
def receiverAt (samples : List Bool) (t : Nat) : EdgeReceiver :=
  run EdgeReceiver.sample .zero (samples.take t)

section
variable {samples : List Bool} {start t : Nat}

theorem take_succ_sampleAt (ht : t < samples.length) :
    samples.take (t + 1) = samples.take t ++ [sampleAt samples t] := by
  rw [List.take_succ_eq_append_getElem ht, sampleAt, List.getD_eq_getElem?_getD,
    List.getElem?_eq_getElem ht, Option.getD_some]

theorem irAt_succ (ht : t < samples.length) :
    irAt samples (t + 1) = irqSampleIr (irAt samples t) (sampleAt samples t) := by
  rw [irAt, take_succ_sampleAt ht, run_snoc]
  rfl

theorem receiverAt_succ (ht : t < samples.length) :
    receiverAt samples (t + 1) = (receiverAt samples t).sample (sampleAt samples t) := by
  rw [receiverAt, take_succ_sampleAt ht, run_snoc]
  rfl

theorem refines_at (samples : List Bool) (t : Nat) :
    Refines (irAt samples t) (receiverAt samples t) := refines_run _

theorem receiverAt_tick (ht : t ≤ samples.length) : (receiverAt samples t).tick = t := by
  induction t with
  | zero => rfl
  | succ t ih =>
    rw [receiverAt_succ ht]
    exact congrArg (· + 1) (ih (by omega))

theorem receiverAt_prev (ht : t < samples.length) :
    (receiverAt samples (t + 1)).prev = sampleAt samples t := by
  rw [receiverAt_succ ht]
  rfl

theorem Receives.before (h : Receives samples start (t + 1)) (ht : start < t) :
    Receives samples start t :=
  ⟨ht, by have := h.le; omega, h.idle, fun u h1 h2 => h.active u h1 (by omega)⟩

theorem acceptedTicks_succ (ht : start < t) :
    acceptedTicks samples start (t + 1) = acceptedTicks samples start t ++
      if accepts (irAt samples t) (sampleAt samples t) then [t] else [] := by
  have hr : List.range' (start + 1) (t + 1 - (start + 1)) =
      List.range' (start + 1) (t - (start + 1)) ++ [t] := by
    rw [show t + 1 - (start + 1) = t - (start + 1) + 1 by omega, List.range'_1_concat,
      show start + 1 + (t - (start + 1)) = t by omega]
  rw [acceptedTicks, hr, List.filter_append, List.filter_singleton, Bool.cond_eq_ite]
  rfl

theorem Receives.started (h : Receives samples start t) :
    sampleAt samples start ≠ (irAt samples start).last := by
  intro hl
  have hlt := h.lt
  have hlen := h.le
  have hact := h.active (start + 1) (by omega) h.lt
  rw [irAt_succ (by omega), irqSampleIr_idle h.idle hl, h.idle] at hact
  cases hact

theorem receiverAt_start (ht : t < samples.length) (hi : (irAt samples t).active = false)
    (hl : sampleAt samples t ≠ (irAt samples t).last) : receiverAt samples (t + 1) =
      ⟨t + 1, sampleAt samples t, (receiverAt samples t).rest, true, t, []⟩ := by
  have href := refines_at samples t
  have ha := href.active.symm.trans hi
  rw [href.last_idle ha] at hl
  rw [receiverAt_succ ht, EdgeReceiver.sample_start ha hl, receiverAt_tick ht.le]

theorem Receives.prev (h : Receives samples start t) :
    (receiverAt samples t).prev = sampleAt samples (t - 1) := by
  obtain ⟨u, rfl⟩ : ∃ u, t = u + 1 := ⟨t - 1, by have := h.lt; omega⟩
  exact receiverAt_prev h.le

/-- In a reception the edge receiver has accepted the edges at the ticks at which the interrupt
took a bit. -/
theorem Receives.receiver (h : Receives samples start t) :
    (receiverAt samples t).active = true ∧ (receiverAt samples t).start = start ∧
      (receiverAt samples t).accepted =
        (acceptedTicks samples start t).map fun u => ⟨u, sampleAt samples (u - 1)⟩ := by
  induction t with
  | zero => exact absurd h.lt (by omega)
  | succ t ih =>
    have hlen : t < samples.length := h.le
    rcases Nat.lt_or_eq_of_le (Nat.le_of_lt_succ h.lt) with hlt | rfl
    · have h' := h.before hlt
      obtain ⟨ha, hs, hacc⟩ := ih h'
      have href := refines_at samples t
      have hact := h.active (t + 1) h.lt le_rfl
      have hends : (receiverAt samples t).tick ≠ (receiverAt samples t).ends := by
        intro ht
        rw [irAt_succ hlen, (href.inactive_iff ha).2 ht] at hact
        cases hact
      rw [receiverAt_succ hlen, acceptedTicks_succ hlt]
      by_cases hnew : (receiverAt samples t).Accepts (sampleAt samples t)
      · rw [EdgeReceiver.sample_accept ha hnew, if_pos ((href.accepts_iff ha).2 hnew)]
        exact ⟨rfl, hs, by rw [hacc, receiverAt_tick hlen.le, h'.prev, List.map_append]; rfl⟩
      · rw [EdgeReceiver.sample_ignore ha hends hnew,
          if_neg (fun hn => hnew ((href.accepts_iff ha).1 hn)), List.append_nil]
        exact ⟨ha, hs, hacc⟩
    · rw [receiverAt_start hlen h.idle h.started]
      exact ⟨rfl, rfl, by simp [acceptedTicks]⟩

theorem Receives.ticks (h : Receives samples start t) :
    (receiverAt samples t).ticks = acceptedTicks samples start t := by
  rw [EdgeReceiver.ticks, h.receiver.2.2, List.map_map]
  exact List.map_id _

theorem Receives.opens (h : Receives samples start t) :
    (receiverAt samples t).opens = opensAt start (acceptedTicks samples start t) := by
  rw [EdgeReceiver.opens, h.ticks, h.receiver.2.1]

theorem Receives.ends (h : Receives samples start t) :
    (receiverAt samples t).ends = endsAt start (acceptedTicks samples start t) := by
  rw [EdgeReceiver.ends, h.ticks, h.receiver.2.1]

theorem Receives.tick (h : Receives samples start t) : (receiverAt samples t).tick = t :=
  receiverAt_tick h.le

theorem Receives.accepts_iff (h : Receives samples start t) :
    (receiverAt samples t).Accepts (sampleAt samples t) ↔ IsEdge samples t ∧
      opensAt start (acceptedTicks samples start t) ≤ t ∧
      t < endsAt start (acceptedTicks samples start t) := by
  rw [EdgeReceiver.Accepts, h.opens, h.ends, h.tick, h.prev]
  rfl

theorem receives_start (ht : t < samples.length) (hi : (irAt samples t).active = false)
    (hl : sampleAt samples t ≠ (irAt samples t).last) : Receives samples t (t + 1) := by
  refine ⟨Nat.lt_succ_self t, ht, hi, fun u h1 h2 => ?_⟩
  obtain rfl : u = t + 1 := by omega
  rw [irAt_succ ht, irqSampleIr_start hi hl]

theorem Receives.succ (h : Receives samples start t) (ht : t < samples.length)
    (ha : (irAt samples (t + 1)).active = true) : Receives samples start (t + 1) := by
  refine ⟨Nat.lt_succ_of_lt h.lt, ht, h.idle, fun u h1 h2 => ?_⟩
  rcases Nat.lt_or_eq_of_le h2 with hu | rfl
  · exact h.active u h1 (by omega)
  · exact ha

/-- Every active state is one of a reception. -/
theorem active_iff_receives (ht : t ≤ samples.length) :
    (irAt samples t).active = true ↔ ∃ start, Receives samples start t := by
  constructor
  · intro ha
    induction t with
    | zero => cases ha
    | succ t ih =>
      cases hp : (irAt samples t).active with
      | true =>
        obtain ⟨start, h⟩ := ih (by omega) hp
        exact ⟨start, h.succ ht ha⟩
      | false =>
        refine ⟨t, receives_start ht hp fun hl => ?_⟩
        rw [irAt_succ ht, irqSampleIr_idle hp hl, hp] at ha
        cases ha
  · rintro ⟨start, h⟩
    exact h.active t h.lt le_rfl

/-- A reception that started at tick `start`, in terms of edges: what `ir` holds before tick `t`,
and what tick `t` does to it. -/
structure ByEdges (samples : List Bool) (start t : Nat) (accepted : List Nat) : Prop where
  /-- The activating sample is the first to differ from `last`. -/
  started : sampleAt samples start ≠ (irAt samples start).last
  valueBits : (irAt samples t).valueBits = BitVec.ofNat 32 accepted.length
  value : (irAt samples t).value = shiftAll 0 (accepted.map fun u => sampleAt samples (u - 1))
  inTime : t ≤ endsAt start accepted
  accepts_iff : t < samples.length → (accepts (irAt samples t) (sampleAt samples t) = true ↔
    IsEdge samples t ∧ opensAt start accepted ≤ t ∧ t < endsAt start accepted)
  /-- An edge that comes too early. -/
  close : t < samples.length → IsEdge samples t → t < opensAt start accepted →
    irAt samples (t + 1) =
      { irAt samples t with last := sampleAt samples t, count := (irAt samples t).count + 1 }
  /-- A sample that is no edge. -/
  quiet : t < samples.length → ¬ IsEdge samples t → t < endsAt start accepted →
    irAt samples (t + 1) = { irAt samples t with count := (irAt samples t).count + 1 }
  ended_iff : t < samples.length →
    ((irAt samples (t + 1)).active = false ↔ t = endsAt start accepted)
  /-- On the last tick the line is not looked at. -/
  timeout : t < samples.length → t = endsAt start accepted →
    irAt samples (t + 1) =
      { irAt samples t with active := false, count := (irAt samples t).count + 1 }
  /-- An edge on the last tick starts the next reception one tick later, if the line stays. -/
  restart : t + 1 < samples.length → t = endsAt start accepted → IsEdge samples t →
    sampleAt samples (t + 1) = sampleAt samples t → Receives samples (t + 1) (t + 2)

theorem Receives.valueBits (h : Receives samples start t) : (irAt samples t).valueBits =
    BitVec.ofNat 32 (acceptedTicks samples start t).length := by
  rw [(refines_at samples t).valueBits, h.receiver.2.2, List.length_map]

theorem Receives.value (h : Receives samples start t) : (irAt samples t).value =
    shiftAll 0 ((acceptedTicks samples start t).map fun u => sampleAt samples (u - 1)) := by
  rw [(refines_at samples t).value, h.receiver.2.2, List.map_map]
  rfl

theorem Receives.inTime (h : Receives samples start t) :
    t ≤ endsAt start (acceptedTicks samples start t) := by
  have hle := (refines_at samples t).tick_le h.receiver.1
  rwa [h.tick, h.ends] at hle

theorem Receives.last (h : Receives samples start t) :
    (irAt samples t).last = sampleAt samples (t - 1) :=
  ((refines_at samples t).last_active h.receiver.1).trans h.prev

theorem Receives.close (h : Receives samples start t) (ht : t < samples.length)
    (hedge : IsEdge samples t) (ho : t < opensAt start (acceptedTicks samples start t)) :
    irAt samples (t + 1) =
      { irAt samples t with last := sampleAt samples t, count := (irAt samples t).count + 1 } := by
  rw [irAt_succ ht]
  exact (refines_at samples t).close h.receiver.1 (by rwa [h.prev]) (by rwa [h.tick, h.opens])

theorem Receives.quiet (h : Receives samples start t) (ht : t < samples.length)
    (hedge : ¬ IsEdge samples t) (he : t < endsAt start (acceptedTicks samples start t)) :
    irAt samples (t + 1) = { irAt samples t with count := (irAt samples t).count + 1 } := by
  have hnot : ¬ (receiverAt samples t).Accepts (sampleAt samples t) :=
    fun hn => hedge (h.accepts_iff.1 hn).1
  have hsame : sampleAt samples t = (irAt samples t).last := by
    rw [h.last]
    exact not_not.1 hedge
  have hends : (receiverAt samples t).tick ≠ (receiverAt samples t).ends := by
    rw [h.tick, h.ends]
    omega
  rw [irAt_succ ht, (refines_at samples t).ignore h.receiver.1 hends hnot, hsame]

theorem Receives.timeout (h : Receives samples start t) (ht : t < samples.length)
    (he : t = endsAt start (acceptedTicks samples start t)) :
    irAt samples (t + 1) =
      { irAt samples t with active := false, count := (irAt samples t).count + 1 } := by
  rw [irAt_succ ht]
  exact (refines_at samples t).timeout h.receiver.1 (by rwa [h.tick, h.ends])

theorem Receives.restart (h : Receives samples start t) (ht : t + 1 < samples.length)
    (he : t = endsAt start (acceptedTicks samples start t)) (hedge : IsEdge samples t)
    (hstay : sampleAt samples (t + 1) = sampleAt samples t) :
    Receives samples (t + 1) (t + 2) := by
  have hnext := h.timeout (by omega) he
  refine receives_start ht (by rw [hnext]) ?_
  -- `last` is still the level before the edge
  rw [hnext, hstay, h.last]
  exact hedge

theorem Receives.byEdges (h : Receives samples start t) :
    ByEdges samples start t (acceptedTicks samples start t) where
  started := h.started
  valueBits := h.valueBits
  value := h.value
  inTime := h.inTime
  accepts_iff _ := ((refines_at samples t).accepts_iff h.receiver.1).trans h.accepts_iff
  close := h.close
  quiet := h.quiet
  ended_iff ht := by
    rw [irAt_succ ht, (refines_at samples t).inactive_iff h.receiver.1, h.tick, h.ends]
  timeout := h.timeout
  restart := h.restart

/-- **The interrupt refines the edge receiver**, on every stream of samples. An inactive `ir` starts
a reception at the first sample that differs from `last`, and every reception is as the edges
have it. -/
theorem irqSampleIr_edges (samples : List Bool) :
    Refines (run irqSampleIr .zero samples) (run EdgeReceiver.sample .zero samples) ∧
    (∀ t < samples.length, (irAt samples t).active = false →
      ((irAt samples (t + 1)).active = true ↔ sampleAt samples t ≠ (irAt samples t).last) ∧
      (sampleAt samples t = (irAt samples t).last → irAt samples (t + 1) = irAt samples t)) ∧
    (∀ t ≤ samples.length, (irAt samples t).active = true ↔ ∃ start, Receives samples start t) ∧
    ∀ start t, Receives samples start t →
      ByEdges samples start t (acceptedTicks samples start t) := by
  refine ⟨refines_run samples, fun t ht hi => ?_, fun t ht => active_iff_receives ht,
    fun start t h => h.byEdges⟩
  rw [irAt_succ ht]
  by_cases hl : sampleAt samples t = (irAt samples t).last
  · rw [irqSampleIr_idle hi hl]
    simp [hi, hl]
  · rw [irqSampleIr_start hi hl]
    simp [hl]

/-- The edges at ticks 5 and 8 come too early, those at 11 and 24 are bits, and that at 58 comes
on the tick of the time out. -/
def noisy : List Bool :=
  .replicate 5 true ++ .replicate 3 false ++ .replicate 3 true ++ .replicate 13 false ++
    .replicate 34 true ++ .replicate 3 false

theorem irqSampleIr_edges_noisy : ByEdges noisy 0 58 [11, 24] := by
  have hactive : ∀ u ≤ 58, 0 < u → (irAt noisy u).active = true := by decide +kernel
  have hticks : acceptedTicks noisy 0 58 = [11, 24] := by decide +kernel
  rw [← hticks]
  exact (irqSampleIr_edges noisy).2.2.2 0 58
    ⟨by decide, by decide, rfl, fun u h1 h2 => hactive u h2 h1⟩

end

end VolumeControl
