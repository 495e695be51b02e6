import VolumeControl.Lib.Debounce
import VolumeControl.Matrix.Scan

/-!
# The keys of the matrix

A visit is a step of the scan loop that samples a key. Each key of the matrix
is a debounced key of its own: after a run its cells and the events passed on
for it are those of `Debounce`, run over the samples of its visits (`key_run`,
`keyEvents_run`). `debounce_law` puts together what that gives.
-/

namespace VolumeControl

open Trace Debounce

/-- A sample of key `(row, col)`, with the time read for its row. -/
structure Visit where
  row : Nat
  col : Nat
  time : BitVec 64
  level : Bool
  deriving DecidableEq, Repr

/-- The visit that a step makes. -/
def visit (side : Side) (s : Scan) : ScanStep → Option Visit
  | .scanner gpio _ =>
    match s.cores.producer, s.pc with
    | .idle, .col r c currentTimeUs =>
      if c < side.colCount then some ⟨r, c, currentTimeUs, !gpio⟩ else none
    | _, _ => none
  | .consumer => none

def visits (side : Side) (s : Scan) (steps : List ScanStep) : List Visit :=
  (outputs (scanStep side) (visit side) s steps).filterMap id

/-- The samples of a key. -/
def samplesOf (r c : Nat) (vs : List Visit) : List (Sample 64) :=
  (vs.filter fun v => v.row = r ∧ v.col = c).map fun v => ⟨v.time, v.level⟩

/-- An event passed to `event_queue`, and when. -/
structure Passed where
  time : BitVec 64
  event : MatrixEvent
  deriving DecidableEq, Repr

/-- The time of the row that is being scanned. -/
def Scan.currentTimeUs (s : Scan) : BitVec 64 :=
  match s.pc with
  | .row _ => 0
  | .col _ _ currentTimeUs => currentTimeUs

def stepPassed (side : Side) (s : Scan) (a : ScanStep) : List Passed :=
  ((scanStep side s a).cores.passed.drop s.cores.passed.length).map (⟨s.currentTimeUs, ·⟩)

def passed (side : Side) (s : Scan) (steps : List ScanStep) : List Passed :=
  (outputs (scanStep side) (stepPassed side) s steps).flatten

def MatrixEvent.isOf (r c : Nat) (e : MatrixEvent) : Bool := e.row = r ∧ e.col = c

/-- The events of a key. -/
def keyPassed (side : Side) (s : Scan) (steps : List ScanStep) (r c : Nat) : List Passed :=
  (passed side s steps).filter (·.event.isOf r c)

/-! ## One step -/

/-- The cells of a key. -/
def Scan.key (s : Scan) (r c : Nat) : Key 64 :=
  ⟨Grid.get s.matrix r c, Grid.get s.timestampLastUpdateUs r c⟩

/-- What a visit does. -/
structure VisitStep (s s' : Scan) (v : Visit) : Prop where
  matrix : s'.matrix = if Accepts timeoutUs (s.key v.row v.col) ⟨v.time, v.level⟩
    then Grid.set s.matrix v.row v.col v.level else s.matrix
  timestamp : s'.timestampLastUpdateUs =
    if Accepts timeoutUs (s.key v.row v.col) ⟨v.time, v.level⟩
    then Grid.set s.timestampLastUpdateUs v.row v.col v.time else s.timestampLastUpdateUs
  passed : s'.cores.passed = s.cores.passed ++
    if Accepts timeoutUs (s.key v.row v.col) ⟨v.time, v.level⟩
    then [matrixEventOf v.row v.col v.level] else []

section
variable {side : Side} {s : Scan} {a : ScanStep} {v : Visit}

theorem visit_eq_some (hv : visit side s a = some v) :
    s.cores.producer = .idle ∧ s.pc = .col v.row v.col v.time ∧ v.col < side.colCount ∧
      ∃ time, a = .scanner (!v.level) time := by
  unfold visit at hv
  split at hv
  · split at hv
    · rename_i gpio time _ _ r c t hidle hpc
      split_ifs at hv with hc
      cases hv
      exact ⟨hidle, hpc, hc, time, by simp⟩
    · cases hv
  · cases hv

theorem scanStep_of_visit (hv : visit side s a = some v) :
    VisitStep s (scanStep side s a) v := by
  obtain ⟨hidle, hpc, hc, time, rfl⟩ := visit_eq_some hv
  have haccepts : (v.level ≠ Grid.get s.matrix v.row v.col ∧
      v.time - Grid.get s.timestampLastUpdateUs v.row v.col > timeoutUs) =
        Accepts timeoutUs (s.key v.row v.col) ⟨v.time, v.level⟩ := rfl
  simp only [scanStep, hidle, scanLoop, hpc, hc, if_true, Bool.not_not, haccepts]
  split_ifs with hacc
  · constructor <;> simp [hacc, coreStep, hidle]
  · constructor <;> simp [hacc]

theorem scanStep_of_no_visit (hv : visit side s a = none) :
    (scanStep side s a).matrix = s.matrix ∧
      (scanStep side s a).timestampLastUpdateUs = s.timestampLastUpdateUs ∧
      (scanStep side s a).cores.passed = s.cores.passed := by
  cases a with
  | consumer => exact ⟨rfl, rfl, coreStep_passed _ _ (by simp)⟩
  | scanner gpio time =>
    by_cases hidle : s.cores.producer = .idle
    · rw [scanStep, if_pos hidle]
      unfold scanLoop
      cases hpc : s.pc with
      | row r =>
        dsimp only
        split_ifs
        · exact ⟨rfl, rfl, rfl⟩
        · exact ⟨rfl, rfl, coreStep_passed _ _ (by simp)⟩
      | col r c t =>
        have hc : ¬ c < side.colCount := by
          intro hc
          simp [visit, hidle, hpc, hc] at hv
        dsimp only
        rw [if_neg hc]
        exact ⟨rfl, rfl, rfl⟩
    · rw [scanStep, if_neg hidle]
      exact ⟨rfl, rfl, coreStep_passed _ _ (by simp)⟩

theorem key_of_no_visit (hv : visit side s a = none) (r c : Nat) :
    (scanStep side s a).key r c = s.key r c := by
  obtain ⟨hm, ht, -⟩ := scanStep_of_no_visit hv
  rw [Scan.key, hm, ht, Scan.key]

/-- The sample of a key in a step, if there is one. -/
def stepSamples (side : Side) (s : Scan) (a : ScanStep) (r c : Nat) : List (Sample 64) :=
  samplesOf r c (visit side s a).toList

/-- A change of the key, passed on. -/
def changePassed (r c : Nat) (i : Sample 64) : Passed := ⟨i.time, matrixEventOf r c i.level⟩

theorem VisitStep.key {s' : Scan} (h : VisitStep s s' v) (hr : v.row < 5) (hc : v.col < 8)
    (r c : Nat) : s'.key r c =
      if v.row = r ∧ v.col = c then step timeoutUs (s.key r c) ⟨v.time, v.level⟩ else s.key r c := by
  have heq : (r = v.row ∧ c = v.col) ↔ (v.row = r ∧ v.col = c) := by omega
  rw [Scan.key, h.matrix, h.timestamp]
  by_cases hacc : Accepts timeoutUs (s.key v.row v.col) ⟨v.time, v.level⟩
  · rw [if_pos hacc, if_pos hacc, Grid.get_set _ hr hc, Grid.get_set _ hr hc]
    simp only [heq]
    split_ifs with h'
    · obtain ⟨rfl, rfl⟩ := h'
      rw [step, if_pos hacc]
    · rfl
  · rw [if_neg hacc, if_neg hacc]
    split_ifs with h'
    · obtain ⟨rfl, rfl⟩ := h'
      rw [step, if_neg hacc]
      rfl
    · rfl

theorem key_step (h : ScanInv side s) (a : ScanStep) (r c : Nat) :
    (scanStep side s a).key r c =
      run (step timeoutUs) (s.key r c) (stepSamples side s a r c) := by
  cases hv : visit side s a with
  | none =>
    rw [key_of_no_visit hv, stepSamples, hv]
    rfl
  | some v =>
    obtain ⟨-, hpc, hc, -⟩ := visit_eq_some hv
    have hr5 : v.row < 5 := Nat.lt_of_lt_of_le (h.row_lt _ _ _ hpc) side.rowCount_le
    have hc8 : v.col < 8 := Nat.lt_of_lt_of_le hc side.colCount_le
    rw [(scanStep_of_visit hv).key hr5 hc8, stepSamples, hv]
    by_cases heq : v.row = r ∧ v.col = c <;> simp [samplesOf, heq]

theorem isOf_matrixEventOf (r c r' c' : Nat) (keyState : Bool) :
    (matrixEventOf r' c' keyState).isOf r c = decide (r' = r ∧ c' = c) := by
  simp [MatrixEvent.isOf, matrixEventOf]

theorem keyPassed_step (side : Side) (s : Scan) (a : ScanStep) (r c : Nat) :
    (stepPassed side s a).filter (·.event.isOf r c) =
      (changes timeoutUs (s.key r c) (stepSamples side s a r c)).map (changePassed r c) := by
  cases hv : visit side s a with
  | none =>
    obtain ⟨-, -, hp⟩ := scanStep_of_no_visit hv
    simp [stepPassed, hp, stepSamples, hv, samplesOf, changes, outputs]
  | some v =>
    obtain ⟨-, -, hp⟩ := scanStep_of_visit hv
    obtain ⟨-, hpc, -⟩ := visit_eq_some hv
    have htime : s.currentTimeUs = v.time := by rw [Scan.currentTimeUs, hpc]
    rw [stepPassed, hp, List.drop_left, htime, stepSamples, hv]
    by_cases heq : v.row = r ∧ v.col = c
    · obtain ⟨rfl, rfl⟩ := heq
      by_cases hacc : Accepts timeoutUs (s.key v.row v.col) ⟨v.time, v.level⟩
      · simp [samplesOf, changes, outputs, accepted, hacc, isOf_matrixEventOf, changePassed]
      · simp [samplesOf, changes, outputs, accepted, hacc]
    · have hnone : samplesOf r c (some v).toList = [] := by simp [samplesOf, heq]
      rw [hnone]
      split_ifs <;> simp [isOf_matrixEventOf, heq, changes, outputs]

theorem passed_step (side : Side) (s : Scan) (a : ScanStep) :
    (scanStep side s a).cores.passed =
      s.cores.passed ++ (stepPassed side s a).map (·.event) := by
  have hpre : s.cores.passed <+: (scanStep side s a).cores.passed := by
    cases hv : visit side s a with
    | none => exact (scanStep_of_no_visit hv).2.2 ▸ List.prefix_rfl
    | some v => exact (scanStep_of_visit hv).passed ▸ List.prefix_append _ _
  obtain ⟨es, hes⟩ := hpre
  simp [stepPassed, ← hes, Function.comp_def]

/-! ## Runs -/

theorem visits_cons (a : ScanStep) (steps : List ScanStep) : visits side s (a :: steps) =
    (visit side s a).toList ++ visits side (scanStep side s a) steps := by
  cases hv : visit side s a <;> simp [visits, outputs, hv]

theorem visits_append (steps steps' : List ScanStep) : visits side s (steps ++ steps') =
    visits side s steps ++ visits side (run (scanStep side) s steps) steps' := by
  rw [visits, outputs_append, List.filterMap_append]
  rfl

theorem samplesOf_append (r c : Nat) (vs vs' : List Visit) :
    samplesOf r c (vs ++ vs') = samplesOf r c vs ++ samplesOf r c vs' := by
  simp [samplesOf]

/-- The cells of a key are a debounced key, run over its samples. -/
theorem key_run (h : ScanInv side s) (steps : List ScanStep) (r c : Nat) :
    (run (scanStep side) s steps).key r c =
      run (step timeoutUs) (s.key r c) (samplesOf r c (visits side s steps)) := by
  induction steps generalizing s with
  | nil => rfl
  | cons a steps ih =>
    rw [run_cons, ih (h.step a), key_step h, visits_cons, samplesOf_append, run_append]
    rfl

/-- The events of a key are its changes. -/
theorem keyPassed_run (h : ScanInv side s) (steps : List ScanStep) (r c : Nat) :
    keyPassed side s steps r c =
      (changes timeoutUs (s.key r c) (samplesOf r c (visits side s steps))).map
        (changePassed r c) := by
  induction steps generalizing s with
  | nil => rfl
  | cons a steps ih =>
    have htail := ih (h.step a)
    rw [keyPassed] at htail ⊢
    rw [visits_cons, samplesOf_append, changes_append, List.map_append]
    rw [show passed side s (a :: steps) =
      stepPassed side s a ++ passed side (scanStep side s a) steps from rfl,
      List.filter_append, htail, keyPassed_step, key_step h]
    rfl

theorem passed_run (side : Side) (s : Scan) (steps : List ScanStep) :
    (run (scanStep side) s steps).cores.passed =
      s.cores.passed ++ (passed side s steps).map (·.event) := by
  induction steps generalizing s with
  | nil => simp [passed, outputs]
  | cons a steps ih =>
    rw [run_cons, ih, passed_step, List.append_assoc, ← List.map_append]
    rfl

end

/-! ## The law -/

theorem key_start (r c : Nat) : Scan.start.key r c = Key.start :=
  congrArg₂ Key.mk Grid.get_replicate_default Grid.get_replicate_default

section
variable {side : Side} {steps : List ScanStep}

theorem key_run_start (side : Side) (steps : List ScanStep) (r c : Nat) :
    (run (scanStep side) .start steps).key r c =
      run (step timeoutUs) Key.start (samplesOf r c (visits side .start steps)) := by
  rw [key_run (scanInv_start side), key_start]

theorem keyPassed_run_start (side : Side) (steps : List ScanStep) (r c : Nat) :
    keyPassed side .start steps r c =
      (changes timeoutUs Key.start (samplesOf r c (visits side .start steps))).map
        (changePassed r c) := by
  rw [keyPassed_run (scanInv_start side), key_start]

theorem map_event_keyPassed (side : Side) (steps : List ScanStep) (r c : Nat) :
    (keyPassed side .start steps r c).map (·.event) =
      (run (scanStep side) .start steps).cores.passed.filter (·.isOf r c) := by
  rw [passed_run, List.filter_append, List.filter_map]
  rfl

/-- The times of a key's samples are among those of all visits. -/
theorem pairwise_samplesOf {vs : List Visit} (h : (vs.map (·.time)).Pairwise (· ≤ ·)) (r c : Nat) :
    (samplesOf r c vs).Pairwise (·.time ≤ ·.time) := by
  rw [List.pairwise_map] at h
  rw [samplesOf, List.pairwise_map]
  exact h.filter _

theorem samplesOf_visit {pre : List ScanStep} {a : ScanStep} {v : Visit}
    (hv : visit side (run (scanStep side) .start pre) a = some v) :
    samplesOf v.row v.col (visits side .start (pre ++ [a])) =
      samplesOf v.row v.col (visits side .start pre) ++ [⟨v.time, v.level⟩] := by
  rw [visits_append, visits_cons, hv, samplesOf_append]
  simp [samplesOf, visits, outputs]

end

/-- **The debounce law** of a key, and its independence of the other keys. -/
theorem debounce_law (side : Side) (steps : List ScanStep) (r c : Nat)
    (htimes : ((visits side .start steps).map (·.time)).Pairwise (· ≤ ·)) :
    let es := keyPassed side .start steps r c
    es.map (·.event) =
        (run (scanStep side) .start steps).cores.passed.filter (·.isOf r c) ∧
      (∀ n e, es[n]? = some e → e.event.action = if n % 2 = 0 then .down else .up) ∧
      (0 :: es.map (·.time.toNat)).IsChain (fun t t' => t + 10000 < t') ∧
      (∀ pre a post v, steps = pre ++ a :: post →
        visit side (run (scanStep side) .start pre) a = some v → v.row = r → v.col = c →
          Grid.get (run (scanStep side) .start (pre ++ [a])).matrix r c = v.level ∨
            v.time.toNat ≤ ((keyPassed side .start (pre ++ [a]) r c).getLast?.map
              (·.time.toNat)).getD 0 + 10000) ∧
      ∀ side' steps', samplesOf r c (visits side' .start steps') =
          samplesOf r c (visits side .start steps) →
        keyPassed side' .start steps' r c = es ∧
          (run (scanStep side') .start steps').key r c =
            (run (scanStep side) .start steps).key r c := by
  intro es
  have hes : es = _ := keyPassed_run_start side steps r c
  have hsamples := pairwise_samplesOf htimes r c
  refine ⟨map_event_keyPassed side steps r c, ?_, ?_, ?_, ?_⟩
  · intro n e hn
    rw [hes, List.getElem?_map, Option.map_eq_some_iff] at hn
    obtain ⟨i, hi, rfl⟩ := hn
    rw [changePassed, matrixEventOf, level_of_getElem? hi]
    rcases Nat.mod_two_eq_zero_or_one n with h2 | h2 <;> simp [h2, Key.start]
  · have hspaced := spaced_changes timeoutUs Key.start
      (List.pairwise_cons.2 ⟨fun t _ => last_start_le t, List.pairwise_map.2 hsamples⟩)
    rw [hes, List.map_map]
    exact hspaced
  · rintro pre a post v rfl hv rfl rfl
    have hpre : samplesOf v.row v.col (visits side .start pre) ++ [⟨v.time, v.level⟩] <+:
        samplesOf v.row v.col (visits side .start (pre ++ a :: post)) := by
      rw [← samplesOf_visit hv, List.append_cons pre a post, visits_append (pre ++ [a]) post,
        samplesOf_append]
      exact List.prefix_append _ _
    have hle := (List.pairwise_append.1 (hsamples.sublist hpre.sublist)).2.2
    have hsettled := run_settled timeoutUs
      (i := ⟨v.time, v.level⟩) (last_start_le v.time) fun i hi => hle i hi _ List.mem_cons_self
    rw [← samplesOf_visit hv, ← key_run_start] at hsettled
    rw [keyPassed_run_start, List.getLast?_map, Option.map_map]
    cases h : (changes timeoutUs Key.start
        (samplesOf v.row v.col (visits side .start (pre ++ [a])))).getLast? <;> rw [h] at hsettled
    · exact hsettled
    · exact hsettled
  · intro side' steps' heq
    rw [hes, keyPassed_run_start, key_run_start, key_run_start, heq]
    exact ⟨rfl, rfl⟩

/-- A key goes down, reads open 5000 us later, and is released 15000 us after that. -/
def bouncingKey : List ScanStep :=
  .scanner true 20000 :: .scanner false 20000 :: List.replicate 50 (.scanner true 20000) ++
    List.replicate 47 (.scanner true 25000) ++ List.replicate 2 (.scanner true 40000)

/-- The bounce passes nothing on. -/
theorem debounce_law_bouncingKey :
    keyPassed leftSide .start bouncingKey 0 0 = [⟨20000, .down, 0, 0⟩, ⟨40000, .up, 0, 0⟩] ∧
      (0 :: (keyPassed leftSide .start bouncingKey 0 0).map (·.time.toNat)).IsChain
        (fun t t' => t + 10000 < t') :=
  ⟨by decide +kernel, (debounce_law leftSide bouncingKey 0 0 (by decide +kernel)).2.2.1⟩

end VolumeControl
