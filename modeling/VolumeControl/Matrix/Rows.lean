import Mathlib.Logic.Function.Basic
import VolumeControl.Matrix.Debounce

/-!
# The pins of the matrix

`Wired` is the scan loop with the levels it drives the row pins to. Columns are
pulled up and every switch has a diode: a column reads low when a row that is
driven low has its switch in that column closed (`columnLow`).

`monitor_keys` starts with every row low, so in the first scan the rows that are
yet to come are low as well and their keys show in the row that is sampled.
`scan_reports_pressed_iff` is the exact condition under which no key is reported
that is not pressed.
-/

namespace VolumeControl

open Trace Debounce

structure Wired where
  scan : Scan
  /-- The level of each pin, `true` for high. -/
  level : Nat → Bool
  /-- How many scans are complete. -/
  scans : Nat

def gpioPut (level : Nat → Bool) (pin : Nat) (value : Bool) : Nat → Bool :=
  Function.update level pin value

/-- The state when the loop is entered: every row has been put low. -/
def Wired.start (l : Layout) : Wired :=
  ⟨.start, (List.range l.rowCount).foldl (fun level i => gpioPut level (l.rowPin i) false)
    (fun _ => true), 0⟩

/-- A step of the scanning core, the switches that are closed, and the time; or an access of the
consumer. -/
inductive WiredStep where
  | scanner (closed : Nat → Nat → Bool) (time : BitVec 64)
  | consumer

def columnLow (l : Layout) (level : Nat → Bool) (closed : Nat → Nat → Bool) (c : Nat) : Bool :=
  (List.range l.rowCount).any fun r => !level (l.rowPin r) && closed r c

/-- What `gpio_get` reads where the loop is. -/
def gpioGet (l : Layout) (s : Wired) (closed : Nat → Nat → Bool) : Bool :=
  match s.scan.pc with
  | .row _ => true
  | .col _ c _ => !columnLow l s.level closed c

/-- `gpio_put` before and after the columns of a row. -/
def putRow (l : Layout) (s : Wired) : Nat → Bool :=
  match s.scan.cores.producer, s.scan.pc with
  | .idle, .row r => if r < l.rowCount then gpioPut s.level (l.rowPin r) false else s.level
  | .idle, .col r c _ => if c < l.colCount then s.level else gpioPut s.level (l.rowPin r) true
  | _, _ => s.level

/-- The step completes a scan. -/
def completes (l : Layout) (s : Wired) : Bool :=
  match s.scan.cores.producer, s.scan.pc with
  | .idle, .row r => !decide (r < l.rowCount)
  | _, _ => false

/-- The step of the scan loop that a step is. -/
def scanStepOf (l : Layout) (s : Wired) : WiredStep → ScanStep
  | .scanner closed time => .scanner (gpioGet l s closed) time
  | .consumer => .consumer

def wiredStep (l : Layout) (s : Wired) : WiredStep → Wired
  | .scanner closed time =>
    { scan := scanStep l.toSide s.scan (.scanner (gpioGet l s closed) time)
      level := putRow l s
      scans := if completes l s then s.scans + 1 else s.scans }
  | .consumer => { s with scan := scanStep l.toSide s.scan .consumer }

/-- A DOWN event of the step is of a switch that is closed. -/
def ReportsPressed (l : Layout) (s : Wired) (a : WiredStep) : Prop :=
  ∀ r c : Nat, (wiredStep l s a).scan.cores.passed =
      s.scan.cores.passed ++ [matrixEventOf r c true] →
    ∃ closed time, a = .scanner closed time ∧ closed r c = true

/-- Unless, in the first scan and later than 10000 us, the step samples an open switch with the
switch of a later row in its column closed. -/
def NotMasked (l : Layout) (s : Wired) (a : WiredStep) : Prop :=
  ∀ r c t closed time, a = .scanner closed time → s.scan.cores.producer = .idle →
    s.scan.pc = .col r c t → c < l.colCount → s.scans = 0 → t > timeoutUs →
      (∃ r', r < r' ∧ r' < l.rowCount ∧ closed r' c = true) → closed r c = true

/-! ## The rows that are low -/

/-- The row where the loop is. -/
def ScanPc.rowIndex : ScanPc → Nat
  | .row r => r
  | .col r _ _ => r

/-- The loop is among the columns of row `r`. -/
def ScanPc.Sampling (pc : ScanPc) (r : Nat) : Prop := ∃ c t, pc = .col r c t

/-- Key `(r, c)` is still to come in this scan. -/
def ScanPc.Ahead (pc : ScanPc) (r c : Nat) : Prop :=
  match pc with
  | .row r' => r' ≤ r
  | .col r' c' _ => r' < r ∨ r' = r ∧ c' ≤ c

structure RowsInv (l : Layout) (s : Wired) : Prop where
  scan : ScanInv l.toSide s.scan
  /-- Low is the row that is sampled and, in the first scan, every row to come. -/
  low : ∀ r < l.rowCount, s.level (l.rowPin r) = false ↔
    s.scan.pc.Sampling r ∨ s.scans = 0 ∧ s.scan.pc.rowIndex ≤ r
  /-- In the first scan nothing has been noted yet of the keys to come. -/
  fresh : s.scans = 0 → ∀ r c, s.scan.pc.Ahead r c → s.scan.key r c = Key.start

theorem foldl_gpioPut (l : Layout) (pins : List Nat) (level : Nat → Bool) (r : Nat) :
    (pins.foldl (fun level i => gpioPut level (l.rowPin i) false) level) (l.rowPin r) = false ↔
      level (l.rowPin r) = false ∨ ∃ i ∈ pins, l.rowPin i = l.rowPin r := by
  induction pins generalizing level with
  | nil => simp
  | cons i pins ih =>
    rw [List.foldl_cons, ih]
    by_cases hi : l.rowPin r = l.rowPin i
    · simp [gpioPut, hi]
    · simp [gpioPut, Function.update_of_ne hi, Ne.symm hi]

theorem rowsInv_start (l : Layout) : RowsInv l (.start l) where
  scan := scanInv_start l.toSide
  low r hr := by
    rw [Wired.start, foldl_gpioPut]
    exact ⟨fun _ => .inr ⟨rfl, Nat.zero_le r⟩, fun _ => .inr ⟨r, List.mem_range.2 hr, rfl⟩⟩
  fresh _ r c _ := key_start r c

section
variable {l : Layout} {s : Wired}

theorem wiredStep_scan (l : Layout) (s : Wired) (a : WiredStep) :
    (wiredStep l s a).scan = scanStep l.toSide s.scan (scanStepOf l s a) := by
  cases a <;> rfl

theorem RowsInv.scan_step (h : RowsInv l s) (a : WiredStep) :
    ScanInv l.toSide (wiredStep l s a).scan := by
  rw [wiredStep_scan]
  exact h.scan.step _

/-- The rows have pins of their own. -/
theorem gpioPut_rowPin {r r' : Nat} (level : Nat → Bool) (value : Bool) (hr : r < l.rowCount)
    (hr' : r' < l.rowCount) : gpioPut level (l.rowPin r) value (l.rowPin r') =
      if r' = r then value else level (l.rowPin r') := by
  by_cases heq : r' = r
  · simp [gpioPut, heq]
  · have hpin : l.rowPin r' ≠ l.rowPin r := fun he => heq (l.rows_inj r' hr' r hr he)
    rw [gpioPut, Function.update_of_ne hpin, if_neg heq]

/-- A step that leaves the loop where it is. -/
theorem RowsInv.of_same {s' : Wired} (h : RowsInv l s) (hscan : ScanInv l.toSide s'.scan)
    (hpc : s'.scan.pc = s.scan.pc) (hkey : ∀ r c, s'.scan.key r c = s.scan.key r c)
    (hlevel : s'.level = s.level) (hscans : s'.scans = s.scans) : RowsInv l s' where
  scan := hscan
  low := by
    rw [hpc, hlevel, hscans]
    exact h.low
  fresh := by
    simp only [hpc, hkey, hscans]
    exact h.fresh

/-- A row is driven low, and the scan goes on to its first column. -/
theorem RowsInv.row_start (h : RowsInv l s) (hidle : s.scan.cores.producer = .idle) {r : Nat}
    (hpc : s.scan.pc = .row r) (hr : r < l.rowCount) (closed : Nat → Nat → Bool)
    (time : BitVec 64) : RowsInv l (wiredStep l s (.scanner closed time)) := by
  have hvisit : visit l.toSide s.scan (.scanner (gpioGet l s closed) time) = none := by
    simp [visit, hidle, hpc]
  have hscan : (wiredStep l s (.scanner closed time)).scan.pc = .col r 0 time := by
    simp [wiredStep, scanStep, scanLoop, hidle, hpc, hr]
  have hscans : (wiredStep l s (.scanner closed time)).scans = s.scans := by
    simp [wiredStep, completes, hidle, hpc, hr]
  have hlevel : (wiredStep l s (.scanner closed time)).level =
      gpioPut s.level (l.rowPin r) false := by
    simp [wiredStep, putRow, hidle, hpc, hr]
  refine ⟨h.scan_step _, fun r' hr' => ?_, fun h0 r' c' hahead => ?_⟩
  · rw [hlevel, hscan, hscans, gpioPut_rowPin _ _ hr hr']
    by_cases heq : r' = r
    · simp [heq, ScanPc.Sampling]
    · rw [if_neg heq, h.low r' hr', hpc]
      simp [ScanPc.Sampling, ScanPc.rowIndex, Ne.symm heq]
  · rw [hscans] at h0
    rw [hscan] at hahead
    refine (key_of_no_visit hvisit r' c').trans (h.fresh h0 r' c' ?_)
    rw [hpc]
    rcases hahead with hlt | ⟨rfl, -⟩
    · exact hlt.le
    · exact Nat.le_refl _

/-- Past the last row the next scan starts. -/
theorem RowsInv.scan_end (h : RowsInv l s) (hidle : s.scan.cores.producer = .idle) {r : Nat}
    (hpc : s.scan.pc = .row r) (hr : ¬ r < l.rowCount) (closed : Nat → Nat → Bool)
    (time : BitVec 64) : RowsInv l (wiredStep l s (.scanner closed time)) := by
  have hscan : (wiredStep l s (.scanner closed time)).scan.pc = .row 0 := by
    simp [wiredStep, scanStep, scanLoop, hidle, hpc, hr]
  have hscans : (wiredStep l s (.scanner closed time)).scans = s.scans + 1 := by
    simp [wiredStep, completes, hidle, hpc, hr]
  have hlevel : (wiredStep l s (.scanner closed time)).level = s.level := by
    simp [wiredStep, putRow, hidle, hpc, hr]
  refine ⟨h.scan_step _, fun r' hr' => ?_, fun h0 => ?_⟩
  · rw [hlevel, h.low r' hr', hpc, hscan, hscans]
    simp [ScanPc.Sampling, ScanPc.rowIndex]
    omega
  · rw [hscans] at h0
    omega

/-- A column is sampled. -/
theorem RowsInv.col_sample (h : RowsInv l s) (hidle : s.scan.cores.producer = .idle) {r c : Nat}
    {t : BitVec 64} (hpc : s.scan.pc = .col r c t) (hc : c < l.colCount)
    (closed : Nat → Nat → Bool) (time : BitVec 64) :
    RowsInv l (wiredStep l s (.scanner closed time)) := by
  have hr : r < l.rowCount := h.scan.row_lt r c t hpc
  have hvisit : visit l.toSide s.scan (.scanner (gpioGet l s closed) time) =
      some ⟨r, c, t, !gpioGet l s closed⟩ := by
    simp [visit, hidle, hpc, hc]
  have hscan : (wiredStep l s (.scanner closed time)).scan.pc = .col r (c + 1) t := by
    simp only [wiredStep, scanStep, scanLoop, hidle, hpc, hc, if_true]
    split_ifs <;> rfl
  have hscans : (wiredStep l s (.scanner closed time)).scans = s.scans := by
    simp [wiredStep, completes, hidle, hpc]
  have hlevel : (wiredStep l s (.scanner closed time)).level = s.level := by
    simp [wiredStep, putRow, hidle, hpc, hc]
  refine ⟨h.scan_step _, fun r' hr' => ?_, fun h0 r' c' hahead => ?_⟩
  · rw [hlevel, h.low r' hr', hpc, hscan, hscans]
    simp [ScanPc.Sampling, ScanPc.rowIndex]
  · -- the key sampled is behind, and the others keep their cells
    rw [hscan] at hahead
    have hne : ¬ (r = r' ∧ c = c') := by
      rcases hahead with hlt | ⟨rfl, hle⟩ <;> omega
    rw [hscans] at h0
    rw [wiredStep_scan, scanStepOf, (scanStep_of_visit hvisit).key
      (Nat.lt_of_lt_of_le hr l.rowCount_le) (Nat.lt_of_lt_of_le hc l.colCount_le), if_neg hne]
    refine h.fresh h0 r' c' ?_
    rw [hpc]
    exact hahead.imp_right fun h => ⟨h.1, Nat.le_of_succ_le h.2⟩

/-- Past the last column the row is driven high. -/
theorem RowsInv.row_end (h : RowsInv l s) (hidle : s.scan.cores.producer = .idle) {r c : Nat}
    {t : BitVec 64} (hpc : s.scan.pc = .col r c t) (hc : ¬ c < l.colCount)
    (closed : Nat → Nat → Bool) (time : BitVec 64) :
    RowsInv l (wiredStep l s (.scanner closed time)) := by
  have hr : r < l.rowCount := h.scan.row_lt r c t hpc
  have hvisit : visit l.toSide s.scan (.scanner (gpioGet l s closed) time) = none := by
    simp [visit, hidle, hpc, hc]
  have hscan : (wiredStep l s (.scanner closed time)).scan.pc = .row (r + 1) := by
    simp [wiredStep, scanStep, scanLoop, hidle, hpc, hc]
  have hscans : (wiredStep l s (.scanner closed time)).scans = s.scans := by
    simp [wiredStep, completes, hidle, hpc]
  have hlevel : (wiredStep l s (.scanner closed time)).level =
      gpioPut s.level (l.rowPin r) true := by
    simp [wiredStep, putRow, hidle, hpc, hc]
  refine ⟨h.scan_step _, fun r' hr' => ?_, fun h0 r' c' hahead => ?_⟩
  · rw [hlevel, hscan, hscans, gpioPut_rowPin _ _ hr hr']
    by_cases heq : r' = r
    · simp [heq, ScanPc.Sampling, ScanPc.rowIndex]
    · rw [if_neg heq, h.low r' hr', hpc]
      simp [ScanPc.Sampling, ScanPc.rowIndex, Ne.symm heq]
      omega
  · rw [hscans] at h0
    rw [hscan] at hahead
    refine (key_of_no_visit hvisit r' c').trans (h.fresh h0 r' c' ?_)
    rw [hpc]
    exact .inl hahead

theorem RowsInv.step (h : RowsInv l s) (a : WiredStep) : RowsInv l (wiredStep l s a) := by
  cases a with
  | consumer => exact h.of_same (h.scan_step _) rfl (key_of_no_visit rfl) rfl rfl
  | scanner closed time =>
    by_cases hidle : s.scan.cores.producer = .idle
    · cases hpc : s.scan.pc with
      | row r =>
        by_cases hr : r < l.rowCount
        · exact h.row_start hidle hpc hr closed time
        · exact h.scan_end hidle hpc hr closed time
      | col r c t =>
        by_cases hc : c < l.colCount
        · exact h.col_sample hidle hpc hc closed time
        · exact h.row_end hidle hpc hc closed time
    · have hvisit : visit l.toSide s.scan (.scanner (gpioGet l s closed) time) = none := by
        cases hp : s.scan.cores.producer <;> simp_all [visit]
      refine h.of_same (h.scan_step _) ?_ (key_of_no_visit hvisit) ?_ ?_
      · simp [wiredStep, scanStep, hidle]
      · cases hp : s.scan.cores.producer <;> simp_all [wiredStep, putRow]
      · cases hp : s.scan.cores.producer <;> simp_all [wiredStep, completes]

theorem rowsInv_run (l : Layout) (steps : List WiredStep) :
    RowsInv l (run (wiredStep l) (.start l) steps) :=
  run_inv (RowsInv l) (fun _ a h => h.step a) (rowsInv_start l) steps

/-- **From the second scan on the row that is sampled is the only one low.** -/
theorem sampled_row_low (l : Layout) (steps : List WiredStep) :
    let s := run (wiredStep l) (.start l) steps
    s.scans ≠ 0 → ∀ r c t, s.scan.pc = .col r c t →
      ∀ r' < l.rowCount, s.level (l.rowPin r') = false ↔ r' = r := by
  intro s hscans r c t hpc r' hr'
  rw [(rowsInv_run l steps).low r' hr', hpc]
  simp [ScanPc.Sampling, s, hscans, eq_comm]

theorem RowsInv.key_sampled (h : RowsInv l s) (h0 : s.scans = 0) {r c : Nat} {t : BitVec 64}
    (hpc : s.scan.pc = .col r c t) : s.scan.key r c = Key.start := by
  apply h.fresh h0
  rw [hpc]
  exact .inr ⟨rfl, Nat.le_refl c⟩

/-! ## The events -/

theorem matrixEventOf_inj {r c r' c' : Nat} {keyState keyState' : Bool}
    (h : matrixEventOf r c keyState = matrixEventOf r' c' keyState') :
    r = r' ∧ c = c' ∧ keyState = keyState' := by
  have hrow : (r : Int) = r' := congrArg MatrixEvent.row h
  have hcol : (c : Int) = c' := congrArg MatrixEvent.col h
  have haction := congrArg MatrixEvent.action h
  refine ⟨by omega, by omega, ?_⟩
  cases keyState <;> cases keyState' <;> simp_all [matrixEventOf]

/-- A DOWN event comes from a visit that finds the key down and is accepted. -/
theorem passed_down_iff {a : WiredStep} {r c : Nat} :
    (wiredStep l s a).scan.cores.passed = s.scan.cores.passed ++ [matrixEventOf r c true] ↔
      ∃ t, visit l.toSide s.scan (scanStepOf l s a) = some ⟨r, c, t, true⟩ ∧
        Accepts timeoutUs (s.scan.key r c) ⟨t, true⟩ := by
  rw [wiredStep_scan]
  constructor
  · intro h
    cases hv : visit l.toSide s.scan (scanStepOf l s a) with
    | none =>
      rw [(scanStep_of_no_visit hv).2.2] at h
      simp at h
    | some v =>
      rw [(scanStep_of_visit hv).passed, List.append_cancel_left_eq] at h
      split_ifs at h with hacc
      · obtain ⟨rfl, rfl, hlevel⟩ := matrixEventOf_inj (List.singleton_inj.1 h)
        obtain ⟨r, c, t, level⟩ := v
        cases hlevel
        exact ⟨t, rfl, hacc⟩
  · rintro ⟨t, hv, hacc⟩
    rw [(scanStep_of_visit hv).passed, if_pos hacc]

theorem columnLow_iff {level : Nat → Bool} {closed : Nat → Nat → Bool} {c : Nat} :
    columnLow l level closed c = true ↔
      ∃ r < l.rowCount, level (l.rowPin r) = false ∧ closed r c = true := by
  simp [columnLow]

theorem reportsPressed_iff (h : RowsInv l s) (a : WiredStep) :
    ReportsPressed l s a ↔ NotMasked l s a := by
  constructor
  · rintro hrep r c t closed time rfl hidle hpc hc h0 ht ⟨r', hlt, hr', hclosed⟩
    -- the later row is low too, so the column reads low
    have hlow : s.level (l.rowPin r') = false :=
      (h.low r' hr').2 (.inr ⟨h0, by rw [hpc]; exact hlt.le⟩)
    have hcol : columnLow l s.level closed c = true := columnLow_iff.2 ⟨r', hr', hlow, hclosed⟩
    have hv : visit l.toSide s.scan (scanStepOf l s (.scanner closed time)) =
        some ⟨r, c, t, true⟩ := by
      simp [visit, scanStepOf, gpioGet, hidle, hpc, hc, hcol]
    have hacc : Accepts timeoutUs (s.scan.key r c) ⟨t, true⟩ := by
      rw [h.key_sampled h0 hpc]
      exact ⟨Bool.noConfusion, by simpa [Key.start] using ht⟩
    obtain ⟨closed', time', ha, hpressed⟩ := hrep r c (passed_down_iff.2 ⟨t, hv, hacc⟩)
    cases ha
    exact hpressed
  · intro hmask r c hdown
    obtain ⟨t, hv, hacc⟩ := passed_down_iff.1 hdown
    obtain ⟨hidle, hpc, hc, time, ha⟩ := visit_eq_some hv
    cases a with
    | consumer => cases ha
    | scanner closed time =>
      refine ⟨closed, time, rfl, ?_⟩
      have hcol : columnLow l s.level closed c = true := by
        simpa [scanStepOf, gpioGet, hpc] using And.left (ScanStep.scanner.inj ha)
      obtain ⟨r', hr', hlow, hclosed⟩ := columnLow_iff.1 hcol
      rw [h.low r' hr', hpc] at hlow
      rcases hlow with ⟨c', t', he⟩ | ⟨h0, hle⟩
      · cases he
        exact hclosed
      · rcases Nat.eq_or_lt_of_le hle with rfl | hlt
        · exact hclosed
        · have ht : t > timeoutUs := by
            rw [h.key_sampled h0 hpc] at hacc
            simpa [Key.start] using hacc.2
          exact hmask r c t closed time rfl hidle hpc hc h0 ht ⟨r', hlt, hr', hclosed⟩

end

/-- **The scan reports no key that is not pressed** exactly when, in the first scan, no open switch
is sampled in a column where a later row has its switch closed. -/
theorem scan_reports_pressed_iff (l : Layout) (steps : List WiredStep) :
    AllSteps (wiredStep l) (ReportsPressed l) (.start l) steps ↔
      AllSteps (wiredStep l) (NotMasked l) (.start l) steps :=
  AllSteps.iff_of_inv (RowsInv l) (fun _ a h => reportsPressed_iff h a)
    (fun _ a h _ => h.step a) (rowsInv_start l) steps

/-- Special key 0 of the left side is held at the start: escape, above it, is reported. -/
theorem scan_reports_pressed_counterexample : ¬ ∀ (l : Layout) (steps : List WiredStep),
    AllSteps (wiredStep l) (ReportsPressed l) (.start l) steps := by
  intro h
  have hall := h leftLayout (List.replicate 2 (.scanner (fun r c => r = 1 ∧ c = 0) 20000))
  obtain ⟨closed, time, ha, hclosed⟩ := hall.2.1 0 0 rfl
  cases ha
  simp at hclosed

end VolumeControl
