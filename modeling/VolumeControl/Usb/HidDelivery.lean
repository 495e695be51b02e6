import VolumeControl.Lib.Channel
import VolumeControl.Usb.HidEndpoint

/-!
# Delivery of the reports

The calls of `keyboard_update` against what the host collects. The endpoint is a
`Channel`: a call puts its report, which is held while the call waits and then
in the hardware buffer, until the host takes it. `hid_reports_iff` says when
nothing is lost on the way. What loses reports are resets and reconfigurations,
and the halt of the endpoint: `hid_silent` shows that one halt while a report is
armed stops the keyboard until the next reset, for the claim on the endpoint is
never released. `hid_no_fault_iff` says when the stack stores through the null
pointers of the endpoint: for a report, or a change of its halt, that finds it
torn down.
-/

namespace VolumeControl

open Trace

/-- The report of a call that has not returned. -/
def UsbPc.pending : UsbPc → Option Report
  | .check r | .wait r | .send r => some r
  | _ => none

/-- The way of a report from `keyboard_update` to the host. -/
def hidReports : Channel HidSystem HidStep Report where
  step := hidSysStep
  held s := s.dev.armed.toList ++ s.pc.pending.toList
  put s st := match st with
    | .call r => if s.pc = .idle then [r] else []
    | _ => []
  take s st := match st with
    | .hostIn => s.dev.armed.toList
    | _ => []

/-- The event leaves the hardware buffer as it is. -/
def Spares (d : HidDevice) : UsbEvent → Prop
  | .setupReceived (.setConfiguration cfgNum) => d.cfgNum = cfgNum
  | .setupReceived .halt => d.stalled = true
  | _ => True

/-- A step that loses no report: nothing is torn down over an armed one, and none is sent to an
endpoint that is claimed or about to be reset. -/
def Intact (s : HidSystem) : HidStep → Prop
  | .main =>
    (∀ r, s.pc = .send r → s.dev.claimed = false ∧ .busReset ∉ s.dev.queue) ∧
    (s.pc.inTask = true → s.dev.armed.isSome → ∀ e ∈ s.dev.queue.head?, Spares s.dev e)
  | .busReset => s.dev.armed = none
  | _ => True

instance (d : HidDevice) : (e : UsbEvent) → Decidable (Spares d e)
  | .setupReceived (.setConfiguration cfgNum) => inferInstanceAs (Decidable (d.cfgNum = cfgNum))
  | .setupReceived .halt => inferInstanceAs (Decidable (d.stalled = true))
  | .setupReceived .clearHalt | .setupReceived (.getReport ..) | .setupReceived .other | .busReset
  | .signal | .xferComplete => inferInstanceAs (Decidable True)

/-! ## One step -/

theorem armed_handleEvent (d : HidDevice) (e : UsbEvent) :
    (handleEvent d e).1.armed = if Spares d e then d.armed else none := by
  cases e with
  | busReset => rfl
  | signal => rfl
  | xferComplete => rfl
  | setupReceived request =>
    cases request with
    | setConfiguration cfgNum =>
      simp only [handleEvent, processControlRequest, setConfiguration, Spares]
      by_cases hsame : d.cfgNum = cfgNum
      · simp [hsame]
      · by_cases hold : d.cfgNum = 0#8
        · have hnew : cfgNum ≠ 0#8 := fun h0 => hsame (hold.trans h0.symm)
          simp [hold, hnew, hnew.symm, processSetConfig]
        · by_cases hnew : cfgNum = 0#8 <;>
            simp [hsame, hold, hnew, configurationReset, processSetConfig]
    | halt => cases hs : d.stalled <;> simp [handleEvent, processControlRequest, Spares, hs]
    | clearHalt => cases hs : d.stalled <;> simp [handleEvent, processControlRequest, Spares, hs]
    | getReport reportId length =>
      simp only [handleEvent, processControlRequest, Spares]
      split <;> rfl
    | other => rfl

@[simp] theorem armed_queueSend (e : UsbEvent) (d : HidDevice) : (queueSend e d).armed = d.armed := by
  unfold queueSend
  split <;> rfl

theorem spares_queue (d : HidDevice) (queue : List UsbEvent) (e : UsbEvent) :
    Spares { d with queue := queue } e ↔ Spares d e := by
  cases e with
  | setupReceived request => cases request <;> rfl
  | busReset => rfl
  | signal => rfl
  | xferComplete => rfl

/-- A round of `tud_task` over the call that waits. -/
theorem held_tudTask {s : HidSystem} {back : UsbPc} (hback : back.pending = s.pc.pending) :
    hidReports.held (tudTask s back) =
      (if ∀ e ∈ s.dev.queue.head?, Spares s.dev e then s.dev.armed else none).toList ++
        s.pc.pending.toList := by
  cases hq : s.dev.queue with
  | nil => simp [hidReports, tudTask, hq, hback]
  | cons e queue =>
    have harmed := armed_handleEvent { s.dev with queue := queue } e
    have hpending (more : Bool) : (if more then s.pc else back).pending = s.pc.pending := by
      cases more <;> simp [hback]
    simp only [spares_queue] at harmed
    simp only [hidReports, tudTask, hq, harmed, hpending, List.head?_cons, Option.mem_some_iff,
      forall_eq']

theorem held_send {s : HidSystem} (h : HidInv s) {r : Report} (hpc : s.pc = .send r) :
    hidReports.held s = s.dev.armed.toList ++ [r] ∧
      hidReports.held (usbMain s) =
        if s.dev.claimed = false ∧ .busReset ∉ s.dev.queue then [r] else s.dev.armed.toList := by
  obtain ⟨hcfg, hbusy⟩ := h.ready r hpc
  have hout : s.pc.inTask = false := by rw [hpc]; rfl
  refine ⟨by simp [hidReports, hpc, UsbPc.pending], ?_⟩
  cases hclaimed : s.dev.claimed with
  | true => simp [hidReports, usbMain, hpc, tudHidKeyboardReport, hclaimed, UsbPc.pending]
  | false =>
    have harmed : s.dev.armed = none := by
      by_contra ha
      simp [h.active (Option.isSome_iff_ne_none.2 ha)] at hclaimed
    by_cases hreset : .busReset ∈ s.dev.queue
    · have hopen := h.resetOpen hout hreset hcfg
      simp [hidReports, usbMain, hpc, tudHidKeyboardReport, hclaimed, hbusy, hopen, hreset, harmed,
        UsbPc.pending]
    · have hopen := h.opened hcfg hreset
      simp [hidReports, usbMain, hpc, tudHidKeyboardReport, hclaimed, hbusy, hopen, hreset,
        UsbPc.pending]

/-- A round of `tud_task` that tears an armed report down loses it. -/
theorem hid_task_cases {s : HidSystem} (hpc : s.pc.inTask = true) (back : UsbPc)
    (hback : back.pending = s.pc.pending) (hmain : usbMain s = tudTask s back) :
    (hidReports.held (usbMain s) = hidReports.held s ∧ Intact s .main) ∨
      (hidReports.held (usbMain s) ≠ hidReports.held s ∧ ¬ Intact s .main ∧
        (hidReports.held (usbMain s)).Sublist (hidReports.held s)) := by
  have hsend : ∀ r, s.pc ≠ .send r := fun r hp => by simp [hp, UsbPc.inTask] at hpc
  have hheld : hidReports.held s = s.dev.armed.toList ++ s.pc.pending.toList := rfl
  rw [hmain, held_tudTask hback, hheld]
  by_cases hspares : ∀ e ∈ s.dev.queue.head?, Spares s.dev e
  · rw [if_pos hspares]
    exact .inl ⟨rfl, fun r hp => absurd hp (hsend r), fun _ _ => hspares⟩
  · rw [if_neg hspares]
    cases ha : s.dev.armed with
    | none => exact .inl ⟨rfl, fun r hp => absurd hp (hsend r), fun _ hs => by simp [ha] at hs⟩
    | some a =>
      refine .inr ⟨by simp, fun hi => hspares (hi.2 hpc (by simp [ha])), by simp⟩

theorem hid_main_cases {s : HidSystem} (h : HidInv s) :
    (hidReports.held (usbMain s) = hidReports.held s ∧ Intact s .main) ∨
      (hidReports.held (usbMain s) ≠ hidReports.held s ∧ ¬ Intact s .main ∧
        (hidReports.held (usbMain s)).Sublist (hidReports.held s)) := by
  cases hpc : s.pc with
  | idle =>
    refine .inl ⟨by simp [hidReports, usbMain, hpc, UsbPc.pending], ?_⟩
    exact ⟨fun r hp => by simp [hpc] at hp, fun hp => by simp [hpc, UsbPc.inTask] at hp⟩
  | check r =>
    refine .inl ⟨?_, fun r hp => by simp [hpc] at hp, fun hp => by simp [hpc, UsbPc.inTask] at hp⟩
    cases hr : tudHidReady s.dev <;> simp [hidReports, usbMain, hpc, hr, UsbPc.pending]
  | task => exact hid_task_cases (by rw [hpc]; rfl) .idle (by rw [hpc]; rfl) (by simp only [usbMain, hpc])
  | wait r =>
    exact hid_task_cases (by rw [hpc]; rfl) (.check r) (by rw [hpc]; rfl) (by simp only [usbMain, hpc])
  | send r =>
    obtain ⟨hheld, hheld'⟩ := held_send h hpc
    have hout : s.pc.inTask = false := by rw [hpc]; rfl
    rw [hheld, hheld']
    by_cases hfree : s.dev.claimed = false ∧ .busReset ∉ s.dev.queue
    · have harmed : s.dev.armed = none := by
        by_contra ha
        simp [h.active (Option.isSome_iff_ne_none.2 ha)] at hfree
      rw [if_pos hfree, harmed]
      exact .inl ⟨rfl, fun _ _ => hfree, fun hp => by simp [hout] at hp⟩
    · rw [if_neg hfree]
      exact .inr ⟨by simp, fun hi => hfree (hi.1 r hpc), List.sublist_append_left _ _⟩

/-- What a step does to the reports on their way. -/
theorem hid_step_cases {s : HidSystem} (h : HidInv s) (st : HidStep) :
    (hidReports.Conveys s st ∧ Intact s st) ∨
      (¬ hidReports.Conveys s st ∧ ¬ Intact s st ∧ hidReports.Moves s st) := by
  cases st with
  | call r =>
    refine .inl ⟨?_, trivial⟩
    by_cases hpc : s.pc = .idle <;> simp [Channel.Conveys, hidReports, hidSysStep, hpc, UsbPc.pending]
  | hostIn =>
    refine .inl ⟨?_, trivial⟩
    cases ha : s.dev.armed <;> simp [Channel.Conveys, hidReports, hidSysStep, ha]
  | suspend =>
    refine .inl ⟨?_, trivial⟩
    cases hc : s.dev.connected <;> simp [Channel.Conveys, hidReports, hidSysStep, hc]
  | resume =>
    refine .inl ⟨?_, trivial⟩
    cases hc : s.dev.connected <;> simp [Channel.Conveys, hidReports, hidSysStep, hc]
  | sof =>
    refine .inl ⟨?_, trivial⟩
    cases hc : s.dev.suspended <;> simp [Channel.Conveys, hidReports, hidSysStep, hc]
  | setup request => exact .inl ⟨by simp [Channel.Conveys, hidReports, hidSysStep], trivial⟩
  | busReset =>
    cases ha : s.dev.armed with
    | none => exact .inl ⟨by simp [Channel.Conveys, hidReports, hidSysStep, ha], ha⟩
    | some a =>
      refine .inr ⟨?_, by simp [Intact, ha], ?_⟩
      · simp [Channel.Conveys, hidReports, hidSysStep, ha]
      · simp [Channel.Moves, hidReports, hidSysStep, ha]
  | main =>
    have hconveys : hidReports.Conveys s .main ↔
        hidReports.held (usbMain s) = hidReports.held s := by
      rw [Channel.Conveys, show hidReports.take s .main = [] from rfl,
        show hidReports.put s .main = [] from rfl, List.nil_append, List.append_nil]
      rfl
    rcases hid_main_cases h with ⟨hheld, hintact⟩ | ⟨hheld, hintact, hsub⟩
    · exact .inl ⟨hconveys.2 hheld, hintact⟩
    · refine .inr ⟨fun hc => hheld (hconveys.1 hc), hintact, ?_⟩
      rw [Channel.Moves, show hidReports.take s .main = [] from rfl,
        show hidReports.put s .main = [] from rfl, List.nil_append, List.append_nil]
      exact hsub

theorem hid_moves {s : HidSystem} (h : HidInv s) (st : HidStep) : hidReports.Moves s st := by
  rcases hid_step_cases h st with ⟨hc, -⟩ | ⟨-, -, hm⟩
  · exact hc.moves
  · exact hm

theorem hid_conveys_iff {s : HidSystem} (h : HidInv s) (st : HidStep) :
    hidReports.Conveys s st ↔ Intact s st := by
  rcases hid_step_cases h st with ⟨hc, hi⟩ | ⟨hc, hi, -⟩
  · exact iff_of_true hc hi
  · exact iff_of_false hc hi

/-! ## Runs -/

/-- **The host gets the reports of `keyboard_update`**, each once and in order, with what is still on
its way; all of them exactly when no step loses one. -/
theorem hid_reports_iff (steps : List HidStep) (hroom : AllSteps hidSysStep Room .start steps) :
    let got := hidReports.takes .start steps ++ hidReports.held (run hidSysStep .start steps)
    got.Sublist (hidReports.puts .start steps) ∧
      (got = hidReports.puts .start steps ↔ AllSteps hidSysStep Intact .start steps) := by
  exact Channel.delivers HidInv (fun _ _ h hr => h.step hr) (fun _ st h => hid_moves h st)
    (fun _ st h => hid_conveys_iff h st) hidInv_start hroom

/-- The host configures the device. -/
def enumeration : List HidStep :=
  [.busReset, .setup (.setConfiguration 1), .main, .main, .main, .main]

/-- Two reports, the second of which waits for the host to take the first. -/
theorem hid_reports_iff_two :
    let steps := enumeration ++ [.call Report.zero, .main, .main, .call ⟨0, oneKey HidKey.mute⟩, .main,
      .hostIn, .main, .main, .main, .main]
    (hidReports.takes .start steps ++ hidReports.held (run hidSysStep .start steps)).Sublist
        (hidReports.puts .start steps) ∧
      (hidReports.takes .start steps ++ hidReports.held (run hidSysStep .start steps) =
        hidReports.puts .start steps ↔ AllSteps hidSysStep Intact .start steps) :=
  hid_reports_iff _ (by decide +kernel)

/-! ## An endpoint that is gone -/

/-- No report is sent while a bus reset is queued, unless the endpoint is claimed, and the halt of the
endpoint changes only while the endpoint is initialised. -/
def FindsOpen (s : HidSystem) : HidStep → Prop
  | .main =>
    (∀ r, s.pc = .send r → s.dev.claimed = false → .busReset ∉ s.dev.queue) ∧
    (s.pc.inTask = true → ∀ e ∈ s.dev.queue.head?, changesHalt s.dev e = true → s.dev.hwOpen = true)
  | _ => True

theorem fault_tudTask (s : HidSystem) (back : UsbPc) :
    (tudTask s back).fault = false ↔ s.fault = false ∧
      ∀ e ∈ s.dev.queue.head?, changesHalt s.dev e = true → s.dev.hwOpen = true := by
  cases hq : s.dev.queue with
  | nil => simp [tudTask, hq]
  | cons e queue => simp [tudTask, hq, haltStoresAstray]

theorem fault_main {s : HidSystem} (h : HidInv s) :
    (usbMain s).fault = false ↔ s.fault = false ∧ FindsOpen s .main := by
  cases hpc : s.pc with
  | idle => simp [usbMain, FindsOpen, UsbPc.inTask, hpc]
  | check r => simp [usbMain, FindsOpen, UsbPc.inTask, hpc]
  | task => simpa [usbMain, FindsOpen, UsbPc.inTask, hpc] using fault_tudTask s .idle
  | wait r => simpa [usbMain, FindsOpen, UsbPc.inTask, hpc] using fault_tudTask s (.check r)
  | send r =>
    obtain ⟨hcfg, hbusy⟩ := h.ready r hpc
    have hout : s.pc.inTask = false := by rw [hpc]; rfl
    have hopen : s.dev.hwOpen = true ↔ .busReset ∉ s.dev.queue := by
      constructor
      · intro ho hm
        simp [h.resetOpen hout hm hcfg] at ho
      · exact h.opened hcfg
    simp [usbMain, FindsOpen, UsbPc.inTask, hpc, storesAstray, hbusy, ← hopen]

theorem fault_step {s : HidSystem} (h : HidInv s) (st : HidStep) :
    (hidSysStep s st).fault = false ↔ s.fault = false ∧ FindsOpen s st := by
  cases st with
  | main => exact fault_main h
  | call r => by_cases hpc : s.pc = .idle <;> simp [hidSysStep, FindsOpen, hpc]
  | hostIn => cases ha : s.dev.armed <;> simp [hidSysStep, FindsOpen, ha]
  | busReset => simp [hidSysStep, FindsOpen]
  | suspend => cases hc : s.dev.connected <;> simp [hidSysStep, FindsOpen, hc]
  | resume => cases hc : s.dev.connected <;> simp [hidSysStep, FindsOpen, hc]
  | sof => cases hc : s.dev.suspended <;> simp [hidSysStep, FindsOpen, hc]
  | setup request => simp [hidSysStep, FindsOpen]

theorem fault_run {s : HidSystem} (h : HidInv s) {steps : List HidStep}
    (hroom : AllSteps hidSysStep Room s steps) :
    (run hidSysStep s steps).fault = false ↔ s.fault = false ∧ AllSteps hidSysStep FindsOpen s steps := by
  induction steps generalizing s with
  | nil => simp
  | cons st steps ih =>
    rw [run_cons, ih (h.step hroom.1) hroom.2, fault_step h st, allSteps_cons, and_assoc]

/-- **The stack stores through null pointers of the endpoint** exactly when `keyboard_update` sends a
report after a bus reset that `tud_task` has not handled yet, or `tud_task` halts the endpoint, or
clears its halt, while the endpoint is torn down or was never initialised. -/
theorem hid_no_fault_iff (steps : List HidStep) (hroom : AllSteps hidSysStep Room .start steps) :
    (run hidSysStep .start steps).fault = false ↔ AllSteps hidSysStep FindsOpen .start steps :=
  (fault_run hidInv_start hroom).trans (and_iff_right rfl)

/-- The bus is reset between the check of `tud_hid_ready` and the report. -/
theorem hid_no_fault_iff_reset :
    let steps := enumeration ++ [.call Report.zero, .main, .busReset, .main]
    (run hidSysStep .start steps).fault = false ↔ AllSteps hidSysStep FindsOpen .start steps :=
  hid_no_fault_iff _ (by decide +kernel)

/-- The host halts the endpoint of a device that it has not configured. -/
example : (run hidSysStep .start [.setup .halt, .main, .main]).fault = true := by decide

/-! ## A halted endpoint -/

/-- Resets the device or configures it. -/
def Tears : UsbEvent → Bool
  | .busReset | .setupReceived (.setConfiguration _) => true
  | _ => false

/-- What every request but one leaves alone. -/
theorem request_keeps (d : HidDevice) {request : UsbRequest}
    (htears : Tears (.setupReceived request) = false) :
    (processControlRequest d request).claimed = d.claimed ∧
      (processControlRequest d request).queue = d.queue ∧
      (d.armed = none → (processControlRequest d request).armed = none) := by
  cases request with
  | setConfiguration cfgNum => cases htears
  | halt => cases hs : d.stalled <;> simp [processControlRequest, hs]
  | clearHalt => cases hs : d.stalled <;> simp [processControlRequest, hs]
  | getReport reportId length =>
    simp only [processControlRequest]
    split <;> exact ⟨rfl, rfl, id⟩
  | other => exact ⟨rfl, rfl, id⟩

/-- A claim that nothing is there to release. -/
structure Silent (d : HidDevice) : Prop where
  claimed : d.claimed = true
  armed : d.armed = none
  complete : .xferComplete ∉ d.queue
  lasting : ∀ e ∈ d.queue, Tears e = false

/-- The steps by which the device is neither reset nor configured. -/
def Lasting : HidStep → Prop
  | .busReset | .setup (.setConfiguration _) => False
  | _ => True

theorem Silent.queueSend {d : HidDevice} (h : Silent d) {e : UsbEvent} (hc : e ≠ .xferComplete)
    (he : Tears e = false) (suspended : Bool) :
    Silent (queueSend e { d with suspended := suspended }) := by
  unfold VolumeControl.queueSend
  split
  · refine ⟨h.claimed, h.armed, by simpa [hc.symm] using h.complete, ?_⟩
    intro e' hm
    rcases List.mem_append.1 hm with hm | hm
    · exact h.lasting e' hm
    · rw [List.mem_singleton.1 hm]
      exact he
  · exact ⟨h.claimed, h.armed, h.complete, h.lasting⟩

theorem Silent.handleEvent {d : HidDevice} (h : Silent d) {e : UsbEvent} {queue : List UsbEvent}
    (hq : d.queue = e :: queue) : Silent (handleEvent { d with queue := queue } e).1 := by
  have hcomplete : .xferComplete ∉ queue := fun hm => h.complete (by simp [hq, hm])
  have hlasting : ∀ e ∈ queue, Tears e = false := fun e hm => h.lasting e (by simp [hq, hm])
  have htears := h.lasting e (by simp [hq])
  cases e with
  | busReset => cases htears
  | signal => exact ⟨h.claimed, h.armed, hcomplete, hlasting⟩
  | xferComplete => exact absurd (by simp [hq]) h.complete
  | setupReceived request =>
    obtain ⟨hclaimed, hqueue, harmed⟩ :=
      request_keeps { d with connected := true, queue := queue } htears
    refine ⟨hclaimed.trans h.claimed, harmed h.armed, ?_, ?_⟩
    · exact hqueue ▸ hcomplete
    · exact hqueue ▸ hlasting

theorem Silent.main {s : HidSystem} (h : Silent s.dev) : Silent (usbMain s).dev := by
  have htask (back : UsbPc) : Silent (tudTask s back).dev := by
    cases hq : s.dev.queue with
    | nil =>
      simp only [tudTask, hq]
      exact h
    | cons e queue =>
      simp only [tudTask, hq]
      exact h.handleEvent hq
  cases hpc : s.pc with
  | idle => simpa only [usbMain, hpc] using h
  | task => simpa only [usbMain, hpc] using htask .idle
  | check r => simpa only [usbMain, hpc] using h
  | wait r => simpa only [usbMain, hpc] using htask (.check r)
  | send r => simpa [usbMain, hpc, tudHidKeyboardReport, h.claimed] using h

theorem Silent.step {s : HidSystem} (h : Silent s.dev) {st : HidStep} (hst : Lasting st) :
    Silent (hidSysStep s st).dev ∧ hidReports.take s st = [] := by
  cases st with
  | call r =>
    refine ⟨?_, rfl⟩
    simp only [hidSysStep]
    split <;> exact h
  | main => exact ⟨h.main, rfl⟩
  | hostIn =>
    refine ⟨?_, by simp [hidReports, h.armed]⟩
    simpa [hidSysStep, h.armed] using h
  | busReset => exact hst.elim
  | suspend =>
    refine ⟨?_, rfl⟩
    simp only [hidSysStep]
    split
    · exact h.queueSend (by simp) rfl true
    · exact h
  | resume =>
    refine ⟨?_, rfl⟩
    simp only [hidSysStep]
    split
    · exact h.queueSend (by simp) rfl false
    · exact h
  | sof =>
    refine ⟨?_, rfl⟩
    simp only [hidSysStep]
    split
    · exact h.queueSend (by simp) rfl false
    · exact h
  | setup request =>
    refine ⟨?_, rfl⟩
    have htears : Tears (.setupReceived request) = false := by
      cases request with
      | setConfiguration cfgNum => exact hst.elim
      | halt => rfl
      | clearHalt => rfl
      | getReport reportId length => rfl
      | other => rfl
    exact h.queueSend (by simp) htears s.dev.suspended

theorem Silent.run {s : HidSystem} (h : Silent s.dev) {steps : List HidStep}
    (hsteps : ∀ st ∈ steps, Lasting st) : hidReports.takes s steps = [] := by
  induction steps generalizing s with
  | nil => rfl
  | cons st steps ih =>
    obtain ⟨hnext, htake⟩ := h.step (hsteps st List.mem_cons_self)
    rw [Channel.takes_cons, htake, List.nil_append]
    exact ih hnext fun st' hst' => hsteps st' (List.mem_cons_of_mem _ hst')

/-- **A halt over an armed report silences the keyboard.** The report is gone, its completion never
comes, and the claim on the endpoint stays: whatever follows, also the end of the halt, the host gets
no report until the device is reset or configured again. -/
theorem hid_halt_silences (before : List HidStep) (hroom : AllSteps hidSysStep Room .start before)
    (queue : List UsbEvent) (after : List HidStep)
    (hpc : (run hidSysStep .start before).pc.inTask = true)
    (hqueue : (run hidSysStep .start before).dev.queue = .setupReceived .halt :: queue)
    (harmed : (run hidSysStep .start before).dev.armed.isSome)
    (hstalled : (run hidSysStep .start before).dev.stalled = false)
    (hlasting : ∀ e ∈ queue, Tears e = false) (hafter : ∀ st ∈ after, Lasting st) :
    hidReports.takes (run hidSysStep .start before) (.main :: after) = [] := by
  have hinv : HidInv (run hidSysStep .start before) := hidInv_start.run hroom
  have hsilent : Silent (usbMain (run hidSysStep .start before)).dev := by
    have hdev (back : UsbPc) : Silent (tudTask (run hidSysStep .start before) back).dev := by
      simp only [tudTask, hqueue, handleEvent, processControlRequest, hstalled, Bool.false_eq_true,
        if_false]
      refine ⟨hinv.active harmed, rfl, fun hm => ?_, hlasting⟩
      exact hinv.complete harmed (by rw [hqueue]; exact List.mem_cons_of_mem _ hm)
    cases h : (run hidSysStep .start before).pc with
    | task => simpa only [usbMain, h] using hdev .idle
    | wait r => simpa only [usbMain, h] using hdev (.check r)
    | idle => simp [h, UsbPc.inTask] at hpc
    | check r => simp [h, UsbPc.inTask] at hpc
    | send r => simp [h, UsbPc.inTask] at hpc
  rw [Channel.takes_cons]
  exact hsilent.run hafter

/-- The endpoint is halted over a report and cleared; MUTE after it never arrives. -/
theorem hid_halt_silences_mute :
    hidReports.takes (run hidSysStep .start (enumeration ++ [.call Report.zero, .main, .main,
        .setup .halt, .setup .clearHalt, .main])) (.main :: [.main, .main, .call ⟨0, oneKey HidKey.mute⟩,
      .main, .main, .hostIn, .main, .hostIn]) = [] :=
  hid_halt_silences _ (by decide +kernel) [.setupReceived .clearHalt] _ (by decide +kernel)
    (by decide +kernel) (by decide +kernel) (by decide +kernel) (by simp [Tears]) (by simp [Lasting])

/-! ## `keyboard_update` returns -/

/-- Neither resets the device, configures it nor touches the halt of the endpoint. -/
def Harmless : UsbEvent → Prop
  | .busReset => False
  | .setupReceived request => request = .other ∨ ∃ reportId length, request = .getReport reportId length
  | _ => True

/-- A configured device that is awake, with no report armed: what the host has taken is in the queue. -/
structure Serving (d : HidDevice) : Prop where
  configured : d.cfgNum ≠ 0
  awake : d.suspended = false
  paired : d.busy = d.claimed
  due : d.claimed = true → .xferComplete ∈ d.queue
  harmless : ∀ e ∈ d.queue, Harmless e

theorem Serving.handleEvent {d : HidDevice} (h : Serving d) {e : UsbEvent} {queue : List UsbEvent}
    (hq : d.queue = e :: queue) (hep : d.epIn = true) :
    Serving (handleEvent { d with queue := queue } e).1 ∧
      (handleEvent { d with queue := queue } e).1.queue = queue ∧
      (handleEvent { d with queue := queue } e).2 = true := by
  have hharmless : ∀ e ∈ queue, Harmless e := fun e hm => h.harmless e (by simp [hq, hm])
  have hdue (hne : e ≠ .xferComplete) : d.claimed = true → .xferComplete ∈ queue := fun hc => by
    simpa [hq, hne.symm] using h.due hc
  have he := h.harmless e (by simp [hq])
  cases e with
  | busReset => exact he.elim
  | signal => exact ⟨⟨h.configured, h.awake, h.paired, hdue (by simp), hharmless⟩, rfl, rfl⟩
  | xferComplete =>
    exact ⟨⟨h.configured, h.awake, rfl, (fun hc => by cases hc), hharmless⟩, rfl, hep⟩
  | setupReceived request =>
    rcases he with rfl | ⟨reportId, length, rfl⟩
    · exact ⟨⟨h.configured, h.awake, h.paired, hdue (by simp), hharmless⟩, rfl, rfl⟩
    · simp only [VolumeControl.handleEvent, processControlRequest]
      split <;>
        exact ⟨⟨h.configured, h.awake, h.paired, hdue (by simp), hharmless⟩, rfl, trivial⟩

theorem Serving.returns_send {s : HidSystem} (h : HidInv s) (hs : Serving s.dev) {r : Report}
    (hpc : s.pc = .send r) :
    (usbMain s).pc = .idle ∧ (usbMain s).dev.armed = some r := by
  obtain ⟨hcfg, hbusy⟩ := h.ready r hpc
  have hclaimed : s.dev.claimed = false := hs.paired.symm.trans hbusy
  have hopen := h.opened hcfg fun hm => hs.harmless _ hm
  simp [usbMain, hpc, tudHidKeyboardReport, hbusy, hclaimed, hopen]

theorem Serving.returns_free {s : HidSystem} (h : HidInv s) (hs : Serving s.dev) {r : Report}
    (hpc : s.pc = .check r) (hfree : s.dev.claimed = false) :
    (run hidSysStep s (List.replicate 2 .main)).pc = .idle ∧
      (run hidSysStep s (List.replicate 2 .main)).dev.armed = some r := by
  have hcfg : s.dev.cfgNum ≠ 0#8 := hs.configured
  have hready : tudHidReady s.dev = true := by
    simp [tudHidReady, hcfg, hs.awake, h.config.1 hcfg, hs.paired, hfree]
  have hsend : usbMain s = { s with pc := .send r } := by
    simp only [usbMain, hpc, hready, if_true]
  have hinv : HidInv (usbMain s) := h.main
  rw [hsend] at hinv
  change (usbMain (usbMain s)).pc = .idle ∧ (usbMain (usbMain s)).dev.armed = some r
  rw [hsend]
  exact Serving.returns_send hinv hs rfl

/-- The loop handles what is queued and then finds the endpoint free. -/
theorem Serving.returns_wait {s : HidSystem} (h : HidInv s) (hs : Serving s.dev) {r : Report}
    (hpc : s.pc = .wait r) :
    (run hidSysStep s (List.replicate (s.dev.queue.length + 3) .main)).pc = .idle ∧
      (run hidSysStep s (List.replicate (s.dev.queue.length + 3) .main)).dev.armed = some r := by
  cases hq : s.dev.queue with
  | nil =>
    have hfree : s.dev.claimed = false := by
      by_contra hc
      have hdue := hs.due (by simpa using hc)
      simp [hq] at hdue
    have hcheck : usbMain s = { s with pc := .check r } := by simp only [usbMain, hpc, tudTask, hq]
    have hinv : HidInv (usbMain s) := h.main
    have hfree' := Serving.returns_free (s := usbMain s) hinv (by rw [hcheck]; exact hs)
      (r := r) (by rw [hcheck]) (by rw [hcheck]; exact hfree)
    exact hfree'
  | cons e queue =>
    obtain ⟨hserving, hqueue, hmore⟩ := hs.handleEvent hq (h.config.1 hs.configured)
    have hnext : (usbMain s).dev = (VolumeControl.handleEvent { s.dev with queue := queue } e).1 ∧
        (usbMain s).pc = .wait r := by
      simp only [usbMain, hpc, tudTask, hq, hmore, if_true, and_self]
    have hinv : HidInv (usbMain s) := h.main
    have hlen : (usbMain s).dev.queue.length = queue.length := by rw [hnext.1, hqueue]
    have hrest := Serving.returns_wait hinv (r := r) (by rw [hnext.1]; exact hserving) hnext.2
    rw [hlen] at hrest
    rw [List.length_cons, show queue.length + 1 + 3 = queue.length + 3 + 1 by omega,
      List.replicate_succ, run_cons]
    exact hrest
termination_by s.dev.queue.length
decreasing_by
  rw [hlen, hq]
  exact Nat.lt_succ_self _

/-- **`keyboard_update` returns**, with its report armed, once the host has taken the one before: after
the events that are queued and four steps more. -/
theorem keyboardUpdate_returns (before : List HidStep) (hroom : AllSteps hidSysStep Room .start before)
    (r : Report) (hcall : (run hidSysStep .start before).pc.pending = some r)
    (hs : Serving (run hidSysStep .start before).dev) :
    ∃ n ≤ (run hidSysStep .start before).dev.queue.length + 4,
      (run hidSysStep .start (before ++ List.replicate n .main)).pc = .idle ∧
      (run hidSysStep .start (before ++ List.replicate n .main)).dev.armed = some r := by
  have hinv : HidInv (run hidSysStep .start before) := hidInv_start.run hroom
  simp only [run_append]
  generalize run hidSysStep .start before = s at *
  cases hpc : s.pc with
  | idle => simp [hpc, UsbPc.pending] at hcall
  | task => simp [hpc, UsbPc.pending] at hcall
  | send r' =>
    obtain rfl : r' = r := by simpa [hpc, UsbPc.pending] using hcall
    exact ⟨1, by omega, Serving.returns_send hinv hs hpc⟩
  | wait r' =>
    obtain rfl : r' = r := by simpa [hpc, UsbPc.pending] using hcall
    exact ⟨s.dev.queue.length + 3, by omega, Serving.returns_wait hinv hs hpc⟩
  | check r' =>
    obtain rfl : r' = r := by simpa [hpc, UsbPc.pending] using hcall
    cases hfree : s.dev.claimed with
    | false => exact ⟨2, by omega, Serving.returns_free hinv hs hpc hfree⟩
    | true =>
      have hready : tudHidReady s.dev = false := by simp [tudHidReady, hs.paired, hfree]
      have hwait : usbMain s = { s with pc := .wait r' } := by
        simp only [usbMain, hpc, hready, Bool.false_eq_true, if_false]
      have hrest := Serving.returns_wait (s := usbMain s) hinv.main (r := r')
        (by rw [hwait]; exact hs) (by rw [hwait])
      have hlen : (usbMain s).dev.queue.length = s.dev.queue.length := by rw [hwait]
      rw [hlen] at hrest
      refine ⟨s.dev.queue.length + 4, Nat.le_refl _, ?_⟩
      rw [List.replicate_succ, run_cons]
      exact hrest

/-- MUTE waits for the host to take the report before. -/
theorem keyboardUpdate_returns_mute :
    let before := enumeration ++ [.call Report.zero, .main, .main, .call ⟨0, oneKey HidKey.mute⟩, .main,
      .hostIn]
    ∃ n ≤ (run hidSysStep .start before).dev.queue.length + 4,
      (run hidSysStep .start (before ++ List.replicate n .main)).pc = .idle ∧
      (run hidSysStep .start (before ++ List.replicate n .main)).dev.armed =
        some ⟨0, oneKey HidKey.mute⟩ :=
  keyboardUpdate_returns _ (by decide +kernel) _ (by decide +kernel)
    ⟨by decide +kernel, by decide +kernel, by decide +kernel, fun _ => by decide +kernel,
      fun e he => by
        obtain rfl : e = .xferComplete := by simpa using (show e ∈ [UsbEvent.xferComplete] from he)
        trivial⟩

end VolumeControl
