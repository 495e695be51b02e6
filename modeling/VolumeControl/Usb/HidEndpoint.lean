import VolumeControl.Hid.Report
import VolumeControl.Lib.Run

/-!
# The endpoint of the keyboard

`keyboard_update` waits until the interface is ready and hands the report to the
USB stack, which fills a hardware buffer that the host collects when it polls.
`HidDevice` is what the stack keeps about the keyboard's IN endpoint, `armed` the
hardware buffer while it is full. Interrupts put events in a queue of 16, and
`tud_task` handles them one by one, in `usb_task` and while `keyboard_update`
waits.

`HidSystem` puts both together: `main` is at one place of `UsbPc`, and an
interrupt may come between any two of its steps. The pointers of the endpoint are
null while the controller has it torn down or not opened yet; a store through them
sets `fault`. `HidInv` is the invariant; it holds in every run in which no event
finds the queue full. The endpoints of CDC are left out.
-/

namespace VolumeControl

open Trace

/-- The control requests that reach the endpoint. -/
inductive UsbRequest where
  | setConfiguration (cfgNum : Byte)
  /-- `SET_FEATURE` and `CLEAR_FEATURE` of `ENDPOINT_HALT`, for this endpoint. -/
  | halt
  | clearHalt
  | getReport (reportId : Byte) (length : Nat)
  | other
  deriving DecidableEq, Repr

inductive UsbEvent where
  | busReset
  /-- Suspend and resume: what they do is done in the interrupt. -/
  | signal
  | xferComplete
  | setupReceived (request : UsbRequest)
  deriving DecidableEq, Repr

structure HidDevice where
  connected : Bool
  cfgNum : Byte
  suspended : Bool
  /-- `_hidd_itf[0].ep_in` is set. -/
  epIn : Bool
  busy : Bool
  claimed : Bool
  stalled : Bool
  epinBuf : Report
  /-- The hardware endpoint is initialised. -/
  hwOpen : Bool
  armed : Option Report
  queue : List UsbEvent
  deriving DecidableEq, Repr

def HidDevice.start : HidDevice :=
  ⟨false, 0, false, false, false, false, false, Report.zero, false, none, []⟩

/-! ## The stack -/

/-- `tu_varclr(&_usbd_dev)` and `hidd_reset`. -/
def configurationReset (d : HidDevice) : HidDevice :=
  { d with
    connected := false
    cfgNum := 0
    suspended := false
    epIn := false
    busy := false
    claimed := false
    stalled := false
    epinBuf := Report.zero }

/-- `hidd_open` for the keyboard, which initialises the endpoint. -/
def processSetConfig (d : HidDevice) : HidDevice :=
  { d with hwOpen := true, armed := none, epIn := true }

def setConfiguration (cfgNum : Byte) (d : HidDevice) : HidDevice :=
  if d.cfgNum = cfgNum then d
  else
    let d := if d.cfgNum ≠ 0 then configurationReset { d with hwOpen := false, armed := none } else d
    let d := if cfgNum ≠ 0 then processSetConfig d else d
    { d with cfgNum := cfgNum }

def processControlRequest (d : HidDevice) : UsbRequest → HidDevice
  | .setConfiguration cfgNum => setConfiguration cfgNum d
  | .halt =>
    if d.stalled then d else { d with armed := none, stalled := true, busy := true }
  | .clearHalt => if d.stalled then { d with stalled := false, busy := false } else d
  | .getReport reportId length =>
    if d.epIn ∧ reportId ≠ 0 ∧ 1 < min length 8 then
      { d with epinBuf := { d.epinBuf with modifier := reportId } }
    else d
  | .other => d

/-- One round of `tud_task`, and whether it goes on: a completion nobody is there for is an
assertion that leaves it. -/
def handleEvent (d : HidDevice) : UsbEvent → HidDevice × Bool
  | .busReset => (configurationReset d, true)
  | .signal => (d, true)
  | .xferComplete => ({ d with busy := false, claimed := false }, d.epIn)
  | .setupReceived request => (processControlRequest { d with connected := true } request, true)

/-- `usbd_edpt_stall` and `usbd_edpt_clear_stall` hand the request on to the controller: only stalled if
currently cleared, only cleared if currently stalled. -/
def changesHalt (d : HidDevice) : UsbEvent → Bool
  | .setupReceived .halt => !d.stalled
  | .setupReceived .clearHalt => d.stalled
  | _ => false

/-- `dcd_edpt_stall` and `dcd_edpt_clear_stall` store through the pointer of an endpoint that is not
initialised. -/
def haltStoresAstray (d : HidDevice) (e : UsbEvent) : Bool := changesHalt d e && !d.hwOpen

def tudHidReady (d : HidDevice) : Bool :=
  decide (d.cfgNum ≠ 0) && !d.suspended && d.epIn && !d.busy

/-- `tud_hid_keyboard_report`: nothing happens when the endpoint cannot be claimed. -/
def tudHidKeyboardReport (r : Report) (d : HidDevice) : HidDevice :=
  if d.busy || d.claimed then d
  else
    { d with
      claimed := true
      epinBuf := r
      busy := true
      armed := if d.hwOpen then some r else d.armed }

/-- It stores through the pointers of an endpoint that is not initialised. -/
def storesAstray (d : HidDevice) : Bool := !(d.busy || d.claimed) && !d.hwOpen

/-- `osal_queue_send`: a full queue drops the event. -/
def queueSend (e : UsbEvent) (d : HidDevice) : HidDevice :=
  if d.queue.length < 16 then { d with queue := d.queue ++ [e] } else d

/-! ## The system -/

inductive UsbPc where
  | idle
  /-- In `usb_task`. -/
  | task
  /-- In `keyboard_update`, before the check of `tud_hid_ready`. -/
  | check (r : Report)
  /-- In the `tud_task` of its loop. -/
  | wait (r : Report)
  /-- After the loop. -/
  | send (r : Report)
  deriving DecidableEq, Repr

structure HidSystem where
  dev : HidDevice
  pc : UsbPc
  /-- A store through a null pointer of the endpoint. -/
  fault : Bool
  deriving DecidableEq, Repr

def HidSystem.start : HidSystem := ⟨.start, .idle, false⟩

inductive HidStep where
  /-- `main` calls `keyboard_update`. -/
  | call (r : Report)
  | main
  /-- The host polls the endpoint. -/
  | hostIn
  | busReset
  | suspend
  | resume
  /-- A start of frame, which is also the end of a remote wake-up. -/
  | sof
  | setup (request : UsbRequest)
  deriving DecidableEq, Repr

/-- `tud_task` takes an event from the queue; `back` is where `main` is when it is left. -/
def tudTask (s : HidSystem) (back : UsbPc) : HidSystem :=
  match s.dev.queue with
  | [] => { s with pc := back }
  | e :: queue =>
    let (dev, more) := handleEvent { s.dev with queue := queue } e
    { dev := dev, pc := if more then s.pc else back, fault := s.fault || haltStoresAstray s.dev e }

def usbMain (s : HidSystem) : HidSystem :=
  match s.pc with
  | .idle => { s with pc := .task }
  | .task => tudTask s .idle
  | .check r => { s with pc := if tudHidReady s.dev then .send r else .wait r }
  | .wait r => tudTask s (.check r)
  | .send r =>
    { dev := tudHidKeyboardReport r s.dev, pc := .idle, fault := s.fault || storesAstray s.dev }

def hidSysStep (s : HidSystem) : HidStep → HidSystem
  | .call r => if s.pc = .idle then { s with pc := .check r } else s
  | .main => usbMain s
  | .hostIn =>
    if s.dev.armed.isSome then { s with dev := queueSend .xferComplete { s.dev with armed := none } }
    else s
  | .busReset => { s with dev := queueSend .busReset { s.dev with hwOpen := false, armed := none } }
  | .suspend =>
    if s.dev.connected then { s with dev := queueSend .signal { s.dev with suspended := true } } else s
  | .resume =>
    if s.dev.connected then { s with dev := queueSend .signal { s.dev with suspended := false } } else s
  | .sof =>
    if s.dev.suspended then { s with dev := queueSend .signal { s.dev with suspended := false } } else s
  | .setup request => { s with dev := queueSend (.setupReceived request) s.dev }

/-- An event finds room in the queue. -/
def Room (s : HidSystem) : HidStep → Prop
  | .call _ | .main => True
  | _ => s.dev.queue.length < 16

instance (s : HidSystem) : (st : HidStep) → Decidable (Room s st)
  | .call _ | .main => inferInstanceAs (Decidable True)
  | .hostIn | .busReset | .suspend | .resume | .sof | .setup _ =>
    inferInstanceAs (Decidable (s.dev.queue.length < 16))

/-! ## The invariant -/

/-- Inside `tud_task`. -/
def UsbPc.inTask : UsbPc → Bool
  | .task | .wait _ => true
  | _ => false

structure EndpointInv (d : HidDevice) : Prop where
  config : d.cfgNum ≠ 0 ↔ d.epIn = true
  active : d.armed.isSome → d.claimed = true
  /-- A report is armed or its completion queued, not both. -/
  complete : d.armed.isSome → .xferComplete ∉ d.queue
  once : d.queue.count .xferComplete ≤ 1
  resetArmed : .busReset ∈ d.queue → d.armed = none
  opened : d.cfgNum ≠ 0 → .busReset ∉ d.queue → d.hwOpen = true

structure HidInv (s : HidSystem) : Prop extends EndpointInv s.dev where
  /-- Once `tud_task` is done the endpoint can be claimed only if no completion is to come. -/
  claimed : s.pc.inTask = false → .xferComplete ∈ s.dev.queue → s.dev.cfgNum ≠ 0 →
    s.dev.claimed = true
  resetOpen : s.pc.inTask = false → .busReset ∈ s.dev.queue → s.dev.cfgNum ≠ 0 →
    s.dev.hwOpen = false
  ready : ∀ r, s.pc = .send r → s.dev.cfgNum ≠ 0 ∧ s.dev.busy = false

theorem hidInv_start : HidInv .start := by
  constructor
  · constructor <;> simp [HidSystem.start, HidDevice.start]
  all_goals simp [HidSystem.start, HidDevice.start]

/-! ## Interrupts -/

theorem queueSend_of_room {d : HidDevice} (h : d.queue.length < 16) (e : UsbEvent) :
    queueSend e d = { d with queue := d.queue ++ [e] } := if_pos h

/-- An event that neither completes nor resets changes nothing the invariant is about. -/
theorem HidInv.queue_quiet {s : HidSystem} (h : HidInv s) {e : UsbEvent} (hc : e ≠ .xferComplete)
    (hr : e ≠ .busReset) (suspended : Bool) :
    HidInv { s with dev := { s.dev with suspended := suspended, queue := s.dev.queue ++ [e] } } where
  config := h.config
  active := h.active
  complete ha hm := h.complete ha (by simpa [hc.symm] using hm)
  once := by
    have hcount := h.once
    rw [List.count_append, List.count_singleton]
    simpa [hc] using hcount
  claimed hpc hm := h.claimed hpc (by simpa [hc.symm] using hm)
  resetArmed hm := h.resetArmed (by simpa [hr.symm] using hm)
  resetOpen hpc hm := h.resetOpen hpc (by simpa [hr.symm] using hm)
  opened hcfg hm := h.opened hcfg fun hm' => hm (by simp [hm'])
  ready := h.ready

theorem HidInv.hostIn {s : HidSystem} (h : HidInv s) (hroom : s.dev.queue.length < 16) :
    HidInv (hidSysStep s .hostIn) := by
  by_cases ha : s.dev.armed.isSome
  · have hcount : s.dev.queue.count .xferComplete = 0 := List.count_eq_zero.2 (h.complete ha)
    have hclaimed := h.active ha
    simp only [hidSysStep, if_pos ha, queueSend, hroom, if_true]
    refine { h with
      active := ?_
      complete := ?_
      once := ?_
      claimed := fun _ _ _ => hclaimed
      resetArmed := ?_
      resetOpen := fun hpc hm => h.resetOpen hpc (by simpa using hm)
      opened := fun hcfg hm => h.opened hcfg fun hm' => hm (by simp [hm']) }
    · simp
    · simp
    · simp [hcount]
    · simp
  · rw [hidSysStep, if_neg ha]
    exact h

theorem HidInv.busReset {s : HidSystem} (h : HidInv s) (hroom : s.dev.queue.length < 16) :
    HidInv (hidSysStep s .busReset) := by
  simp only [hidSysStep, queueSend, hroom, if_true]
  refine { h with
    active := ?_
    complete := ?_
    once := ?_
    claimed := fun hpc hm => h.claimed hpc (by simpa using hm)
    resetArmed := ?_
    resetOpen := fun _ _ _ => rfl
    opened := fun _ hm => absurd (by simp) hm }
  · simp
  · simp
  · simpa using h.once
  · simp

theorem HidInv.signal {s : HidSystem} (h : HidInv s) (hroom : s.dev.queue.length < 16)
    (suspended : Bool) :
    HidInv { s with dev := queueSend .signal { s.dev with suspended := suspended } } := by
  have hquiet := h.queue_quiet (e := .signal) (by simp) (by simp) suspended
  simpa only [queueSend, hroom, if_true] using hquiet

theorem HidInv.setup {s : HidSystem} (h : HidInv s) (hroom : s.dev.queue.length < 16)
    (request : UsbRequest) : HidInv (hidSysStep s (.setup request)) := by
  rw [hidSysStep, queueSend_of_room hroom]
  exact h.queue_quiet (by simp) (by simp) s.dev.suspended

/-! ## `tud_task` -/

/-- The queue without its head, another reset or no reset. -/
theorem EndpointInv.pop {d : HidDevice} (h : EndpointInv d) {e : UsbEvent} {queue : List UsbEvent}
    (hq : d.queue = e :: queue) (he : e ≠ .busReset) :
    EndpointInv { d with queue := queue } where
  config := h.config
  active := h.active
  complete ha hm := h.complete ha (by simp [hq, hm])
  once := by
    have hcount := h.once
    rw [hq, List.count_cons] at hcount
    exact Nat.le_trans (Nat.le_add_right _ _) hcount
  resetArmed hm := h.resetArmed (by simp [hq, hm])
  opened hcfg hm := h.opened hcfg (by simpa [hq, he.symm] using hm)

theorem EndpointInv.setConfiguration {d : HidDevice} (h : EndpointInv d) (cfgNum : Byte) :
    EndpointInv (setConfiguration cfgNum d) := by
  unfold VolumeControl.setConfiguration
  by_cases hsame : d.cfgNum = cfgNum
  · rw [if_pos hsame]
    exact h
  · rw [if_neg hsame]
    by_cases hold : d.cfgNum = 0#8
    · have hnew : cfgNum ≠ 0#8 := fun h0 => hsame (hold.trans h0.symm)
      constructor <;> simp [hold, hnew, processSetConfig, h.once]
    · by_cases hnew : cfgNum = 0#8
      · constructor <;> simp [hold, hnew, configurationReset, h.once]
      · constructor <;> simp [hold, hnew, configurationReset, processSetConfig, h.once]

theorem EndpointInv.request {d : HidDevice} (h : EndpointInv d) (request : UsbRequest) :
    EndpointInv (processControlRequest { d with connected := true } request) := by
  have hconnected : EndpointInv { d with connected := true } := { h with }
  cases request with
  | setConfiguration cfgNum => exact hconnected.setConfiguration cfgNum
  | halt =>
    cases hs : d.stalled with
    | true => simpa [processControlRequest, hs] using hconnected
    | false =>
      simp only [processControlRequest, Bool.false_eq_true, if_false]
      exact { h with
        active := fun ha => by simp at ha
        complete := fun ha => by simp at ha
        resetArmed := fun _ => rfl }
  | clearHalt =>
    cases hs : d.stalled with
    | true =>
      simp only [processControlRequest, if_true]
      exact { h with }
    | false => simpa [processControlRequest, hs] using hconnected
  | getReport reportId length =>
    simp only [processControlRequest]
    split
    · exact { h with }
    · exact hconnected
  | other => exact hconnected

theorem EndpointInv.handleEvent {d : HidDevice} (h : EndpointInv d) {e : UsbEvent}
    {queue : List UsbEvent} (hq : d.queue = e :: queue) :
    EndpointInv (handleEvent { d with queue := queue } e).1 := by
  cases e with
  | busReset =>
    have harmed := h.resetArmed (by simp [hq])
    have hcount : queue.count .xferComplete ≤ 1 := by
      have hcount := h.once
      rw [hq, List.count_cons] at hcount
      exact hcount
    constructor <;> simp [VolumeControl.handleEvent, configurationReset, harmed, hcount]
  | signal => exact h.pop hq (by simp)
  | xferComplete =>
    have harmed : d.armed = none := by
      by_contra ha
      exact h.complete (Option.isSome_iff_ne_none.2 ha) (by simp [hq])
    exact { h.pop hq (by simp) with
      active := fun ha => by simp [VolumeControl.handleEvent, harmed] at ha }
  | setupReceived request => exact (h.pop hq (by simp)).request request

theorem HidInv.tudTask {s : HidSystem} (h : HidInv s) {back : UsbPc} (hpc : s.pc.inTask = true)
    (hsend : ∀ r, back ≠ .send r) : HidInv (tudTask s back) := by
  have hnot : ∀ r, s.pc ≠ .send r := by
    intro r hp
    rw [hp] at hpc
    cases hpc
  cases hq : s.dev.queue with
  | nil =>
    simp only [VolumeControl.tudTask, hq]
    exact { h with
      claimed := fun _ hm => by simp [hq] at hm
      resetOpen := fun _ hm => by simp [hq] at hm
      ready := fun r hp => absurd hp (hsend r) }
  | cons e queue =>
    have hdev := h.handleEvent hq
    simp only [VolumeControl.tudTask, hq]
    cases hmore : (handleEvent { s.dev with queue := queue } e).2 with
    | true =>
      simp only [if_true]
      exact { hdev with
        claimed := fun hp => absurd hpc (by simp [hp])
        resetOpen := fun hp => absurd hpc (by simp [hp])
        ready := fun r hp => absurd hp (hnot r) }
    | false =>
      have hcfg : (handleEvent { s.dev with queue := queue } e).1.cfgNum = 0 := by
        cases e with
        | xferComplete =>
          by_contra hcfg
          have hep : s.dev.epIn = true := h.config.1 hcfg
          simp [handleEvent, hep] at hmore
        | busReset => simp [handleEvent] at hmore
        | signal => simp [handleEvent] at hmore
        | setupReceived request => simp [handleEvent] at hmore
      simp only [Bool.false_eq_true, if_false]
      exact { hdev with
        claimed := fun _ _ hne => absurd hcfg hne
        resetOpen := fun _ _ hne => absurd hcfg hne
        ready := fun r hp => absurd hp (hsend r) }

/-- A report is armed where none was. -/
theorem HidInv.send {s : HidSystem} (h : HidInv s) {r : Report} (hpc : s.pc = .send r) :
    HidInv (usbMain s) := by
  obtain ⟨hcfg, hbusy⟩ := h.ready r hpc
  have hout : s.pc.inTask = false := by rw [hpc]; rfl
  simp only [usbMain, hpc, tudHidKeyboardReport, hbusy, Bool.false_or]
  cases hclaimed : s.dev.claimed with
  | true =>
    simp only [if_true]
    exact { h with
      claimed := fun _ hm hne => h.claimed hout hm hne
      resetOpen := fun _ hm hne => h.resetOpen hout hm hne
      ready := fun _ hp => by cases hp }
  | false =>
    have hdone : .xferComplete ∉ s.dev.queue := fun hm => by
      simp [h.claimed hout hm hcfg] at hclaimed
    simp only [Bool.false_eq_true, if_false]
    exact { h with
      active := fun _ => rfl
      complete := fun _ => hdone
      resetArmed := fun hm => by simpa [h.resetOpen hout hm hcfg] using h.resetArmed hm
      claimed := fun _ hm => absurd hm hdone
      resetOpen := fun _ hm hne => h.resetOpen hout hm hne
      ready := fun _ hp => by cases hp }

theorem HidInv.main {s : HidSystem} (h : HidInv s) : HidInv (usbMain s) := by
  cases hpc : s.pc with
  | idle =>
    simp only [usbMain, hpc]
    exact { h with
      claimed := fun hp => by cases hp
      resetOpen := fun hp => by cases hp
      ready := fun _ hp => by cases hp }
  | task =>
    simp only [usbMain, hpc]
    exact h.tudTask (by rw [hpc]; rfl) (by simp)
  | check r =>
    have hout : s.pc.inTask = false := by rw [hpc]; rfl
    simp only [usbMain, hpc]
    cases hready : tudHidReady s.dev with
    | true =>
      simp only [tudHidReady, Bool.and_eq_true, decide_eq_true_eq, Bool.not_eq_true'] at hready
      simp only [if_true]
      exact { h with
        claimed := fun _ hm hne => h.claimed hout hm hne
        resetOpen := fun _ hm hne => h.resetOpen hout hm hne
        ready := fun _ _ => ⟨hready.1.1.1, hready.2⟩ }
    | false =>
      simp only [Bool.false_eq_true, if_false]
      exact { h with
        claimed := fun hp => by cases hp
        resetOpen := fun hp => by cases hp
        ready := fun _ hp => by cases hp }
  | wait r =>
    simp only [usbMain, hpc]
    exact h.tudTask (by rw [hpc]; rfl) (by simp)
  | send r => exact h.send hpc

/-- **The invariant of the endpoint.** -/
theorem HidInv.step {s : HidSystem} (h : HidInv s) {st : HidStep} (hroom : Room s st) :
    HidInv (hidSysStep s st) := by
  cases st with
  | call r =>
    by_cases hpc : s.pc = .idle
    · have hout : s.pc.inTask = false := by rw [hpc]; rfl
      rw [hidSysStep, if_pos hpc]
      exact { h with
        claimed := fun _ hm hne => h.claimed hout hm hne
        resetOpen := fun _ hm hne => h.resetOpen hout hm hne
        ready := fun _ hp => by cases hp }
    · rw [hidSysStep, if_neg hpc]
      exact h
  | main => exact h.main
  | hostIn => exact h.hostIn hroom
  | busReset => exact h.busReset hroom
  | suspend =>
    simp only [hidSysStep]
    split
    · exact h.signal hroom true
    · exact h
  | resume =>
    simp only [hidSysStep]
    split
    · exact h.signal hroom false
    · exact h
  | sof =>
    simp only [hidSysStep]
    split
    · exact h.signal hroom false
    · exact h
  | setup request => exact h.setup hroom request

theorem HidInv.run {s : HidSystem} (h : HidInv s) {steps : List HidStep}
    (hroom : AllSteps hidSysStep Room s steps) : HidInv (run hidSysStep s steps) :=
  hroom.run_inv HidInv (fun _ _ hs hr => hs.step hr) h

end VolumeControl
