import VolumeControl.Hid.Report
import VolumeControl.Ir.Sample

/-!
# The main loop

One iteration of `main`: the knob, the mute button, the reception of an IR
frame and the sending of the IR key. `Inputs` is everything an iteration reads
from outside: the pins, the fields of `ir` as seen at the moment each is read,
and the clock. Every call of `keyboard_update` delivers its report, so the
calls are kept, in order, in `sent`, each with the place in the source it was
made from.

`iteration_eq` says once what an iteration does; the invariants of the loop are
derived from it.
-/

namespace VolumeControl

/-- What one iteration reads. -/
structure Inputs where
  pin16 : Bool
  pin17 : Bool
  pin18 : Bool
  irActive : Bool
  irValueBits : BitVec 32
  irValue : BitVec 32
  /-- The first `time_us_32()` of the iteration. -/
  time : BitVec 32
  /-- The second one, stored when the key is released. -/
  time' : BitVec 32

/-- The calls of `keyboard_update`. -/
inductive Site where
  | knob
  | knobRelease
  | mute
  | muteRelease
  | irRelease
  | irKey
  deriving DecidableEq, Repr

structure Sent where
  site : Site
  report : Report
  deriving DecidableEq, Repr

/-- The variables of `main` that live across iterations, and the reports sent so far. -/
structure MainState where
  lastState : Bool
  clear : Bool
  rc5Data : Rc5Data
  rc5Last : BitVec 32
  rc5New : Bool
  sent : List Sent
  deriving DecidableEq, Repr

/-- The state when the loop is entered. -/
def MainState.start (pin16 : Bool) (time : BitVec 32) : MainState :=
  ⟨pin16, false, Rc5Data.zero, time, false, []⟩

def keyboardUpdate (site : Site) (modifiers : Byte) (keyCodes : Vector Byte 6) (s : MainState) :
    MainState :=
  { s with sent := s.sent ++ [⟨site, ⟨modifiers, keyCodes⟩⟩] }

/-! ## The blocks of the loop -/

namespace Rc5A18Button

def volDown : BitVec 32 := 0x03
def down : BitVec 32 := 0x08
def right : BitVec 32 := 0x0D
def up : BitVec 32 := 0x10
def volUp : BitVec 32 := 0x13
def left : BitVec 32 := 0x15
def ok : BitVec 32 := 0x20
def mute : BitVec 32 := 0x32

end Rc5A18Button

def handleKnob (i : Inputs) (s : MainState) : MainState :=
  if s.lastState ≠ i.pin16 then
    let s :=
      if s.lastState = false ∧ i.pin16 = true then
        if i.pin16 ≠ i.pin17 then keyboardUpdate .knob 0 (oneKey HidKey.volumeDown) s
        else keyboardUpdate .knob 0 (oneKey HidKey.volumeUp) s
      else s
    keyboardUpdate .knobRelease 0 (oneKey 0) s
  else s

def handleMute (i : Inputs) (s : MainState) : MainState :=
  if !i.pin18 then
    { keyboardUpdate .mute 0 (oneKey HidKey.mute) s with clear := true }
  else if s.clear then
    keyboardUpdate .muteRelease 0 (oneKey 0) { s with clear := false }
  else s

/-- Receive new IR keypress. -/
def receiveIr (i : Inputs) (s : MainState) : MainState :=
  if !i.irActive then
    let (s, data) :=
      if i.irValueBits = 13 then
        ({ s with rc5Last := i.time }, some (rc5Decode i.irValue))
      else if i.time - s.rc5Last > 100000 then
        ({ s with rc5Last := i.time' }, some Rc5Data.zero)
      else (s, none)
    match data with
    | some data => if s.rc5Data ≠ data then { s with rc5New := true, rc5Data := data } else s
    | none => s
  else s

/-- The key of an IR keystate: the switch of the send block. -/
def rc5Key (d : Rc5Data) : Byte :=
  if d.address = 0x18 then
    if d.command = Rc5A18Button.volUp then HidKey.volumeUp
    else if d.command = Rc5A18Button.volDown then HidKey.volumeDown
    else if d.command = Rc5A18Button.mute then HidKey.mute
    else if d.command = Rc5A18Button.up then HidKey.arrowUp
    else if d.command = Rc5A18Button.down then HidKey.arrowDown
    else if d.command = Rc5A18Button.left then HidKey.arrowLeft
    else if d.command = Rc5A18Button.right then HidKey.arrowRight
    else if d.command = Rc5A18Button.ok then HidKey.enter
    else 0
  else 0

/-- Send new IR keypress. -/
def sendIr (s : MainState) : MainState :=
  if s.rc5New then
    let key := rc5Key s.rc5Data
    let s := if key ≠ 0 then keyboardUpdate .irRelease 0 (oneKey 0) s else s
    { keyboardUpdate .irKey 0 (oneKey key) s with rc5New := false }
  else s

def iteration (s : MainState) (i : Inputs) : MainState :=
  { sendIr (receiveIr i (handleMute i (handleKnob i s))) with lastState := i.pin16 }

/-! ## What an iteration does -/

/-- The key of a rising edge of the knob. -/
def knobKey (i : Inputs) : Byte :=
  if i.pin16 ≠ i.pin17 then HidKey.volumeDown else HidKey.volumeUp

/-- The reports of the knob, from the last state of pin 16. -/
def knobSent (lastState : Bool) (i : Inputs) : List Sent :=
  if lastState = i.pin16 then []
  else (if i.pin16 then [⟨.knob, ⟨0, oneKey (knobKey i)⟩⟩] else []) ++ [⟨.knobRelease, Report.zero⟩]

/-- The reports of the mute button. -/
def muteSent (clear : Bool) (i : Inputs) : List Sent :=
  if i.pin18 then (if clear then [⟨.muteRelease, Report.zero⟩] else [])
  else [⟨.mute, ⟨0, oneKey HidKey.mute⟩⟩]

/-- The keystate an iteration receives, when it differs from `d`, the one in effect. -/
def newKeystate (d : Rc5Data) (rc5Last : BitVec 32) (i : Inputs) : Option Rc5Data :=
  let data :=
    if i.irActive then none
    else if i.irValueBits = 13 then some (rc5Decode i.irValue)
    else if i.time - rc5Last > 100000 then some Rc5Data.zero
    else none
  data.filter (d ≠ ·)

def rc5LastAfter (rc5Last : BitVec 32) (i : Inputs) : BitVec 32 :=
  if i.irActive then rc5Last
  else if i.irValueBits = 13 then i.time
  else if i.time - rc5Last > 100000 then i.time' else rc5Last

/-- The reports of a new keystate. -/
def irSent (d : Rc5Data) : List Sent :=
  (if rc5Key d ≠ 0 then [⟨.irRelease, Report.zero⟩] else []) ++ [⟨.irKey, ⟨0, oneKey (rc5Key d)⟩⟩]

theorem handleKnob_eq (i : Inputs) (s : MainState) :
    handleKnob i s = { s with sent := s.sent ++ knobSent s.lastState i } := by
  obtain ⟨last, clear, d, t, new, sent⟩ := s
  cases last <;> cases h16 : i.pin16 <;> cases h17 : i.pin17 <;>
    simp [handleKnob, knobSent, knobKey, keyboardUpdate, Report.zero, h16, h17]

theorem handleMute_eq (i : Inputs) (s : MainState) :
    handleMute i s = { s with clear := !i.pin18, sent := s.sent ++ muteSent s.clear i } := by
  obtain ⟨last, clear, d, t, new, sent⟩ := s
  cases h : i.pin18 <;> cases clear <;>
    simp [handleMute, muteSent, keyboardUpdate, Report.zero, h]

theorem receiveIr_eq (i : Inputs) (s : MainState) :
    receiveIr i s =
      { s with
        rc5Data := (newKeystate s.rc5Data s.rc5Last i).getD s.rc5Data
        rc5Last := rc5LastAfter s.rc5Last i
        rc5New := s.rc5New || (newKeystate s.rc5Data s.rc5Last i).isSome } := by
  obtain ⟨last, clear, d, t, new, sent⟩ := s
  cases ha : i.irActive with
  | true => simp [receiveIr, newKeystate, rc5LastAfter, ha]
  | false =>
    simp only [receiveIr, newKeystate, rc5LastAfter, ha, Bool.not_false, Bool.false_eq_true,
      if_true, if_false]
    by_cases h13 : i.irValueBits = 13
    · simp only [if_pos h13]
      by_cases hd : d = rc5Decode i.irValue <;> simp [Option.filter, hd]
    · simp only [if_neg h13]
      by_cases ht : i.time - t > 100000
      · simp only [if_pos ht]
        by_cases hd : d = Rc5Data.zero <;> simp [Option.filter, hd]
      · simp only [if_neg ht]
        simp

theorem sendIr_eq (s : MainState) :
    sendIr s =
      if s.rc5New then { s with rc5New := false, sent := s.sent ++ irSent s.rc5Data } else s := by
  obtain ⟨last, clear, d, t, new, sent⟩ := s
  by_cases hk : rc5Key d = 0
  · simp [sendIr, irSent, keyboardUpdate, hk]
  · simp only [sendIr, irSent, ne_eq, hk, not_false_eq_true, if_true]
    simp [keyboardUpdate, Report.zero]

/-- The state after an iteration, block by block. -/
theorem iteration_eq {s : MainState} (hnew : s.rc5New = false) (i : Inputs) :
    iteration s i =
      { lastState := i.pin16
        clear := !i.pin18
        rc5Data := (newKeystate s.rc5Data s.rc5Last i).getD s.rc5Data
        rc5Last := rc5LastAfter s.rc5Last i
        rc5New := false
        sent := s.sent ++ knobSent s.lastState i ++ muteSent s.clear i ++
          ((newKeystate s.rc5Data s.rc5Last i).map irSent).getD [] } := by
  rw [iteration, handleKnob_eq, handleMute_eq, receiveIr_eq, sendIr_eq]
  cases newKeystate s.rc5Data s.rc5Last i <;> simp [hnew]

end VolumeControl
