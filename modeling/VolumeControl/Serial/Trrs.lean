import VolumeControl.Hid.Report
import VolumeControl.Serial.Hamming

/-!
# The serial link between the halves

The two halves of the keyboard exchange packets of two bytes over a UART. `Uart`
is its receiving side: the time, and the bytes that have arrived or will. A read
that finds no second byte within 1000 us gives up and returns 0.

`trrs_link_corrects`: packets of the Hamming code come out as they went in, each
with up to one bit flipped on the way, and as 0 with two.
-/

namespace VolumeControl

open Xor

/-- A byte and the time it arrives, in microseconds. -/
structure Arrival where
  time : Nat
  byte : Byte
  deriving DecidableEq, Repr

structure Uart where
  now : Nat
  rx : List Arrival
  deriving DecidableEq, Repr

/-- Waits for a byte; no result if none comes. -/
def uartGetc (u : Uart) : Option (Byte × Uart) :=
  match u.rx with
  | [] => none
  | a :: rx => some (a.byte, ⟨max u.now a.time, rx⟩)

def uartIsReadable (u : Uart) : Bool :=
  match u.rx with
  | [] => false
  | a :: _ => a.time ≤ u.now

def uartIsReadableWithinUs (u : Uart) (us : Nat) : Bool × Uart :=
  match u.rx with
  | [] => (false, { u with now := u.now + us })
  | a :: _ =>
    if a.time ≤ u.now + us then (true, { u with now := max u.now a.time })
    else (false, { u with now := u.now + us })

/-- The bytes of a packet, in the order they are sent. -/
def trrsSend (packet : BitVec 16) : List Byte :=
  [(packet &&& 0xff).setWidth 8, (packet >>> 8 &&& 0xff).setWidth 8]

def trrsDataAvailable (u : Uart) : Bool := uartIsReadable u

def trrsRead (u : Uart) : Option (BitVec 16 × Uart) := do
  let (low, u) ← uartGetc u
  let retval := low.setWidth 16
  let (readable, u) := uartIsReadableWithinUs u 1000
  if !readable then return (0x0000, u)
  let (high, u) ← uartGetc u
  return (retval ||| high.setWidth 16 <<< 8, u)

/-! ## One packet -/

theorem setWidth_and_255 (x : BitVec 16) : (x &&& 0xff).setWidth 8 = x.setWidth 8 := by
  rw [BitVec.setWidth_and, show BitVec.setWidth 8 (0xff : BitVec 16) = BitVec.allOnes 8 by rfl,
    BitVec.and_allOnes]

/-- The packet that two bytes make up. -/
def joinBytes (low high : Byte) : BitVec 16 := low.setWidth 16 ||| high.setWidth 16 <<< 8

theorem getLsbD_joinBytes (low high : Byte) (i : Nat) : (joinBytes low high).getLsbD i =
    if i < 8 then low.getLsbD i else decide (i < 16) && high.getLsbD (i - 8) := by
  by_cases h : i < 8
  · simp [joinBytes, h, show i < 16 by omega]
  · have hlow : low.getLsbD i = false := BitVec.getLsbD_of_ge low i (by omega)
    by_cases h16 : i < 16
    · simp [joinBytes, h, h16, hlow]
    · simp [joinBytes, h, h16]

/-- A packet comes together from its bytes, and with it the bits flipped in them. -/
theorem joinBytes_xor (packet error : BitVec 16) :
    joinBytes ((packet &&& 0xff).setWidth 8 ^^^ (error &&& 0xff).setWidth 8)
      ((packet >>> 8 &&& 0xff).setWidth 8 ^^^ (error >>> 8 &&& 0xff).setWidth 8) =
      packet ^^^ error := by
  apply BitVec.eq_of_getLsbD_eq
  intro i hi
  simp only [setWidth_and_255]
  rw [getLsbD_joinBytes]
  by_cases h : i < 8
  · simp [h]
  · simp [h, hi, show i - 8 < 8 by omega, show 8 + (i - 8) = i by omega]

theorem trrsRead_intime {now t t' : Nat} (low high : Byte) (rx : List Arrival)
    (h : t' ≤ max now t + 1000) :
    trrsRead ⟨now, ⟨t, low⟩ :: ⟨t', high⟩ :: rx⟩ =
      some (joinBytes low high, ⟨max (max now t) t', rx⟩) := by
  simp [trrsRead, uartGetc, uartIsReadableWithinUs, joinBytes, h]

/-! ## Many packets -/

/-- A packet on the wire: its payload, the bits flipped on the way, the times its bytes arrive, and
the time `trrs_read` is called for it. -/
structure Transfer where
  payload : BitVec 11
  error : BitVec 16
  lowTime : Nat
  highTime : Nat
  readTime : Nat
  error_le : (ones error).length ≤ 2
  /-- The second byte is readable within 1000 us of the first. -/
  inTime : highTime ≤ max readTime lowTime + 1000

/-- The bytes that arrive. -/
def Transfer.arrivals (t : Transfer) : List Arrival :=
  List.zipWith Arrival.mk [t.lowTime, t.highTime]
    (List.zipWith (· ^^^ ·) (trrsSend (hamming1611Encode (t.payload.setWidth 16))) (trrsSend t.error))

theorem Transfer.trrsRead_arrivals (t : Transfer) (rx : List Arrival) :
    trrsRead ⟨t.readTime, t.arrivals ++ rx⟩ =
      some (packetOf t.payload ^^^ t.error, ⟨max (max t.readTime t.lowTime) t.highTime, rx⟩) := by
  rw [← joinBytes_xor]
  exact trrsRead_intime _ _ rx t.inTime

/-- A `trrs_read` at each of the times, each packet decoded; no result if one waits forever. -/
def readAll : List Nat → List Arrival → Option (List (BitVec 16))
  | [], _ => some []
  | now :: times, rx => do
    let (packet, u) ← trrsRead ⟨now, rx⟩
    let rest ← readAll times u.rx
    return (hamming1611Decode packet).1 :: rest

/-- **The link corrects one flipped bit of a packet and notices two**, packet by packet. -/
theorem trrs_link_corrects (ts : List Transfer) :
    readAll (ts.map (·.readTime)) (ts.flatMap (·.arrivals)) =
      some (ts.map fun t => if (ones t.error).length ≤ 1 then t.payload.setWidth 16 else 0) := by
  induction ts with
  | nil => rfl
  | cons t ts ih =>
    have hread := t.trrsRead_arrivals (ts.flatMap (·.arrivals))
    have hdecode := decode_packetOf_xor t.payload t.error t.error_le
    rw [List.map_cons, List.flatMap_cons, readAll, hread]
    simp [ih, hdecode]

/-- Three packets of one payload: as it was sent, with one bit flipped, and with two. -/
def flippedTransfers : List Transfer :=
  [⟨0x155, 0, 0, 90, 0, by decide, by decide⟩,
    ⟨0x155, 0x20, 2000, 2090, 2500, by decide, by decide⟩,
    ⟨0x155, 0x2100, 4000, 5000, 3500, by decide, by decide⟩]

theorem trrs_link_corrects_flipped :
    readAll [0, 2500, 3500] (flippedTransfers.flatMap (·.arrivals)) = some [0x155, 0x155, 0] :=
  (trrs_link_corrects flippedTransfers).trans (by decide)

end VolumeControl
