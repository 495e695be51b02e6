import VolumeControl.Serial.Trrs

/-!
# Lost bytes

Nothing in the stream says where a packet begins. `trrs_read` gives up on a
packet whose second byte is late, and as long as packets come further apart than
it waits, it is back in step with the next one: `readPackets_resync`.
-/

namespace VolumeControl

/-- A packet, the times its bytes arrive or would arrive, and whether they are lost. -/
structure Sending where
  packet : BitVec 16
  lowTime : Nat
  highTime : Nat
  lowLost : Bool
  highLost : Bool
  ordered : lowTime ≤ highTime
  inTime : highTime ≤ lowTime + 1000

/-- The bytes that arrive. -/
def Sending.arrivals (p : Sending) : List Arrival :=
  ((List.zipWith Arrival.mk [p.lowTime, p.highTime] (trrsSend p.packet)).zip
    [p.lowLost, p.highLost]).filterMap fun (a, lost) => if lost then none else some a

/-- The bytes that a `trrs_read` takes, and what it returns. -/
structure Read where
  taken : List Arrival
  value : BitVec 16
  deriving DecidableEq, Repr

/-- Waits for `trrs_data_available`. -/
def Uart.waitAvailable (u : Uart) : Uart :=
  match u.rx with
  | [] => u
  | a :: _ => if trrsDataAvailable u then u else { u with now := a.time }

theorem Uart.waitAvailable_rx (u : Uart) : u.waitAvailable.rx = u.rx := by
  unfold waitAvailable
  split
  · rfl
  · split <;> rfl

theorem Uart.waitAvailable_cons (now : Nat) (a : Arrival) (rx : List Arrival) :
    Uart.waitAvailable ⟨now, a :: rx⟩ = ⟨max now a.time, a :: rx⟩ := by
  by_cases h : a.time ≤ now
  · simp [waitAvailable, trrsDataAvailable, uartIsReadable, h]
  · simp [waitAvailable, trrsDataAvailable, uartIsReadable, h, Nat.le_of_not_le h]

theorem length_rx_trrsRead {u u' : Uart} {value : BitVec 16} (h : trrsRead u = some (value, u')) :
    u'.rx.length < u.rx.length := by
  obtain ⟨now, rx⟩ := u
  cases rx with
  | nil => simp [trrsRead, uartGetc] at h
  | cons a rx =>
    cases rx with
    | nil =>
      simp [trrsRead, uartGetc, uartIsReadableWithinUs] at h
      simp [← h.2]
    | cons b rx =>
      by_cases hin : b.time ≤ max now a.time + 1000
      · simp [trrsRead, uartGetc, uartIsReadableWithinUs, hin] at h
        simp only [← h.2, List.length_cons]
        omega
      · simp [trrsRead, uartGetc, uartIsReadableWithinUs, hin] at h
        simp [← h.2]

/-- A reader that starts a `trrs_read` whenever a byte becomes readable. -/
def readPackets (u : Uart) : List Read :=
  match h : trrsRead u.waitAvailable with
  | none => []
  | some (value, u') =>
    have : u'.rx.length < u.rx.length := by
      have := length_rx_trrsRead h
      rwa [Uart.waitAvailable_rx] at this
    ⟨u.rx.take (u.rx.length - u'.rx.length), value⟩ :: readPackets u'
termination_by u.rx.length

/-- What there is to read of a packet: nothing, 0, or the packet. -/
def Sending.read? (p : Sending) : Option Read :=
  if p.lowLost && p.highLost then none
  else some ⟨p.arrivals, if p.lowLost || p.highLost then 0 else p.packet⟩

/-! ## The reader -/

theorem readPackets_nil (now : Nat) : readPackets ⟨now, []⟩ = [] := by
  rw [readPackets]
  rfl

theorem readPackets_of_trrsRead {u u' : Uart} {value : BitVec 16} {taken : List Arrival}
    (h : trrsRead u.waitAvailable = some (value, u')) (hrx : u.rx = taken ++ u'.rx) :
    readPackets u = ⟨taken, value⟩ :: readPackets u' := by
  rw [readPackets]
  split
  · next hnone => simp [h] at hnone
  · next value' u'' hsome =>
    rw [h, Option.some.injEq, Prod.mk.injEq] at hsome
    obtain ⟨rfl, rfl⟩ := hsome
    simp [hrx]

/-- A byte with none after it within 1000 us. -/
theorem readPackets_alone {now : Nat} {a : Arrival} {rx : List Arrival} (hnow : now ≤ a.time)
    (hrest : ∀ b ∈ rx, a.time + 1000 < b.time) :
    readPackets ⟨now, a :: rx⟩ = ⟨[a], 0⟩ :: readPackets ⟨a.time + 1000, rx⟩ := by
  refine readPackets_of_trrsRead ?_ rfl
  cases rx with
  | nil => simp [trrsRead, uartGetc, uartIsReadableWithinUs, Uart.waitAvailable_cons, hnow]
  | cons b rx =>
    have hlate : ¬ b.time ≤ a.time + 1000 := Nat.not_le.2 (hrest b List.mem_cons_self)
    simp [trrsRead, uartGetc, uartIsReadableWithinUs, Uart.waitAvailable_cons, hnow, hlate]

/-- Both bytes of a packet. -/
theorem readPackets_pair {now t t' : Nat} (low high : Byte) (rx : List Arrival) (hnow : now ≤ t)
    (hle : t ≤ t') (hin : t' ≤ t + 1000) :
    readPackets ⟨now, ⟨t, low⟩ :: ⟨t', high⟩ :: rx⟩ =
      ⟨[⟨t, low⟩, ⟨t', high⟩], joinBytes low high⟩ :: readPackets ⟨t', rx⟩ := by
  refine readPackets_of_trrsRead ?_ rfl
  rw [Uart.waitAvailable_cons, trrsRead_intime low high rx (by simpa [hnow] using hin)]
  simp [hnow, hle]

/-! ## One packet -/

theorem joinBytes_trrsSend (packet : BitVec 16) :
    joinBytes ((packet &&& 0xff).setWidth 8) ((packet >>> 8 &&& 0xff).setWidth 8) = packet := by
  simpa using joinBytes_xor packet 0

/-- A packet is read, and the reader is ready for a byte 1000 us after it. -/
theorem Sending.readPackets_arrivals (p : Sending) {now : Nat} {rx : List Arrival}
    (hnow : now ≤ p.lowTime) (hrest : ∀ a ∈ rx, p.highTime + 1000 < a.time) :
    ∃ now', now' ≤ p.highTime + 1000 ∧
      readPackets ⟨now, p.arrivals ++ rx⟩ = p.read?.toList ++ readPackets ⟨now', rx⟩ := by
  have hordered := p.ordered
  cases hlow : p.lowLost with
  | true =>
    cases hhigh : p.highLost with
    | true =>
      have harrivals : p.arrivals = [] := by simp [arrivals, trrsSend, hlow, hhigh]
      refine ⟨now, by omega, ?_⟩
      simp [harrivals, read?, hlow, hhigh]
    | false =>
      have harrivals : p.arrivals = [⟨p.highTime, (p.packet >>> 8 &&& 0xff).setWidth 8⟩] := by
        simp [arrivals, trrsSend, hlow, hhigh]
      refine ⟨p.highTime + 1000, Nat.le_refl _, ?_⟩
      rw [harrivals, List.singleton_append, readPackets_alone (Nat.le_trans hnow hordered) hrest]
      simp [harrivals, read?, hlow, hhigh]
  | false =>
    cases hhigh : p.highLost with
    | true =>
      have harrivals : p.arrivals = [⟨p.lowTime, (p.packet &&& 0xff).setWidth 8⟩] := by
        simp [arrivals, trrsSend, hlow, hhigh]
      have hlate : ∀ a ∈ rx, p.lowTime + 1000 < a.time := fun a ha => by
        have := hrest a ha
        omega
      refine ⟨p.lowTime + 1000, by omega, ?_⟩
      rw [harrivals, List.singleton_append, readPackets_alone hnow hlate]
      simp [harrivals, read?, hlow, hhigh]
    | false =>
      have harrivals : p.arrivals = [⟨p.lowTime, (p.packet &&& 0xff).setWidth 8⟩,
          ⟨p.highTime, (p.packet >>> 8 &&& 0xff).setWidth 8⟩] := by
        simp [arrivals, trrsSend, hlow, hhigh]
      refine ⟨p.highTime, by omega, ?_⟩
      rw [harrivals, List.cons_append, List.singleton_append,
        readPackets_pair _ _ rx hnow hordered p.inTime, joinBytes_trrsSend]
      simp [harrivals, read?, hlow, hhigh]

theorem Sending.lowTime_le_of_mem (p : Sending) {a : Arrival} (ha : a ∈ p.arrivals) :
    p.lowTime ≤ a.time := by
  have hordered := p.ordered
  cases hlow : p.lowLost <;> cases hhigh : p.highLost <;>
    simp [arrivals, trrsSend, hlow, hhigh] at ha
  · rcases ha with rfl | rfl
    · exact Nat.le_refl _
    · exact hordered
  · exact Nat.le_of_eq (congrArg Arrival.time ha).symm
  · rw [ha]
    exact hordered

/-! ## Many packets -/

/-- The second packet comes more than 1000 us after the first. -/
def Sending.Before (p q : Sending) : Prop := p.highTime + 1000 < q.lowTime

theorem Sending.Before.trans {p q r : Sending} (h : p.Before q) (h' : q.Before r) :
    p.Before r := by
  have := q.ordered
  unfold Before at h h' ⊢
  omega

instance : Trans Sending.Before Sending.Before Sending.Before := ⟨Sending.Before.trans⟩

theorem readPackets_pairwise {now : Nat} {ps : List Sending} (hnow : ∀ p ∈ ps, now ≤ p.lowTime)
    (hapart : ps.Pairwise Sending.Before) :
    readPackets ⟨now, ps.flatMap (·.arrivals)⟩ = ps.filterMap Sending.read? := by
  induction ps generalizing now with
  | nil => exact readPackets_nil now
  | cons p ps ih =>
    obtain ⟨hfirst, hapart⟩ := List.pairwise_cons.1 hapart
    have hrest : ∀ a ∈ ps.flatMap (·.arrivals), p.highTime + 1000 < a.time := by
      intro a ha
      obtain ⟨q, hq, haq⟩ := List.mem_flatMap.1 ha
      exact Nat.lt_of_lt_of_le (hfirst q hq) (q.lowTime_le_of_mem haq)
    obtain ⟨now', hnow', hread⟩ :=
      p.readPackets_arrivals (hnow p List.mem_cons_self) hrest
    have hready : ∀ q ∈ ps, now' ≤ q.lowTime := fun q hq =>
      Nat.le_of_lt (Nat.lt_of_le_of_lt hnow' (hfirst q hq))
    rw [List.flatMap_cons, hread, ih hready hapart, List.filterMap_cons]
    cases p.read? <;> rfl

/-- **The reader gets back in step after lost bytes**: it returns every packet that is whole, 0 for
one that has lost a byte, and puts no two packets together. -/
theorem readPackets_resync (ps : List Sending) (hapart : ps.IsChain Sending.Before) :
    readPackets ⟨0, ps.flatMap (·.arrivals)⟩ = ps.filterMap Sending.read? :=
  readPackets_pairwise (fun _ _ => Nat.zero_le _) (List.isChain_iff_pairwise.1 hapart)

/-- Two packets, the first of which loses its first byte. -/
def lostByte : List Sending :=
  [⟨0x1234, 10, 20, true, false, by decide, by decide⟩,
    ⟨0x1234, 2000, 2010, false, false, by decide, by decide⟩]

theorem readPackets_resync_lostByte : readPackets ⟨0, lostByte.flatMap (·.arrivals)⟩ =
    [⟨[⟨20, 0x12⟩], 0⟩, ⟨[⟨2000, 0x34⟩, ⟨2010, 0x12⟩], 0x1234⟩] :=
  (readPackets_resync lostByte (by simp [lostByte, Sending.Before])).trans (by decide)

end VolumeControl
