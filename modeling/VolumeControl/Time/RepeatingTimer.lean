import VolumeControl.Time.AlarmLedger

/-!
# Repeating timers

A repeating timer is an alarm whose callback asks each time to be called again
after the same delay: from now, or from the time it was for if the delay is
negative. Wherever such an alarm is (`Place`), a step of the system leaves it
there, takes it away or is a `Hop` to the next place (`alarm_step_turn`), and from
the hops its calls follow one another by the delay (`repeating_calls`): they are
never early, nor closer than a positive delay, and those of a negative one are for
times that do not drift.

`alarm_pool_add_alarm_at` calls an alarm that it misses, and then adds it for the
next time; that round can both add it to the pool and call it again at once,
since `missed` is still set. `Repeats` leaves this out.
-/

open Trace

namespace VolumeControl

variable {κ : Type*} {n : Nat}

/-- `alarm_pool_add_repeating_timer_us`; `callback` is `repeating_timer_callback` on this timer. -/
def alarmPoolAddRepeatingTimerUs (s : AlarmSystem κ) (delayUs : Int) (callback : κ) : AlarmStep κ :=
  let delayUs := if delayUs = 0 then 1 else delayUs
  .addAlarmAt (delayedByUs s.hw.time delayUs.natAbs) callback true

def repeatingTimerCallback (delayUs : Int) (again : Bool) : Int := if again then delayUs else 0

/-! ## The places of an alarm -/

/-- Where an alarm is, and the time it is for. -/
inductive Place
  | waiting (t : Nat)
  | calling (t : Nat)
  | adding (t : Nat)
  /-- Called by `alarm_pool_add_alarm_at`. -/
  | direct (t : Nat)
  deriving DecidableEq, Repr

/-- A call: the time it was for and when it came. -/
structure AlarmCall where
  target : Nat
  time : Nat
  deriving DecidableEq, Repr

/-- The time `t` is one to call again for after `call`. -/
def Follows (delayUs : Int) (call : AlarmCall) (t : Nat) : Prop :=
  if delayUs < 0 then t = call.target + delayUs.natAbs else call.time + delayUs.natAbs ≤ t

instance (delayUs : Int) (call : AlarmCall) (t : Nat) : Decidable (Follows delayUs call t) :=
  inferInstanceAs (Decidable (if delayUs < 0 then t = call.target + delayUs.natAbs
    else call.time + delayUs.natAbs ≤ t))

/-- The time to call again for, asked for at `now` by an alarm that was for `t`. -/
def nextTime (delayUs : Int) (t now : Nat) : Nat :=
  delayedByUs (if delayUs < 0 then t else now) delayUs.natAbs

/-- From one place to the next, with the call that is made. -/
inductive Hop (delayUs : Int) (now now' : Nat) : Place → List AlarmCall → Place → Prop
  | call (t : Nat) (h : t ≤ now') : Hop delayUs now now' (.waiting t) [⟨t, now'⟩] (.calling t)
  | again (t : Nat) : Hop delayUs now now' (.calling t) [] (.waiting (nextTime delayUs t now))
  | added (t : Nat) : Hop delayUs now now' (.adding t) [] (.waiting t)
  | missed (t : Nat) (h : t ≤ now') : Hop delayUs now now' (.adding t) [⟨t, now'⟩] (.direct t)
  | returned (t : Nat) : Hop delayUs now now' (.direct t) [] (.adding (nextTime delayUs t now))

/-- What a step does to the places of an alarm. -/
inductive Turn (delayUs : Int) (now now' : Nat) (requested : Bool) :
    Multiset Place → List AlarmCall → Multiset Place → Prop
  | drop {ps ps' : Multiset Place} (h : ps' ≤ ps) : Turn delayUs now now' requested ps [] ps'
  | hop {p p' : Place} {calls : List AlarmCall} {ps : Multiset Place}
    (h : Hop delayUs now now' p calls p') :
    Turn delayUs now now' requested (p ::ₘ ps) calls (p' ::ₘ ps)
  | request (t : Nat) (ps : Multiset Place) (h : requested = true) :
    Turn delayUs now now' requested ps [] (.adding t ::ₘ ps)

/-- What is known of a place after the last call. -/
def Place.Ok (delayUs : Int) (last : Option AlarmCall) : Place → Prop
  | .waiting t => ∀ call ∈ last, Follows delayUs call t
  | .adding t => ∀ call ∈ last, Follows delayUs call t
  | .calling t => ∃ time, last = some ⟨t, time⟩
  | .direct t => ∃ time, last = some ⟨t, time⟩

/-- There is one such alarm at most, counting those that are yet to be requested. -/
structure OnePlace (delayUs : Int) (now : Nat) (ps : Multiset Place) (last : Option AlarmCall)
    (requests : Nat) : Prop where
  single : ps.card + requests ≤ 1
  fresh : requests ≠ 0 → last = none
  passed : ∀ call ∈ last, call.target ≤ call.time ∧ call.time ≤ now
  ok : ∀ p ∈ ps, p.Ok delayUs last

section Turn

variable {delayUs : Int} {now now' : Nat} {ps ps' : Multiset Place} {p p' : Place}
  {last : Option AlarmCall} {calls : List AlarmCall} {requested : Bool} {requests : Nat}

theorem delayedByUs_of_lt {t us : Nat} (h : t + us < 2 ^ 63) : delayedByUs t us = t + us := by
  unfold delayedByUs
  rw [Nat.mod_eq_of_lt (by omega)]
  exact if_neg (by omega)

theorem follows_nextTime {call : AlarmCall} (h : call.target ≤ call.time ∧ call.time ≤ now)
    (hlt : now + delayUs.natAbs < 2 ^ 63) :
    Follows delayUs call (nextTime delayUs call.target now) := by
  unfold Follows nextTime
  split
  · exact delayedByUs_of_lt (by omega)
  · rw [delayedByUs_of_lt hlt]
    omega

/-! A step that makes no call leaves the last one the last. -/

theorem getLast?_toList (last : Option AlarmCall) : (last.toList ++ []).getLast? = last := by
  cases last <;> rfl

theorem isChain_toList (last : Option AlarmCall) :
    (last.toList ++ []).IsChain (fun a b => Follows delayUs a b.target) := by
  cases last <;> simp

/-- **A hop**: a call that is made follows the last one, and is the last one then. -/
theorem Hop.ok (m : Hop delayUs now now' p calls p') (h : p.Ok delayUs last)
    (hpassed : ∀ call ∈ last, call.target ≤ call.time ∧ call.time ≤ now)
    (hlt : now + delayUs.natAbs < 2 ^ 63) :
    p'.Ok delayUs (last.toList ++ calls).getLast? ∧
      (last.toList ++ calls).IsChain (fun a b => Follows delayUs a b.target) ∧
      ∀ call ∈ calls, call.target ≤ call.time ∧ call.time = now' := by
  have hchain (t : Nat) (ht : ∀ call ∈ last, Follows delayUs call t) :
      (last.toList ++ [AlarmCall.mk t now']).IsChain (fun a b => Follows delayUs a b.target) := by
    cases last with
    | none => simp
    | some call => simpa using ht call rfl
  cases m with
  | call t ht => exact ⟨⟨now', by simp⟩, hchain t h, by simp [ht]⟩
  | missed t ht => exact ⟨⟨now', by simp⟩, hchain t h, by simp [ht]⟩
  | added t => exact ⟨(getLast?_toList last).symm ▸ h, isChain_toList last, by simp⟩
  | again t =>
    obtain ⟨time, rfl⟩ := h
    refine ⟨fun call hc => ?_, isChain_toList _, by simp⟩
    rw [getLast?_toList, Option.mem_some_iff] at hc
    rw [← hc]
    exact follows_nextTime (hpassed _ rfl) hlt
  | returned t =>
    obtain ⟨time, rfl⟩ := h
    refine ⟨fun call hc => ?_, isChain_toList _, by simp⟩
    rw [getLast?_toList, Option.mem_some_iff] at hc
    rw [← hc]
    exact follows_nextTime (hpassed _ rfl) hlt

/-- **A turn keeps the one place.** -/
theorem OnePlace.turn (h : OnePlace delayUs now ps last (requests + requested.toNat))
    (m : Turn delayUs now now' requested ps calls ps') (hle : now ≤ now')
    (hlt : now + delayUs.natAbs < 2 ^ 63) :
    OnePlace delayUs now' ps' (last.toList ++ calls).getLast? requests ∧
      (last.toList ++ calls).IsChain (fun a b => Follows delayUs a b.target) ∧
      ∀ call ∈ calls, call.target ≤ call.time := by
  obtain ⟨hsingle, hfresh, hpassed, hok⟩ := h
  have hpassed' : ∀ call ∈ last, call.target ≤ call.time ∧ call.time ≤ now' := fun call hc =>
    ⟨(hpassed call hc).1, (hpassed call hc).2.trans hle⟩
  cases m with
  | drop hdrop =>
    have hcard := Multiset.card_le_card hdrop
    rw [getLast?_toList]
    refine ⟨⟨by omega, fun hne => hfresh (by omega), hpassed', fun p hp => ?_⟩,
      isChain_toList last, by simp⟩
    exact hok p (Multiset.mem_of_le hdrop hp)
  | request t _ hreq =>
    rw [hreq, Bool.toNat_true] at hsingle hfresh
    obtain rfl := hfresh (by omega)
    have hps : ps = 0 := Multiset.card_eq_zero.1 (by omega)
    refine ⟨⟨?_, fun _ => rfl, by simp, fun p hp => ?_⟩, by simp, by simp⟩
    · rw [hps, Multiset.card_cons, Multiset.card_zero]
      omega
    · rw [hps, Multiset.mem_cons] at hp
      obtain rfl := hp.resolve_right (Multiset.notMem_zero _)
      exact fun call hc => by cases hc
  | @hop p p' _ ps hhop =>
    rw [Multiset.card_cons] at hsingle
    have hps : ps = 0 := Multiset.card_eq_zero.1 (by omega)
    obtain ⟨hok', hchain', hcalls⟩ :=
      hhop.ok (hok p (Multiset.mem_cons_self p ps)) hpassed hlt
    refine ⟨⟨?_, fun hne => by omega, fun call hc => ?_, fun q hq => ?_⟩, hchain',
      fun call hc => (hcalls call hc).1⟩
    · rw [Multiset.card_cons]
      omega
    · rcases List.mem_append.1 (List.mem_of_getLast? hc) with hc | hc
      · exact hpassed' call (Option.mem_toList.1 hc)
      · exact ⟨(hcalls call hc).1, (hcalls call hc).2.le⟩
    · rw [hps, Multiset.mem_cons] at hq
      obtain rfl := hq.resolve_right (Multiset.notMem_zero _)
      exact hok'

end Turn

/-! ## The places in the system -/

variable [DecidableEq κ]

def waitingPlaces (c : κ) (waiting : Multiset (AlarmPoolEntry κ)) : Multiset Place :=
  (waiting.filter (·.callback = c)).map fun entry => .waiting entry.target

def AlarmPc.places (c : κ) : AlarmPc κ → Multiset Place
  | .call _ entry => if entry.callback = c then {.calling entry.target} else 0
  | .idle => 0
  | .loop => 0

def AddPc.places (c : κ) : AddPc κ → Multiset Place
  | .attempt time cb _ _ => if cb = c then {.adding time} else 0
  | .callback time cb => if cb = c then {.direct time} else 0
  | .idle => 0

/-- Where the alarms with the callback `c` are. -/
def places (c : κ) (s : AlarmSystem κ) : Multiset Place :=
  waitingPlaces c s.pool.waiting + (s.pc.places c + s.add.places c)

/-- The calls of `c` that a step makes. -/
def calledAt (c : κ) (s : AlarmSystem κ) : AlarmStep κ → List AlarmCall
  | .scan n d =>
    match s.pc, (alarmStep s (.scan n d)).pc with
    | .loop, .call _ entry =>
      if entry.callback = c then [⟨entry.target, (alarmStep s (.scan n d)).hw.time⟩] else []
    | _, _ => []
  | .attempt d =>
    match s.add, (alarmStep s (.attempt d)).add with
    | .attempt _ _ _ _, .callback time callback =>
      if callback = c then [⟨time, (alarmStep s (.attempt d)).hw.time⟩] else []
    | _, _ => []
  | .elapse _ => []
  | .irq _ => []
  | .ret _ _ _ => []
  | .addAlarmAt _ _ _ => []
  | .returned _ => []
  | .cancel _ => []

def requests (c : κ) : AlarmStep κ → Bool
  | .addAlarmAt _ callback _ => decide (callback = c)
  | _ => false

def AlarmPc.callback? : AlarmPc κ → Option κ
  | .call _ entry => some entry.callback
  | .idle => none
  | .loop => none

def AddPc.callback? : AddPc κ → Option κ
  | .callback _ cb => some cb
  | .idle => none
  | .attempt _ _ _ _ => none

/-- What `repeating_timer_callback` can return. -/
def Returns (delayUs again : Int) : Prop :=
  again = repeatingTimerCallback delayUs true ∨ again = repeatingTimerCallback delayUs false

/-- The callback `c` is that of a repeating timer, and no round of `alarm_pool_add_alarm_at` both
adds an alarm and calls it. -/
def Repeats (c : κ) (delayUs : Int) (s : AlarmSystem κ) : AlarmStep κ → Prop
  | .ret again _ _ => s.pc.callback? = some c → Returns delayUs again
  | .returned again => s.add.callback? = some c → Returns delayUs again
  | .attempt d =>
    alarmEvent s (.attempt d) ≠ .none → (alarmStep s (.attempt d)).add.callback? = none
  | .elapse _ => True
  | .irq _ => True
  | .scan _ _ => True
  | .addAlarmAt _ _ _ => True
  | .cancel _ => True

instance (delayUs again : Int) : Decidable (Returns delayUs again) :=
  inferInstanceAs (Decidable (_ ∨ _))

instance (c : κ) (delayUs : Int) (s : AlarmSystem κ) :
    (st : AlarmStep κ) → Decidable (Repeats c delayUs s st)
  | .ret again _ _ => inferInstanceAs (Decidable (s.pc.callback? = some c → Returns delayUs again))
  | .returned again =>
    inferInstanceAs (Decidable (s.add.callback? = some c → Returns delayUs again))
  | .attempt d => inferInstanceAs (Decidable (alarmEvent s (.attempt d) ≠ .none →
      (alarmStep s (.attempt d)).add.callback? = none))
  | .elapse _ => inferInstanceAs (Decidable True)
  | .irq _ => inferInstanceAs (Decidable True)
  | .scan _ _ => inferInstanceAs (Decidable True)
  | .addAlarmAt _ _ _ => inferInstanceAs (Decidable True)
  | .cancel _ => inferInstanceAs (Decidable True)

section Steps

variable {c : κ} {delayUs : Int} {s s' : AlarmSystem κ} {st : AlarmStep κ}
  {waiting waiting' : Finset Nat} {free : List Nat}

theorem waitingPlaces_cons (c : κ) (entry : AlarmPoolEntry κ)
    (w : Multiset (AlarmPoolEntry κ)) :
    waitingPlaces c (entry ::ₘ w) =
      (if entry.callback = c then {.waiting entry.target} else 0) + waitingPlaces c w := by
  by_cases h : entry.callback = c
  · simp [waitingPlaces, h]
  · simp [waitingPlaces, h]

/-! One alarm apart from the others. -/

theorem places_waiting {entry : AlarmPoolEntry κ} {w : Multiset (AlarmPoolEntry κ)}
    (hwait : s.pool.waiting = entry ::ₘ w) :
    places c s = (if entry.callback = c then {.waiting entry.target} else 0) +
      (waitingPlaces c w + (s.pc.places c + s.add.places c)) := by
  rw [places, hwait, waitingPlaces_cons, add_assoc]

theorem places_call {id : Nat} {entry : AlarmPoolEntry κ} (hpc : s.pc = .call id entry) :
    places c s = (if entry.callback = c then {.calling entry.target} else 0) +
      (waitingPlaces c s.pool.waiting + s.add.places c) := by
  rw [places, hpc, AlarmPc.places]
  exact add_left_comm ..

theorem places_attempt {time : Nat} {callback : κ} {fireIfPast missed : Bool}
    (hadd : s.add = .attempt time callback fireIfPast missed) :
    places c s = (if callback = c then {.adding time} else 0) +
      (waitingPlaces c s.pool.waiting + s.pc.places c) := by
  rw [places, hadd, AddPc.places, ← add_assoc, add_comm]

theorem places_callback {time : Nat} {callback : κ} (hadd : s.add = .callback time callback) :
    places c s = (if callback = c then {.direct time} else 0) +
      (waitingPlaces c s.pool.waiting + s.pc.places c) := by
  rw [places, hadd, AddPc.places, ← add_assoc, add_comm]

theorem places_idle (hadd : s.add = .idle) :
    places c s = waitingPlaces c s.pool.waiting + s.pc.places c := by
  rw [places, hadd, AddPc.places, add_zero]

theorem Returns.eq {again : Int} (h : Returns delayUs again) (h0 : again ≠ 0) : again = delayUs :=
  h.resolve_right h0

theorem calledAt_elsewhere (h : Elsewhere s st) : calledAt c s st = [] := by
  cases st with
  | scan m d =>
    unfold calledAt
    cases hpc : s.pc with
    | loop => exact absurd hpc h
    | idle => rfl
    | call id entry => rfl
  | attempt d =>
    unfold calledAt
    cases hadd : s.add with
    | attempt time callback fireIfPast missed =>
      exact absurd hadd (h time callback fireIfPast missed)
    | idle => rfl
    | callback time callback => rfl
  | _ => rfl

theorem calledAt_scan {m : Nat} {d : Delays} (hpc : ∀ id entry, s'.pc ≠ .call id entry)
    (hs' : alarmStep s (.scan m d) = s') : calledAt c s (.scan m d) = [] := by
  simp only [calledAt, hs']
  split
  · rename_i h
    exact absurd h (hpc _ _)
  · rfl

theorem calledAt_attempt {d : Delays} (hadd : s'.add.callback? = none)
    (hs' : alarmStep s (.attempt d) = s') : calledAt c s (.attempt d) = [] := by
  simp only [calledAt, hs']
  split
  · rename_i h
    rw [h] at hadd
    cases hadd
  · rfl

/-- An alarm, if it has the callback `c`, hops from `p` to `p'`. -/
theorem turn_hop {ps ps' : Multiset Place} {calls : List AlarmCall} {now now' : Nat}
    {requested : Bool}
    (hc : Prop) [Decidable hc] (p p' : Place) (cs : List AlarmCall) (rest : Multiset Place)
    (hop : hc → Hop delayUs now now' p cs p') (hps : ps = (if hc then {p} else 0) + rest)
    (hps' : ps' = (if hc then {p'} else 0) + rest) (hcalls : calls = if hc then cs else []) :
    Turn delayUs now now' requested ps calls ps' := by
  by_cases h : hc
  · rw [if_pos h] at hps hps' hcalls
    rw [hps, hps', hcalls]
    exact .hop (hop h)
  · rw [if_neg h] at hps hps' hcalls
    rw [hps, hps', hcalls]
    exact .drop le_rfl

/-- An alarm that `alarm_pool_add_alarm_at` has added, and not called, hops into the pool. -/
theorem turn_added {time : Nat} {callback : κ} {fireIfPast missed : Bool}
    {calls : List AlarmCall} {now now' : Nat} {requested : Bool}
    (hadd : s.add = .attempt time callback fireIfPast missed) (hadd' : s'.add = .idle)
    (hpc' : s'.pc = s.pc) (hwait : s'.pool.waiting = ⟨time, callback⟩ ::ₘ s.pool.waiting)
    (hcalls : calls = []) :
    Turn delayUs now now' requested (places c s) calls (places c s') := by
  refine turn_hop (callback = c) (.adding time) (.waiting time) []
    (waitingPlaces c s.pool.waiting + s.pc.places c) (fun _ => .added time)
    (places_attempt hadd) ?_ (by rw [hcalls, ite_self])
  rw [places_waiting hwait, hpc', hadd', AddPc.places, add_zero]

/-- It is called, added, called again or dropped, and nothing else happens to it. -/
theorem alarm_step_turn (h : AlarmInv n s waiting free) (hrep : Repeats c delayUs s st) :
    Turn delayUs s.hw.time (alarmStep s st).hw.time (requests c st) (places c s) (calledAt c s st)
      (places c (alarmStep s st)) := by
  obtain ⟨waiting', free', h', hmove⟩ := alarm_step_cases h st
  generalize hs' : alarmStep s st = s' at h' hmove
  cases hmove with
  | still hs helse =>
    rw [calledAt_elsewhere helse, hs]
    exact .drop le_rfl
  | elapse d hs =>
    rw [hs]
    exact .drop le_rfl
  | irq d hpc hs =>
    have hps : places c s' = places c s := by
      rw [hs, places, places, hpc]
      split <;> rfl
    rw [hps]
    exact .drop le_rfl
  | clear m d hpc _ hs =>
    have hps : places c s' = places c s := by
      rw [hs, places, places, hpc]
      rfl
    rw [hps, calledAt_scan (by simp [hs]) hs']
    exact .drop le_rfl
  | set m d id hpc _ _ hs =>
    have hps : places c s' = places c s := by
      rw [hs, places, places, hpc]
      split <;> rfl
    have hcalls : calledAt c s (.scan m d) = [] := by
      refine calledAt_scan (fun _ _ => ?_) hs'
      rw [hs]
      dsimp only
      split <;> simp
    rw [hps, hcalls]
    exact .drop le_rfl
  | call m d id hpc hid _ hdue hentries hhw hpc' hadd hwait =>
    have hle : (s.pool.entries id).target ≤ s'.hw.time := by
      rw [hhw]
      exact le_trans hdue (Nat.sub_le ..)
    refine turn_hop ((s.pool.entries id).callback = c) _ _ _
      (waitingPlaces c s'.pool.waiting + s.add.places c) (fun _ => .call _ hle) ?_ ?_ ?_
    · rw [places_waiting (waiting_erase h h' hwait hentries hid), hpc, AlarmPc.places, zero_add]
    · rw [places_call hpc', hadd]
    · simp only [calledAt, hpc, hs', hpc']
  | again a m d id entry hpc ha hid hentries _ hpc' hadd hwait =>
    refine turn_hop (entry.callback = c) (.calling entry.target)
      (.waiting (nextTime a entry.target s.hw.time)) []
      (waitingPlaces c s.pool.waiting + s.add.places c) (fun hc => ?_) (places_call hpc) ?_
      (ite_self _).symm
    · rw [(hrep (by rw [hpc, ← hc, AlarmPc.callback?])).eq ha.1]
      exact .again _
    · rw [places_waiting (waiting_insert h h' hwait hentries hid), hpc', AlarmPc.places, hadd,
        zero_add]
      rfl
  | done a m d id entry hpc _ hentries _ hpc' hadd hwait =>
    refine .drop ?_
    rw [places_call hpc, places, waiting_same h h' hwait hentries, hpc', hadd, AlarmPc.places,
      zero_add]
    exact Multiset.le_add_left ..
  | request time callback fireIfPast hadd hs =>
    have hadd' : s'.add = .attempt time callback fireIfPast false := by rw [hs]
    have hps : places c s' = (if callback = c then {.adding time} else 0) + places c s := by
      rw [places_attempt hadd', places_idle hadd, hs]
    rw [hps]
    by_cases hc : callback = c
    · rw [if_pos hc]
      exact .request time _ (decide_eq_true hc)
    · rw [if_neg hc, zero_add]
      exact .drop le_rfl
  | full d hadd _ _ hs =>
    have hadd' : s'.add = .idle := by rw [hs]
    rw [calledAt_attempt (by rw [hadd']; rfl) hs', places_attempt hadd, places_idle hadd', hs]
    exact .drop (Multiset.le_add_left ..)
  | @later d id time callback fireIfPast missed hadd hacc hid _ hentries _ hpc' hadd' hwait =>
    -- the round does not call the alarm as well
    have hnone : s'.add.callback? = none := by
      have hev : alarmEvent s (.attempt d) ≠ .none := by simp [alarmEvent, hadd, hacc]
      exact hs' ▸ hrep hev
    have hidle : s'.add = .idle := by
      rw [hadd', AddPc.after] at hnone ⊢
      split
      · rw [if_pos ‹_›] at hnone
        cases hnone
      · rfl
    exact turn_added hadd hidle hpc' (waiting_insert h h' hwait hentries hid)
      (calledAt_attempt hnone hs')
  | first d id hadd hacc hid _ _ hentries hpc' hadd' hwait =>
    exact turn_added hadd hadd' hpc' (waiting_insert h h' hwait hentries hid)
      (calledAt_attempt (by rw [hadd']; rfl) hs')
  | @missed d id time callback fireIfPast missed hadd _ hid _ _ hset hentries hpc' hadd' hwait =>
    have hwait' := waiting_update h h' hwait hentries hid
    have hle : time ≤ s'.hw.time := by
      have hmissed := @le_of_setTarget_missed s.hw time d (by rw [hset])
      rwa [hset] at hmissed
    cases fireIfPast with
    | true =>
      rw [AddPc.after, if_pos ⟨rfl, rfl⟩] at hadd'
      refine turn_hop (callback = c) (.adding time) (.direct time) _ _ (fun _ => .missed time hle)
        (places_attempt hadd) ?_ ?_
      · rw [places_callback hadd', hwait', hpc']
      · simp only [calledAt, hadd, hs', hadd']
    | false =>
      rw [AddPc.after, if_neg (by simp)] at hadd'
      rw [calledAt_attempt (by rw [hadd']; rfl) hs', places_attempt hadd, places_idle hadd', hwait',
        hpc']
      exact .drop (Multiset.le_add_left ..)
  | @returned a time callback hadd hpool _ hpc' hadd' =>
    by_cases ha : a = 0
    · rw [if_pos ha] at hadd'
      rw [places_callback hadd, places_idle hadd', hpool, hpc']
      exact .drop (Multiset.le_add_left ..)
    · rw [if_neg ha] at hadd'
      refine turn_hop (callback = c) (.direct time) (.adding (nextTime a time s.hw.time)) [] _
        (fun hc => ?_) (places_callback hadd) ?_ (ite_self _).symm
      · rw [(hrep (by rw [hadd, ← hc, AddPc.callback?])).eq ha]
        exact .returned time
      · rw [places_attempt hadd', hpool, hpc']
        rfl
  | cancel alarmId _ hid hentries _ hpc' hadd hwait =>
    rw [places_waiting (waiting_erase h h' hwait hentries hid), places, hpc', hadd]
    exact .drop (Multiset.le_add_left ..)
  | cancelNone alarmId _ hentries _ hpc' hadd hwait =>
    rw [places, places, waiting_same h h' hwait hentries, hpc', hadd]
    exact .drop le_rfl

/-! ## Runs -/

/-- The calls of a run follow the last one before it. -/
theorem repeating_run {last : Option AlarmCall} {steps : List (AlarmStep κ)}
    (h : AlarmInv n s waiting free)
    (hone : OnePlace delayUs s.hw.time (places c s) last (steps.countP (requests c)))
    (hrep : AllSteps alarmStep (Repeats c delayUs) s steps)
    (hlt : (run alarmStep s steps).hw.time + delayUs.natAbs < 2 ^ 63) :
    (last.toList ++ (outputs alarmStep (calledAt c) s steps).flatten).IsChain
        (fun a b => Follows delayUs a b.target) ∧
      ∀ call ∈ (outputs alarmStep (calledAt c) s steps).flatten, call.target ≤ call.time := by
  induction steps generalizing s waiting free last with
  | nil =>
    refine ⟨?_, by simp [outputs]⟩
    cases last <;> simp [outputs]
  | cons st steps ih =>
    obtain ⟨waiting', free', h', -⟩ := alarm_step_cases h st
    have hcount : (st :: steps).countP (requests c) =
        steps.countP (requests c) + (requests c st).toNat := by
      cases hst : requests c st <;> simp [hst]
    rw [hcount] at hone
    have hnow := time_le_run h (st :: steps)
    obtain ⟨hone', hchain, hcalls⟩ :=
      hone.turn (alarm_step_turn h hrep.1) (time_le_step h st) (by omega)
    obtain ⟨hrest, hlate⟩ := ih h' hone' hrep.2 hlt
    simp only [outputs, List.flatten_cons, ← List.append_assoc]
    refine ⟨?_, fun call hc => (List.mem_append.1 hc).elim (hcalls call) (hlate call)⟩
    rw [List.isChain_append] at hrest ⊢
    refine ⟨hchain, hrest.2.1, fun a ha b hb => hrest.2.2 a ?_ b hb⟩
    rw [Option.mem_def] at ha
    rw [ha]
    rfl

theorem onePlace_init (hn : n ≠ 0) (time : Nat) (null : κ) {steps : List (AlarmStep κ)}
    (hreq : steps.countP (requests c) ≤ 1) :
    OnePlace delayUs (AlarmSystem.init n time null).hw.time (places c (.init n time null)) none
      (steps.countP (requests c)) := by
  have hplaces : places c (.init n time null) = 0 := by
    rw [places, waiting_init hn]
    rfl
  rw [hplaces]
  exact ⟨by simpa using hreq, fun _ => rfl, by simp, by simp⟩

/-- **The calls of a repeating timer** follow one another by its delay, and none is early. -/
theorem repeating_calls (hn : n ≠ 0) (c : κ) (delayUs : Int) (time : Nat) (null : κ)
    (steps : List (AlarmStep κ)) (hreq : steps.countP (requests c) ≤ 1)
    (hrep : AllSteps alarmStep (Repeats c delayUs) (.init n time null) steps)
    (hlt : (run alarmStep (.init n time null) steps).hw.time + delayUs.natAbs < 2 ^ 63) :
    ((outputs alarmStep (calledAt c) (.init n time null) steps).flatten).IsChain
        (fun a b => Follows delayUs a b.target) ∧
      ∀ call ∈ (outputs alarmStep (calledAt c) (.init n time null) steps).flatten,
        call.target ≤ call.time := by
  simpa using repeating_run (alarmInv_init hn time null) (onePlace_init hn time null hreq) hrep hlt

/-- A timer of 100 us, beside another alarm. -/
def timerRun : List (AlarmStep Nat) :=
  let d : Delays := ⟨1, 1, 1, 1, 1⟩
  [.addAlarmAt 100 5 true, .attempt d, .addAlarmAt 400 6 true, .attempt d, .elapse 100, .irq 1,
    .elapse 1, .scan 1 d, .elapse 3, .ret 100 1 d, .scan 0 d, .elapse 110, .irq 1, .scan 0 d]

theorem repeating_calls_timerRun :
    ((outputs alarmStep (calledAt 5) (.init 4 0 0) timerRun).flatten).IsChain
        (fun a b => Follows 100 a b.target) ∧
      ∀ call ∈ (outputs alarmStep (calledAt 5) (.init 4 0 0) timerRun).flatten,
        call.target ≤ call.time :=
  repeating_calls (by decide) 5 100 0 0 timerRun (by decide) (by decide +kernel) (by decide +kernel)

end Steps

end VolumeControl
