import VolumeControl.Ir.Stream
import VolumeControl.Lib.Sampling

/-!
# From the signal to the samples

The remote sends half-bits that last some time, and the timer interrupt reads
the pin at times that jitter. A `Transmission` is a frame with the times it is
sent with. When each half-bit lasts from 6 of the longest times between two
samples to 10 of the shortest (`InBand`), it is seen by 6 to 10 samples, the
samples are a `IrBurst`, and `frames_transmissions` follows from the streams of
`Ir/Stream.lean`. The bounds on the jitter that RC5's 889 us leave are in
`frames_transmissions_volUp`.
-/

namespace VolumeControl

open Trace ShiftRegister Wave

variable {K : Type*} [Field K]

structure Transmission (K : Type*) where
  frame : Rc5Frame
  start : K
  halves : Vector (K × K) 13
  /-- How long the line is high before the next one. -/
  gap : K

def bitWave (b : Bool × K × K) : Wave K := [(b.1, b.2.1), (!b.1, b.2.2)]

def Transmission.bits (t : Transmission K) : List (Bool × K × K) :=
  t.frame.bits.zip t.halves.toList

def Transmission.wave (t : Transmission K) : Wave K :=
  (false, t.start) :: (t.bits.flatMap bitWave ++ [(true, t.gap)])

variable [LinearOrder K] (S : Sampler K)

/-- A half-bit that 6 to 10 samples see, wherever they fall. -/
def InBand (d : K) : Prop := 6 * S.gmax ≤ d ∧ d ≤ 10 * S.gmin

structure Transmission.Timed (t : Transmission K) : Prop where
  start : InBand S t.start
  halves : ∀ h ∈ t.halves.toList, InBand S h.1 ∧ InBand S h.2
  gap : 29 * S.gmax ≤ t.gap

/-- Half-bits that 6 to 10 samples see, when these are `gmin` to `gmax` apart. -/
structure Transmission.TimedBy (gmin gmax : K) (t : Transmission K) : Prop where
  start : 6 * gmax ≤ t.start ∧ t.start ≤ 10 * gmin
  halves : ∀ h ∈ t.halves.toList, (6 * gmax ≤ h.1 ∧ h.1 ≤ 10 * gmin) ∧
    6 * gmax ≤ h.2 ∧ h.2 ≤ 10 * gmin
  gap : 29 * gmax ≤ t.gap

variable [IsStrictOrderedRing K] {S}

theorem InBand.nonneg {d : K} (h : InBand S d) : 0 ≤ d := by
  have := S.gmax_pos
  linarith [h.1]

theorem bits_nonneg {bs : List (Bool × K × K)}
    (h : ∀ b ∈ bs, InBand S b.2.1 ∧ InBand S b.2.2) : ∀ p ∈ bs.flatMap bitWave, 0 ≤ p.2 := by
  intro p hmem
  obtain ⟨b, hb, hp⟩ := List.mem_flatMap.1 hmem
  rcases List.mem_pair.1 hp with rfl | rfl
  · exact (h b hb).1.nonneg
  · exact (h b hb).2.nonneg

theorem Transmission.Timed.nonneg {t : Transmission K} (ht : t.Timed S) :
    ∀ p ∈ t.wave, 0 ≤ p.2 := by
  have hpos := S.gmax_pos
  have hband : ∀ b ∈ t.bits, InBand S b.2.1 ∧ InBand S b.2.2 := fun b hb =>
    ht.halves b.2 (List.of_mem_zip hb).2
  intro p hp
  rcases List.mem_cons.1 hp with rfl | hp
  · exact ht.start.nonneg
  · rcases List.mem_append.1 hp with hp | hp
    · exact bits_nonneg hband p hp
    · obtain rfl := List.mem_singleton.1 hp
      have := ht.gap
      linarith

variable [Archimedean K]

theorem InBand.halfBit {x d : K} (h : InBand S d) (hx : 0 < S.first x) :
    6 ≤ S.first (x + d) - S.first x ∧ S.first (x + d) - S.first x ≤ 10 := by
  have hle := S.first_add_le (n := 6) hx (by exact_mod_cast h.1)
  have hge := S.first_le_add (x := x) (n := 10) (by exact_mod_cast h.2)
  omega

/-- The samples of one bit. -/
theorem samples_bitWave {x : K} (hx : 0 < S.first x) (b : Bool × K × K)
    (hp : InBand S b.2.1) (hq : InBand S b.2.2) (w : Wave K) {n : ℕ}
    (hn : S.first (x + b.2.1 + b.2.2) ≤ n) :
    ∃ p q : HalfBit, S.samples (level x (bitWave b ++ w)) (S.first x) n =
      bitLine (b.1, p, q) ++
        S.samples (level (x + b.2.1 + b.2.2) w) (S.first (x + b.2.1 + b.2.2)) n := by
  have h0 := hp.nonneg
  have h1 := hq.nonneg
  have hmono : S.first (x + b.2.1) ≤ S.first (x + b.2.1 + b.2.2) := S.first_mono (by linarith)
  have hx' : 0 < S.first (x + b.2.1) := hx.trans_le (S.first_mono (by linarith))
  refine ⟨⟨_, hp.halfBit hx⟩, ⟨_, hq.halfBit hx'⟩, ?_⟩
  rw [bitWave, List.cons_append, List.singleton_append, S.samples_cons h0 _ (hmono.trans hn),
    S.samples_cons h1 _ hn, bitLine, List.append_assoc]

theorem samples_flatMap_bitWave {x : K} (hx : 0 < S.first x) (bs : List (Bool × K × K))
    (hband : ∀ b ∈ bs, InBand S b.2.1 ∧ InBand S b.2.2) (w : Wave K) {n : ℕ}
    (hn : S.first (stop x (bs.flatMap bitWave)) ≤ n) :
    ∃ bs' : List (Bool × HalfBit × HalfBit), bs'.map Prod.fst = bs.map Prod.fst ∧
      S.samples (level x (bs.flatMap bitWave ++ w)) (S.first x) n = bs'.flatMap bitLine ++
        S.samples (level (stop x (bs.flatMap bitWave)) w)
          (S.first (stop x (bs.flatMap bitWave))) n := by
  induction bs generalizing x with
  | nil => exact ⟨[], rfl, rfl⟩
  | cons b bs ih =>
    obtain ⟨hp, hq⟩ := hband b List.mem_cons_self
    have hband' := fun b hb => hband b (List.mem_cons_of_mem _ hb)
    have h0 := hp.nonneg
    have h1 := hq.nonneg
    have hx' : 0 < S.first (x + b.2.1 + b.2.2) := hx.trans_le (S.first_mono (by linarith))
    have hle : S.first (x + b.2.1 + b.2.2) ≤ n :=
      (S.first_mono (le_stop (bits_nonneg hband') _)).trans hn
    obtain ⟨bs', hfst, hsamples⟩ := ih hx' hband' hn
    obtain ⟨p, q, hbit⟩ := samples_bitWave hx b hp hq (bs.flatMap bitWave ++ w) hle
    refine ⟨(b.1, p, q) :: bs', by simp [hfst], ?_⟩
    rw [List.flatMap_cons, List.append_assoc, hbit, hsamples, List.flatMap_cons, List.append_assoc]
    rfl

/-- Bits with the values of a frame are a line of it. -/
theorem Rc5Frame.exists_line (f : Rc5Frame) {bs : List (Bool × HalfBit × HalfBit)}
    (h : bs.map Prod.fst = f.bits) :
    ∃ halves : Vector (HalfBit × HalfBit) 13, f.line halves = bs.flatMap bitLine := by
  have hlen : (bs.map Prod.snd).toArray.size = 13 := by
    have := congrArg List.length h
    simpa [f.length_bits] using this
  refine ⟨⟨(bs.map Prod.snd).toArray, hlen⟩, ?_⟩
  have hzip : f.bits.zip (bs.map Prod.snd) = bs := by
    rw [← h]
    exact (List.zip_of_prod rfl rfl).symm
  rw [Rc5Frame.line, Vector.toList_mk, hzip]

/-- **The samples of a transmission** are a burst, and the line high after it. -/
theorem Transmission.Timed.samples {t : Transmission K} (ht : t.Timed S) {x : K}
    (hx : 0 < S.first x) (w : Wave K) {n : ℕ} (hn : S.first (stop x t.wave) ≤ n) :
    ∃ (b : IrBurst) (m : ℕ), b.frame = t.frame ∧
      S.samples (level x (t.wave ++ w)) (S.first x) n = b.samples ++ List.replicate m true ++
        S.samples (level (stop x t.wave) w) (S.first (stop x t.wave)) n := by
  obtain ⟨hstart, hhalves, hgap⟩ := ht
  have hpos := S.gmax_pos
  have hband : ∀ b ∈ t.bits, InBand S b.2.1 ∧ InBand S b.2.2 := fun b hb =>
    hhalves b.2 (List.of_mem_zip hb).2
  have h0 := hstart.nonneg
  set y := stop (x + t.start) (t.bits.flatMap bitWave) with hy
  have hstop : stop x t.wave = y + t.gap := stop_append _ _ _
  have hxs : 0 < S.first (x + t.start) := hx.trans_le (S.first_mono (by linarith))
  have hxy : x + t.start ≤ y := le_stop (bits_nonneg hband) _
  have hyn : S.first y ≤ n := (S.first_mono (by linarith)).trans (hstop ▸ hn)
  have hyp : 0 < S.first y := hxs.trans_le (S.first_mono hxy)
  have htail := S.first_add_le (n := 29) hyp (by exact_mod_cast hgap)
  obtain ⟨bs, hfst, hbits⟩ := samples_flatMap_bitWave hxs t.bits hband ((true, t.gap) :: w) hyn
  have hbits' : bs.map Prod.fst = t.frame.bits := by
    rw [hfst, Transmission.bits]
    exact List.map_fst_zip (by simp [t.frame.length_bits])
  obtain ⟨halves, hline⟩ := t.frame.exists_line hbits'
  let b : IrBurst := ⟨t.frame, ⟨_, hstart.halfBit hx⟩, halves⟩
  have hq := b.halves.back.2.2
  refine ⟨b, S.first (y + t.gap) - S.first y - (35 - b.halves.back.2), rfl, ?_⟩
  have hsplit : List.replicate (S.first (y + t.gap) - S.first y) true =
      List.replicate (34 - b.halves.back.2) true ++ [true] ++
        List.replicate (S.first (y + t.gap) - S.first y - (35 - b.halves.back.2)) true := by
    rw [← List.replicate_one, ← List.replicate_add, ← List.replicate_add]
    congr 1
    omega
  rw [hstop, Transmission.wave, List.cons_append, List.append_assoc, List.singleton_append,
    S.samples_cons h0 _ ((S.first_mono hxy).trans hyn), hbits, ← hy,
    S.samples_cons (by linarith) w (hstop ▸ hn), hsplit, IrBurst.samples, IrBurst.body, ← hline]
  simp only [List.append_assoc]
  rfl

/-- The line from power-on: high for `idle`, and then the transmissions. -/
def remoteWave (idle : K) (ts : List (Transmission K)) : Wave K :=
  (true, idle) :: ts.flatMap Transmission.wave

theorem samples_transmissions {x : K} (hx : 0 < S.first x) {ts : List (Transmission K)}
    (hts : ∀ t ∈ ts, t.Timed S) :
    ∃ bursts : List (IrBurst × ℕ), bursts.map (·.1.frame) = ts.map Transmission.frame ∧
      S.samples (level x (ts.flatMap Transmission.wave)) (S.first x)
        (S.first (stop x (ts.flatMap Transmission.wave))) = stream bursts := by
  induction ts generalizing x with
  | nil => exact ⟨[], rfl, by simp [Sampler.samples, stop, stream]⟩
  | cons t ts ih =>
    have ht := hts t List.mem_cons_self
    have hts' := fun t' ht' => hts t' (List.mem_cons_of_mem _ ht')
    have hnonneg : ∀ p ∈ ts.flatMap Transmission.wave, 0 ≤ p.2 := by
      intro p hp
      obtain ⟨t', ht', hp'⟩ := List.mem_flatMap.1 hp
      exact (hts' t' ht').nonneg p hp'
    have hx' := hx.trans_le (S.first_mono (le_stop ht.nonneg x))
    rw [List.flatMap_cons, stop_append]
    obtain ⟨bursts, hframes, hstream⟩ := ih hx' hts'
    obtain ⟨b, m, hb, hburst⟩ := ht.samples hx (ts.flatMap Transmission.wave)
      (S.first_mono (le_stop hnonneg (stop x t.wave)))
    refine ⟨(b, m) :: bursts, by simp [hb, hframes], ?_⟩
    rw [hburst, hstream]
    rfl

theorem samples_remoteWave {idle : K} (hidle : 35 * S.gmax ≤ idle) {ts : List (Transmission K)}
    (hts : ∀ t ∈ ts, t.Timed S) :
    ∃ (m : ℕ) (bursts : List (IrBurst × ℕ)), 35 ≤ m ∧
      bursts.map (·.1.frame) = ts.map Transmission.frame ∧
      S.samples (level (S.time 0) (remoteWave idle ts)) 0
        (S.first (stop (S.time 0) (remoteWave idle ts))) =
        List.replicate m true ++ stream bursts := by
  have hpos := S.gmax_pos
  have hm : 34 < S.first (S.time 0 + idle) := by
    have hle := S.time_le_add 0 34
    rw [Nat.zero_add] at hle
    push_cast at hle
    exact S.lt_first_iff.2 (by linarith)
  have h0 : S.first (S.time 0) = 0 := Nat.le_zero.1 (S.first_le_iff.2 le_rfl)
  have hnonneg : ∀ p ∈ ts.flatMap Transmission.wave, 0 ≤ p.2 := by
    intro p hp
    obtain ⟨t, ht, hp'⟩ := List.mem_flatMap.1 hp
    exact (hts t ht).nonneg p hp'
  obtain ⟨bursts, hframes, hstream⟩ := samples_transmissions (show 0 < S.first (S.time 0 + idle)
    by omega) hts
  refine ⟨_, bursts, hm, hframes, ?_⟩
  have hcons := S.samples_cons (x := S.time 0) (v := true) (show 0 ≤ idle by linarith)
    (ts.flatMap Transmission.wave) (S.first_mono (le_stop hnonneg (S.time 0 + idle)))
  rw [h0, hstream, Nat.sub_zero] at hcons
  exact hcons

omit [Field K] [LinearOrder K] [IsStrictOrderedRing K] [Archimedean K] in
theorem frames_bursts {m : ℕ} (hm : 35 ≤ m) {bursts : List (IrBurst × ℕ)}
    {ts : List (Transmission K)} (h : bursts.map (·.1.frame) = ts.map Transmission.frame) :
    frames Ir.zero (List.replicate m true ++ stream bursts) =
      ts.map fun t => t.frame.word.setWidth 32 := by
  rw [frames_stream hm]
  have hwords := congrArg (List.map fun f : Rc5Frame => f.word.setWidth 32) h
  rw [List.map_map, List.map_map] at hwords
  exact hwords

/-- **The interrupt receives every transmission**, exactly once and in order, whatever the jitter of
its samples and of the half-bits, as long as each half-bit is in the band. -/
theorem frames_transmissions (S : Sampler K) (idle : K) (ts : List (Transmission K))
    (hidle : 35 * S.gmax ≤ idle) (hts : ∀ t ∈ ts, t.Timed S) :
    frames Ir.zero (S.samples (level (S.time 0) (remoteWave idle ts)) 0
      (S.first (stop (S.time 0) (remoteWave idle ts)))) =
      ts.map fun t => t.frame.word.setWidth 32 := by
  obtain ⟨m, bursts, hm, hframes, hsamples⟩ := samples_remoteWave hidle hts
  rw [hsamples, frames_bursts hm hframes]

/-- **Samples at listed times receive every transmission.** -/
theorem frames_ofTimes {times : List K} (hne : times ≠ []) {gmin gmax : K} (hpos : 0 < gmin)
    (hle : gmin ≤ gmax) (h : times.IsChain fun a b => a + gmin ≤ b ∧ b ≤ a + gmax) {idle : K}
    {ts : List (Transmission K)} (hidle : 35 * gmax ≤ idle)
    (hts : ∀ t ∈ ts, t.TimedBy gmin gmax)
    (hend : stop (times.head hne) (remoteWave idle ts) ≤ times.getLast hne + gmax) :
    frames Ir.zero ((times.filter (· < stop (times.head hne) (remoteWave idle ts))).map
        (level (times.head hne) (remoteWave idle ts))) =
      ts.map fun t => t.frame.word.setWidth 32 := by
  let S := Sampler.ofTimes times hne hpos hle h
  have htimed : ∀ t ∈ ts, t.Timed S := fun t ht =>
    ⟨(hts t ht).start, (hts t ht).halves, (hts t ht).gap⟩
  have hstart : S.time 0 = times.head hne := by
    show Sampler.timesFrom times hne gmax 0 = _
    rw [Sampler.timesFrom_of_lt (List.length_pos_of_ne_nil hne), List.head_eq_getElem]
  obtain ⟨m, bursts, hm, hframes, hsamples⟩ := samples_remoteWave (S := S) hidle htimed
  have hlisted : S.samples (level (S.time 0) (remoteWave idle ts)) 0
      (S.first (stop (S.time 0) (remoteWave idle ts))) =
      (times.filter (· < stop (S.time 0) (remoteWave idle ts))).map
        (level (S.time 0) (remoteWave idle ts)) :=
    Sampler.samples_ofTimes _ (by rwa [hstart])
  rw [← hstart, ← hlisted, hsamples, frames_bursts hm hframes]

/-- Samples alternately 100 and 148 us apart. -/
def jittery : Sampler ℚ where
  time i := 124 * i - if i % 2 = 0 then 0 else 24
  gmin := 100
  gmax := 148
  pos := by norm_num
  le_gap i := by
    rcases Nat.mod_two_eq_zero_or_one i with h | h
    · simp [h, Nat.add_mod]; linarith
    · simp [h, Nat.add_mod]; linarith
  gap_le i := by
    rcases Nat.mod_two_eq_zero_or_one i with h | h
    · simp [h, Nat.add_mod]; linarith
    · simp [h, Nat.add_mod]; linarith

/-- VOLUME UP with half-bits of 889 us, 89 ms from the next frame. -/
def volUpTransmission : Transmission ℚ :=
  ⟨⟨true, false, 0x18, 0x13⟩, 889, Vector.replicate 13 (889, 889), 89000⟩

theorem volUpTransmission_timed : volUpTransmission.Timed jittery where
  start := by constructor <;> norm_num [volUpTransmission, jittery]
  halves h hh := by
    obtain rfl : h = (889, 889) := by
      simp [volUpTransmission] at hh
      exact hh
    constructor <;> constructor <;> norm_num [jittery]
  gap := by norm_num [volUpTransmission, jittery]

/-- The band of RC5: samples 100 to 148 us apart receive half-bits of 889 us. -/
theorem frames_transmissions_volUp :
    frames Ir.zero (jittery.samples (level (jittery.time 0)
      (remoteWave 10000 [volUpTransmission, volUpTransmission])) 0
      (jittery.first (stop (jittery.time 0)
        (remoteWave 10000 [volUpTransmission, volUpTransmission])))) = [0x1613, 0x1613] :=
  frames_transmissions jittery 10000 [volUpTransmission, volUpTransmission]
    (by norm_num [jittery]) (by simp [volUpTransmission_timed])

end VolumeControl
