import VolumeControl.Ir.Frame

/-!
# A stream of frames

`frames ir samples` are the words that the interrupt completes on a stream of
samples: those of the receptions that time out with 13 bits. An `IrBurst` is a
frame as it goes over the line, up to the sample at which the receiver times
out; `frames_stream` says that of any stream of bursts, with the line high for
any time in between, exactly the frames come out, in order.

A time out needs 33 samples since the last accepted edge (`frames_eq_nil`), which
the samples of a bit never are.
-/

namespace VolumeControl

open ShiftRegister Trace

/-- The word that the sample `new` completes. -/
def frameEnds (ir : Ir) (new : Bool) : List (BitVec 32) :=
  if ir.active && !(irqSampleIr ir new).active && ir.valueBits == 13 then [ir.value] else []

def frames (ir : Ir) (samples : List Bool) : List (BitVec 32) :=
  (outputs irqSampleIr frameEnds ir samples).flatten

@[simp] theorem frames_nil (ir : Ir) : frames ir [] = [] := rfl

@[simp] theorem frames_cons (ir : Ir) (new : Bool) (samples : List Bool) :
    frames ir (new :: samples) = frameEnds ir new ++ frames (irqSampleIr ir new) samples := rfl

theorem frames_append (ir : Ir) (samples samples' : List Bool) :
    frames ir (samples ++ samples') =
      frames ir samples ++ frames (run irqSampleIr ir samples) samples' := by
  rw [frames, outputs_append, List.flatten_append]
  rfl

/-! ## Where no frame ends -/

theorem frameEnds_inactive {ir : Ir} (ha : ir.active = false) (new : Bool) :
    frameEnds ir new = [] := by
  simp [frameEnds, ha]

/-- The sample that ends a reception. -/
theorem frameEnds_timeout {ir : Ir} (ha : ir.active = true) (hc : 32 < ir.count.toNat)
    (new : Bool) : frameEnds ir new = if ir.valueBits = 13 then [ir.value] else [] := by
  simp [frameEnds, ha, irqSampleIr_timeout ha hc]

/-- Any other sample of a reception keeps it going, and the count grows by one at most. -/
theorem active_of_count_le {ir : Ir} (ha : ir.active = true) (hc : ir.count.toNat ≤ 32)
    (new : Bool) : (irqSampleIr ir new).active = true ∧
      (irqSampleIr ir new).count.toNat ≤ ir.count.toNat + 1 := by
  have hs := toNat_count_succ (c := ir.count) (by omega)
  by_cases hl : new = ir.last
  · rw [irqSampleIr_same ha hc hl]
    exact ⟨ha, hs.le⟩
  · by_cases h10 : ir.count.toNat ≤ 10
    · rw [irqSampleIr_close ha h10 hl]
      exact ⟨ha, hs.le⟩
    · rw [irqSampleIr_accept ha (by omega) hc hl]
      exact ⟨rfl, by simp⟩

/-- No frame ends before the count can have passed 32. -/
theorem frames_eq_nil {ir : Ir} (ha : ir.active = true) {samples : List Bool}
    (hlen : ir.count.toNat + samples.length ≤ 33) : frames ir samples = [] := by
  induction samples generalizing ir with
  | nil => rfl
  | cons new samples ih =>
    simp only [List.length_cons] at hlen
    obtain ⟨ha', hc'⟩ := active_of_count_le ha (by omega) new
    rw [frames_cons, ih ha' (by omega)]
    simp [frameEnds, ha']

theorem frames_quiet {v : Bool} {cnt w n : BitVec 32} (m : Nat) :
    frames ⟨false, v, cnt, w, n⟩ (List.replicate m v) = [] := by
  induction m with
  | zero => rfl
  | succ m ih =>
    rw [List.replicate_succ, frames_cons, frameEnds_inactive rfl, irqSampleIr_idle rfl rfl, ih]
    rfl

/-! ## Bursts -/

/-- A frame on the line: the second half of the start bit, the bits, and the high line up to the
time out, 34 samples after the last mid-bit edge. -/
structure IrBurst where
  frame : Rc5Frame
  start : HalfBit
  halves : Vector (HalfBit × HalfBit) 13

def IrBurst.body (b : IrBurst) : List Bool :=
  List.replicate b.start false ++ b.frame.line b.halves ++
    List.replicate (34 - b.halves.back.2) true

def IrBurst.samples (b : IrBurst) : List Bool := b.body ++ [true]

/-- The word of a burst. -/
def IrBurst.word (b : IrBurst) : BitVec 32 := b.frame.word.setWidth 32

theorem length_bitLine (b : Bool × HalfBit × HalfBit) : (bitLine b).length ≤ 20 := by
  have hp := b.2.1.2
  have hq := b.2.2.2
  simp only [bitLine, List.length_append, List.length_replicate]
  omega

theorem frames_bits (bs : List (Bool × HalfBit × HalfBit)) {v : Bool} {c : Nat} {w n : BitVec 32}
    (h5 : 5 ≤ c) (h10 : c ≤ 10) :
    frames ⟨true, v, BitVec.ofNat 32 c, w, n⟩ (bs.flatMap bitLine) = [] := by
  induction bs generalizing v c w n with
  | nil => rfl
  | cons b bs ih =>
    have hq := b.2.2.2
    have hlen := length_bitLine b
    have hc := toNat_ofNat_count (c := c) (by omega)
    have hbit : frames ⟨true, v, BitVec.ofNat 32 c, w, n⟩ (bitLine b) = [] :=
      frames_eq_nil rfl (by simp only [hc]; omega)
    rw [List.flatMap_cons, frames_append, hbit, samples_bit h5 h10 b]
    exact ih (by omega) (by omega)

/-- A train of bits, up to the sample before the time out. -/
theorem train_body (bs : List (Bool × HalfBit × HalfBit)) (b : Bool × HalfBit × HalfBit)
    (cnt w n : BitVec 32) (start : HalfBit) :
    let line := List.replicate start false ++ (bs ++ [b]).flatMap bitLine ++
      List.replicate (34 - b.2.2) true
    frames ⟨false, true, cnt, w, n⟩ line = [] ∧
      run irqSampleIr ⟨false, true, cnt, w, n⟩ line =
        ⟨true, true, 33, shiftAll 0 ((bs ++ [b]).map Prod.fst),
          BitVec.ofNat 32 (bs ++ [b]).length⟩ := by
  obtain ⟨s, hs⟩ := start
  obtain ⟨s, rfl⟩ : ∃ k, s = k + 1 := ⟨s - 1, by omega⟩
  have hq := b.2.2.2
  have hlen := length_bitLine b
  have hc1 := toNat_ofNat_count (c := b.2.2 - 1) (by omega)
  have hstart : run irqSampleIr ⟨false, true, cnt, w, n⟩ (List.replicate (s + 1) false) =
      ⟨true, false, BitVec.ofNat 32 (1 + s), 0, 0⟩ := by
    rw [List.replicate_succ, run_cons, irqSampleIr_start rfl (by simp)]
    exact samples_same (c := 1) (by omega)
  have hstart' : frames ⟨false, true, cnt, w, n⟩ (List.replicate (s + 1) false) = [] := by
    rw [List.replicate_succ, frames_cons, frameEnds_inactive rfl, irqSampleIr_start rfl (by simp)]
    exact frames_eq_nil rfl (by simp; omega)
  obtain ⟨v', c', h5, h10, e⟩ := samples_bits bs (v := false) (c := 1 + s) (w := 0) (n := 0)
    (by omega) (by omega)
  have hc' := toNat_ofNat_count (c := c') (by omega)
  have hbit : frames ⟨true, v', BitVec.ofNat 32 c', shiftAll 0 (bs.map Prod.fst),
      0 + BitVec.ofNat 32 bs.length⟩ (bitLine b) = [] :=
    frames_eq_nil rfl (by simp only [hc']; omega)
  refine ⟨?_, ?_⟩
  · rw [frames_append, frames_append, hstart', run_append, hstart, List.flatMap_append,
      frames_append, frames_bits bs (by omega) (by omega), run_append, e, List.flatMap_singleton,
      hbit, samples_bit h5 h10]
    exact frames_eq_nil rfl (by simp only [hc1, List.length_replicate]; omega)
  · rw [run_append, run_append, hstart, List.flatMap_append, run_append, e,
      List.flatMap_singleton, samples_bit h5 h10,
      samples_early (by omega) (by omega) (by omega) true]
    rw [show (b.2.2 : Nat) - 1 + (34 - b.2.2) = 33 by omega]
    simp [shiftAll_snoc, BitVec.ofNat_add]

/-- **A burst is received**: its word comes out, at its last sample, and the receiver is left
waiting for the next one. -/
theorem IrBurst.received (b : IrBurst) (cnt w n : BitVec 32) :
    frames ⟨false, true, cnt, w, n⟩ b.body = [] ∧
      frames ⟨false, true, cnt, w, n⟩ b.samples = [b.word] ∧
      run irqSampleIr ⟨false, true, cnt, w, n⟩ b.samples = ⟨false, true, 34, b.word, 13⟩ := by
  obtain ⟨bs, l, hz, hl⟩ := b.frame.zip_eq_snoc b.halves
  obtain ⟨hframes, hrun⟩ := train_body bs l cnt w n b.start
  rw [← hz, b.frame.map_fst_zip, b.frame.bits_eq, shiftAll_bits, ← b.frame.bits_eq, hl] at hrun
  rw [← hz, hl] at hframes
  have hbody : run irqSampleIr ⟨false, true, cnt, w, n⟩ b.body = ⟨true, true, 33, b.word, 13⟩ := by
    rw [body, Rc5Frame.line, hrun]
    simp [b.frame.length_bits, IrBurst.word]
  refine ⟨hframes, ?_, ?_⟩
  · rw [samples, frames_append, hbody, show frames _ b.body = [] from hframes, frames_cons,
      frameEnds_timeout rfl (by simp)]
    rfl
  · rw [samples, run_append, hbody, run_cons, run_nil, irqSampleIr_timeout rfl (by simp)]
    rfl

/-! ## Streams -/

/-- Bursts, each with the time that the line then stays high. -/
def stream (bursts : List (IrBurst × Nat)) : List Bool :=
  bursts.flatMap fun b => b.1.samples ++ List.replicate b.2 true

theorem frames_stream_of_idle (bursts : List (IrBurst × Nat)) (cnt w n : BitVec 32) :
    frames ⟨false, true, cnt, w, n⟩ (stream bursts) = bursts.map (·.1.word) := by
  induction bursts generalizing cnt w n with
  | nil => rfl
  | cons b bursts ih =>
    obtain ⟨-, hword, hrun⟩ := b.1.received cnt w n
    rw [stream, List.flatMap_cons, frames_append, frames_append, hword, hrun, run_append, hrun,
      samples_quiet, frames_quiet]
    exact congrArg _ (ih 34 b.1.word 13)

/-- From power-on the first 35 high samples are an empty reception. -/
theorem frames_settle (m : Nat) : frames Ir.zero (List.replicate (35 + m) true) = [] ∧
    ∃ cnt w n, run irqSampleIr Ir.zero (List.replicate (35 + m) true) = ⟨false, true, cnt, w, n⟩ := by
  refine ⟨?_, samples_settle Ir.zero (by omega)⟩
  have hrun : run irqSampleIr Ir.zero (List.replicate 33 true) = ⟨true, true, 33, 0, 0⟩ := by
    decide +kernel
  have hframes : frames Ir.zero (List.replicate 33 true) = [] := by decide +kernel
  rw [show 35 + m = 33 + (1 + (1 + m)) by omega, List.replicate_add, frames_append, hframes, hrun,
    List.replicate_add, List.replicate_one, List.singleton_append, frames_cons,
    frameEnds_timeout rfl (by decide), irqSampleIr_timeout rfl (by decide)]
  exact congrArg _ (frames_quiet (1 + m))

/-- **Exactly the frames come out**, in order. -/
theorem frames_stream {idle : Nat} (hidle : 35 ≤ idle) (bursts : List (IrBurst × Nat)) :
    frames Ir.zero (List.replicate idle true ++ stream bursts) = bursts.map (·.1.word) := by
  obtain ⟨m, rfl⟩ : ∃ m, idle = 35 + m := ⟨idle - 35, by omega⟩
  obtain ⟨hframes, cnt, w, n, hrun⟩ := frames_settle m
  rw [frames_append, hframes, hrun]
  exact frames_stream_of_idle bursts cnt w n

end VolumeControl
