import VolumeControl.Ir.Sample

/-!
# Receiving an RC5 frame

The line carries a frame as bi-phase bits: `bitLine b` is high first iff `b`,
and every half-bit lasts between 6 and 10 samples (`HalfBit`). Bit-boundary
edges come at most 10 samples after a mid-bit edge and are dropped; mid-bit
edges come at least 12 samples after the previous one and are accepted.

`samples_bit` is the step of the induction: from any count between 5 and 10
one bit leaves its value in the shift register and the count one short of its
second half-bit. `samples_settle` is the start: 35 idle samples end whatever
reception was left over. `irqSampleIr_frame` is the whole reception.
-/

namespace VolumeControl

open ShiftRegister Trace

/-! ## The line -/

/-- The length of a half-bit, in samples. -/
abbrev HalfBit := {n : Nat // 6 ≤ n ∧ n ≤ 10}

/-- The samples of one bit. -/
def bitLine (b : Bool × HalfBit × HalfBit) : List Bool :=
  List.replicate b.2.1 b.1 ++ List.replicate b.2.2 (!b.1)

structure Rc5Frame where
  field : Bool
  control : Bool
  address : BitVec 5
  command : BitVec 6

/-- The bits of a frame in sending order. -/
def Rc5Frame.bits (f : Rc5Frame) : List Bool :=
  [f.field, f.control] ++ ShiftRegister.bits f.address ++ ShiftRegister.bits f.command

/-- The frame as a word. -/
def Rc5Frame.word (f : Rc5Frame) : BitVec 13 :=
  BitVec.ofBool f.field ++ BitVec.ofBool f.control ++ f.address ++ f.command

/-- What the frame says. -/
def Rc5Frame.data (f : Rc5Frame) : Rc5Data where
  control := (BitVec.ofBool f.control).setWidth 32
  address := f.address.setWidth 32
  command := if f.field then f.command.setWidth 32 else f.command.setWidth 32 + 64

/-- The samples of a frame whose half-bits have the lengths `halves`. -/
def Rc5Frame.line (f : Rc5Frame) (halves : Vector (HalfBit × HalfBit) 13) : List Bool :=
  (f.bits.zip halves.toList).flatMap bitLine

theorem Rc5Frame.length_bits (f : Rc5Frame) : f.bits.length = 13 := by
  simp [Rc5Frame.bits]

/-! ## Runs of equal samples -/

theorem toNat_ofNat_count {c : Nat} (hc : c ≤ 34) : (BitVec.ofNat 32 c).toNat = c := by
  simp; omega

section
variable {v : Bool} {c m : Nat} {w n : BitVec 32}

/-- While the line stays as it is, a reception only counts. -/
theorem samples_same (h : c + m ≤ 33) :
    run irqSampleIr ⟨true, v, BitVec.ofNat 32 c, w, n⟩ (List.replicate m v) =
      ⟨true, v, BitVec.ofNat 32 (c + m), w, n⟩ := by
  induction m generalizing c with
  | zero => rfl
  | succ m ih =>
    rw [List.replicate_succ, run_cons,
      irqSampleIr_same rfl (by simp only [toNat_ofNat_count (show c ≤ 34 by omega)]; omega) rfl]
    have := ih (c := c + 1) (by omega)
    rw [show c + (m + 1) = c + 1 + m by omega, ← this, BitVec.ofNat_add]
    rfl

/-- Early after an accepted edge the next level, whatever it is, is only counted. -/
theorem samples_early (hc : c ≤ 10) (h : c + m ≤ 33) (hm : 0 < m) (b : Bool) :
    run irqSampleIr ⟨true, v, BitVec.ofNat 32 c, w, n⟩ (List.replicate m b) =
      ⟨true, b, BitVec.ofNat 32 (c + m), w, n⟩ := by
  by_cases hb : b = v
  · subst hb; exact samples_same h
  · obtain ⟨m, rfl⟩ : ∃ k, m = k + 1 := ⟨m - 1, by omega⟩
    rw [List.replicate_succ, run_cons,
      irqSampleIr_close rfl (by simp only [toNat_ofNat_count (show c ≤ 34 by omega)]; omega) hb]
    have := samples_same (v := b) (c := c + 1) (m := m) (w := w) (n := n) (by omega)
    rw [show c + (m + 1) = c + 1 + m by omega, ← this, BitVec.ofNat_add]
    rfl

/-- A receiver that is not active stays so while the line does not move. -/
theorem samples_quiet (cnt : BitVec 32) :
    run irqSampleIr ⟨false, v, cnt, w, n⟩ (List.replicate m v) = ⟨false, v, cnt, w, n⟩ := by
  induction m with
  | zero => rfl
  | succ m ih => rw [List.replicate_succ, run_cons, irqSampleIr_idle rfl rfl, ih]

/-- The time out: the reception ends when the line has not moved for 34 samples. -/
theorem samples_timeout (hc : c ≤ 33) (h : 34 ≤ c + m) :
    run irqSampleIr ⟨true, v, BitVec.ofNat 32 c, w, n⟩ (List.replicate m v) =
      ⟨false, v, 34, w, n⟩ := by
  obtain ⟨k, rfl⟩ : ∃ k, m = (33 - c) + (1 + k) := ⟨m - (34 - c), by omega⟩
  rw [List.replicate_add, List.replicate_add, run_append, run_append,
    samples_same (by omega), show c + (33 - c) = 33 by omega]
  rw [List.replicate_one, run_cons, run_nil,
    irqSampleIr_timeout rfl (by simp only [toNat_ofNat_count (show 33 ≤ 34 by omega)]; omega)]
  exact samples_quiet _

/-- The time out after a last edge that came too early to be a bit. -/
theorem samples_early_timeout (hc : c ≤ 10) (h : 34 ≤ c + m) (b : Bool) :
    run irqSampleIr ⟨true, v, BitVec.ofNat 32 c, w, n⟩ (List.replicate m b) =
      ⟨false, b, 34, w, n⟩ := by
  obtain ⟨k, rfl⟩ : ∃ k, m = 1 + k := ⟨m - 1, by omega⟩
  rw [List.replicate_add, run_append, samples_early hc (by omega) (by omega) b]
  exact samples_timeout (by omega) (by omega)

end

/-! ## Idle line -/

theorem samples_settle_inactive {ir : Ir} (ha : ir.active = false) {m : Nat} (hm : 34 ≤ m) :
    ∃ cnt w n, run irqSampleIr ir (List.replicate m true) = ⟨false, true, cnt, w, n⟩ := by
  obtain ⟨active, last, cnt, w, n⟩ := ir
  obtain rfl : active = false := ha
  cases last with
  | true => exact ⟨_, _, _, samples_quiet _⟩
  | false =>
    obtain ⟨k, rfl⟩ : ∃ k, m = k + 1 := ⟨m - 1, by omega⟩
    rw [List.replicate_succ, run_cons, irqSampleIr_start rfl (by simp)]
    exact ⟨_, _, _, samples_timeout (c := 1) (by omega) (by omega)⟩

/-- **35 idle samples end any reception**, whatever the receiver held before. -/
theorem samples_settle (ir : Ir) {m : Nat} (hm : 35 ≤ m) :
    ∃ cnt w n, run irqSampleIr ir (List.replicate m true) = ⟨false, true, cnt, w, n⟩ := by
  cases ha : ir.active with
  | false => exact samples_settle_inactive ha (by omega)
  | true =>
    obtain ⟨k, rfl⟩ : ∃ k, m = k + 1 := ⟨m - 1, by omega⟩
    rw [List.replicate_succ, run_cons]
    by_cases hc : 32 < ir.count.toNat
    · -- a count past the time out, possible only in a value nobody sampled into
      rw [irqSampleIr_timeout ha hc]
      exact samples_settle_inactive rfl (by omega)
    · have hs := toNat_count_succ (c := ir.count) (by omega)
      have hk : ∀ c ≤ 33, 34 ≤ c + k → ∀ w n,
          ∃ cnt w' n', run irqSampleIr ⟨true, true, BitVec.ofNat 32 c, w, n⟩ (List.replicate k true) =
            ⟨false, true, cnt, w', n'⟩ :=
        fun c h1 h2 w n => ⟨_, _, _, samples_timeout h1 h2⟩
      have hcnt : ir.count + 1 = BitVec.ofNat 32 (ir.count.toNat + 1) := by
        rw [← hs, BitVec.ofNat_toNat, BitVec.setWidth_eq]
        rfl
      by_cases hl : true = ir.last
      · rw [irqSampleIr_same ha (by omega) hl, ha, ← hl, hcnt]
        exact hk _ (by omega) (by omega) _ _
      · by_cases h10 : ir.count.toNat ≤ 10
        · rw [irqSampleIr_close ha h10 hl, ha, hcnt]
          exact hk _ (by omega) (by omega) _ _
        · rw [irqSampleIr_accept ha (by omega) (by omega) hl]
          exact hk 0 (by omega) (by omega) _ _

/-! ## Bits -/

/-- **One bit.** The boundary edge (there only when the line was at `!b`) is dropped, the
mid-bit edge is accepted. -/
theorem samples_bit {v : Bool} {c : Nat} {w n : BitVec 32} (h5 : 5 ≤ c) (h10 : c ≤ 10)
    (b : Bool × HalfBit × HalfBit) :
    run irqSampleIr ⟨true, v, BitVec.ofNat 32 c, w, n⟩ (bitLine b) =
      ⟨true, !b.1, BitVec.ofNat 32 (b.2.2 - 1), shiftIn w b.1, n + 1⟩ := by
  obtain ⟨b, ⟨p, hp⟩, ⟨q, hq⟩⟩ := b
  obtain ⟨q, rfl⟩ : ∃ k, q = k + 1 := ⟨q - 1, by omega⟩
  simp only [bitLine]
  rw [run_append, samples_early h10 (by omega) (by omega) b, List.replicate_succ,
    run_cons]
  have hcp := toNat_ofNat_count (c := c + p) (by omega)
  rw [irqSampleIr_accept rfl (by simp only [hcp]; omega) (by simp only [hcp]; omega) (by simp),
    Bool.not_not]
  have := samples_same (v := !b) (c := 0) (m := q) (w := shiftIn w b) (n := n + 1) (by omega)
  simpa using this

/-- Several bits: they are all shifted in, and the next bit finds the count it needs. -/
theorem samples_bits (bs : List (Bool × HalfBit × HalfBit)) {v : Bool} {c : Nat}
    {w n : BitVec 32} (h5 : 5 ≤ c) (h10 : c ≤ 10) :
    ∃ v' c', 5 ≤ c' ∧ c' ≤ 10 ∧
      run irqSampleIr ⟨true, v, BitVec.ofNat 32 c, w, n⟩ (bs.flatMap bitLine) =
        ⟨true, v', BitVec.ofNat 32 c', shiftAll w (bs.map Prod.fst),
          n + BitVec.ofNat 32 bs.length⟩ := by
  induction bs generalizing v c w n with
  | nil => exact ⟨v, c, h5, h10, by simp [shiftAll]⟩
  | cons b bs ih =>
    have hq := b.2.2.2
    obtain ⟨v', c', h5', h10', e⟩ := ih (v := !b.1) (c := b.2.2 - 1) (w := shiftIn w b.1)
      (n := n + 1) (by omega) (by omega)
    refine ⟨v', c', h5', h10', ?_⟩
    rw [List.flatMap_cons, run_append, samples_bit h5 h10 b, e, List.length_cons,
      BitVec.ofNat_add, BitVec.add_assoc, BitVec.add_comm 1]
    rfl

/-- A train of bits after an idle line, up to the time out `34` samples after the last
mid-bit edge and beyond. -/
theorem samples_train (bs : List (Bool × HalfBit × HalfBit)) (b : Bool × HalfBit × HalfBit)
    (cnt w n : BitVec 32) (start : HalfBit) (tail : Nat) (htail : 34 ≤ (b.2.2 - 1) + tail) :
    run irqSampleIr ⟨false, true, cnt, w, n⟩
        (List.replicate start false ++ (bs ++ [b]).flatMap bitLine ++ List.replicate tail true) =
      ⟨false, true, 34, shiftAll 0 ((bs ++ [b]).map Prod.fst),
        BitVec.ofNat 32 (bs ++ [b]).length⟩ := by
  obtain ⟨s, hs⟩ := start
  obtain ⟨s, rfl⟩ : ∃ k, s = k + 1 := ⟨s - 1, by omega⟩
  have hq := b.2.2.2
  have hstart : run irqSampleIr ⟨false, true, cnt, w, n⟩ (List.replicate (s + 1) false) =
      ⟨true, false, BitVec.ofNat 32 (1 + s), 0, 0⟩ := by
    rw [List.replicate_succ, run_cons, irqSampleIr_start rfl (by simp)]
    exact samples_same (c := 1) (by omega)
  obtain ⟨v', c', h5, h10, e⟩ := samples_bits bs (v := false) (c := 1 + s) (w := 0) (n := 0)
    (by omega) (by omega)
  rw [run_append, run_append, hstart, List.flatMap_append, run_append, e,
    List.flatMap_singleton, samples_bit h5 h10, samples_early_timeout (c := b.2.2 - 1) (by omega) htail]
  simp [shiftAll_snoc, BitVec.ofNat_add]

/-! ## Frames -/

theorem Rc5Frame.bits_eq (f : Rc5Frame) : f.bits = ShiftRegister.bits f.word := by
  have h := bits_append (BitVec.ofBool f.field ++ BitVec.ofBool f.control ++ f.address) f.command
  rw [bits_append (BitVec.ofBool f.field ++ BitVec.ofBool f.control) f.address,
    bits_append (BitVec.ofBool f.field) (BitVec.ofBool f.control), bits_ofBool, bits_ofBool] at h
  exact h.symm

theorem Rc5Frame.map_fst_zip (f : Rc5Frame) (halves : Vector (HalfBit × HalfBit) 13) :
    (f.bits.zip halves.toList).map Prod.fst = f.bits :=
  List.map_fst_zip (by simp [f.length_bits])

theorem Rc5Frame.toNat_word (f : Rc5Frame) :
    f.word.toNat = 64 * (32 * (2 * f.field.toNat + f.control.toNat) + f.address.toNat) + f.command.toNat := by
  have h1 := toNat_append (BitVec.ofBool f.field) (BitVec.ofBool f.control)
  have h2 := toNat_append (BitVec.ofBool f.field ++ BitVec.ofBool f.control) f.address
  have h3 := toNat_append (BitVec.ofBool f.field ++ BitVec.ofBool f.control ++ f.address) f.command
  rw [h2, h1, BitVec.toNat_ofBool, BitVec.toNat_ofBool] at h3
  exact h3

theorem toNat_and_63 (x : BitVec 32) : (x &&& ((1#32 <<< 6) - 1)).toNat = x.toNat % 64 :=
  Nat.and_two_pow_sub_one_eq_mod x.toNat 6

theorem toNat_and_31 (x : BitVec 32) : (x &&& ((1#32 <<< 5) - 1)).toNat = x.toNat % 32 :=
  Nat.and_two_pow_sub_one_eq_mod x.toNat 5

theorem toNat_and_one (x : BitVec 32) : (x &&& 1).toNat = x.toNat % 2 :=
  Nat.and_two_pow_sub_one_eq_mod x.toNat 1

theorem Rc5Frame.zip_eq_snoc (f : Rc5Frame) (halves : Vector (HalfBit × HalfBit) 13) :
    ∃ bs b, f.bits.zip halves.toList = bs ++ [b] ∧ b.2 = halves.back := by
  have hs : (f.bits.zip halves.toList).map Prod.snd = halves.toList :=
    List.map_snd_zip (by simp [f.length_bits])
  have hne : f.bits.zip halves.toList ≠ [] := by
    intro h
    have := congrArg List.length h
    simp [f.length_bits] at this
  refine ⟨_, _, (List.dropLast_append_getLast hne).symm, ?_⟩
  rw [← List.getLast_map (f := Prod.snd) (by simpa using hne)]
  simp only [hs]
  rw [List.getLast_eq_getElem, Vector.back_eq_getElem]
  simp

/-- A word splits into the fields it was put together from. -/
theorem rc5Decode_word (f : Rc5Frame) : rc5Decode (f.word.setWidth 32) = f.data := by
  have hN : (f.word.setWidth 32).toNat = 64 * (32 * (2 * f.field.toNat + f.control.toNat) +
      f.address.toNat) + f.command.toNat := by
    rw [BitVec.toNat_setWidth, f.toNat_word]
    have := f.field.toNat_lt; have := f.control.toNat_lt
    omega
  have hf := f.field.toNat_lt
  have hc := f.control.toNat_lt
  have ha := f.address.isLt
  have hk := f.command.isLt
  have h1 : f.word.setWidth 32 &&& ((1#32 <<< 6) - 1) = f.command.setWidth 32 := by
    apply BitVec.eq_of_toNat_eq
    rw [toNat_and_63, hN, BitVec.toNat_setWidth]
    omega
  have h2 : f.word.setWidth 32 >>> 6 &&& ((1#32 <<< 5) - 1) = f.address.setWidth 32 := by
    apply BitVec.eq_of_toNat_eq
    rw [toNat_and_31, BitVec.toNat_ushiftRight, hN, BitVec.toNat_setWidth, Nat.shiftRight_eq_div_pow]
    omega
  have h3 : f.word.setWidth 32 >>> 6 >>> 5 &&& 1 = (BitVec.ofBool f.control).setWidth 32 := by
    apply BitVec.eq_of_toNat_eq
    simp only [toNat_and_one, BitVec.toNat_ushiftRight, hN, BitVec.toNat_setWidth,
      Nat.shiftRight_eq_div_pow, BitVec.toNat_ofBool]
    omega
  have h4 : f.word.setWidth 32 >>> 6 >>> 5 >>> 1 &&& 1 = (BitVec.ofBool f.field).setWidth 32 := by
    apply BitVec.eq_of_toNat_eq
    simp only [toNat_and_one, BitVec.toNat_ushiftRight, hN, BitVec.toNat_setWidth,
      Nat.shiftRight_eq_div_pow, BitVec.toNat_ofBool]
    omega
  simp only [rc5Decode, h1, h2, h3, h4, Rc5Frame.data]
  cases f.field <;> rfl

/-- **Every frame is received**, from any value of `ir`: after at least 35 idle samples, the
second half of the start bit and the frame, with the line high since, the receiver holds the
frame from the 34th sample after the last mid-bit edge on. -/
theorem irqSampleIr_frame (ir : Ir) (f : Rc5Frame) (idle : Nat) (start : HalfBit)
    (halves : Vector (HalfBit × HalfBit) 13) (tail : Nat) (hidle : 35 ≤ idle)
    (htail : 34 ≤ (halves.back.2 - 1) + tail) :
    let ir' := run irqSampleIr ir (List.replicate idle true ++ List.replicate start false ++
      f.line halves ++ List.replicate tail true)
    ir'.active = false ∧ ir'.valueBits = 13 ∧ ir'.value = f.word.setWidth 32 ∧
      rc5Decode ir'.value = f.data := by
  obtain ⟨cnt, val, n, hset⟩ := samples_settle ir hidle
  -- the last bit apart: its second half-bit is what the time out is counted from
  obtain ⟨bs, b, hz, hb⟩ := f.zip_eq_snoc halves
  have htrain := samples_train bs b cnt val n start tail (by rw [hb]; exact htail)
  rw [← hz, f.map_fst_zip, f.bits_eq, shiftAll_bits, ← f.bits_eq] at htrain
  intro ir'
  have hir : ir' = ⟨false, true, 34, f.word.setWidth 32, 13⟩ := by
    simp only [ir', Rc5Frame.line]
    rw [List.append_assoc, List.append_assoc, run_append, hset, ← List.append_assoc, htrain]
    simp [f.length_bits]
  rw [hir]
  exact ⟨rfl, rfl, rfl, rc5Decode_word f⟩

/-- Half-bits of 8 samples. -/
def evenHalves : Vector (HalfBit × HalfBit) 13 :=
  Vector.replicate 13 (⟨8, by decide⟩, ⟨8, by decide⟩)

/-- VOLUME UP, received after power-on. -/
theorem irqSampleIr_frame_volUp :
    (run irqSampleIr Ir.zero (List.replicate 35 true ++ List.replicate 8 false ++
      Rc5Frame.line ⟨true, false, 0x18, 0x13⟩ evenHalves ++ List.replicate 27 true)).active = false :=
  (irqSampleIr_frame Ir.zero ⟨true, false, 0x18, 0x13⟩ 35 ⟨8, by decide⟩ evenHalves 27
    (by decide) (by decide)).1

end VolumeControl
