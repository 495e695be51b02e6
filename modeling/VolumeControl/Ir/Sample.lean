import VolumeControl.Lib.Run
import VolumeControl.Lib.ShiftRegister

/-!
# The IR receiver

`irqSampleIr` is the timer interrupt: it samples pin 28 every 100 us and
assembles the bits of an RC5 frame in `ir`. Samples are `true` for a high
(idle) line. `rc5Decode` splits a received word into its fields.

The lemmas of the second half say what one sample does, one lemma per way
through the interrupt; nothing later unfolds `irqSampleIr`.
-/

namespace VolumeControl

open ShiftRegister

def irSampleUs : Nat := 100

def irSampleCount : Nat := 800 / irSampleUs

/-- The `volatile struct` shared by the timer interrupt and `main`. -/
structure Ir where
  active : Bool
  last : Bool
  count : BitVec 32
  value : BitVec 32
  valueBits : BitVec 32
  deriving DecidableEq, Repr

/-- The power-on value. -/
def Ir.zero : Ir := ⟨false, false, 0, 0, 0⟩

/-- One run of the timer interrupt on the sample `new` of pin 28. -/
def irqSampleIr (ir : Ir) (new : Bool) : Ir :=
  if !ir.active && new == ir.last then ir
  else
    let ir := if ir.active then ir else { ir with count := 0, value := 0, valueBits := 0, active := true }
    -- Check for time out: `ir.count++ > IR_SAMPLE_COUNT * 4` tests the count before the increment
    let timeout := ir.count.toNat > irSampleCount * 4
    let ir := { ir with count := ir.count + 1 }
    if timeout then { ir with active := false }
    else if ir.last == new then ir
    else
      let ir := { ir with last := new }
      -- Ignore the change if it changed too fast: `ir.count < IR_SAMPLE_COUNT * 1.5`
      if 2 * ir.count.toNat < 3 * irSampleCount then ir
      else { ir with value := shiftIn ir.value (!new), valueBits := ir.valueBits + 1, count := 0 }

structure Rc5Data where
  control : BitVec 32
  address : BitVec 32
  command : BitVec 32
  deriving DecidableEq, Repr

/-- `(struct rc5_data){0}`. -/
def Rc5Data.zero : Rc5Data := ⟨0, 0, 0⟩

def rc5Decode (val : BitVec 32) : Rc5Data :=
  let command := val &&& ((1#32 <<< 6) - 1)
  let val := val >>> 6
  let address := val &&& ((1#32 <<< 5) - 1)
  let val := val >>> 5
  let control := val &&& 1
  let val := val >>> 1
  let field := val &&& 1
  { control, address, command := if field = 0 then command + 64 else command }

/-! ## One sample -/

section
variable {ir : Ir} {new : Bool}

theorem irqSampleIr_idle (ha : ir.active = false) (hl : new = ir.last) :
    irqSampleIr ir new = ir := by
  simp [irqSampleIr, ha, hl]

/-- The edge that starts a reception is counted: `count` is 1 after it, not 0. -/
theorem irqSampleIr_start (ha : ir.active = false) (hl : new ≠ ir.last) :
    irqSampleIr ir new = ⟨true, new, 1, 0, 0⟩ := by
  simp [irqSampleIr, ha, hl, hl.symm, irSampleCount, irSampleUs]

theorem irqSampleIr_timeout (ha : ir.active = true) (hc : 32 < ir.count.toNat) :
    irqSampleIr ir new = { ir with active := false, count := ir.count + 1 } := by
  simp [irqSampleIr, ha, irSampleCount, irSampleUs, hc]

theorem irqSampleIr_same (ha : ir.active = true) (hc : ir.count.toNat ≤ 32) (hl : new = ir.last) :
    irqSampleIr ir new = { ir with count := ir.count + 1 } := by
  simp [irqSampleIr, ha, irSampleCount, irSampleUs, hl, Nat.not_lt.2 hc]

theorem toNat_count_succ {c : BitVec 32} (hc : c.toNat ≤ 33) :
    (c + 1#32).toNat = c.toNat + 1 := by
  bv_omega

/-- An edge less than 12 samples after the last accepted one only updates `last`. -/
theorem irqSampleIr_close (ha : ir.active = true) (hc : ir.count.toNat ≤ 10) (hl : new ≠ ir.last) :
    irqSampleIr ir new = { ir with count := ir.count + 1, last := new } := by
  have hs : 2 * (ir.count + 1#32).toNat < 24 := by
    rw [toNat_count_succ (by omega)]
    omega
  simp [irqSampleIr, ha, irSampleCount, irSampleUs, hl.symm, hs, -BitVec.toNat_add,
    show ¬ 32 < ir.count.toNat by omega]

theorem irqSampleIr_accept (ha : ir.active = true) (hc : 11 ≤ ir.count.toNat)
    (hc' : ir.count.toNat ≤ 32) (hl : new ≠ ir.last) :
    irqSampleIr ir new =
      ⟨true, new, 0, shiftIn ir.value (!new), ir.valueBits + 1⟩ := by
  have hs : ¬ 2 * (ir.count + 1#32).toNat < 24 := by
    rw [toNat_count_succ (by omega)]
    omega
  simp [irqSampleIr, ha, irSampleCount, irSampleUs, hl.symm, hs, -BitVec.toNat_add, Nat.not_lt.2 hc']

end

end VolumeControl
