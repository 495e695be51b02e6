import VolumeControl.Ir.Sample

/-!
# Receptions

A reception is a stretch of samples during which `ir` is active. `Reception` is
a ghost record of the latest one, kept by watching the interrupt from outside:
it starts when `ir` becomes active, accepts a bit when `valueBits` moves and
ends when `ir` becomes inactive (`Reception.observe`). `Tracks` ties `ir` to
the record.
-/

namespace VolumeControl

open ShiftRegister

/-- The latest reception: how many have started, the bits accepted, whether it has timed out. -/
structure Reception where
  started : Nat
  bits : List Bool
  ended : Bool
  deriving DecidableEq, Repr

/-- Before the first reception. -/
def Reception.zero : Reception := ⟨0, [], true⟩

/-- The sample starts a reception. -/
def starts (ir : Ir) (new : Bool) : Bool := !ir.active && (irqSampleIr ir new).active

/-- The sample is accepted as a bit. -/
def accepts (ir : Ir) (new : Bool) : Bool :=
  ir.active && (irqSampleIr ir new).valueBits != ir.valueBits

/-- The record after the sample `new` has been taken in the state `ir`. -/
def Reception.observe (ir : Ir) (new : Bool) (r : Reception) : Reception :=
  if starts ir new then ⟨r.started + 1, [], false⟩
  else if accepts ir new then { r with bits := r.bits ++ [!new] }
  else if ir.active && !(irqSampleIr ir new).active then { r with ended := true }
  else r

/-- **What one sample can do**: nothing to the word, start a reception, end one, accept a bit. -/
theorem irqSampleIr_cases (ir : Ir) (new : Bool) (r : Reception) :
    ((irqSampleIr ir new).active = ir.active ∧ (irqSampleIr ir new).value = ir.value ∧
      (irqSampleIr ir new).valueBits = ir.valueBits ∧ starts ir new = false ∧
      accepts ir new = false ∧ r.observe ir new = r) ∨
    (ir.active = false ∧ irqSampleIr ir new = ⟨true, new, 1, 0, 0⟩ ∧ starts ir new = true ∧
      accepts ir new = false ∧ r.observe ir new = ⟨r.started + 1, [], false⟩) ∨
    (ir.active = true ∧ irqSampleIr ir new = { ir with active := false, count := ir.count + 1 } ∧
      starts ir new = false ∧ accepts ir new = false ∧
      r.observe ir new = { r with ended := true }) ∨
    (ir.active = true ∧
      irqSampleIr ir new = ⟨true, new, 0, shiftIn ir.value (!new), ir.valueBits + 1⟩ ∧
      starts ir new = false ∧ accepts ir new = true ∧
      r.observe ir new = { r with bits := r.bits ++ [!new] }) := by
  cases ha : ir.active with
  | false =>
    by_cases hl : new = ir.last
    · left
      simp [irqSampleIr_idle ha hl, Reception.observe, starts, accepts, ha]
    · right; left
      simp [irqSampleIr_start ha hl, Reception.observe, starts, accepts, ha]
  | true =>
    by_cases hc : 32 < ir.count.toNat
    · right; right; left
      simp [irqSampleIr_timeout ha hc, Reception.observe, starts, accepts, ha]
    · by_cases hl : new = ir.last
      · left
        simp [irqSampleIr_same ha (by omega) hl, Reception.observe, starts, accepts, ha]
      · by_cases h10 : ir.count.toNat ≤ 10
        · left
          simp [irqSampleIr_close ha h10 hl, Reception.observe, starts, accepts, ha]
        · right; right; right
          simp [irqSampleIr_accept ha (by omega) (by omega) hl, Reception.observe, starts, accepts, ha]

/-- `ir` holds the word of the recorded reception. `valueBits` counts its bits, unless it has
ended and been cleared. -/
structure Tracks (ir : Ir) (r : Reception) : Prop where
  active : ir.active = !r.ended
  value : ir.value = shiftAll 0 r.bits
  valueBits : ir.valueBits = BitVec.ofNat 32 r.bits.length ∨ (r.ended = true ∧ ir.valueBits = 0)

theorem tracks_zero : Tracks Ir.zero Reception.zero := ⟨rfl, rfl, .inl rfl⟩

theorem Tracks.sample {ir : Ir} {r : Reception} (h : Tracks ir r) (new : Bool) :
    Tracks (irqSampleIr ir new) (r.observe ir new) := by
  obtain ⟨ha, hv, hb⟩ := h
  rcases irqSampleIr_cases ir new r with ⟨e1, e2, e3, -, -, er⟩ | ⟨-, e, -, -, er⟩ |
    ⟨hact, e, -, -, er⟩ | ⟨hact, e, -, -, er⟩
  · rw [er]
    exact ⟨e1.trans ha, e2.trans hv, by rw [e3]; exact hb⟩
  · rw [e, er]
    exact ⟨rfl, rfl, .inl rfl⟩
  · rw [e, er]
    have he : r.ended = false := by simpa [hact] using ha
    exact ⟨rfl, hv, .inl (by simpa [he] using hb)⟩
  · rw [e, er]
    have he : r.ended = false := by simpa [hact] using ha
    refine ⟨by simp [he], by rw [shiftAll_snoc, hv], .inl ?_⟩
    have hlen : ir.valueBits = BitVec.ofNat 32 r.bits.length := by simpa [he] using hb
    simp [hlen, BitVec.ofNat_add]

end VolumeControl
