import Mathlib.Algebra.Order.Ring.Nat

/-!
# Values that expire

A value that is set when one arrives and falls back to `rest` when none has
arrived for more than `limit`, polled from time to time. `Timer` measures the
time on a clock of `w` bits, which wraps, and `Ideal` on unbounded time.

`Agree` relates the two after a poll at `now`; `Agree.poll` keeps it while the
polls are close enough for the age of the value to fit the clock.
-/

namespace Watchdog

variable {α : Type*} {w limit now : Nat} {rest : α}

structure Poll (α : Type*) where
  now : Nat
  arrived : Option α

structure Timer (w : Nat) (α : Type*) where
  last : BitVec w
  value : α

/-- Expiry is noted in `last` as well. -/
def Timer.poll (limit : Nat) (rest : α) (s : Timer w α) (p : Poll α) : Timer w α :=
  match p.arrived with
  | some a => ⟨BitVec.ofNat w p.now, a⟩
  | none =>
    if (BitVec.ofNat w p.now - s.last).toNat > limit then ⟨BitVec.ofNat w p.now, rest⟩ else s

theorem Timer.poll_some (s : Timer w α) (now : Nat) (a : α) :
    s.poll limit rest ⟨now, some a⟩ = ⟨BitVec.ofNat w now, a⟩ := rfl

theorem Timer.poll_late (rest : α) {s : Timer w α} (h : (BitVec.ofNat w now - s.last).toNat > limit) :
    s.poll limit rest ⟨now, none⟩ = ⟨BitVec.ofNat w now, rest⟩ := if_pos h

theorem Timer.poll_early (rest : α) {s : Timer w α} (h : ¬ (BitVec.ofNat w now - s.last).toNat > limit) :
    s.poll limit rest ⟨now, none⟩ = s := if_neg h

structure Ideal (α : Type*) where
  /-- When the last value arrived. -/
  last : Nat
  value : α

def Ideal.poll (limit : Nat) (rest : α) (r : Ideal α) (p : Poll α) : Ideal α :=
  match p.arrived with
  | some a => ⟨p.now, a⟩
  | none => if p.now - r.last > limit then { r with value := rest } else r

/-- A time difference on the clock, when it fits. -/
theorem toNat_ofNat_sub {a b : Nat} (hle : a ≤ b) (hfit : b - a < 2 ^ w) :
    (BitVec.ofNat w b - BitVec.ofNat w a).toNat = b - a := by
  obtain ⟨d, rfl⟩ := Nat.exists_eq_add_of_le hle
  rw [Nat.add_sub_cancel_left] at hfit ⊢
  rw [Nat.add_comm, BitVec.ofNat_add, BitVec.add_sub_cancel, BitVec.toNat_ofNat,
    Nat.mod_eq_of_lt hfit]

/-- The same value; while it is not `rest`, of the same known age. -/
structure Agree (limit : Nat) (rest : α) (now : Nat) (s : Timer w α) (r : Ideal α) : Prop where
  value : s.value = r.value
  last : r.value ≠ rest → s.last = BitVec.ofNat w r.last ∧ r.last ≤ now ∧ now - r.last ≤ limit

theorem agree_rest (now : Nat) (t : BitVec w) (t' : Nat) :
    Agree limit rest now ⟨t, rest⟩ ⟨t', rest⟩ := ⟨rfl, fun h => absurd rfl h⟩

/-- **A poll on the clock is a poll on unbounded time**, soon enough after the last one. -/
theorem Agree.poll {s : Timer w α} {r : Ideal α} {p : Poll α} (h : Agree limit rest now s r)
    (hle : now ≤ p.now) (hgap : p.now - now + limit < 2 ^ w) :
    Agree limit rest p.now (s.poll limit rest p) (r.poll limit rest p) := by
  unfold Timer.poll Ideal.poll
  cases p.arrived with
  | some a => exact ⟨rfl, fun _ => ⟨rfl, Nat.le_refl p.now, by simp⟩⟩
  | none =>
    by_cases hrest : r.value = rest
    · -- expired or not, the value rests
      constructor
      · split_ifs <;> simp [h.value, hrest]
      · split_ifs <;> simp [hrest]
    · obtain ⟨hlast, hbefore, hage⟩ := h.last hrest
      have helapsed : (BitVec.ofNat w p.now - s.last).toNat = p.now - r.last := by
        rw [hlast]
        exact toNat_ofNat_sub (by omega) (by omega)
      simp only [helapsed]
      split_ifs with hlate
      · exact ⟨rfl, fun hne => absurd rfl hne⟩
      · exact ⟨h.value, fun _ => ⟨hlast, by omega, by omega⟩⟩

end Watchdog
