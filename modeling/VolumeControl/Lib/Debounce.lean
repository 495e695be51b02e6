import Mathlib.Algebra.Order.Ring.Nat
import Mathlib.Data.List.Chain
import VolumeControl.Lib.Run

/-!
# Debouncing

A level that follows its samples, but not within `timeout` of its last change;
times are on a clock of `w` bits. `changes` are the samples that change it.
While the times do not decrease the clock does not wrap, and the changes are
more than `timeout` apart.
-/

namespace Debounce

open Trace

variable {w : Nat} {timeout : BitVec w}

structure Sample (w : Nat) where
  time : BitVec w
  level : Bool
  deriving DecidableEq, Repr

/-- The level, and the time of its last change. -/
structure Key (w : Nat) where
  level : Bool
  last : BitVec w
  deriving DecidableEq, Repr

def Key.start : Key w := ⟨false, 0⟩

theorem last_start_le (t : BitVec w) : Key.start.last ≤ t := by
  simp [Key.start, BitVec.le_def]

def Accepts (timeout : BitVec w) (k : Key w) (i : Sample w) : Prop :=
  i.level ≠ k.level ∧ i.time - k.last > timeout

instance (k : Key w) (i : Sample w) : Decidable (Accepts timeout k i) :=
  inferInstanceAs (Decidable (_ ∧ _))

def step (timeout : BitVec w) (k : Key w) (i : Sample w) : Key w :=
  if Accepts timeout k i then ⟨i.level, i.time⟩ else k

def accepted (timeout : BitVec w) (k : Key w) (i : Sample w) : List (Sample w) :=
  if Accepts timeout k i then [i] else []

def changes (timeout : BitVec w) (k : Key w) (is : List (Sample w)) : List (Sample w) :=
  (outputs (step timeout) (accepted timeout) k is).flatten

variable {k : Key w} {i : Sample w} {is : List (Sample w)}

theorem changes_cons : changes timeout k (i :: is) =
    accepted timeout k i ++ changes timeout (step timeout k i) is := rfl

theorem changes_append (is js : List (Sample w)) : changes timeout k (is ++ js) =
    changes timeout k is ++ changes timeout (run (step timeout) k is) js := by
  rw [changes, outputs_append, List.flatten_append]
  rfl

/-- The changes alternate. -/
theorem alternate_changes (k : Key w) (is : List (Sample w)) :
    (k.level :: (changes timeout k is).map (·.level)).IsChain (· ≠ ·) := by
  induction is generalizing k with
  | nil => exact List.isChain_singleton _
  | cons i is ih =>
    rw [changes_cons]
    by_cases h : Accepts timeout k i
    · simp only [accepted, step, if_pos h, List.singleton_append, List.map_cons]
      exact List.isChain_cons_cons.2 ⟨h.1.symm, ih ⟨i.level, i.time⟩⟩
    · simp only [accepted, step, if_neg h]
      exact ih k

/-- An alternating list is told by its first element. -/
theorem getElem?_of_alternate {b b' : Bool} {l : List Bool} {n : Nat}
    (h : (b :: l).IsChain (· ≠ ·)) (hn : l[n]? = some b') : b' = if n % 2 = 0 then !b else b := by
  induction l generalizing b n with
  | nil => simp at hn
  | cons b₁ l ih =>
    obtain ⟨hne, hl⟩ := List.isChain_cons_cons.1 h
    have hb₁ : b₁ = !b := by cases b <;> cases b₁ <;> simp_all
    cases n with
    | zero => simpa [hb₁] using hn.symm
    | succ n =>
      rw [ih hl hn, hb₁, Bool.not_not]
      rcases Nat.mod_two_eq_zero_or_one n with h2 | h2
      · rw [if_pos h2, if_neg (by omega)]
      · rw [if_neg (by omega), if_pos (by omega)]

theorem level_of_getElem? {n : Nat} (hn : (changes timeout k is)[n]? = some i) :
    i.level = if n % 2 = 0 then !k.level else k.level :=
  getElem?_of_alternate (alternate_changes k is) (by rw [List.getElem?_map, hn]; rfl)

/-- The time kept is that of the last change. -/
theorem last_run (k : Key w) (is : List (Sample w)) : (run (step timeout) k is).last =
    ((changes timeout k is).getLast?.map (·.time)).getD k.last := by
  induction is generalizing k with
  | nil => rfl
  | cons i is ih =>
    rw [run_cons, changes_cons, ih]
    by_cases h : Accepts timeout k i
    · simp only [accepted, step, if_pos h, List.singleton_append, List.getLast?_cons]
      cases (changes timeout ⟨i.level, i.time⟩ is).getLast? <;> rfl
    · simp only [accepted, step, if_neg h, List.nil_append]

/-! ## Times that do not decrease -/

theorem accepts_iff (hle : k.last ≤ i.time) : Accepts timeout k i ↔
    i.level ≠ k.level ∧ k.last.toNat + timeout.toNat < i.time.toNat := by
  rw [Accepts, gt_iff_lt, BitVec.lt_def, BitVec.toNat_sub_of_le hle, Nat.lt_sub_iff_add_lt,
    Nat.add_comm]

/-- No change is later than the last sample. -/
theorem last_run_le {t : BitVec w} (hk : k.last ≤ t) (his : ∀ i ∈ is, i.time ≤ t) :
    (run (step timeout) k is).last ≤ t := by
  induction is generalizing k with
  | nil => exact hk
  | cons i is ih =>
    refine ih ?_ fun j hj => his j (List.mem_cons_of_mem _ hj)
    unfold step
    split_ifs
    · exact his i List.mem_cons_self
    · exact hk

/-- After a sample the level is the one sampled, or the last change is recent. -/
theorem step_settled (hle : k.last ≤ i.time) : (step timeout k i).level = i.level ∨
    i.time.toNat ≤ (step timeout k i).last.toNat + timeout.toNat := by
  unfold step
  split_ifs with h
  · exact .inl rfl
  · rw [accepts_iff hle] at h
    by_cases hlevel : i.level = k.level
    · exact .inl hlevel.symm
    · exact .inr (Nat.le_of_not_lt fun hlt => h ⟨hlevel, hlt⟩)

theorem run_settled (timeout : BitVec w) {k : Key w} (hk : k.last ≤ i.time)
    (his : ∀ j ∈ is, j.time ≤ i.time) : (run (step timeout) k (is ++ [i])).level = i.level ∨
      i.time.toNat ≤ (((changes timeout k (is ++ [i])).getLast?.map (·.time)).getD k.last).toNat +
        timeout.toNat := by
  rw [← last_run, run_snoc]
  exact step_settled (last_run_le hk his)

/-- The changes are more than `timeout` apart. -/
theorem spaced_changes (timeout : BitVec w) (k : Key w)
    (hle : (k.last :: is.map (·.time)).Pairwise (· ≤ ·)) :
    (k.last.toNat :: (changes timeout k is).map (·.time.toNat)).IsChain
      fun a b => a + timeout.toNat < b := by
  induction is generalizing k with
  | nil => exact List.isChain_singleton _
  | cons i is ih =>
    rw [List.map_cons, List.pairwise_cons] at hle
    obtain ⟨hfirst, hrest⟩ := hle
    rw [changes_cons]
    by_cases h : Accepts timeout k i
    · simp only [accepted, step, if_pos h, List.singleton_append, List.map_cons]
      have hgap := ((accepts_iff (hfirst i.time List.mem_cons_self)).1 h).2
      exact List.isChain_cons_cons.2 ⟨hgap, ih ⟨i.level, i.time⟩ hrest⟩
    · simp only [accepted, step, if_neg h]
      exact ih k (List.pairwise_cons.2 ⟨fun t ht => hfirst t (List.mem_cons_of_mem _ ht),
        (List.pairwise_cons.1 hrest).2⟩)

end Debounce
