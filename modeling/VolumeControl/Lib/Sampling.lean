import Mathlib.Algebra.Order.Archimedean.Basic
import Mathlib.Data.List.Range
import Mathlib.Tactic.Linarith
import Mathlib.Tactic.Ring

/-!
# Sampling a line at times that jitter

A `Wave` is what a line does: levels, each with how long it lasts. `Sampler` is
a sequence of times with consecutive ones between `gmin` and `gmax` apart, at
which the line is read. `first x` is the first sample at or after the time `x`.

A level that lasts `n * gmax` or more is seen by `n` samples (`first_add_le`),
one that lasts `n * gmin` or less by no more than `n` (`first_le_add`), wherever
the samples fall. `samples_cons` cuts the samples of a wave at its first edge.
-/

variable {K : Type*} [Field K]

abbrev Wave (K : Type*) := List (Bool × K)

namespace Wave

/-- When a wave that starts at `x` is over. -/
def stop (x : K) : Wave K → K
  | [] => x
  | (_, d) :: w => stop (x + d) w

theorem stop_append (x : K) (w w' : Wave K) : stop x (w ++ w') = stop (stop x w) w' := by
  induction w generalizing x with
  | nil => rfl
  | cons p w ih => exact ih (x + p.2)

variable [LinearOrder K]

/-- The level at the time `y` of a wave that starts at `x`, high when it is over. -/
def level (x : K) : Wave K → K → Bool
  | [], _ => true
  | (v, d) :: w, y => if y < x + d then v else level (x + d) w y

variable [IsStrictOrderedRing K]

theorem le_stop {w : Wave K} (hw : ∀ p ∈ w, 0 ≤ p.2) (x : K) : x ≤ stop x w := by
  induction w generalizing x with
  | nil => exact le_rfl
  | cons p w ih =>
    have hp := hw p List.mem_cons_self
    have := ih (fun q hq => hw q (List.mem_cons_of_mem _ hq)) (x + p.2)
    exact le_trans (by linarith) this

end Wave

variable [LinearOrder K]

/-- Times of samples that are `gmin` to `gmax` apart. -/
structure Sampler (K : Type*) [Field K] [LinearOrder K] where
  time : ℕ → K
  gmin : K
  gmax : K
  pos : 0 < gmin
  le_gap : ∀ i, time i + gmin ≤ time (i + 1)
  gap_le : ∀ i, time (i + 1) ≤ time i + gmax

namespace Sampler

variable (S : Sampler K)

/-- The samples from `a` on, before `b`. -/
def samples (line : K → Bool) (a b : ℕ) : List Bool :=
  (List.range' a (b - a)).map fun i => line (S.time i)

theorem samples_append (line : K → Bool) {a b c : ℕ} (hab : a ≤ b) (hbc : b ≤ c) :
    S.samples line a b ++ S.samples line b c = S.samples line a c := by
  obtain ⟨m, rfl⟩ := Nat.exists_eq_add_of_le hab
  obtain ⟨n, rfl⟩ := Nat.exists_eq_add_of_le hbc
  rw [samples, samples, samples, ← List.map_append, Nat.add_sub_cancel_left,
    Nat.add_sub_cancel_left, Nat.add_assoc a m n, Nat.add_sub_cancel_left]
  exact congrArg _ List.range'_append_1

theorem samples_congr {line line' : K → Bool} {a b : ℕ}
    (h : ∀ i, a ≤ i → i < b → line (S.time i) = line' (S.time i)) :
    S.samples line a b = S.samples line' a b := by
  refine List.map_congr_left fun i hi => ?_
  obtain ⟨hle, hlt⟩ := List.mem_range'_1.1 hi
  exact h i hle (by omega)

theorem samples_const {line : K → Bool} {v : Bool} {a b : ℕ}
    (h : ∀ i, a ≤ i → i < b → line (S.time i) = v) :
    S.samples line a b = List.replicate (b - a) v := by
  have hcongr : S.samples line a b = S.samples (fun _ => v) a b := S.samples_congr h
  rw [hcongr]
  simp [samples]

variable [IsStrictOrderedRing K]

theorem gmax_pos : 0 < S.gmax := by
  have hle := S.le_gap 0
  have hge := S.gap_le 0
  have := S.pos
  linarith

theorem add_le_time (i n : ℕ) : S.time i + n * S.gmin ≤ S.time (i + n) := by
  induction n with
  | zero => simp
  | succ n ih =>
    have := S.le_gap (i + n)
    rw [← Nat.add_assoc]
    push_cast
    linarith

theorem time_le_add (i n : ℕ) : S.time (i + n) ≤ S.time i + n * S.gmax := by
  induction n with
  | zero => simp
  | succ n ih =>
    have := S.gap_le (i + n)
    rw [← Nat.add_assoc]
    push_cast
    linarith

theorem time_mono {i j : ℕ} (h : i ≤ j) : S.time i ≤ S.time j := by
  obtain ⟨n, rfl⟩ := Nat.exists_eq_add_of_le h
  have hle := S.add_le_time i n
  have hn : (0 : K) ≤ n := Nat.cast_nonneg n
  have hpos := mul_nonneg hn S.pos.le
  linarith

variable [Archimedean K]

theorem exists_time_ge (x : K) : ∃ i, x ≤ S.time i := by
  obtain ⟨n, hn⟩ := Archimedean.arch (x - S.time 0) S.pos
  refine ⟨n, ?_⟩
  have hle := S.add_le_time 0 n
  rw [nsmul_eq_mul] at hn
  rw [Nat.zero_add] at hle
  linarith

/-- The first sample at or after `x`. -/
def first (x : K) : ℕ := Nat.find (S.exists_time_ge x)

theorem lt_first_iff {i : ℕ} {x : K} : i < S.first x ↔ S.time i < x := by
  constructor
  · intro h
    exact not_le.1 (Nat.find_min (S.exists_time_ge x) h)
  · intro h
    by_contra hle
    have hspec : x ≤ S.time (S.first x) := Nat.find_spec (S.exists_time_ge x)
    have := S.time_mono (not_lt.1 hle)
    linarith

theorem first_le_iff {i : ℕ} {x : K} : S.first x ≤ i ↔ x ≤ S.time i := by
  rw [← not_lt, ← not_lt, S.lt_first_iff]

theorem first_mono {x y : K} (h : x ≤ y) : S.first x ≤ S.first y :=
  S.first_le_iff.2 (h.trans (S.first_le_iff.1 le_rfl))

/-- A level of `n * gmax` or more is seen `n` times. -/
theorem first_add_le {x d : K} {n : ℕ} (hx : 0 < S.first x) (hd : n * S.gmax ≤ d) :
    S.first x + n ≤ S.first (x + d) := by
  obtain ⟨i, hi⟩ : ∃ i, S.first x = i + 1 := ⟨S.first x - 1, by omega⟩
  have hlt : S.time i < x := S.lt_first_iff.1 (by omega)
  have hle := S.time_le_add i n
  have : i + n < S.first (x + d) := S.lt_first_iff.2 (by linarith)
  omega

/-- A level of `n * gmin` or less is seen `n` times at most. -/
theorem first_le_add {x d : K} {n : ℕ} (hd : d ≤ n * S.gmin) :
    S.first (x + d) ≤ S.first x + n := by
  have hx : x ≤ S.time (S.first x) := S.first_le_iff.1 le_rfl
  have hle := S.add_le_time (S.first x) n
  exact S.first_le_iff.2 (by linarith)

/-- **The samples of a wave**: its first level, as often as it is seen, and the rest of it. -/
theorem samples_cons {x : K} {v : Bool} {d : K} (hd : 0 ≤ d) (w : Wave K) {b : ℕ}
    (hb : S.first (x + d) ≤ b) :
    S.samples (Wave.level x ((v, d) :: w)) (S.first x) b =
      List.replicate (S.first (x + d) - S.first x) v ++
        S.samples (Wave.level (x + d) w) (S.first (x + d)) b := by
  rw [← S.samples_append _ (S.first_mono (show x ≤ x + d by linarith)) hb]
  congr 1
  · exact S.samples_const fun i _ hi => if_pos (S.lt_first_iff.1 hi)
  · exact S.samples_congr fun i hi _ => if_neg (not_lt.2 (S.first_le_iff.1 hi))

/-! ## Samplers from lists -/

section OfTimes

variable {K : Type*} [Field K] {l : List K} {hne : l ≠ []} {gmin gmax : K}

/-- The times `l`, and from the last of them on every `gmax`. -/
def timesFrom (l : List K) (hne : l ≠ []) (gmax : K) (i : ℕ) : K :=
  l.getD i (l.getLast hne + (i + 1 - l.length : ℕ) * gmax)

theorem timesFrom_of_lt {i : ℕ} (h : i < l.length) : timesFrom l hne gmax i = l[i] := by
  simp [timesFrom, h]

theorem timesFrom_length : timesFrom l hne gmax l.length = l.getLast hne + gmax := by
  simp [timesFrom]

variable [LinearOrder K] [IsStrictOrderedRing K]

theorem timesFrom_gap (hle : gmin ≤ gmax)
    (h : l.IsChain fun a b => a + gmin ≤ b ∧ b ≤ a + gmax) (i : ℕ) :
    timesFrom l hne gmax i + gmin ≤ timesFrom l hne gmax (i + 1) ∧
      timesFrom l hne gmax (i + 1) ≤ timesFrom l hne gmax i + gmax := by
  rcases lt_trichotomy (i + 1) l.length with hi | hi | hi
  · rw [timesFrom_of_lt hi, timesFrom_of_lt (by omega)]
    exact h.getElem i hi
  · have hlast : timesFrom l hne gmax i = l.getLast hne := by
      rw [timesFrom_of_lt (by omega), List.getLast_eq_getElem]
      congr 1
      omega
    rw [hlast, hi, timesFrom_length]
    exact ⟨by linarith, le_rfl⟩
  · have hstep : timesFrom l hne gmax (i + 1) = timesFrom l hne gmax i + gmax := by
      have hsub : i + 1 + 1 - l.length = i + 1 - l.length + 1 := by omega
      unfold timesFrom
      rw [List.getD_eq_getElem?_getD, List.getD_eq_getElem?_getD, List.getElem?_eq_none (by omega),
        List.getElem?_eq_none (by omega), Option.getD_none, Option.getD_none, hsub]
      push_cast
      ring
    rw [hstep]
    exact ⟨by linarith, le_rfl⟩

/-- The samples taken at the times `l`, and more after them. -/
def ofTimes (l : List K) (hne : l ≠ []) (hpos : 0 < gmin) (hle : gmin ≤ gmax)
    (h : l.IsChain fun a b => a + gmin ≤ b ∧ b ≤ a + gmax) : Sampler K where
  time := timesFrom l hne gmax
  gmin := gmin
  gmax := gmax
  pos := hpos
  le_gap i := (timesFrom_gap hle h i).1
  gap_le i := (timesFrom_gap hle h i).2

variable [Archimedean K]

/-- The samples before `x` are those taken at the times of `l` before `x`. -/
theorem samples_ofTimes {hpos : 0 < gmin} {hle : gmin ≤ gmax}
    {h : l.IsChain fun a b => a + gmin ≤ b ∧ b ≤ a + gmax} (line : K → Bool) {x : K}
    (hx : x ≤ l.getLast hne + gmax) :
    (ofTimes l hne hpos hle h).samples line 0 ((ofTimes l hne hpos hle h).first x) =
      (l.filter (· < x)).map line := by
  generalize hS : ofTimes l hne hpos hle h = S
  have htime : S.time = timesFrom l hne gmax := by rw [← hS, ofTimes]
  have hlen : S.first x ≤ l.length := S.first_le_iff.2 (by rwa [htime, timesFrom_length])
  have hfilter : l.filter (· < x) = l.take (S.first x) := by
    have hbefore (i : ℕ) (hi : i < l.length) : l[i] < x ↔ i < S.first x := by
      rw [S.lt_first_iff, htime, timesFrom_of_lt hi]
    conv_lhs => rw [← List.take_append_drop (S.first x) l]
    rw [List.filter_append, List.filter_eq_self.2, List.filter_eq_nil_iff.2, List.append_nil]
    · intro a ha
      obtain ⟨i, hi, rfl⟩ := List.mem_iff_getElem.1 ha
      rw [List.length_drop] at hi
      simp only [List.getElem_drop, hbefore _ (by omega : S.first x + i < l.length)]
      simp
    · intro a ha
      obtain ⟨i, hi, rfl⟩ := List.mem_iff_getElem.1 ha
      rw [List.length_take] at hi
      simp only [List.getElem_take, hbefore _ (by omega : i < l.length)]
      simpa using by omega
  rw [hfilter, samples, Nat.sub_zero]
  refine List.ext_getElem (by simp [hlen]) fun i hi _ => ?_
  rw [List.length_map, List.length_range'] at hi
  simp [htime, timesFrom_of_lt (show i < l.length by omega)]

end OfTimes

end Sampler
