import Mathlib.Algebra.Order.Ring.Nat
import Mathlib.Data.List.DropRight

/-!
# Bursts

A sequence of (mark, count) pairs. A burst is a maximal run of consecutive
marked entries. `OncePerBurst` says that the counts of every burst add up to
one; `FirstOnly` says it step by step: the first entry of a burst counts one,
the others nothing. A sequence all of whose prefixes count once per burst is
one that counts at the first entry only (`forall_prefix_oncePerBurst_iff`).
-/

namespace Burst

/-- The counts of every maximal run of marked entries add up to one. -/
def OncePerBurst (l : List (Bool × Nat)) : Prop :=
  ∀ xs b ys, l = xs ++ b ++ ys → b ≠ [] → (∀ e ∈ b, e.1 = true) →
    (∀ e ∈ xs.getLast?, e.1 = false) → (∀ e ∈ ys.head?, e.1 = false) → (b.map Prod.snd).sum = 1

/-- Marked entries count one after an unmarked entry (`prev` before the first) and nothing after
a marked one. -/
def FirstOnly : Bool → List (Bool × Nat) → Prop
  | _, [] => True
  | prev, (m, n) :: l => (m = true → n = if prev then 0 else 1) ∧ FirstOnly m l

/-- The mark of the last entry, `prev` if there is none. -/
def lastMark (prev : Bool) (l : List (Bool × Nat)) : Bool := (l.getLast?.map Prod.fst).getD prev

theorem lastMark_cons (prev : Bool) (e : Bool × Nat) (l : List (Bool × Nat)) :
    lastMark prev (e :: l) = lastMark e.1 l := by
  cases l with
  | nil => rfl
  | cons e' l => simp [lastMark, List.getLast?_eq_some_getLast]

/-- After a sequence that does not end in a mark the next mark is a first one. -/
theorem lastMark_eq_false {l : List (Bool × Nat)} (h : ∀ e ∈ l.getLast?, e.1 = false) :
    lastMark false l = false := by
  cases hg : l.getLast? with
  | none => simp [lastMark, hg]
  | some e => simp [lastMark, hg, h e (by simp [hg])]

theorem firstOnly_append {prev : Bool} {l l' : List (Bool × Nat)} :
    FirstOnly prev (l ++ l') ↔ FirstOnly prev l ∧ FirstOnly (lastMark prev l) l' := by
  induction l generalizing prev with
  | nil => simp [FirstOnly, lastMark]
  | cons e l ih => simp [FirstOnly, ih, lastMark_cons, and_assoc]

/-- Inside a burst nothing is counted. -/
theorem FirstOnly.sum_eq_zero {b : List (Bool × Nat)} (h : FirstOnly true b)
    (hb : ∀ e ∈ b, e.1 = true) : (b.map Prod.snd).sum = 0 := by
  induction b with
  | nil => rfl
  | cons e b ih =>
    obtain ⟨m, n⟩ := e
    obtain rfl : m = true := hb (m, n) (by simp)
    have hn : n = 0 := h.1 rfl
    simp [hn, ih h.2 fun e he => hb e (List.mem_cons_of_mem _ he)]

theorem FirstOnly.oncePerBurst {l : List (Bool × Nat)} (h : FirstOnly false l) : OncePerBurst l := by
  rintro xs b ys rfl hne hb hx -
  obtain ⟨⟨hxs, hfb⟩, -⟩ := (firstOnly_append.1 h).imp_left firstOnly_append.1
  rw [lastMark_eq_false hx] at hfb
  obtain ⟨⟨m, n⟩, b, rfl⟩ := List.exists_cons_of_ne_nil hne
  obtain rfl : m = true := hb (m, n) (by simp)
  have hn : n = 1 := hfb.1 rfl
  simp [hn, hfb.2.sum_eq_zero fun e he => hb e (List.mem_cons_of_mem _ he)]

/-- The burst a sequence ends with. -/
theorem exists_last_burst (l : List (Bool × Nat)) :
    ∃ xs b, l = xs ++ b ∧ (∀ e ∈ b, e.1 = true) ∧ (∀ e ∈ xs.getLast?, e.1 = false) := by
  refine ⟨l.rdropWhile Prod.fst, l.rtakeWhile Prod.fst, (List.rdropWhile_append_rtakeWhile ..).symm, ?_, ?_⟩
  · exact fun e he => List.mem_rtakeWhile_imp he
  · intro e he
    have hne : l.rdropWhile Prod.fst ≠ [] := by
      intro h
      simp [h] at he
    have := List.rdropWhile_last_not Prod.fst l hne
    rw [List.getLast?_eq_some_getLast hne, Option.mem_some_iff] at he
    simpa [he] using this

/-- **Counting once per burst, at every moment, is counting at its first entry only.** -/
theorem forall_prefix_oncePerBurst_iff {l : List (Bool × Nat)} :
    (∀ p, p <+: l → OncePerBurst p) ↔ FirstOnly false l := by
  constructor
  · intro h
    induction l using List.reverseRecOn with
    | nil => trivial
    | append_singleton l e ih =>
      obtain ⟨m, n⟩ := e
      refine firstOnly_append.2 ⟨ih fun p hp => h p (hp.trans (List.prefix_append ..)), ?_, trivial⟩
      rintro rfl
      obtain ⟨xs, b, rfl, hb, hx⟩ := exists_last_burst l
      have hend := h _ List.prefix_rfl xs (b ++ [(true, n)]) [] (by simp) (by simp)
        (by simpa [or_imp, forall_and] using hb) hx (by simp)
      rcases List.eq_nil_or_concat' b with rfl | ⟨b', e, rfl⟩
      · simpa [lastMark_eq_false hx] using hend
      · have hbefore := h _ (List.prefix_append ..) xs (b' ++ [e]) [] (by simp)
          (by simp) hb hx (by simp)
        have : lastMark false (xs ++ (b' ++ [e])) = true := by
          simp [lastMark, ← List.append_assoc, hb e (by simp)]
        rw [List.map_append, List.sum_append, hbefore] at hend
        simp only [this, if_true]
        simpa using hend
  · intro h p hp
    obtain ⟨q, rfl⟩ := hp
    exact (firstOnly_append.1 h).1.oncePerBurst

end Burst
