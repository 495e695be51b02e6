import Mathlib

/-!
# Pairing heaps

What a pairing heap holds (`elems`) and how it is ordered (`Ordered`, by a key
of its elements), through `merge` and the two passes of `combine`. An element is
taken from the middle of a heap in two parts: `erase` is the heap without the
element and all that is under it, `under` the heaps under it (`elems_erase`);
`remove` merges the two.
-/

namespace Batteries.PairingHeapImp.Heap

variable {α κ : Type*}

/-- The elements of a forest. -/
def elems : Heap α → Multiset α
  | nil => 0
  | node a c s => a ::ₘ (c.elems + s.elems)

@[simp] theorem elems_nil : (nil : Heap α).elems = 0 := rfl

@[simp] theorem elems_node (a : α) (c s : Heap α) :
    (node a c s).elems = a ::ₘ (c.elems + s.elems) := rfl

/-- The roots of a forest, in order. -/
def tops : Heap α → List α
  | nil => []
  | node a _ s => a :: s.tops

@[simp] theorem tops_nil : (nil : Heap α).tops = [] := rfl

@[simp] theorem tops_node (a : α) (c s : Heap α) : (node a c s).tops = a :: s.tops := rfl

@[simp] theorem headD_nil (x : α) : (nil : Heap α).headD x = x := rfl

@[simp] theorem headD_node (x a : α) (c s : Heap α) : (node a c s).headD x = a := rfl

theorem mem_elems_of_mem_tops {x : α} {h : Heap α} (hx : x ∈ h.tops) : x ∈ h.elems := by
  induction h with
  | nil => simp at hx
  | node a c s _ ihs =>
    simp only [tops_node, List.mem_cons] at hx
    simp only [elems_node, Multiset.mem_cons, Multiset.mem_add]
    exact hx.imp_right fun hx => .inr (ihs hx)

theorem headD_mem_elems {x : α} {h : Heap α} (hne : h.headD x ≠ x) : h.headD x ∈ h.elems := by
  cases h with
  | nil => exact absurd rfl hne
  | node a c s => simp

/-- The roots of heaps that share no element differ. -/
theorem headD_ne_headD {x : α} {h h' : Heap α} (hd : Disjoint h.elems h'.elems)
    (hne : h.headD x ≠ x) : h.headD x ≠ h'.headD x := by
  intro heq
  refine Multiset.disjoint_left.1 hd (headD_mem_elems hne) ?_
  rw [heq] at hne ⊢
  exact headD_mem_elems hne

theorem card_elems (h : Heap α) : Multiset.card h.elems = h.size := by
  induction h with
  | nil => rfl
  | node a c s ihc ihs =>
    rw [elems_node, Multiset.card_cons, Multiset.card_add, ihc, ihs, size]
    omega

theorem elems_merge_node (lt : α → α → Bool) (a b : α) (c d s t : Heap α) :
    (merge lt (node a c s) (node b d t)).elems = a ::ₘ b ::ₘ (c.elems + d.elems) := by
  unfold merge
  dsimp only
  split
  · simp [add_comm]
  · simp [Multiset.cons_swap b a]

theorem elems_merge (lt : α → α → Bool) {h₁ h₂ : Heap α} (n₁ : h₁.NoSibling) (n₂ : h₂.NoSibling) :
    (merge lt h₁ h₂).elems = h₁.elems + h₂.elems := by
  cases n₁ with
  | nil => cases n₂ <;> simp [merge]
  | node a c =>
    cases n₂ with
    | nil => simp [merge]
    | node b d =>
      rw [elems_merge_node]
      simp [Multiset.cons_add, Multiset.add_cons, Multiset.cons_swap b a]

theorem elems_combine (lt : α → α → Bool) (h : Heap α) : (combine lt h).elems = h.elems := by
  unfold combine
  split
  · rename_i a c b d s
    rw [elems_merge lt (noSibling_merge lt _ _) (noSibling_combine lt s), elems_merge_node,
      elems_combine lt s]
    simp only [elems_node, Multiset.cons_add, Multiset.add_cons, add_assoc]
  · rfl

/-! ## Order -/

section Ordered

variable [LinearOrder κ] {key : α → κ}

/-- Comes before by its key. -/
def before (key : α → κ) (a b : α) : Bool := decide (key a < key b)

/-- No element of a forest comes before one it is under. -/
def Ordered (key : α → κ) : Heap α → Prop
  | nil => True
  | node a c s => (∀ b ∈ c.elems, key a ≤ key b) ∧ c.Ordered key ∧ s.Ordered key

theorem Ordered.congr {key' : α → κ} {h : Heap α} (ho : h.Ordered key)
    (heq : ∀ a ∈ h.elems, key' a = key a) : h.Ordered key' := by
  induction h with
  | nil => trivial
  | node a c s ihc ihs =>
    obtain ⟨hle, hc, hs⟩ := ho
    simp only [elems_node, Multiset.mem_cons, Multiset.mem_add] at heq
    refine ⟨fun b hb => ?_, ihc hc fun b hb => heq b (.inr (.inl hb)),
      ihs hs fun b hb => heq b (.inr (.inr hb))⟩
    rw [heq a (.inl rfl), heq b (.inr (.inl hb))]
    exact hle b hb

/-- Under the lower of two roots comes all of both heaps. -/
theorem Ordered.link {a b : α} {c d : Heap α} (hle : key a ≤ key b)
    (hc : (node a c nil).Ordered key) (hd : (node b d nil).Ordered key) :
    (node a (node b d c) nil).Ordered key := by
  refine ⟨fun x hx => ?_, ⟨hd.1, hd.2.1, hc.2.1⟩, trivial⟩
  simp only [elems_node, Multiset.mem_cons, Multiset.mem_add] at hx
  rcases hx with rfl | hx | hx
  · exact hle
  · exact hle.trans (hd.1 x hx)
  · exact hc.1 x hx

theorem Ordered.merge_node {a b : α} {c d s t : Heap α} (hc : (node a c nil).Ordered key)
    (hd : (node b d nil).Ordered key) :
    (merge (before key) (node a c s) (node b d t)).Ordered key := by
  by_cases hlt : key a < key b
  · simpa [merge, before, hlt] using hc.link hlt.le hd
  · simpa [merge, before, hlt] using hd.link (not_lt.1 hlt) hc

theorem Ordered.head {a : α} {c s : Heap α} (h : (node a c s).Ordered key) :
    (node a c nil).Ordered key := ⟨h.1, h.2.1, trivial⟩

theorem Ordered.merge {h₁ h₂ : Heap α} (o₁ : h₁.Ordered key) (o₂ : h₂.Ordered key) :
    (merge (before key) h₁ h₂).Ordered key := by
  cases h₁ with
  | nil =>
    cases h₂ with
    | nil => trivial
    | node b d t => exact o₂.head
  | node a c s =>
    cases h₂ with
    | nil => exact o₁.head
    | node b d t => exact o₁.head.merge_node o₂.head

theorem Ordered.combine {h : Heap α} (ho : h.Ordered key) :
    (combine (before key) h).Ordered key := by
  unfold Heap.combine
  split
  · rename_i a c b d s
    obtain ⟨hlea, hc, hleb, hd, hs⟩ := ho
    exact Ordered.merge (Ordered.merge_node ⟨hlea, hc, trivial⟩ ⟨hleb, hd, trivial⟩)
      (Ordered.combine hs)
  · exact ho

/-- **The root of a heap comes first.** -/
theorem Ordered.root_le {a : α} {c : Heap α} (h : (node a c nil).Ordered key) :
    ∀ b ∈ (node a c nil).elems, key a ≤ key b := by
  intro b hb
  simp only [elems_node, elems_nil, add_zero, Multiset.mem_cons] at hb
  rcases hb with rfl | hb
  · exact le_refl _
  · exact h.1 b hb

end Ordered

/-! ## Any element -/

section Erase

variable [DecidableEq α]

/-- The forest without `x` and what is under it. -/
def erase (x : α) : Heap α → Heap α
  | nil => nil
  | node a c s => if a = x then s else node a (c.erase x) (s.erase x)

/-- What is under `x`. -/
def under (x : α) : Heap α → Heap α
  | nil => nil
  | node a c s => if a = x then c else if x ∈ c.elems then c.under x else s.under x

theorem erase_of_notMem {x : α} {h : Heap α} (hx : x ∉ h.elems) : h.erase x = h := by
  induction h with
  | nil => rfl
  | node a c s ihc ihs =>
    simp only [elems_node, Multiset.mem_cons, Multiset.mem_add, not_or] at hx
    rw [erase, if_neg (Ne.symm hx.1), ihc hx.2.1, ihs hx.2.2]

/-- **An element, what is under it, and the rest.** -/
theorem elems_erase {x : α} {h : Heap α} (hn : h.elems.Nodup) (hx : x ∈ h.elems) :
    x ::ₘ ((h.under x).elems + (h.erase x).elems) = h.elems := by
  induction h with
  | nil => simp at hx
  | node a c s ihc ihs =>
    rw [elems_node, Multiset.nodup_cons, Multiset.nodup_add] at hn
    obtain ⟨ha, hc, hs, hdisj⟩ := hn
    by_cases hax : a = x
    · subst hax
      simp only [under, erase, if_true, elems_node]
    · simp only [elems_node, Multiset.mem_cons, Multiset.mem_add] at hx
      by_cases hxc : x ∈ c.elems
      · have hxs : x ∉ s.elems := Multiset.disjoint_left.1 hdisj hxc
        simp only [under, erase, if_neg hax, if_pos hxc, elems_node, erase_of_notMem hxs]
        rw [Multiset.add_cons, Multiset.cons_swap, ← add_assoc, ← Multiset.cons_add, ihc hc hxc]
      · have hxs : x ∈ s.elems := (hx.resolve_left (Ne.symm hax)).resolve_left hxc
        simp only [under, erase, if_neg hax, if_neg hxc, elems_node, erase_of_notMem hxc]
        rw [Multiset.add_cons, Multiset.cons_swap, add_left_comm, ← Multiset.add_cons, ihs hs hxs]

theorem mem_of_mem_erase {x y : α} {h : Heap α} (hy : y ∈ (h.erase x).elems) : y ∈ h.elems := by
  induction h with
  | nil => simp [erase] at hy
  | node a c s ihc ihs =>
    unfold erase at hy
    split at hy
    · simp [hy]
    · simp only [elems_node, Multiset.mem_cons, Multiset.mem_add] at hy ⊢
      exact hy.imp_right (Or.imp ihc ihs)

theorem mem_tops_of_mem_erase {x y : α} {h : Heap α} (hy : y ∈ (h.erase x).tops) : y ∈ h.tops := by
  induction h with
  | nil => simp [erase] at hy
  | node a c s _ ihs =>
    unfold erase at hy
    split at hy
    · exact List.mem_cons_of_mem _ hy
    · simp only [tops_node, List.mem_cons] at hy ⊢
      exact hy.imp_right ihs

theorem headD_erase {x y : α} {h : Heap α} (hx : h.headD y ≠ x) :
    (h.erase x).headD y = h.headD y := by
  cases h with
  | nil => rfl
  | node a c s =>
    unfold erase
    rw [if_neg (show a ≠ x from hx)]
    rfl

theorem erase_node_of_notMem {x a : α} {c s : Heap α} (hxa : x ≠ a) (hc : x ∉ c.elems) :
    (node a c s).erase x = node a c (s.erase x) := by
  rw [erase, if_neg (Ne.symm hxa), erase_of_notMem hc]

/-- The heap without one element: what was under it is merged with the rest. -/
def remove (lt : α → α → Bool) (x : α) : Heap α → Heap α
  | nil => nil
  | node r c s =>
    if x = r then combine lt c
    else merge lt ((node r c s).erase x) (combine lt ((node r c s).under x))

theorem noSibling_erase {x : α} {h : Heap α} (hn : h.NoSibling) : (h.erase x).NoSibling := by
  cases hn with
  | nil => exact .nil
  | node a c =>
    unfold erase
    split
    · exact .nil
    · exact .node _ _

theorem elems_remove (lt : α → α → Bool) {x : α} {h : Heap α} (hn : h.elems.Nodup)
    (hx : x ∈ h.elems) (hs : h.NoSibling) : x ::ₘ (h.remove lt x).elems = h.elems := by
  cases hs with
  | nil => simp at hx
  | node r c =>
    rw [remove]
    split
    · rename_i hr
      rw [elems_combine, hr]
      simp
    · rw [elems_merge lt (noSibling_erase (.node r c)) (noSibling_combine lt _), elems_combine,
        add_comm]
      exact elems_erase hn hx

variable [LinearOrder κ] {key : α → κ}

theorem Ordered.erase {h : Heap α} (ho : h.Ordered key) (x : α) : (h.erase x).Ordered key := by
  induction h with
  | nil => trivial
  | node a c s ihc ihs =>
    obtain ⟨hle, hc, hs⟩ := ho
    unfold Heap.erase
    split
    · exact hs
    · exact ⟨fun b hb => hle b (mem_of_mem_erase hb), ihc hc, ihs hs⟩

theorem Ordered.under {h : Heap α} (ho : h.Ordered key) (x : α) : (h.under x).Ordered key := by
  induction h with
  | nil => trivial
  | node a c s ihc ihs =>
    obtain ⟨-, hc, hs⟩ := ho
    unfold Heap.under
    split
    · exact hc
    · split
      · exact ihc hc
      · exact ihs hs

theorem Ordered.remove {h : Heap α} (ho : h.Ordered key) (x : α) :
    (h.remove (before key) x).Ordered key := by
  cases h with
  | nil => trivial
  | node r c s =>
    rw [Heap.remove]
    split
    · exact ho.2.1.combine
    · exact (ho.erase x).merge (ho.under x).combine

end Erase

end Batteries.PairingHeapImp.Heap
