import VolumeControl.Lib.PairingHeap
import VolumeControl.Time.Pheap

/-!
# The links of the heap

`Linked nodes h`: the nodes of the forest `h` are linked as it says. Merging two
heaps and the two passes over a list of siblings link the nodes as `merge` and
`combine` say and touch no others (`phMergeNodes_built`, `phMergeTwoPass_built`);
unlinking a node leaves the forest without it and what is under it
(`phUnlink_linked`).
-/

open Batteries.PairingHeapImp

namespace VolumeControl

/-- The nodes of the forest are linked as it says; the parents of its roots are left open. -/
def Linked (nodes : PheapNodes) : Heap Nat → Prop
  | .nil => True
  | .node a c s => a ≠ 0 ∧ (nodes a).child = c.headD 0 ∧ (nodes a).sibling = s.headD 0 ∧
      (∀ x ∈ c.tops, (nodes x).parent = a) ∧ Linked nodes c ∧ Linked nodes s

variable {lt : Nat → Nat → Bool} {nodes nodes' : PheapNodes} {a b : Nat} {c d s t h : Heap Nat}

theorem Linked.congr (hl : Linked nodes h) (heq : ∀ x ∈ h.elems, nodes' x = nodes x) :
    Linked nodes' h := by
  induction h with
  | nil => trivial
  | node a c s ihc ihs =>
    obtain ⟨ha, hchild, hsib, hpar, hc, hs⟩ := hl
    have heqa : nodes' a = nodes a := heq a (by simp)
    have heqc : ∀ x ∈ c.elems, nodes' x = nodes x := fun x hx => heq x (by simp [hx])
    have heqs : ∀ x ∈ s.elems, nodes' x = nodes x := fun x hx => heq x (by simp [hx])
    refine ⟨ha, by rw [heqa, hchild], by rw [heqa, hsib], fun x hx => ?_, ihc hc heqc, ihs hs heqs⟩
    rw [heqc x (Heap.mem_elems_of_mem_tops hx)]
    exact hpar x hx

/-- A root whose own node has changed in its sibling and parent only. -/
theorem Linked.cut (hl : Linked nodes (.node a c s)) (hchild : (nodes' a).child = (nodes a).child)
    (hsib : (nodes' a).sibling = 0) (heq : ∀ x ∈ c.elems, nodes' x = nodes x) :
    Linked nodes' (.node a c .nil) := by
  obtain ⟨ha, hc, -, hpar, hlc, -⟩ := hl
  refine ⟨ha, hchild.trans hc, hsib, fun x hx => ?_, hlc.congr heq, trivial⟩
  rw [heq x (Heap.mem_elems_of_mem_tops hx)]
  exact hpar x hx

theorem Linked.headD_eq_zero_iff (hl : Linked nodes h) : h.headD 0 = 0 ↔ h = .nil := by
  cases h with
  | nil => simp
  | node a c s => simpa using hl.1

theorem addChildNode_other {x : Nat} (hxa : x ≠ a) (hxb : x ≠ b) :
    phAddChildNode nodes a b x = nodes x := by
  unfold phAddChildNode
  split
  · rw [PheapNodes.setChild_other hxa, PheapNodes.setParent_other hxb]
  · rw [PheapNodes.setChild_other hxa, PheapNodes.setSibling_other hxb,
      PheapNodes.setParent_other hxb]

/-- `b` becomes the first child of `a`. -/
theorem linked_addChildNode (ha : Linked nodes (.node a c .nil))
    (hb : Linked nodes (.node b d .nil))
    (hn : (a ::ₘ b ::ₘ (c.elems + d.elems)).Nodup) :
    Linked (phAddChildNode nodes a b) (.node a (.node b d c) .nil) := by
  simp only [Multiset.nodup_cons, Multiset.mem_cons, Multiset.mem_add, not_or] at hn
  obtain ⟨⟨hab, hac, had⟩, ⟨hbc, hbd⟩, -⟩ := hn
  obtain ⟨ha0, hachild, hasib, hapar, hlc, -⟩ := ha
  obtain ⟨hb0, hbchild, hbsib, hbpar, hld, -⟩ := hb
  have hc : ∀ x ∈ c.elems, phAddChildNode nodes a b x = nodes x := fun x hx =>
    addChildNode_other (fun h => hac (h ▸ hx)) (fun h => hbc (h ▸ hx))
  have hd : ∀ x ∈ d.elems, phAddChildNode nodes a b x = nodes x := fun x hx =>
    addChildNode_other (fun h => had (h ▸ hx)) (fun h => hbd (h ▸ hx))
  have hfields : (phAddChildNode nodes a b a).child = b ∧ (phAddChildNode nodes a b a).sibling = 0 ∧
      (phAddChildNode nodes a b b).child = d.headD 0 ∧
      (phAddChildNode nodes a b b).sibling = c.headD 0 ∧
      (phAddChildNode nodes a b b).parent = a := by
    have hba : b ≠ a := Ne.symm hab
    by_cases h0 : (nodes a).child = 0
    · have hsib0 : (nodes a).sibling = 0 := hasib
      have hbsib0 : (nodes b).sibling = 0 := hbsib
      simp [phAddChildNode, h0, hba, hbchild, ← hachild, hsib0, hbsib0]
    · have hsib0 : (nodes a).sibling = 0 := hasib
      simp [phAddChildNode, h0, hab, hba, hbchild, ← hachild, hsib0]
  obtain ⟨h1, h2, h3, h4, h5⟩ := hfields
  refine ⟨ha0, h1, h2, fun x hx => ?_, ⟨hb0, h3, h4, fun x hx => ?_, hld.congr hd, hlc.congr hc⟩,
    trivial⟩
  · rw [Heap.tops_node, List.mem_cons] at hx
    rcases hx with rfl | hx
    · exact h5
    · rw [hc x (Heap.mem_elems_of_mem_tops hx)]
      exact hapar x hx
  · rw [hd x (Heap.mem_elems_of_mem_tops hx)]
    exact hbpar x hx

/-! ## Merging -/

/-- What has been built of some nodes. -/
structure Built (nodes : PheapNodes) (r : PheapNodes × Nat) (h : Heap Nat) : Prop where
  linked : Linked r.1 h
  root : r.2 = h.headD 0
  frame : ∀ x ∉ h.elems, r.1 x = nodes x

theorem phMergeNodes_built (lt : Nat → Nat → Bool) {h₁ h₂ : Heap Nat} (l₁ : Linked nodes h₁)
    (l₂ : Linked nodes h₂) (n₁ : h₁.NoSibling) (n₂ : h₂.NoSibling)
    (hn : (h₁.elems + h₂.elems).Nodup) :
    Built nodes (phMergeNodes lt nodes (h₁.headD 0) (h₂.headD 0)) (Heap.merge lt h₁ h₂) := by
  cases n₁ with
  | nil =>
    cases n₂ with
    | nil => exact ⟨trivial, rfl, fun _ _ => rfl⟩
    | node b d => exact ⟨l₂, rfl, fun _ _ => rfl⟩
  | node a c =>
    have ha0 : a ≠ 0 := l₁.1
    cases n₂ with
    | nil =>
      have hm : phMergeNodes lt nodes a 0 = (nodes, a) := by simp [phMergeNodes, ha0]
      simp only [Heap.headD_node, Heap.headD_nil, hm, Heap.merge]
      exact ⟨l₁, rfl, fun _ _ => rfl⟩
    | node b d =>
      have hb0 : b ≠ 0 := l₂.1
      have hn' : (a ::ₘ b ::ₘ (c.elems + d.elems)).Nodup := by
        simpa [Multiset.cons_swap b a] using hn
      have hswap : (b ::ₘ a ::ₘ (d.elems + c.elems)).Nodup := by
        rwa [Multiset.cons_swap, add_comm]
      have hframe : ∀ x ∉ (Heap.merge lt (.node a c .nil) (.node b d .nil)).elems,
          phAddChildNode nodes a b x = nodes x ∧ phAddChildNode nodes b a x = nodes x := by
        intro x hx
        rw [Heap.elems_merge_node] at hx
        simp only [Multiset.mem_cons, not_or] at hx
        exact ⟨addChildNode_other hx.1 hx.2.1, addChildNode_other hx.2.1 hx.1⟩
      cases hlt : lt a b with
      | true =>
        have hm : phMergeNodes lt nodes a b = (phAddChildNode nodes a b, a) := by
          simp [phMergeNodes, ha0, hb0, hlt]
        have ht : Heap.merge lt (.node a c .nil) (.node b d .nil) =
            .node a (.node b d c) .nil := by simp [Heap.merge, hlt]
        simp only [Heap.headD_node, hm]
        exact ⟨by rw [ht]; exact linked_addChildNode l₁ l₂ hn', by rw [ht]; rfl,
          fun x hx => (hframe x hx).1⟩
      | false =>
        have hm : phMergeNodes lt nodes a b = (phAddChildNode nodes b a, b) := by
          simp [phMergeNodes, ha0, hb0, hlt]
        have ht : Heap.merge lt (.node a c .nil) (.node b d .nil) =
            .node b (.node a c d) .nil := by simp [Heap.merge, hlt]
        simp only [Heap.headD_node, hm]
        exact ⟨by rw [ht]; exact linked_addChildNode l₂ l₁ hswap, by rw [ht]; rfl,
          fun x hx => (hframe x hx).2⟩

/-- The root that comes out of a merge has no parent if neither had one. -/
theorem phMergeNodes_orphan (lt : Nat → Nat → Bool) {nodes : PheapNodes} {a b : Nat}
    (hne : a ≠ b) (ha : (nodes a).parent = 0) (hb : (nodes b).parent = 0) :
    ((phMergeNodes lt nodes a b).1 (phMergeNodes lt nodes a b).2).parent = 0 := by
  have hadd : ∀ {a b : Nat}, a ≠ b → (phAddChildNode nodes a b a).parent = (nodes a).parent := by
    intro a b hne
    unfold phAddChildNode
    split <;> simp [hne]
  unfold phMergeNodes
  split
  · exact hb
  · split
    · exact ha
    · split
      · exact (hadd hne).trans ha
      · exact (hadd hne.symm).trans hb

/-- The first two heaps of a list of siblings and the rest. -/
theorem nodup_two (hn : (Heap.node a c (.node b d s)).elems.Nodup) :
    ((Heap.node a c .nil).elems + (Heap.node b d .nil).elems).Nodup ∧ s.elems.Nodup ∧
      Disjoint ((Heap.node a c .nil).elems + (Heap.node b d .nil).elems) s.elems := by
  have hsplit : (Heap.node a c (.node b d s)).elems =
      (Heap.node a c .nil).elems + (Heap.node b d .nil).elems + s.elems := by
    simp only [Heap.elems_node, Heap.elems_nil, add_zero, Multiset.cons_add, Multiset.add_cons,
      add_assoc]
    rw [Multiset.cons_swap]
  rw [hsplit, Multiset.nodup_add] at hn
  exact hn

theorem Linked.cutTwo (hl : Linked nodes (.node a c (.node b d s)))
    (hn : (Heap.node a c (.node b d s)).elems.Nodup) :
    Linked ((nodes.setSibling b 0).setSibling a 0) (.node a c .nil) ∧
      Linked ((nodes.setSibling b 0).setSibling a 0) (.node b d .nil) ∧
      Linked ((nodes.setSibling b 0).setSibling a 0) s := by
  simp only [Heap.elems_node, Multiset.nodup_cons, Multiset.mem_cons, Multiset.mem_add, not_or,
    Multiset.add_cons] at hn
  obtain ⟨⟨-, hac, had, has⟩, ⟨hbc, hbd, hbs⟩, -⟩ := hn
  have hother : ∀ x, x ≠ a → x ≠ b → ((nodes.setSibling b 0).setSibling a 0) x = nodes x :=
    fun x hxa hxb => by rw [PheapNodes.setSibling_other hxa, PheapNodes.setSibling_other hxb]
  refine ⟨hl.cut (by simp) (by simp) fun x hx => ?_,
    hl.2.2.2.2.2.cut (by simp) (by simp) fun x hx => ?_,
    hl.2.2.2.2.2.2.2.2.2.2.congr fun x hx => ?_⟩
  · exact hother x (fun h => hac (h ▸ hx)) (fun h => hbc (h ▸ hx))
  · exact hother x (fun h => had (h ▸ hx)) (fun h => hbd (h ▸ hx))
  · exact hother x (fun h => has (h ▸ hx)) (fun h => hbs (h ▸ hx))

/-- **The two passes over a list of siblings.** -/
theorem phMergeTwoPass_built (lt : Nat → Nat → Bool) {fuel : Nat} (hfuel : h.size ≤ fuel)
    (hl : Linked nodes h) (hn : h.elems.Nodup) :
    Built nodes (phMergeTwoPass lt fuel nodes (h.headD 0)) (Heap.combine lt h) := by
  induction fuel generalizing nodes h with
  | zero =>
    cases h with
    | nil => exact ⟨trivial, rfl, fun _ _ => rfl⟩
    | node a c s => simp [Heap.size] at hfuel
  | succ fuel ih =>
    match h, hl, hn, hfuel with
    | .nil, _, _, _ => exact ⟨trivial, rfl, fun _ _ => rfl⟩
    | .node a c .nil, hl, _, _ =>
      have hsib : (nodes a).sibling = 0 := hl.2.2.1
      have hm : phMergeTwoPass lt (fuel + 1) nodes a = (nodes, a) := by
        simp [phMergeTwoPass, hsib]
      simp only [Heap.headD_node, hm, Heap.combine]
      exact ⟨hl, rfl, fun _ _ => rfl⟩
    | .node a c (.node b d s), hl, hn, hfuel =>
      simp only [Heap.size] at hfuel
      have hsiba : (nodes a).sibling = b := hl.2.2.1
      have hsibb : (nodes b).sibling = s.headD 0 := hl.2.2.2.2.2.2.2.1
      obtain ⟨la, lb, ls⟩ := hl.cutTwo hn
      obtain ⟨hab, hs, hdisj⟩ := nodup_two hn
      have hother : ∀ x ∉ (Heap.merge lt (.node a c .nil) (.node b d .nil)).elems,
          ((nodes.setSibling b 0).setSibling a 0) x = nodes x := by
        intro x hx
        rw [Heap.elems_merge_node] at hx
        simp only [Multiset.mem_cons, not_or] at hx
        rw [PheapNodes.setSibling_other hx.1, PheapNodes.setSibling_other hx.2.1]
      have hstep : phMergeTwoPass lt (fuel + 1) nodes a =
          phMergeNodes lt
            (phMergeTwoPass lt fuel
              (phMergeNodes lt ((nodes.setSibling b 0).setSibling a 0) a b).1 (s.headD 0)).1
            (phMergeNodes lt ((nodes.setSibling b 0).setSibling a 0) a b).2
            (phMergeTwoPass lt fuel
              (phMergeNodes lt ((nodes.setSibling b 0).setSibling a 0) a b).1 (s.headD 0)).2 := by
        rw [phMergeTwoPass, if_neg (by rw [hsiba]; exact not_or.2 ⟨hl.1, lb.1⟩), hsiba]
        dsimp only
        rw [hsibb]
      generalize (nodes.setSibling b 0).setSibling a 0 = nodes₁ at *
      -- the first two are merged, then the rest, then both
      have b₁ := phMergeNodes_built lt la lb (.node a c) (.node b d) hab
      rw [← Heap.elems_merge lt (.node a c) (.node b d)] at hab hdisj
      have hsplit := Heap.elems_combine lt s
      have b₂ := ih (by omega)
        (ls.congr fun x hx => b₁.frame x (Multiset.disjoint_right.1 hdisj hx)) hs
      have l₁ := b₁.linked.congr fun x hx =>
        b₂.frame x (hsplit.symm ▸ Multiset.disjoint_left.1 hdisj hx)
      have b₃ := phMergeNodes_built lt l₁ b₂.linked (Heap.noSibling_merge lt _ _)
        (Heap.noSibling_combine lt s) (by rw [hsplit]; exact Multiset.nodup_add.2 ⟨hab, hs, hdisj⟩)
      rw [← b₁.root, ← b₂.root] at b₃
      have ht : Heap.combine lt (.node a c (.node b d s)) =
          Heap.merge lt (Heap.merge lt (.node a c .nil) (.node b d .nil)) (Heap.combine lt s) := by
        rw [Heap.combine]
        rfl
      rw [ht]
      change Built nodes (phMergeTwoPass lt (fuel + 1) nodes a) _
      rw [hstep]
      refine ⟨b₃.linked, b₃.root, fun x hx => ?_⟩
      have hx₃ := b₃.frame x hx
      rw [Heap.elems_merge lt (Heap.noSibling_merge lt _ _) (Heap.noSibling_combine lt s),
        Multiset.mem_add, not_or] at hx
      exact (hx₃.trans (b₂.frame x hx.2)).trans ((b₁.frame x hx.1).trans (hother x hx.1))

/-! ## Unlinking -/

/-- The loop finds the sibling before `x`, and `x` is taken out behind it. -/
theorem phPrevSibling_linked {x fuel : Nat} (hfuel : h.size ≤ fuel) (hl : Linked nodes h)
    (hn : h.elems.Nodup) (hx : x ∈ h.tops) (hhead : h.headD 0 ≠ x) :
    let q := phPrevSibling fuel nodes (h.headD 0) x
    q ∈ (h.erase x).elems ∧ q ≠ 0 ∧
      Linked (nodes.setSibling q (nodes x).sibling) (h.erase x) := by
  induction h generalizing fuel with
  | nil => simp at hx
  | node a c s _ ihs =>
    obtain ⟨ha, hchild, hsib, hpar, hc, hs⟩ := hl
    simp only [Heap.elems_node, Multiset.nodup_cons, Multiset.mem_add, not_or,
      Multiset.nodup_add] at hn
    obtain ⟨⟨hac, has⟩, hnc, hns, hdisj⟩ := hn
    have hxa : x ≠ a := Ne.symm hhead
    have hxs : x ∈ s.tops := (List.mem_cons.1 hx).resolve_left hxa
    have hxs' : x ∈ s.elems := Heap.mem_elems_of_mem_tops hxs
    have hxc : x ∉ c.elems := Multiset.disjoint_right.1 hdisj hxs'
    obtain ⟨fuel, rfl⟩ : ∃ n, fuel = n + 1 := by
      simp only [Heap.size] at hfuel
      exact ⟨fuel - 1, by omega⟩
    simp only [Heap.size] at hfuel
    rw [Heap.erase_node_of_notMem hxa hxc]
    by_cases hnext : s.headD 0 = x
    · have hq : phPrevSibling (fuel + 1) nodes a x = a := by
        rw [phPrevSibling, hsib, if_pos hnext]
      simp only [Heap.headD_node, hq]
      refine ⟨by simp, ha, ?_⟩
      cases s with
      | nil => simp at hxs
      | node y e s =>
        obtain rfl : y = x := hnext
        have hoth : ∀ z, z ≠ a → nodes.setSibling a (nodes y).sibling z = nodes z :=
          fun z hz => PheapNodes.setSibling_other hz
        simp only [Heap.erase, if_true]
        simp only [Heap.elems_node, Multiset.mem_cons, Multiset.mem_add, not_or] at has
        refine ⟨ha, by simpa using hchild, ?_, fun z hz => by simpa using hpar z hz,
          hc.congr fun z hz => hoth z fun h => hac (h ▸ hz),
          hs.2.2.2.2.2.congr fun z hz => hoth z fun h => has.2.2 (h ▸ hz)⟩
        simpa using hs.2.2.1
    · have hs0 : s.headD 0 ≠ 0 := by
        rw [Ne, hs.headD_eq_zero_iff]
        rintro rfl
        simp at hxs
      have hq : phPrevSibling (fuel + 1) nodes a x = phPrevSibling fuel nodes (s.headD 0) x := by
        rw [phPrevSibling, hsib, if_neg hnext, if_neg hs0]
      obtain ⟨hmem, hq0, hlinked⟩ := ihs (show s.size ≤ fuel by omega) hs hns hxs hnext
      simp only [Heap.headD_node, hq]
      have hqs := Heap.mem_of_mem_erase hmem
      have hoth : ∀ z, z ≠ phPrevSibling fuel nodes (s.headD 0) x →
          nodes.setSibling (phPrevSibling fuel nodes (s.headD 0) x) (nodes x).sibling z = nodes z :=
        fun z hz => PheapNodes.setSibling_other hz
      have hane : a ≠ phPrevSibling fuel nodes (s.headD 0) x := fun h => has (h ▸ hqs)
      refine ⟨by simp [hmem], hq0, ha, by simpa using hchild, ?_,
        fun z hz => by simpa using hpar z hz,
        hc.congr fun z hz => hoth z fun h => Multiset.disjoint_left.1 hdisj hz (h ▸ hqs), hlinked⟩
      rw [hoth a hane, hsib, Heap.headD_erase hnext]

/-- **Unlinking** a node that is not a root leaves the forest without it and what is under it, and
writes one other node, in its child or sibling. -/
theorem phUnlink_linked {x fuel : Nat} (hfuel : h.size ≤ fuel) (hl : Linked nodes h)
    (hn : h.elems.Nodup) (hx : x ∈ h.elems) (htop : x ∉ h.tops) :
    Linked (phUnlink fuel nodes x) (h.erase x) ∧
      (∀ y, (phUnlink fuel nodes x y).parent = (nodes y).parent) ∧
      ∃ q ∈ (h.erase x).elems, ∀ y, y ≠ q → phUnlink fuel nodes x y = nodes y := by
  induction h with
  | nil => simp at hx
  | node a c s ihc ihs =>
    obtain ⟨ha, hchild, hsib, hpar, hc, hs⟩ := hl
    simp only [Heap.elems_node, Multiset.nodup_cons, Multiset.mem_add, not_or,
      Multiset.nodup_add] at hn
    obtain ⟨⟨hac, has⟩, hnc, hns, hdisj⟩ := hn
    simp only [Heap.size] at hfuel
    rw [Heap.tops_node, List.mem_cons, not_or] at htop
    obtain ⟨hxa, hxs⟩ := htop
    by_cases hxc : x ∈ c.elems
    · have hxs' : x ∉ s.elems := Multiset.disjoint_left.1 hdisj hxc
      have herase : (Heap.node a c s).erase x = .node a (c.erase x) s := by
        rw [Heap.erase, if_neg (Ne.symm hxa), Heap.erase_of_notMem hxs']
      rw [herase]
      by_cases hxt : x ∈ c.tops
      · have hparx : (nodes x).parent = a := hpar x hxt
        by_cases hfirst : c.headD 0 = x
        · -- the first child
          have hu : phUnlink fuel nodes x = nodes.setChild a (nodes x).sibling := by
            simp only [phUnlink, hparx, hchild, if_pos hfirst]
          have hoth : ∀ z, z ≠ a → nodes.setChild a (nodes x).sibling z = nodes z :=
            fun z hz => PheapNodes.setChild_other hz
          rw [hu]
          refine ⟨⟨ha, ?_, by simpa using hsib, fun z hz => ?_, ?_,
            hs.congr fun z hz => hoth z fun h => has (h ▸ hz)⟩, by simp, a, by simp, hoth⟩
          · cases c with
            | nil => simp at hxt
            | node y e c =>
              obtain rfl : y = x := hfirst
              simpa [Heap.erase] using hc.2.2.1
          · simpa using hpar z (Heap.mem_tops_of_mem_erase hz)
          · cases c with
            | nil => trivial
            | node y e c =>
              obtain rfl : y = x := hfirst
              simp only [Heap.erase, if_true]
              exact hc.2.2.2.2.2.congr fun z hz => hoth z fun h => hac (by simp [← h, hz])
        · -- another child
          obtain ⟨hmem, hq0, hlinked⟩ :=
            phPrevSibling_linked (show c.size ≤ fuel by omega) hc hnc hxt hfirst
          have hu : phUnlink fuel nodes x =
              nodes.setSibling (phPrevSibling fuel nodes (c.headD 0) x) (nodes x).sibling := by
            simp only [phUnlink, hparx, hchild, if_neg hfirst, if_pos hq0]
          rw [hu]
          generalize phPrevSibling fuel nodes (c.headD 0) x = q at *
          have hqc := Heap.mem_of_mem_erase hmem
          have hoth : ∀ z, z ≠ q → nodes.setSibling q (nodes x).sibling z = nodes z :=
            fun z hz => PheapNodes.setSibling_other hz
          refine ⟨⟨ha, ?_, ?_, fun z hz => ?_, hlinked,
            hs.congr fun z hz => hoth z fun h => Multiset.disjoint_left.1 hdisj hqc (h ▸ hz)⟩,
            by simp, q, by simp [hmem], hoth⟩
          · rw [hoth a fun h => hac (h ▸ hqc), hchild, Heap.headD_erase hfirst]
          · rw [hoth a fun h => hac (h ▸ hqc), hsib]
          · simpa using hpar z (Heap.mem_tops_of_mem_erase hz)
      · -- deeper under `a`
        obtain ⟨hlinked, hparent, q, hq, hoth⟩ := ihc (by omega) hc hnc hxc hxt
        have hqc := Heap.mem_of_mem_erase hq
        have hfirst : c.headD 0 ≠ x := by
          rintro rfl
          cases c with
          | nil => simp at hxc
          | node y e c => simp at hxt
        refine ⟨⟨ha, ?_, ?_, fun z hz => ?_, hlinked,
          hs.congr fun z hz => hoth z fun h => Multiset.disjoint_left.1 hdisj hqc (h ▸ hz)⟩,
          hparent, q, by simp [hq], hoth⟩
        · rw [hoth a fun h => hac (h ▸ hqc), hchild, Heap.headD_erase hfirst]
        · rw [hoth a fun h => hac (h ▸ hqc), hsib]
        · rw [hparent]
          exact hpar z (Heap.mem_tops_of_mem_erase hz)
    · -- among the later roots
      simp only [Heap.elems_node, Multiset.mem_cons, Multiset.mem_add] at hx
      have hxs' : x ∈ s.elems := (hx.resolve_left hxa).resolve_left hxc
      obtain ⟨hlinked, hparent, q, hq, hoth⟩ := ihs (by omega) hs hns hxs' hxs
      have hqs := Heap.mem_of_mem_erase hq
      have hfirst : s.headD 0 ≠ x := by
        rintro rfl
        cases s with
        | nil => simp at hxs'
        | node y e s => simp at hxs
      rw [Heap.erase_node_of_notMem hxa hxc]
      refine ⟨⟨ha, ?_, ?_, fun z hz => ?_,
        hc.congr fun z hz => hoth z fun h => Multiset.disjoint_left.1 hdisj hz (h ▸ hqs), hlinked⟩,
        hparent, q, by simp [hq], hoth⟩
      · rw [hoth a fun h => has (h ▸ hqs), hchild]
      · rw [hoth a fun h => has (h ▸ hqs), hsib, Heap.headD_erase hfirst]
      · rw [hparent]
        exact hpar z hz

/-- A node under another has a parent. -/
theorem Linked.parent_ne_zero {x : Nat} (hl : Linked nodes h) (hx : x ∈ h.elems)
    (htop : x ∉ h.tops) : (nodes x).parent ≠ 0 := by
  induction h with
  | nil => simp at hx
  | node a c s ihc ihs =>
    obtain ⟨ha, -, -, hpar, hc, hs⟩ := hl
    rw [Heap.tops_node, List.mem_cons, not_or] at htop
    simp only [Heap.elems_node, Multiset.mem_cons, Multiset.mem_add] at hx
    rcases hx.resolve_left htop.1 with hxc | hxs
    · by_cases hxt : x ∈ c.tops
      · rw [hpar x hxt]
        exact ha
      · exact ihc hc hxc hxt
    · exact ihs hs hxs htop.2

/-- What is under a node is linked as before. -/
theorem Linked.under {x : Nat} (hl : Linked nodes h) (hx : x ∈ h.elems) :
    (nodes x).child = (h.under x).headD 0 ∧ Linked nodes (h.under x) := by
  induction h with
  | nil => simp at hx
  | node a c s ihc ihs =>
    obtain ⟨-, hchild, -, -, hc, hs⟩ := hl
    unfold Heap.under
    split
    · rename_i hax
      exact ⟨hax ▸ hchild, hc⟩
    · rename_i hax
      split
      · rename_i hxc
        exact ihc hc hxc
      · rename_i hxc
        simp only [Heap.elems_node, Multiset.mem_cons, Multiset.mem_add] at hx
        exact ihs hs ((hx.resolve_left (Ne.symm hax)).resolve_left hxc)

end VolumeControl
