import VolumeControl.Lib.LinkedList
import VolumeControl.Time.PheapLinks

/-!
# The operations of the heap

`Holds heap t free`: the nodes of the heap are those of `t`, linked as `t` says,
the free ones are `free`, from head to tail, and all others are cut off. Every
operation keeps this, of the heap that the library of pairing heaps makes of `t`.
-/

open LinkedList Batteries.PairingHeapImp

namespace VolumeControl

/-- The nodes in use, those that are free, and all others. -/
structure Shelf (heap : Pheap) (used : Multiset Nat) (free : List Nat) : Prop where
  chain : Chain (fun x => (heap.nodes x).sibling) heap.freeHeadId free
  tail : heap.freeTailId = free.getLastD 0
  /-- Nodes that are allocated and not in use have no sibling. -/
  cut : ∀ x, x ∉ used → x ∉ free → (heap.nodes x).sibling = 0
  nodup : (used + (free : Multiset Nat)).Nodup
  range : ∀ x ∈ used + (free : Multiset Nat), 1 ≤ x ∧ x ≤ heap.maxNodes

structure Holds (heap : Pheap) (t : Heap Nat) (free : List Nat) : Prop where
  linked : Linked heap.nodes t
  root : heap.rootId = t.headD 0
  single : t.NoSibling
  /-- Only nodes under others have a parent. -/
  orphan : ∀ x, x ∉ t.elems ∨ x = t.headD 0 → (heap.nodes x).parent = 0
  shelf : Shelf heap t.elems free

variable {lt : Nat → Nat → Bool} {heap heap' : Pheap} {t c : Heap Nat} {free : List Nat}
variable {used used' : Multiset Nat} {id r : Nat}

theorem Shelf.disjoint (h : Shelf heap used free) : ∀ x ∈ used, x ∉ free := fun _ hx hf =>
  Multiset.disjoint_left.1 (Multiset.nodup_add.1 h.nodup).2.2 hx hf

theorem Shelf.nodup_used (h : Shelf heap used free) : used.Nodup :=
  (Multiset.nodup_add.1 h.nodup).1

theorem Shelf.nodup_free (h : Shelf heap used free) : free.Nodup :=
  (Multiset.nodup_add.1 h.nodup).2.1

theorem Shelf.zero_notMem (h : Shelf heap used free) : 0 ∉ used := fun h0 => by
  have := h.range 0 (Multiset.mem_add.2 (.inl h0))
  omega

/-- There are not more nodes than the array has. -/
theorem Shelf.card_le (h : Shelf heap used free) : used.card ≤ heap.maxNodes := by
  have hsub : used.toFinset ⊆ Finset.Icc 1 heap.maxNodes := fun x hx =>
    Finset.mem_Icc.2 (h.range x (Multiset.mem_add.2 (.inl (Multiset.mem_toFinset.1 hx))))
  have hcard := Finset.card_le_card hsub
  rw [Multiset.toFinset_card_of_nodup h.nodup_used, Nat.card_Icc] at hcard
  omega

theorem Shelf.tail_notMem (h : Shelf heap used free) : heap.freeTailId ∉ used := by
  rw [h.tail]
  cases hf : free with
  | nil => exact h.zero_notMem
  | cons x l =>
    refine fun hm => h.disjoint _ hm ?_
    rw [hf, List.getLastD_cons]
    exact List.getLastD_mem_cons

/-- Writes to the nodes in use. -/
theorem Shelf.congr (h : Shelf heap used free)
    (hsib : ∀ x ∉ used, (heap'.nodes x).sibling = (heap.nodes x).sibling)
    (hmax : heap'.maxNodes = heap.maxNodes) (hhead : heap'.freeHeadId = heap.freeHeadId)
    (htail : heap'.freeTailId = heap.freeTailId) : Shelf heap' used free where
  chain := by
    rw [hhead]
    exact h.chain.congr fun x hx => hsib x fun hu => h.disjoint x hu hx
  tail := htail.trans h.tail
  cut x hx hf := (hsib x hx).trans (h.cut x hx hf)
  nodup := h.nodup
  range x hx := by
    rw [hmax]
    exact h.range x hx

theorem Holds.nodup_elems (h : Holds heap t free) : t.elems.Nodup := h.shelf.nodup_used

theorem Holds.size_le (h : Holds heap t free) : t.size ≤ heap.maxNodes := by
  rw [← Heap.card_elems]
  exact h.shelf.card_le

/-! ## The list of free nodes -/

theorem getLastD_eq_zero_iff (h0 : 0 ∉ free) : free.getLastD 0 = 0 ↔ free = [] := by
  cases free with
  | nil => simp
  | cons x l =>
    have hmem : (x :: l).getLastD 0 ∈ x :: l := by
      rw [List.getLastD_cons]
      exact List.getLastD_mem_cons
    constructor
    · intro h
      exact absurd (h ▸ hmem) h0
    · intro h
      cases h

/-- `id` has come to the tail, once it has no sibling. -/
theorem phFreeTail_chain {nodes : PheapNodes}
    (hchain : Chain (fun x => (heap.nodes x).sibling) heap.freeHeadId free)
    (htail : heap.freeTailId = free.getLastD 0) (hn : free.Nodup) (hid : id ≠ 0)
    (hkeep : ∀ x ∈ free, (nodes x).sibling = ((phFreeTail heap id).nodes x).sibling)
    (hend : (nodes id).sibling = 0) :
    Chain (fun x => (nodes x).sibling) (phFreeTail heap id).freeHeadId (free ++ [id]) := by
  cases free with
  | nil =>
    have h0 : heap.freeHeadId = 0 := hchain
    simp only [phFreeTail, h0, if_true]
    exact ⟨rfl, hid, hend⟩
  | cons x l =>
    have h0 : heap.freeHeadId ≠ 0 := fun h => by simpa using hchain.eq_zero_iff.1 h
    have htail0 : heap.freeTailId ≠ 0 := by
      rw [htail, Ne, getLastD_eq_zero_iff hchain.zero_notMem]
      simp
    have hlast : heap.freeTailId = (x :: l).getLast (List.cons_ne_nil x l) := by
      rw [htail, List.getLastD_eq_getLast?,
        List.getLast?_eq_getLast_of_ne_nil (List.cons_ne_nil x l)]
      rfl
    simp only [phFreeTail, if_neg h0]
    refine hchain.snoc (List.cons_ne_nil x l) hn (fun y hy hne => ?_) ?_ hid hend
    · rw [hkeep y hy]
      simp only [phFreeTail, if_pos htail0, PheapNodes.setSibling_sibling]
      rw [hlast, if_neg hne]
    · rw [hkeep _ (List.getLast_mem _)]
      simp only [phFreeTail, if_pos htail0, PheapNodes.setSibling_sibling]
      rw [hlast, if_pos rfl]

/-- The heap with `r` among the free nodes, if it is freed. -/
def freed (heap : Pheap) (r : Nat) (fr : Bool) : Pheap := if fr then phFreeTail heap r else heap

theorem freed_child (heap : Pheap) (r : Nat) (fr : Bool) (x : Nat) :
    ((freed heap r fr).nodes x).child = (heap.nodes x).child := by
  cases fr with
  | false => rfl
  | true =>
    simp only [freed, phFreeTail, if_true]
    split <;> simp

theorem freed_parent (heap : Pheap) (r : Nat) (fr : Bool) (x : Nat) :
    ((freed heap r fr).nodes x).parent = (heap.nodes x).parent := by
  cases fr with
  | false => rfl
  | true =>
    simp only [freed, phFreeTail, if_true]
    split <;> simp

/-- Only the node that was the tail is written. -/
theorem freed_other (heap : Pheap) (r : Nat) (fr : Bool) {x : Nat} (hx : x ≠ heap.freeTailId) :
    (freed heap r fr).nodes x = heap.nodes x := by
  cases fr with
  | false => rfl
  | true =>
    simp only [freed, phFreeTail, if_true]
    split
    · exact PheapNodes.setSibling_other hx
    · rfl

/-- What is written there does not depend on the other nodes. -/
theorem freed_congr (heap : Pheap) (r : Nat) (fr : Bool) {nodes : PheapNodes} {x : Nat}
    (hx : nodes x = heap.nodes x) :
    (freed { heap with nodes := nodes } r fr).nodes x = (freed heap r fr).nodes x := by
  by_cases ht : x = heap.freeTailId
  · cases fr with
    | false => exact hx
    | true =>
      simp only [freed, phFreeTail, if_true]
      split
      · simp only [PheapNodes.setSibling, ← ht, hx, Function.update_self]
      · exact hx
  · rw [freed_other { heap with nodes := nodes } r fr ht, freed_other heap r fr ht]
    exact hx

/-! ## Taking a root away -/

/-- The last writes of `ph_remove_any_head`. -/
def unrooted (nodes : PheapNodes) (newRootId r : Nat) : PheapNodes :=
  (if newRootId ≠ 0 then nodes.setParent newRootId 0 else nodes).setSibling r 0

theorem unrooted_child (nodes : PheapNodes) (m r x : Nat) :
    (unrooted nodes m r x).child = (nodes x).child := by
  unfold unrooted
  split <;> simp

theorem unrooted_parent (nodes : PheapNodes) (m r x : Nat) :
    (unrooted nodes m r x).parent = if m ≠ 0 ∧ x = m then 0 else (nodes x).parent := by
  unfold unrooted
  by_cases hm : m = 0
  · simp [hm]
  · by_cases hx : x = m <;> simp [hm, hx]

theorem unrooted_sibling (nodes : PheapNodes) (m r x : Nat) :
    (unrooted nodes m r x).sibling = if x = r then 0 else (nodes x).sibling := by
  unfold unrooted
  by_cases hx : x = r
  · simp [hx]
  · split <;> simp [hx]

theorem unrooted_other (nodes : PheapNodes) {m r x : Nat} (hm : x ≠ m) (hr : x ≠ r) :
    unrooted nodes m r x = nodes x := by
  unfold unrooted
  rw [PheapNodes.setSibling_other hr]
  split
  · exact PheapNodes.setParent_other hm
  · rfl

theorem linked_unrooted {nodes nodes' : PheapNodes} {h : Heap Nat} (hl : Linked nodes h)
    (hs : h.NoSibling) (hn : h.elems.Nodup) (hr : r ∉ h.elems)
    (heq : ∀ x ∈ h.elems, nodes' x = nodes x) : Linked (unrooted nodes' (h.headD 0) r) h := by
  cases hs with
  | nil => trivial
  | node a d =>
    simp only [Heap.elems_node, Heap.elems_nil, add_zero, Multiset.nodup_cons] at hn
    simp only [Heap.elems_node, Heap.elems_nil, add_zero, Multiset.mem_cons, not_or] at hr heq
    refine hl.cut ?_ ?_ fun x hx => ?_
    · rw [unrooted_child, heq a (.inl rfl)]
    · rw [unrooted_sibling, if_neg (Ne.symm hr.1), heq a (.inl rfl)]
      exact hl.2.2.1
    · rw [Heap.headD_node, unrooted_other _ (ne_of_mem_of_not_mem hx hn.1)
        (ne_of_mem_of_not_mem hx hr.2), heq x (.inr hx)]

/-- What `ph_remove_any_head` makes of a heap: the nodes under `r` are a heap of their own, and
`r` has no sibling. -/
structure Beheaded (lt : Nat → Nat → Bool) (heap : Pheap) (r : Nat) (c : Heap Nat) (fr : Bool)
    (res : Pheap × Nat) : Prop where
  linked : Linked res.1.nodes (Heap.combine lt c)
  root : res.2 = (Heap.combine lt c).headD 0
  orphan : res.2 ≠ 0 → (res.1.nodes res.2).parent = 0
  child : ∀ x ∉ c.elems, (res.1.nodes x).child = (heap.nodes x).child
  parent : ∀ x ∉ c.elems, (res.1.nodes x).parent = (heap.nodes x).parent
  sibling : ∀ x ∉ c.elems, x ≠ r → (res.1.nodes x).sibling = ((freed heap r fr).nodes x).sibling
  cut : (res.1.nodes r).sibling = 0
  maxNodes : res.1.maxNodes = heap.maxNodes
  rootId : res.1.rootId = heap.rootId
  freeHead : res.1.freeHeadId = (freed heap r fr).freeHeadId
  freeTail : res.1.freeTailId = (freed heap r fr).freeTailId

theorem phRemoveAnyHead_spec (lt : Nat → Nat → Bool) (fr : Bool)
    (hchild : (heap.nodes r).child = c.headD 0) (hl : Linked heap.nodes c) (hn : c.elems.Nodup)
    (hr : r ∉ c.elems) (hsize : c.size ≤ heap.maxNodes) (htail : heap.freeTailId ∉ c.elems) :
    Beheaded lt heap r c fr (phRemoveAnyHead lt heap r fr) := by
  have b := phMergeTwoPass_built lt hsize hl hn
  have hres : phRemoveAnyHead lt heap r fr =
      let m := phMergeTwoPass lt heap.maxNodes heap.nodes (c.headD 0)
      let heap₁ := freed { heap with nodes := m.1 } r fr
      ({ heap₁ with nodes := unrooted heap₁.nodes m.2 r }, m.2) := by
    rw [phRemoveAnyHead, hchild]
    rfl
  rw [hres]
  generalize phMergeTwoPass lt heap.maxNodes heap.nodes (c.headD 0) = m at b
  have hsplit := Heap.elems_combine lt c
  have hframe : ∀ x ∉ c.elems, m.1 x = heap.nodes x := fun x hx => b.frame x (by rwa [hsplit])
  have hmem : m.2 ≠ 0 → m.2 ∈ c.elems := by
    intro h0
    rw [← hsplit]
    rw [b.root] at h0 ⊢
    exact Heap.headD_mem_elems h0
  refine ⟨?_, b.root, fun h0 => ?_, fun x hx => ?_, fun x hx => ?_, fun x hx hxr => ?_, ?_, ?_, ?_,
    ?_, ?_⟩
  · dsimp only
    rw [b.root]
    exact linked_unrooted b.linked (Heap.noSibling_combine lt c) (hsplit.symm ▸ hn)
      (hsplit.symm ▸ hr) fun x hx =>
        freed_other { heap with nodes := m.1 } r fr fun h => htail (hsplit ▸ h ▸ hx)
  · simp [unrooted_parent, h0]
  · simp only [unrooted_child, freed_child, hframe x hx]
  · have hxm : ¬(m.2 ≠ 0 ∧ x = m.2) := fun h => hx (h.2 ▸ hmem h.1)
    simp only [unrooted_parent, if_neg hxm, freed_parent, hframe x hx]
  · simp only [unrooted_sibling, if_neg hxr, freed_congr heap r fr (hframe x hx)]
  · simp [unrooted_sibling]
  all_goals
    cases fr <;> rfl

theorem freed_tail (heap : Pheap) (r : Nat) (fr : Bool) (ht : heap.freeTailId = free.getLastD 0) :
    (freed heap r fr).freeTailId = (if fr then free ++ [r] else free).getLastD 0 := by
  cases fr with
  | false => exact ht
  | true => simp [freed, phFreeTail]

/-- The tail is a free node or none. -/
theorem Shelf.freed_of_notMem (h : Shelf heap used free) (r : Nat) (fr : Bool) {x : Nat}
    (hx : x ∉ free) : (freed heap r fr).nodes x = heap.nodes x := by
  by_cases hxt : x = heap.freeTailId
  · have h0 : heap.freeTailId = 0 := by
      rw [h.tail, getLastD_eq_zero_iff h.chain.zero_notMem]
      cases hf : free with
      | nil => rfl
      | cons y l =>
        refine absurd ?_ hx
        rw [hxt, h.tail, hf, List.getLastD_cons]
        exact List.getLastD_mem_cons
    cases fr <;> simp [freed, phFreeTail, h0]
  · exact freed_other heap r fr hxt

theorem add_coe_snoc (used : Multiset Nat) (free : List Nat) (r : Nat) :
    used + ((free ++ [r] : List Nat) : Multiset Nat) = r ::ₘ (used + (free : Multiset Nat)) := by
  rw [← Multiset.coe_add, ← add_assoc, Multiset.coe_singleton, ← Multiset.singleton_add, add_comm]

/-- A root taken away, and freed if `fr`. -/
theorem Shelf.beheaded {res : Pheap × Nat} {fr : Bool} {rest : Multiset Nat}
    (h : Shelf heap (r ::ₘ (c.elems + rest)) free) (b : Beheaded lt heap r c fr res) :
    Shelf res.1 (c.elems + rest) (if fr then free ++ [r] else free) := by
  have hr0 : r ≠ 0 := fun h0 => h.zero_notMem (by simp [h0])
  have hrfree : r ∉ free := h.disjoint r (by simp)
  have hcfree : ∀ x ∈ free, x ∉ c.elems := fun x hx hxc => h.disjoint x (by simp [hxc]) hx
  have hmem : ∀ x,
      x ∈ c.elems + rest + ((if fr then free ++ [r] else free : List Nat) : Multiset Nat) →
      x ∈ r ::ₘ (c.elems + rest) + (free : Multiset Nat) := by
    intro x hx
    cases fr <;> simp at hx ⊢ <;> tauto
  refine ⟨?_, ?_, fun x hx hxf => ?_, ?_, fun x hx => ?_⟩
  · rw [b.freeHead]
    have hkeep : ∀ x ∈ free, (res.1.nodes x).sibling = ((freed heap r fr).nodes x).sibling :=
      fun x hx => b.sibling x (hcfree x hx) (ne_of_mem_of_not_mem hx hrfree)
    cases fr with
    | false => exact h.chain.congr hkeep
    | true => exact phFreeTail_chain h.chain h.tail h.nodup_free hr0 hkeep b.cut
  · rw [b.freeTail]
    exact freed_tail heap r fr h.tail
  · by_cases hxr : x = r
    · rw [hxr]
      exact b.cut
    · have hxf' : x ∉ free := fun hm => hxf (by cases fr <;> simp [hm])
      rw [Multiset.mem_add, not_or] at hx
      rw [b.sibling x hx.1 hxr, h.freed_of_notMem r fr hxf']
      exact h.cut x (by simp [hxr, hx]) hxf'
  · have hn := h.nodup
    rw [Multiset.cons_add] at hn
    cases fr with
    | false => exact (Multiset.nodup_cons.1 hn).2
    | true => simpa only [if_true, add_coe_snoc] using hn
  · rw [b.maxNodes]
    exact h.range x (hmem x hx)

/-! ## What the heap holds after each operation -/

/-- **`ph_remove_head`** takes the root, and frees it if `fr`. -/
theorem Holds.removeHead (h : Holds heap (.node r c .nil) free) (lt : Nat → Nat → Bool)
    (fr : Bool) :
    Holds (phRemoveHead lt heap fr).1 (Heap.combine lt c) (if fr then free ++ [r] else free) ∧
      (phRemoveHead lt heap fr).2 = r := by
  have hroot : heap.rootId = r := h.root
  have hne := h.nodup_elems
  have htail := h.shelf.tail_notMem
  have hsize := h.size_le
  simp only [Heap.elems_node, Heap.elems_nil, add_zero, Multiset.nodup_cons] at hne
  simp only [Heap.elems_node, Heap.elems_nil, add_zero, Multiset.mem_cons, not_or] at htail
  simp only [Heap.size] at hsize
  obtain ⟨hrc, hc⟩ := hne
  obtain ⟨hr0, hchild, -, -, hl, -⟩ := h.linked
  have b := phRemoveAnyHead_spec lt fr hchild hl hc hrc (by omega) htail.2
  have hres : phRemoveHead lt heap fr =
      ({ (phRemoveAnyHead lt heap r fr).1 with
        rootId := (phRemoveAnyHead lt heap r fr).2 }, r) := by
    rw [phRemoveHead, phPeekHead, hroot]
  rw [hres]
  generalize phRemoveAnyHead lt heap r fr = res at b
  have hsplit := Heap.elems_combine lt c
  have hshelf : Shelf res.1 c.elems (if fr then free ++ [r] else free) := by
    have hs : Shelf heap (r ::ₘ (c.elems + 0)) free := by simpa using h.shelf
    simpa using hs.beheaded b
  refine ⟨⟨b.linked, b.root, Heap.noSibling_combine lt c, fun x hx => ?_,
    hsplit.symm ▸ hshelf.congr (fun _ _ => rfl) rfl rfl rfl⟩, rfl⟩
  dsimp only
  rw [hsplit, ← b.root] at hx
  by_cases hx0 : x = res.2 ∧ res.2 ≠ 0
  · rw [hx0.1]
    exact b.orphan hx0.2
  · have hxc : x ∉ c.elems := by
      rcases hx with hx | rfl
      · exact hx
      · rw [show res.2 = 0 by tauto]
        exact hshelf.zero_notMem
    rw [b.parent x hxc]
    by_cases hxr : x = r
    · exact h.orphan x (.inr hxr)
    · exact h.orphan x (.inl (by simp [hxr, hxc]))

theorem chain_range' (n i : Nat) (hi : i ≠ 0) {next : Nat → Nat}
    (hnext : ∀ x, i ≤ x → x + 1 < i + n → next x = x + 1) (hlast : next (i + n - 1) = 0)
    (hn : n ≠ 0) :
    Chain next i (List.range' i n) := by
  induction n generalizing i with
  | zero => exact absurd rfl hn
  | succ n ih =>
    refine ⟨rfl, hi, ?_⟩
    by_cases h0 : n = 0
    · subst h0
      have hend : next i = 0 := by simpa using hlast
      exact hend
    · rw [hnext i (le_refl i) (by omega)]
      refine ih (i + 1) (by omega) (fun x h1 h2 => hnext x (by omega) (by omega)) ?_ h0
      rw [show i + 1 + n - 1 = i + (n + 1) - 1 by omega]
      exact hlast

/-- A new heap: all nodes are free. -/
theorem holds_init {maxNodes : Nat} (h0 : maxNodes ≠ 0) :
    Holds (phPostAllocInit maxNodes) .nil (List.range' 1 maxNodes) := by
  refine ⟨trivial, rfl, .nil, fun x _ => ?_, ?_, ?_, fun x _ hx => ?_, ?_, fun x hx => ?_⟩
  · simp only [phPostAllocInit, phClear]
    split
    · rfl
    · split <;> rfl
  · refine chain_range' maxNodes 1 one_ne_zero (fun x h1 h2 => ?_) ?_ h0
    · simp only [phPostAllocInit, phClear]
      rw [if_pos ⟨h1, by omega⟩]
    · simp only [phPostAllocInit, phClear]
      rw [if_neg (by omega), if_pos (by omega)]
  · rw [List.getLastD_eq_getLast?, List.getLast?_range']
    simp only [phPostAllocInit, phClear, if_neg h0]
    simp
  · rw [List.mem_range'_1] at hx
    simp only [phPostAllocInit, phClear]
    rw [if_neg (by omega), if_neg (by omega)]
  · rw [Heap.elems_nil, zero_add, Multiset.coe_nodup]
    exact List.nodup_range'
  · rw [Heap.elems_nil, zero_add, Multiset.mem_coe, List.mem_range'_1] at hx
    exact ⟨hx.1, by simp only [phPostAllocInit, phClear]; omega⟩

/-- **`ph_new_node`** without free nodes. -/
theorem Holds.newNode_nil (h : Holds heap t []) : phNewNode heap = (heap, 0) := by
  have h0 : heap.freeHeadId = 0 := h.shelf.chain
  rw [phNewNode, if_pos h0]

/-- **`ph_new_node`** takes the first free node. -/
theorem Holds.newNode_cons (h : Holds heap t (id :: free)) :
    Holds (phNewNode heap).1 t free ∧ (phNewNode heap).2 = id := by
  obtain ⟨hhead, hid, hchain⟩ := h.shelf.chain
  have hidt : id ∉ t.elems := fun hm => h.shelf.disjoint id hm List.mem_cons_self
  have hidf : id ∉ free := (List.nodup_cons.1 h.shelf.nodup_free).1
  have hres : phNewNode heap =
      ({ heap with
          freeHeadId := (heap.nodes id).sibling
          freeTailId := if (heap.nodes id).sibling = 0 then 0 else heap.freeTailId
          nodes := Function.update heap.nodes id ⟨0, 0, 0⟩ }, id) := by
    rw [phNewNode, if_neg (by rwa [hhead]), hhead]
  have hother : ∀ x, x ≠ id → Function.update heap.nodes id ⟨0, 0, 0⟩ x = heap.nodes x :=
    fun x hx => Function.update_of_ne hx _ _
  rw [hres]
  refine ⟨⟨h.linked.congr fun x hx => hother x (ne_of_mem_of_not_mem hx hidt), h.root, h.single,
    fun x hx => ?_, ?_, ?_, fun x hx hxf => ?_, ?_, fun x hx => h.shelf.range x ?_⟩, rfl⟩
  · by_cases hxid : x = id
    · simp [hxid]
    · dsimp only
      rw [hother x hxid]
      exact h.orphan x hx
  · exact hchain.congr fun x hx => by
      dsimp only
      rw [hother x (ne_of_mem_of_not_mem hx hidf)]
  · dsimp only
    split
    · rename_i h0
      rw [hchain.eq_zero_iff.1 h0]
      rfl
    · rename_i h0
      rw [h.shelf.tail]
      cases hf : free with
      | nil => exact absurd (hchain.eq_zero_iff.2 hf) h0
      | cons y l => rfl
  · by_cases hxid : x = id
    · simp [hxid]
    · dsimp only
      rw [hother x hxid]
      exact h.shelf.cut x hx (by simp [hxid, hxf])
  · have hn := h.shelf.nodup
    rw [← Multiset.cons_coe, Multiset.add_cons] at hn
    exact (Multiset.nodup_cons.1 hn).2
  · simp only [Multiset.mem_add, Multiset.mem_coe, List.mem_cons] at hx ⊢
    tauto

/-- **`ph_insert_node`** of a node that is allocated and not in the heap. -/
theorem Holds.insertNode (h : Holds heap t free) (lt : Nat → Nat → Bool) (hidt : id ∉ t.elems)
    (hidf : id ∉ free) (hlo : 1 ≤ id) (hhi : id ≤ heap.maxNodes) :
    Holds (phInsertNode lt heap id).1 (Heap.merge lt t (Heap.singleton id)) free ∧
      (phInsertNode lt heap id).2 = (Heap.merge lt t (Heap.singleton id)).headD 0 := by
  generalize hupd : Function.update heap.nodes id ⟨0, 0, 0⟩ = nodes
  have hother : ∀ x, x ≠ id → nodes x = heap.nodes x := fun x hx => by
    rw [← hupd, Function.update_of_ne hx]
  have hnode : nodes id = ⟨0, 0, 0⟩ := by rw [← hupd, Function.update_self]
  have hl : Linked nodes t := h.linked.congr fun x hx => hother x (ne_of_mem_of_not_mem hx hidt)
  have hl' : Linked nodes (Heap.singleton id) :=
    ⟨by omega, by rw [hnode]; rfl, by rw [hnode]; rfl, by simp, trivial, trivial⟩
  have hn : (t.elems + (Heap.singleton id).elems).Nodup := by
    simp only [Heap.singleton, Heap.elems_node, Heap.elems_nil, add_zero, Multiset.add_cons,
      Multiset.nodup_cons]
    exact ⟨hidt, h.nodup_elems⟩
  have b := phMergeNodes_built lt hl hl' h.single (.node id .nil) hn
  have hne : t.headD 0 ≠ id := by
    cases t with
    | nil => exact (show 0 ≠ id by omega)
    | node a c s => exact fun he => hidt (by simp [← he])
  have hsplit := Heap.elems_merge lt h.single (.node id .nil)
  have hres : phInsertNode lt heap id =
      ({ heap with
          nodes := (phMergeNodes lt nodes (t.headD 0) id).1
          rootId := (phMergeNodes lt nodes (t.headD 0) id).2 },
        (phMergeNodes lt nodes (t.headD 0) id).2) := by
    rw [phInsertNode, hupd, h.root]
  rw [hres]
  have horphan : ∀ x, x ∉ t.elems ∨ x = t.headD 0 → (nodes x).parent = 0 := by
    intro x hx
    by_cases hxid : x = id
    · rw [hxid, hnode]
    · rw [hother x hxid]
      exact h.orphan x hx
  have hroot := phMergeNodes_orphan lt hne (horphan _ (.inr rfl)) (horphan id (.inl hidt))
  change Built nodes (phMergeNodes lt nodes (t.headD 0) id)
    (Heap.merge lt t (Heap.singleton id)) at b
  change (Heap.merge lt t (Heap.singleton id)).elems = t.elems + id ::ₘ 0 at hsplit
  generalize phMergeNodes lt nodes (t.headD 0) id = res at b hroot
  refine ⟨⟨b.linked, b.root, Heap.noSibling_merge lt _ _, fun x hx => ?_, ?_⟩, b.root⟩
  · dsimp only
    rw [hsplit, ← b.root] at hx
    by_cases hxr : x = res.2
    · rw [hxr, hroot]
    · have hx' := hx.resolve_right hxr
      rw [b.frame x (by rwa [hsplit])]
      exact horphan x (.inl fun hm => hx' (by simp [hm]))
  · rw [hsplit]
    refine ⟨h.shelf.chain.congr fun x hx => ?_, h.shelf.tail, fun x hx hxf => ?_, ?_,
      fun x hx => ?_⟩
    · have hxid : x ≠ id := ne_of_mem_of_not_mem hx hidf
      have hxt : x ∉ t.elems := fun hm => h.shelf.disjoint x hm hx
      dsimp only
      rw [b.frame x (by simp [hsplit, hxid, hxt]), hother x hxid]
    · dsimp only
      rw [b.frame x (by rwa [hsplit])]
      simp only [Multiset.mem_add, Multiset.mem_cons, Multiset.notMem_zero, or_false, not_or] at hx
      rw [hother x hx.2]
      exact h.shelf.cut x hx.1 hxf
    · rw [Multiset.add_cons, add_zero, Multiset.cons_add, Multiset.nodup_cons]
      exact ⟨by simp [hidt, hidf], h.shelf.nodup⟩
    · rw [Multiset.add_cons, add_zero, Multiset.cons_add, Multiset.mem_cons] at hx
      rcases hx with rfl | hx
      · exact ⟨hlo, hhi⟩
      · exact h.shelf.range x hx

/-- **`ph_free_node`** of a node that is allocated and not in the heap. -/
theorem Holds.freeNode (h : Holds heap t free) (hidt : id ∉ t.elems) (hidf : id ∉ free)
    (hlo : 1 ≤ id) (hhi : id ≤ heap.maxNodes) : Holds (phFreeNode heap id) t (free ++ [id]) := by
  have hfr : phFreeNode heap id = freed heap id true := rfl
  have hnode : (freed heap id true).nodes id = heap.nodes id := h.shelf.freed_of_notMem id true hidf
  rw [hfr]
  refine ⟨h.linked.congr fun x hx => ?_, h.root, h.single, fun x hx => ?_, ?_, ?_,
    fun x hx hxf => ?_, ?_, fun x hx => ?_⟩
  · exact h.shelf.freed_of_notMem id true fun hm => h.shelf.disjoint x hx hm
  · rw [freed_parent]
    exact h.orphan x hx
  · refine phFreeTail_chain h.shelf.chain h.shelf.tail h.shelf.nodup_free (by omega)
      (fun _ _ => rfl) ?_
    rw [hnode]
    exact h.shelf.cut id hidt hidf
  · exact freed_tail heap id true h.shelf.tail
  · simp only [List.mem_append, not_or] at hxf
    rw [h.shelf.freed_of_notMem id true hxf.1]
    exact h.shelf.cut x hx hxf.1
  · rw [add_coe_snoc, Multiset.nodup_cons]
    exact ⟨by simp [hidt, hidf], h.shelf.nodup⟩
  · rw [add_coe_snoc, Multiset.mem_cons] at hx
    rcases hx with rfl | hx
    · exact ⟨hlo, hhi⟩
    · exact h.shelf.range x hx

/-- **`ph_contains_node`** knows the nodes of the heap. -/
theorem Holds.containsNode (h : Holds heap t free) (hid : id ≠ 0) :
    phContainsNode heap id = decide (id ∈ t.elems) := by
  rw [phContainsNode, h.root]
  by_cases hroot : id = t.headD 0
  · have hmem : id ∈ t.elems := by
      cases t with
      | nil => exact absurd hroot hid
      | node a c s => simp [hroot]
    simp [← hroot, hmem]
  · by_cases hmem : id ∈ t.elems
    · have htop : id ∉ t.tops := by
        cases h.single with
        | nil => simp
        | node a c => simpa using hroot
      simp [hmem, h.linked.parent_ne_zero hmem htop]
    · simp [hroot, hmem, h.orphan id (.inl hmem)]

/-- **`ph_remove_and_free_node`** of a node that is not in the heap. -/
theorem Holds.removeAndFreeNode_of_notMem (h : Holds heap t free) (lt : Nat → Nat → Bool)
    (hid : id ∉ t.elems) : phRemoveAndFreeNode lt heap id = (heap, false) := by
  rw [phRemoveAndFreeNode]
  by_cases h0 : id = 0
  · rw [if_pos h0]
  · have hroot : id ≠ heap.rootId := by
      rw [h.root]
      cases t with
      | nil => exact h0
      | node a c s => exact fun he => hid (by simp [he])
    rw [if_neg h0, if_neg hroot, if_pos (h.orphan id (.inl hid))]

/-- Out of the tree: the node and what is under it, apart from the rest. -/
theorem Holds.unlink (h : Holds heap t free) (hid : id ∈ t.elems) (htop : id ∉ t.tops)
    (heq : heap' = { heap with
      nodes := ((phUnlink heap.maxNodes heap.nodes id).setParent id 0).setSibling id 0 }) :
    Linked heap'.nodes (t.erase id) ∧ Linked heap'.nodes (t.under id) ∧
      (heap'.nodes id).child = (t.under id).headD 0 ∧
      Shelf heap' (id ::ₘ ((t.under id).elems + (t.erase id).elems)) free ∧
      ∀ x, x ∉ t.elems ∨ x = t.headD 0 ∨ x = id → (heap'.nodes x).parent = 0 := by
  obtain ⟨hl, hpar, q, hq, hoth⟩ := phUnlink_linked h.size_le h.linked h.nodup_elems hid htop
  have hperm := Heap.elems_erase h.nodup_elems hid
  have hn := h.nodup_elems
  rw [← hperm, Multiset.nodup_cons, Multiset.mem_add, not_or, Multiset.nodup_add] at hn
  obtain ⟨⟨hidu, hide⟩, -, -, hdisj⟩ := hn
  obtain ⟨hchild, hlu⟩ := h.linked.under hid
  have hqid : id ≠ q := Ne.symm (ne_of_mem_of_not_mem hq hide)
  have hnode : ∀ x, x ≠ id →
      heap'.nodes x = phUnlink heap.maxNodes heap.nodes id x := fun x hx => by
    rw [heq]
    dsimp only
    rw [PheapNodes.setSibling_other hx, PheapNodes.setParent_other hx]
  refine ⟨hl.congr fun x hx => hnode x (ne_of_mem_of_not_mem hx hide),
    hlu.congr fun x hx => ?_, ?_, ?_, fun x hx => ?_⟩
  · rw [hnode x (ne_of_mem_of_not_mem hx hidu)]
    exact hoth x (Ne.symm (ne_of_mem_of_not_mem hq (Multiset.disjoint_left.1 hdisj hx)))
  · simp only [heq, PheapNodes.setSibling_child, PheapNodes.setParent_child, hoth id hqid, hchild]
  · rw [hperm]
    refine h.shelf.congr (fun x hx => ?_) (by rw [heq]) (by rw [heq]) (by rw [heq])
    rw [hnode x (Ne.symm (ne_of_mem_of_not_mem hid hx)),
      hoth x (Ne.symm (ne_of_mem_of_not_mem (Heap.mem_of_mem_erase hq) hx))]
  · by_cases hxid : x = id
    · simp [heq, hxid]
    · rw [hnode x hxid, hpar]
      exact h.orphan x (by tauto)

/-- A node that is not the root: the tree without it is merged with what was under it. -/
theorem Holds.removeInner (h : Holds heap t free) (lt : Nat → Nat → Bool) (hid : id ∈ t.elems)
    (htop : id ∉ t.tops) :
    Holds (phRemoveAndFreeNode lt heap id).1
        (Heap.merge lt (t.erase id) (Heap.combine lt (t.under id))) (free ++ [id]) ∧
      (phRemoveAndFreeNode lt heap id).2 = true := by
  have h0 : id ≠ 0 := ne_of_mem_of_not_mem hid h.shelf.zero_notMem
  have hhead : t.headD 0 ≠ id := by
    cases t with
    | nil => simp at hid
    | node r c s => exact fun he => htop (by simp [← he])
  generalize heq : ({ heap with
      nodes := ((phUnlink heap.maxNodes heap.nodes id).setParent id 0).setSibling id 0 } : Pheap) =
    heap₁
  have hres : phRemoveAndFreeNode lt heap id =
      let r₁ := phRemoveAnyHead lt heap₁ id true
      let r₂ := phMergeNodes lt r₁.1.nodes r₁.1.rootId r₁.2
      ({ r₁.1 with nodes := r₂.1, rootId := r₂.2 }, true) := by
    rw [phRemoveAndFreeNode, if_neg h0, if_neg (by rw [h.root]; exact Ne.symm hhead),
      if_neg (h.linked.parent_ne_zero hid htop), ← heq]
  rw [hres]
  obtain ⟨hle, hlu, hchild, hshelf, horphan⟩ := h.unlink hid htop heq.symm
  have hn := hshelf.nodup_used
  rw [Multiset.nodup_cons, Multiset.mem_add, not_or, Multiset.nodup_add] at hn
  obtain ⟨⟨hidu, hide⟩, hnu, hne, hdisj⟩ := hn
  have hperm := Heap.elems_erase h.nodup_elems hid
  have hsize : (t.under id).size ≤ heap₁.maxNodes := by
    have hcard := hshelf.card_le
    rw [Multiset.card_cons, Multiset.card_add, Heap.card_elems] at hcard
    omega
  have htail : heap₁.freeTailId ∉ (t.under id).elems := fun hm =>
    hshelf.tail_notMem (by simp [hm])
  have b := phRemoveAnyHead_spec lt true hchild hlu hnu hidu hsize htail
  have hshelf' := hshelf.beheaded b
  have hroot : heap₁.rootId = (t.erase id).headD 0 := by
    rw [← heq]
    dsimp only
    rw [h.root, Heap.headD_erase hhead]
  generalize phRemoveAnyHead lt heap₁ id true = r₁ at b hshelf'
  have hsplit := Heap.elems_combine lt (t.under id)
  have hle' : Linked r₁.1.nodes (t.erase id) := hle.congr fun x hx => by
    have hxu : x ∉ (t.under id).elems := Multiset.disjoint_right.1 hdisj hx
    have hxf : x ∉ free := hshelf.disjoint x (by simp [hx])
    have hfreed := hshelf.freed_of_notMem id true hxf
    exact PheapNode.ext (b.child x hxu)
      ((b.sibling x hxu (ne_of_mem_of_not_mem hx hide)).trans (by rw [hfreed])) (b.parent x hxu)
  have hsingle : (t.erase id).NoSibling := Heap.noSibling_erase h.single
  have hn' : ((t.erase id).elems + (Heap.combine lt (t.under id)).elems).Nodup := by
    rw [hsplit, Multiset.nodup_add]
    exact ⟨hne, hnu, hdisj.symm⟩
  have b₂ := phMergeNodes_built lt hle' b.linked hsingle (Heap.noSibling_combine lt _) hn'
  have hsplit₂ := Heap.elems_merge lt hsingle (Heap.noSibling_combine lt (t.under id))
  rw [← hroot, ← b.rootId, ← b.root] at b₂
  have hperm₂ : (Heap.merge lt (t.erase id) (Heap.combine lt (t.under id))).elems =
      (t.under id).elems + (t.erase id).elems := by rw [hsplit₂, hsplit, add_comm]
  have hroot0 : (t.erase id).headD 0 ≠ 0 := by
    rw [Heap.headD_erase hhead, Ne, h.linked.headD_eq_zero_iff]
    rintro rfl
    simp at hid
  have hdiff : r₁.1.rootId ≠ r₁.2 := by
    rw [b.rootId, hroot, b.root]
    exact Heap.headD_ne_headD (by rw [hsplit]; exact hdisj.symm) hroot0
  -- neither of the two roots has a parent
  have hleft : (r₁.1.nodes r₁.1.rootId).parent = 0 := by
    rw [b.rootId, hroot]
    rw [b.parent _ (Multiset.disjoint_right.1 hdisj (Heap.headD_mem_elems hroot0))]
    exact horphan _ (.inr (.inl (Heap.headD_erase hhead)))
  have hright : (r₁.1.nodes r₁.2).parent = 0 := by
    by_cases hz : r₁.2 = 0
    · have hzero := hshelf.zero_notMem
      simp only [Multiset.mem_cons, Multiset.mem_add, not_or] at hzero
      rw [hz, b.parent 0 hzero.2.1]
      exact horphan 0 (.inl h.shelf.zero_notMem)
    · exact b.orphan hz
  have hmerged := phMergeNodes_orphan lt hdiff hleft hright
  dsimp only
  generalize phMergeNodes lt r₁.1.nodes r₁.1.rootId r₁.2 = r₂ at b₂ hmerged
  refine ⟨⟨b₂.linked, b₂.root, Heap.noSibling_merge lt _ _, fun x hx => ?_, ?_⟩, rfl⟩
  · dsimp only
    rw [hperm₂, ← b₂.root] at hx
    by_cases hxr : x = r₂.2
    · rw [hxr, hmerged]
    · have hx' := hx.resolve_right hxr
      rw [b₂.frame x (by rwa [hperm₂])]
      rw [Multiset.mem_add, not_or] at hx'
      rw [b.parent x hx'.1]
      by_cases hxid : x = id
      · exact horphan x (.inr (.inr hxid))
      · refine horphan x (.inl fun hm => ?_)
        rw [← hperm] at hm
        simp [hxid, hx'] at hm
  · rw [hperm₂]
    exact hshelf'.congr (fun x hx => congrArg PheapNode.sibling (b₂.frame x (by rwa [hperm₂])))
      rfl rfl rfl

/-- **`ph_remove_and_free_node`** of any node of the heap. -/
theorem Holds.removeAndFreeNode (h : Holds heap t free) (lt : Nat → Nat → Bool)
    (hid : id ∈ t.elems) :
    Holds (phRemoveAndFreeNode lt heap id).1 (t.remove lt id) (free ++ [id]) ∧
      (phRemoveAndFreeNode lt heap id).2 = true := by
  have h0 : id ≠ 0 := ne_of_mem_of_not_mem hid h.shelf.zero_notMem
  cases t with
  | nil => simp at hid
  | node r c s =>
    obtain rfl : s = .nil := by cases h.single; rfl
    rw [Heap.remove]
    split
    · rename_i hr
      have hrootId : heap.rootId = r := h.root
      rw [phRemoveAndFreeNode, if_neg h0, hrootId, if_pos hr, hr]
      exact ⟨(h.removeHead lt true).1, rfl⟩
    · rename_i hr
      exact h.removeInner lt hid (by simpa using hr)

end VolumeControl
