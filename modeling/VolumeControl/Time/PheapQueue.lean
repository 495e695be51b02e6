import VolumeControl.Lib.Run
import VolumeControl.Time.PheapOps

/-!
# The heap is a priority queue

What the heap is for: a set of nodes that wait, each with a key, and a list of
free ones. `QueueSystem` runs the heap beside such a queue, on any calls that
keep to the rules of the heap (`Lawful`): only a node that is allocated and does
not wait is inserted or freed, and its key changes only then. Every answer of
the heap is one the queue allows (`pheap_serves`): the node removed has the
least key of those that wait, and nodes are handed out in the order in which
they were freed.
-/

open Trace Batteries.PairingHeapImp

namespace VolumeControl

/-- The queue: the nodes that wait, the free ones in order, and the keys. -/
structure PheapQueue where
  waiting : Finset Nat
  free : List Nat
  key : Nat → Nat

namespace PheapQueue

/-- A node that waits and has the least key. -/
def First (q : PheapQueue) (id : Nat) : Prop := id ∈ q.waiting ∧ ∀ b ∈ q.waiting, q.key id ≤ q.key b

/-- A node that is allocated and does not wait. -/
def Allocated (q : PheapQueue) (maxNodes id : Nat) : Prop :=
  id ∉ q.waiting ∧ id ∉ q.free ∧ 1 ≤ id ∧ id ≤ maxNodes

instance (q : PheapQueue) (maxNodes id : Nat) : Decidable (q.Allocated maxNodes id) :=
  inferInstanceAs (Decidable (_ ∧ _))

end PheapQueue

/-- The heap holds what waits, ordered by the keys. -/
def Queued (maxNodes : Nat) (heap : Pheap) (q : PheapQueue) : Prop :=
  heap.maxNodes = maxNodes ∧
    ∃ t, Holds heap t q.free ∧ t.elems = q.waiting.val ∧ t.Ordered q.key

/-! ## The operations on the queue -/

variable {n : Nat} {heap : Pheap} {q : PheapQueue} {t : Heap Nat} {id : Nat}

theorem queued_init (h0 : n ≠ 0) (key : Nat → Nat) :
    Queued n (phPostAllocInit n) ⟨∅, List.range' 1 n, key⟩ :=
  ⟨rfl, .nil, holds_init h0, rfl, trivial⟩

/-- The root of the heap is first in the queue. -/
theorem first_headD (hsingle : t.NoSibling) (helems : t.elems = q.waiting.val)
    (hord : t.Ordered q.key) (hne : q.waiting.Nonempty) : q.First (t.headD 0) := by
  obtain ⟨b, hb⟩ := hne
  cases hsingle with
  | nil => exact absurd (show b ∈ q.waiting.val from hb) (by simp [← helems])
  | node r c =>
    have hmem : ∀ x, x ∈ q.waiting ↔ x ∈ (Heap.node r c .nil).elems := fun x => by
      rw [helems]
      rfl
    exact ⟨(hmem r).2 (by simp), fun x hx => hord.root_le x ((hmem x).1 hx)⟩

theorem erase_val {waiting : Finset Nat} {rest : Multiset Nat} (h : id ::ₘ rest = waiting.val) :
    rest = (waiting.erase id).val := by
  rw [Finset.erase_val, ← h, Multiset.erase_cons_head]

theorem Queued.peekHead (h : Queued n heap q) :
    if q.waiting = ∅ then phPeekHead heap = 0 else q.First (phPeekHead heap) := by
  obtain ⟨-, t, hh, helems, hord⟩ := h
  rw [phPeekHead, hh.root]
  split
  · rename_i hempty
    cases t with
    | nil => rfl
    | node r c s => simp [hempty] at helems
  · rename_i hne
    exact first_headD hh.single helems hord (Finset.nonempty_iff_ne_empty.2 hne)

theorem Queued.newNode_nil (h : Queued n heap q) (hfree : q.free = []) :
    phNewNode heap = (heap, 0) := by
  obtain ⟨-, t, hh, -⟩ := h
  rw [hfree] at hh
  exact hh.newNode_nil

theorem Queued.newNode_cons (h : Queued n heap q) {free : List Nat} (hfree : q.free = id :: free) :
    Queued n (phNewNode heap).1 { q with free := free } ∧ (phNewNode heap).2 = id := by
  obtain ⟨hn, t, hh, helems, hord⟩ := h
  rw [hfree] at hh
  obtain ⟨hholds, hid⟩ := hh.newNode_cons
  refine ⟨⟨?_, t, hholds, helems, hord⟩, hid⟩
  rw [← hn, phNewNode]
  split <;> rfl

/-- The node that is handed out is allocated. -/
theorem Queued.allocated_of_free (h : Queued n heap q) {free : List Nat}
    (hfree : q.free = id :: free) : PheapQueue.Allocated { q with free := free } n id := by
  obtain ⟨hn, t, hh, helems, -⟩ := h
  rw [hfree] at hh
  have hwait : id ∉ q.waiting := fun hm =>
    hh.shelf.disjoint id (helems ▸ (show id ∈ q.waiting.val from hm)) List.mem_cons_self
  have hrange := hh.shelf.range id (by simp)
  exact ⟨hwait, (List.nodup_cons.1 hh.shelf.nodup_free).1, hrange.1, hn ▸ hrange.2⟩

theorem Queued.insertNode (h : Queued n heap q) (ha : q.Allocated n id) (key : Nat) :
    let q' : PheapQueue :=
      { q with waiting := insert id q.waiting, key := Function.update q.key id key }
    Queued n (phInsertNode (Heap.before q'.key) heap id).1 q' ∧
      q'.First (phInsertNode (Heap.before q'.key) heap id).2 := by
  obtain ⟨hn, t, hh, helems, hord⟩ := h
  obtain ⟨hwait, hfree, hlo, hhi⟩ := ha
  have hidt : id ∉ t.elems := by rwa [helems]
  dsimp only
  generalize hkey : Function.update q.key id key = keys
  have hord' : t.Ordered keys := hord.congr fun a ha => by
    rw [← hkey, Function.update_of_ne (ne_of_mem_of_not_mem ha hidt)]
  obtain ⟨hholds, hans⟩ := hh.insertNode (Heap.before keys) hidt hfree hlo (hn ▸ hhi)
  have hsingle : (Heap.singleton id).NoSibling := .node id .nil
  have helems' : (Heap.merge (Heap.before keys) t (Heap.singleton id)).elems =
      (insert id q.waiting).val := by
    rw [Heap.elems_merge (Heap.before keys) hh.single hsingle, Finset.insert_val_of_notMem hwait,
      helems, add_comm]
    rfl
  have hordm : (Heap.merge (Heap.before keys) t (Heap.singleton id)).Ordered keys :=
    hord'.merge ⟨by simp, trivial, trivial⟩
  rw [hans]
  exact ⟨⟨hn, _, hholds, helems', hordm⟩,
    first_headD (Heap.noSibling_merge _ _ _) helems' hordm (Finset.insert_nonempty _ _)⟩

/-- A node inserted comes first unless one that waits comes before it. -/
theorem Queued.insertNode_first_iff (h : Queued n heap q) (ha : q.Allocated n id) (key : Nat) :
    (phInsertNode (Heap.before (Function.update q.key id key)) heap id).2 = id ↔
      ∀ b ∈ q.waiting, key ≤ q.key b := by
  have hne : ∀ b ∈ q.waiting, b ≠ id := fun b hb => ne_of_mem_of_not_mem hb ha.1
  constructor
  · intro hfirst b hb
    have hle := (h.insertNode ha key).2.2 b (Finset.mem_insert_of_mem hb)
    rw [hfirst] at hle
    simpa [Function.update_of_ne (hne b hb)] using hle
  · intro hle
    have hpeek := h.peekHead
    simp only [phInsertNode, phMergeNodes]
    by_cases hroot : heap.rootId = 0
    · rw [if_pos hroot]
    · have hwait : ¬q.waiting = ∅ := fun hempty => hroot (by simpa [hempty, phPeekHead] using hpeek)
      rw [if_neg hwait] at hpeek
      have hid : id ≠ 0 := Nat.one_le_iff_ne_zero.1 ha.2.2.1
      have hlt : Heap.before (Function.update q.key id key) heap.rootId id = false := by
        have hmem : heap.rootId ∈ q.waiting := hpeek.1
        simp only [Heap.before, Function.update_self, Function.update_of_ne (hne _ hmem),
          decide_eq_false_iff_not, not_lt]
        exact hle _ hmem
      rw [if_neg hroot, if_neg hid, hlt]
      rfl

theorem Queued.removeHead (h : Queued n heap q) (free : Bool) (hne : q.waiting.Nonempty) :
    Queued n (phRemoveHead (Heap.before q.key) heap free).1
        { q with
          waiting := q.waiting.erase (phRemoveHead (Heap.before q.key) heap free).2
          free := if free then q.free ++ [(phRemoveHead (Heap.before q.key) heap free).2]
            else q.free } ∧
      q.First (phRemoveHead (Heap.before q.key) heap free).2 ∧
      (phRemoveHead (Heap.before q.key) heap free).2 = phPeekHead heap := by
  obtain ⟨hn, t, hh, helems, hord⟩ := h
  have hfirst := first_headD hh.single helems hord hne
  cases hs : hh.single with
  | nil =>
    obtain ⟨b, hb⟩ := hne
    exact absurd (show b ∈ q.waiting.val from hb) (by simp [← helems])
  | node r c =>
    obtain ⟨hholds, hans⟩ := hh.removeHead (Heap.before q.key) free
    have hrest : (Heap.combine (Heap.before q.key) c).elems = (q.waiting.erase r).val := by
      refine erase_val ?_
      rw [Heap.elems_combine, ← helems]
      simp
    have hmax : (phRemoveHead (Heap.before q.key) heap free).1.maxNodes = n := by
      rw [← hn, phRemoveHead, phRemoveAnyHead]
      cases free <;> rfl
    rw [hans]
    exact ⟨⟨hmax, _, hholds, hrest, hord.2.1.combine⟩, hfirst, hh.root.symm⟩

theorem Queued.freeNode (h : Queued n heap q) (ha : q.Allocated n id) :
    Queued n (phFreeNode heap id) { q with free := q.free ++ [id] } := by
  obtain ⟨hn, t, hh, helems, hord⟩ := h
  obtain ⟨hwait, hfree, hlo, hhi⟩ := ha
  exact ⟨hn, t, hh.freeNode (by rwa [helems]) hfree hlo (hn ▸ hhi), helems, hord⟩

theorem Queued.removeAndFreeNode (h : Queued n heap q) (hid : id ∈ q.waiting) :
    Queued n (phRemoveAndFreeNode (Heap.before q.key) heap id).1
        { q with waiting := q.waiting.erase id, free := q.free ++ [id] } ∧
      (phRemoveAndFreeNode (Heap.before q.key) heap id).2 = true := by
  obtain ⟨hn, t, hh, helems, hord⟩ := h
  have hidt : id ∈ t.elems := by rwa [helems]
  obtain ⟨hholds, hans⟩ := hh.removeAndFreeNode (Heap.before q.key) hidt
  have hsplit := Heap.elems_remove (Heap.before q.key) hh.nodup_elems hidt hh.single
  have hmax : (phRemoveAndFreeNode (Heap.before q.key) heap id).1.maxNodes = n := by
    rw [← hn, phRemoveAndFreeNode]
    split
    · rfl
    · split
      · rfl
      · split <;> rfl
  exact ⟨⟨hmax, _, hholds, erase_val (hsplit.trans helems), hord.remove id⟩, hans⟩

theorem Queued.removeAndFreeNode_of_notMem (h : Queued n heap q) (hid : id ∉ q.waiting) :
    phRemoveAndFreeNode (Heap.before q.key) heap id = (heap, false) := by
  obtain ⟨-, t, hh, helems, -⟩ := h
  exact hh.removeAndFreeNode_of_notMem _ (by rwa [helems])

theorem Queued.containsNode (h : Queued n heap q) (hid : id ≠ 0) :
    phContainsNode heap id = decide (id ∈ q.waiting) := by
  obtain ⟨-, t, hh, helems, -⟩ := h
  have hmem : id ∈ t.elems ↔ id ∈ q.waiting := by
    rw [helems]
    rfl
  rw [hh.containsNode hid]
  simp only [hmem]

/-! ## Calls -/

inductive PheapCall
  | newNode
  | insertNode (id key : Nat)
  | removeHead (free : Bool)
  | freeNode (id : Nat)
  | removeAndFreeNode (id : Nat)
  | containsNode (id : Nat)
  | peekHead
  deriving DecidableEq, Repr

structure QueueSystem where
  heap : Pheap
  queue : PheapQueue
  /-- The answer to the last call. -/
  answer : Nat

def QueueSystem.init (maxNodes : Nat) : QueueSystem :=
  ⟨phPostAllocInit maxNodes, ⟨∅, List.range' 1 maxNodes, fun _ => 0⟩, 0⟩

/-- A call to the heap. The queue follows the answers. -/
def queueStep (s : QueueSystem) : PheapCall → QueueSystem
  | .newNode =>
    let (heap, id) := phNewNode s.heap
    ⟨heap, { s.queue with free := s.queue.free.tail }, id⟩
  | .insertNode id key =>
    let keys := Function.update s.queue.key id key
    let (heap, head) := phInsertNode (Heap.before keys) s.heap id
    ⟨heap, { s.queue with waiting := insert id s.queue.waiting, key := keys }, head⟩
  | .removeHead free =>
    let (heap, id) := phRemoveHead (Heap.before s.queue.key) s.heap free
    ⟨heap,
      { s.queue with
        waiting := s.queue.waiting.erase id
        free := if free then s.queue.free ++ [id] else s.queue.free }, id⟩
  | .freeNode id =>
    ⟨phFreeNode s.heap id, { s.queue with free := s.queue.free ++ [id] }, 0⟩
  | .removeAndFreeNode id =>
    let (heap, found) := phRemoveAndFreeNode (Heap.before s.queue.key) s.heap id
    ⟨heap,
      { s.queue with
        waiting := s.queue.waiting.erase id
        free := if id ∈ s.queue.waiting then s.queue.free ++ [id] else s.queue.free }, found.toNat⟩
  | .containsNode id => { s with answer := (phContainsNode s.heap id).toNat }
  | .peekHead => { s with answer := phPeekHead s.heap }

/-- The rules of the heap. -/
def Lawful (s : QueueSystem) : PheapCall → Prop
  | .insertNode id _ => s.queue.Allocated s.heap.maxNodes id
  | .freeNode id => s.queue.Allocated s.heap.maxNodes id
  | .removeHead _ => s.queue.waiting.Nonempty
  | .removeAndFreeNode id => id ≤ s.heap.maxNodes
  | .containsNode id => 1 ≤ id ∧ id ≤ s.heap.maxNodes
  | .newNode | .peekHead => True

instance (s : QueueSystem) : ∀ call, Decidable (Lawful s call)
  | .newNode => inferInstanceAs (Decidable True)
  | .insertNode id _ => inferInstanceAs (Decidable (s.queue.Allocated s.heap.maxNodes id))
  | .removeHead _ => inferInstanceAs (Decidable s.queue.waiting.Nonempty)
  | .freeNode id => inferInstanceAs (Decidable (s.queue.Allocated s.heap.maxNodes id))
  | .removeAndFreeNode id => inferInstanceAs (Decidable (id ≤ s.heap.maxNodes))
  | .containsNode id => inferInstanceAs (Decidable (1 ≤ id ∧ id ≤ s.heap.maxNodes))
  | .peekHead => inferInstanceAs (Decidable True)

/-- What the queue allows the heap to answer. -/
def Served (s : QueueSystem) (call : PheapCall) : Prop :=
  let answer := (queueStep s call).answer
  match call with
  | .newNode => answer = s.queue.free.headD 0
  | .insertNode _ _ => (queueStep s call).queue.First answer
  | .removeHead _ => s.queue.First answer
  | .removeAndFreeNode id | .containsNode id => answer = if id ∈ s.queue.waiting then 1 else 0
  | .peekHead => if s.queue.waiting = ∅ then answer = 0 else s.queue.First answer
  | .freeNode _ => True

/-- One call. -/
theorem Queued.step {s : QueueSystem} (h : Queued n s.heap s.queue) {call : PheapCall}
    (hl : Lawful s call) :
    Queued n (queueStep s call).heap (queueStep s call).queue ∧ Served s call := by
  obtain rfl : s.heap.maxNodes = n := h.1
  cases call with
  | newNode =>
    cases hfree : s.queue.free with
    | nil =>
      have hnew := h.newNode_nil hfree
      simp only [Served, queueStep, hnew, hfree, List.tail_nil, List.headD_nil]
      exact ⟨by simpa only [← hfree] using h, trivial⟩
    | cons id free =>
      obtain ⟨hq, hid⟩ := h.newNode_cons hfree
      simp only [Served, queueStep, hfree, List.tail_cons, List.headD_cons]
      exact ⟨hq, hid⟩
  | insertNode id key => exact h.insertNode hl key
  | removeHead free =>
    obtain ⟨hq, hfirst, -⟩ := h.removeHead free hl
    exact ⟨hq, hfirst⟩
  | freeNode id => exact ⟨h.freeNode hl, trivial⟩
  | removeAndFreeNode id =>
    by_cases hid : id ∈ s.queue.waiting
    · obtain ⟨hq, hans⟩ := h.removeAndFreeNode hid
      simp only [Served, queueStep, hans, if_pos hid]
      exact ⟨hq, rfl⟩
    · have hans := h.removeAndFreeNode_of_notMem hid
      simp only [Served, queueStep, hans, if_neg hid, Finset.erase_eq_of_notMem hid]
      exact ⟨h, rfl⟩
  | containsNode id =>
    refine ⟨h, ?_⟩
    simp only [Served, queueStep, h.containsNode (Nat.one_le_iff_ne_zero.1 hl.1)]
    by_cases hid : id ∈ s.queue.waiting <;> simp [hid]
  | peekHead => exact ⟨h, h.peekHead⟩

/-- **The heap is a priority queue.** Whatever lawful calls are made to a new heap, each answer is
one that the queue allows. -/
theorem pheap_serves {maxNodes : Nat} (h0 : maxNodes ≠ 0) (calls : List PheapCall)
    (hl : AllSteps queueStep Lawful (.init maxNodes) calls) :
    AllSteps queueStep Served (.init maxNodes) calls :=
  hl.imp_of_inv (fun s => Queued maxNodes s.heap s.queue) (fun _ _ h hl => (h.step hl).1)
    (fun _ _ h hl => (h.step hl).2) (queued_init h0 _)

/-- Three nodes; the one in the middle is removed, then the least of the others. -/
theorem pheap_serves_three :
    AllSteps queueStep Served (.init 4) [.newNode, .newNode, .newNode, .insertNode 1 30,
      .insertNode 2 10, .insertNode 3 20, .removeAndFreeNode 3, .removeHead false, .freeNode 2,
      .newNode] :=
  pheap_serves (by decide) _ (by decide +kernel)

end VolumeControl
