import Mathlib.Logic.Function.Basic

/-!
# The heap of the alarm pool

`pheap` of the SDK: a pairing heap whose nodes are numbered from 1 and linked by
their numbers, `child`, `sibling` and `parent`; 0 stands for none. The user of
the heap keeps what a node stands for in arrays of its own and compares two
nodes by a function, here `lt`. Nodes that are not allocated are in a list,
linked by `sibling`, from whose head they are taken and to whose tail they
return.
-/

namespace VolumeControl

@[ext]
structure PheapNode where
  child : Nat
  sibling : Nat
  parent : Nat
  deriving DecidableEq, Repr

/-- The array of nodes, by `ph_get_node`. -/
abbrev PheapNodes := Nat → PheapNode

structure Pheap where
  nodes : PheapNodes
  maxNodes : Nat
  rootId : Nat
  freeHeadId : Nat
  freeTailId : Nat

namespace PheapNodes

variable (nodes : PheapNodes) (id v x : Nat)

def setChild : PheapNodes := Function.update nodes id { nodes id with child := v }

def setSibling : PheapNodes := Function.update nodes id { nodes id with sibling := v }

def setParent : PheapNodes := Function.update nodes id { nodes id with parent := v }

@[simp] theorem setChild_child :
    (nodes.setChild id v x).child = if x = id then v else (nodes x).child := by
  by_cases h : x = id <;> simp [setChild, h]

@[simp] theorem setChild_sibling : (nodes.setChild id v x).sibling = (nodes x).sibling := by
  by_cases h : x = id <;> simp [setChild, h]

@[simp] theorem setChild_parent : (nodes.setChild id v x).parent = (nodes x).parent := by
  by_cases h : x = id <;> simp [setChild, h]

@[simp] theorem setSibling_child : (nodes.setSibling id v x).child = (nodes x).child := by
  by_cases h : x = id <;> simp [setSibling, h]

@[simp] theorem setSibling_sibling :
    (nodes.setSibling id v x).sibling = if x = id then v else (nodes x).sibling := by
  by_cases h : x = id <;> simp [setSibling, h]

@[simp] theorem setSibling_parent : (nodes.setSibling id v x).parent = (nodes x).parent := by
  by_cases h : x = id <;> simp [setSibling, h]

@[simp] theorem setParent_child : (nodes.setParent id v x).child = (nodes x).child := by
  by_cases h : x = id <;> simp [setParent, h]

@[simp] theorem setParent_sibling : (nodes.setParent id v x).sibling = (nodes x).sibling := by
  by_cases h : x = id <;> simp [setParent, h]

@[simp] theorem setParent_parent :
    (nodes.setParent id v x).parent = if x = id then v else (nodes x).parent := by
  by_cases h : x = id <;> simp [setParent, h]

variable {nodes id v x}

theorem setChild_other (h : x ≠ id) : nodes.setChild id v x = nodes x := Function.update_of_ne h _ _

theorem setSibling_other (h : x ≠ id) : nodes.setSibling id v x = nodes x :=
  Function.update_of_ne h _ _

theorem setParent_other (h : x ≠ id) : nodes.setParent id v x = nodes x :=
  Function.update_of_ne h _ _

end PheapNodes

section Model

variable (lt : Nat → Nat → Bool)

/-! ## Merging -/

def phAddChildNode (nodes : PheapNodes) (parentId childId : Nat) : PheapNodes :=
  let nodes := nodes.setParent childId parentId
  if (nodes parentId).child = 0 then nodes.setChild parentId childId
  else (nodes.setSibling childId (nodes parentId).child).setChild parentId childId

def phMergeNodes (nodes : PheapNodes) (a b : Nat) : PheapNodes × Nat :=
  if a = 0 then (nodes, b)
  else if b = 0 then (nodes, a)
  else if lt a b then (phAddChildNode nodes a b, a)
  else (phAddChildNode nodes b a, b)

/-- `fuel` bounds the recursion, which ends with the list of siblings. -/
def phMergeTwoPass (fuel : Nat) (nodes : PheapNodes) (id : Nat) : PheapNodes × Nat :=
  match fuel with
  | 0 => (nodes, id)
  | fuel + 1 =>
    if id = 0 ∨ (nodes id).sibling = 0 then (nodes, id)
    else
      let b := (nodes id).sibling
      let newNode := (nodes b).sibling
      let nodes := (nodes.setSibling b 0).setSibling id 0
      let (nodes, first) := phMergeNodes lt nodes id b
      let (nodes, rest) := phMergeTwoPass fuel nodes newNode
      phMergeNodes lt nodes first rest

/-! ## The operations -/

def phClear (heap : Pheap) : Pheap :=
  { heap with
    rootId := 0
    freeHeadId := 1
    freeTailId := heap.maxNodes
    nodes := fun i =>
      if 1 ≤ i ∧ i < heap.maxNodes then { heap.nodes i with sibling := i + 1 }
      else if i = heap.maxNodes then { heap.nodes i with sibling := 0 }
      else heap.nodes i }

/-- `ph_post_alloc_init` of a heap whose nodes are zero. -/
def phPostAllocInit (maxNodes : Nat) : Pheap :=
  phClear ⟨fun _ => ⟨0, 0, 0⟩, maxNodes, 0, 0, 0⟩

def phPeekHead (heap : Pheap) : Nat := heap.rootId

/-- `id` at the tail of the list of free nodes. -/
def phFreeTail (heap : Pheap) (id : Nat) : Pheap :=
  { heap with
    nodes := if heap.freeTailId ≠ 0 then heap.nodes.setSibling heap.freeTailId id else heap.nodes
    freeHeadId := if heap.freeHeadId = 0 then id else heap.freeHeadId
    freeTailId := id }

def phFreeNode (heap : Pheap) (id : Nat) : Pheap := phFreeTail heap id

def phRemoveAnyHead (heap : Pheap) (rootId : Nat) (free : Bool) : Pheap × Nat :=
  let (nodes, newRootId) := phMergeTwoPass lt heap.maxNodes heap.nodes (heap.nodes rootId).child
  let heap := { heap with nodes := nodes }
  let heap := if free then phFreeTail heap rootId else heap
  let nodes := if newRootId ≠ 0 then heap.nodes.setParent newRootId 0 else heap.nodes
  ({ heap with nodes := nodes.setSibling rootId 0 }, newRootId)

def phRemoveHead (heap : Pheap) (free : Bool) : Pheap × Nat :=
  let oldRootId := phPeekHead heap
  let (heap, rootId) := phRemoveAnyHead lt heap oldRootId free
  ({ heap with rootId := rootId }, oldRootId)

def phNewNode (heap : Pheap) : Pheap × Nat :=
  if heap.freeHeadId = 0 then (heap, 0)
  else
    let id := heap.freeHeadId
    let freeHeadId := (heap.nodes id).sibling
    ({ heap with
        freeHeadId := freeHeadId
        freeTailId := if freeHeadId = 0 then 0 else heap.freeTailId
        nodes := Function.update heap.nodes id ⟨0, 0, 0⟩ }, id)

def phInsertNode (heap : Pheap) (id : Nat) : Pheap × Nat :=
  let nodes := Function.update heap.nodes id ⟨0, 0, 0⟩
  let (nodes, rootId) := phMergeNodes lt nodes heap.rootId id
  ({ heap with nodes := nodes, rootId := rootId }, rootId)

def phContainsNode (heap : Pheap) (id : Nat) : Bool :=
  id == heap.rootId || (heap.nodes id).parent != 0

/-- The loop that looks for the sibling before `id`; 0 if there is none. -/
def phPrevSibling (fuel : Nat) (nodes : PheapNodes) (prevSiblingId id : Nat) : Nat :=
  match fuel with
  | 0 => 0
  | fuel + 1 =>
    if (nodes prevSiblingId).sibling = id then prevSiblingId
    else if (nodes prevSiblingId).sibling = 0 then 0
    else phPrevSibling fuel nodes (nodes prevSiblingId).sibling id

/-- Unlinks a node from its parent or from the sibling before it. -/
def phUnlink (fuel : Nat) (nodes : PheapNodes) (id : Nat) : PheapNodes :=
  let parent := (nodes id).parent
  if (nodes parent).child = id then nodes.setChild parent (nodes id).sibling
  else
    let prev := phPrevSibling fuel nodes (nodes parent).child id
    if prev ≠ 0 then nodes.setSibling prev (nodes id).sibling else nodes

def phRemoveAndFreeNode (heap : Pheap) (id : Nat) : Pheap × Bool :=
  if id = 0 then (heap, false)
  else if id = heap.rootId then ((phRemoveHead lt heap true).1, true)
  else if (heap.nodes id).parent = 0 then (heap, false)
  else
    let nodes := phUnlink heap.maxNodes heap.nodes id
    let heap := { heap with nodes := (nodes.setParent id 0).setSibling id 0 }
    let (heap, newSubTree) := phRemoveAnyHead lt heap id true
    let (nodes, rootId) := phMergeNodes lt heap.nodes heap.rootId newSubTree
    ({ heap with nodes := nodes, rootId := rootId }, true)

end Model

end VolumeControl
