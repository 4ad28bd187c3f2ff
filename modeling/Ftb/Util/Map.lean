import Ftb.Lib.KeyList
import Ftb.Lib.Links

/-!
# The map in memory (`ftb_util.c`)

`FTBU_map_*` on a heap of nodes with `next` and `prev` pointers. The heap has a node at every address
that is allocated, so a use of an address that is not has no value. `malloc` returns any address that
is not allocated: the calls name it. The turns of a loop are counted, and `fuel` is a bound for them
that every long enough one agrees on (`keyed_list`).
-/

namespace FTBU.Map

/-- The codes that the calls return. -/
inductive MapRet
  | success
  | exist
  | notExist
  deriving DecidableEq, Repr

/-- `data` of a node: the comparison function, which the head node holds and which may be NULL, or
what the caller stored. -/
inductive NodeData (K D : Type)
  | isEqual (func : Option (K → K → Int))
  | value (data : D)

/-- `FTBU_map_node_t`. The head node has no key. -/
structure MapNode (K D : Type) where
  next : Nat
  prev : Nat
  key : Option K
  data : NodeData K D

/-- The nodes that are allocated, at their addresses. -/
abbrev Heap (K D : Type) := Nat → Option (MapNode K D)

variable {K D : Type}

namespace Heap

/-- `malloc` of a node, with its first assignments. -/
def malloc (addr : Nat) (node : MapNode K D) (h : Heap K D) : Option (Heap K D) :=
  match h addr with
  | none => some (Function.update h addr (some node))
  | some _ => none

def free (addr : Nat) (h : Heap K D) : Option (Heap K D) :=
  (h addr).map fun _ => Function.update h addr none

/-- `a->next = b`. -/
def setNext (a b : Nat) (h : Heap K D) : Option (Heap K D) :=
  (h a).map fun node => Function.update h a (some { node with next := b })

/-- `a->prev = b`. -/
def setPrev (a b : Nat) (h : Heap K D) : Option (Heap K D) :=
  (h a).map fun node => Function.update h a (some { node with prev := b })

end Heap

/-! ## The functions -/

/-- `util_key_match`. A NULL comparison function is `FTBU_NULL_PTR`, which is not 0. -/
def utilKeyMatch (head : Nat) (key1 key2 : K) (h : Heap K D) : Option Int := do
  let node ← h head
  match node.data with
  | .isEqual none => pure (-1)
  | .isEqual (some func) => pure (func key1 key2)
  | .value _ => none

/-- `FTBU_map_init`, for which `malloc` returned `node`. -/
def mapInit (isEqual : K → K → Int) (node : Nat) (h : Heap K D) : Option (Heap K D) :=
  h.malloc node { next := node, prev := node, key := none, data := .isEqual (some isEqual) }

/-- The loop `FTBU_list_for_each_readonly` of `FTBU_map_insert` and `FTBU_map_find_key` from `pos` on:
the node whose key matches, if there is one. -/
def matchLoop (head : Nat) (key : K) (h : Heap K D) : Nat → Nat → Option (Option Nat)
  | 0, _ => none
  | n + 1, pos =>
    if pos = head then some none
    else do
      let node ← h pos
      let posKey ← node.key
      if (← utilKeyMatch head posKey key h) ≠ 0 then pure (some pos)
      else matchLoop head key h n node.next

/-- `FTBU_map_insert`, for which `malloc` returned `newNode`, if it was called. -/
def mapInsert (fuel head : Nat) (key : K) (data : D) (newNode : Nat) (h : Heap K D) :
    Option (MapRet × Heap K D) := do
  let headNode ← h head
  match ← matchLoop head key h fuel headNode.next with
  | some _ => pure (.exist, h)
  | none => do
    let h ← h.malloc newNode { next := 0, prev := 0, key := some key, data := .value data }
    let headNode ← h head
    let h ← h.setNext headNode.prev newNode
    let h ← h.setNext newNode head
    let headNode ← h head
    let h ← h.setPrev newNode headNode.prev
    let h ← h.setPrev head newNode
    pure (.success, h)

/-- `FTBU_map_find_key`. -/
def mapFindKey (fuel head : Nat) (key : K) (h : Heap K D) : Option Nat := do
  let headNode ← h head
  match ← matchLoop head key h fuel headNode.next with
  | some pos => pure pos
  | none => pure head

/-- `FTBU_map_remove_node`. -/
def mapRemoveNode (node : Nat) (h : Heap K D) : Option (MapRet × Heap K D) := do
  let n ← h node
  let h ← h.setPrev n.next n.prev
  let n ← h node
  let h ← h.setNext n.prev n.next
  let h ← h.free node
  pure (.success, h)

/-- The loop `FTBU_list_for_each` of `FTBU_map_remove_key`. Its body does what `FTBU_map_remove_node`
does. -/
def removeLoop (head : Nat) (key : K) (h : Heap K D) : Nat → Nat → Nat → Option (MapRet × Heap K D)
  | 0, _, _ => none
  | n + 1, pos, temp =>
    if pos = head then some (.notExist, h)
    else do
      let node ← h pos
      let posKey ← node.key
      if (← utilKeyMatch head posKey key h) ≠ 0 then mapRemoveNode pos h
      else do
        let tempNode ← h temp
        removeLoop head key h n temp tempNode.next

/-- `FTBU_map_remove_key`. -/
def mapRemoveKey (fuel head : Nat) (key : K) (h : Heap K D) : Option (MapRet × Heap K D) := do
  let headNode ← h head
  let node ← h headNode.next
  removeLoop head key h fuel headNode.next node.next

/-! ## Any calls -/

inductive Call (K D : Type)
  | insert (key : K) (data : D) (newNode : Nat)
  | findKey (key : K)
  | removeKey (key : K)
  | removeNode (node : Nat)

/-- What a call returns. -/
inductive Answer
  | ret (ret : MapRet)
  | node (pos : Nat)
  deriving DecidableEq, Repr

def Call.run (fuel head : Nat) (h : Heap K D) : Call K D → Option (Answer × Heap K D)
  | .insert key data newNode =>
    (mapInsert fuel head key data newNode h).map fun r => (.ret r.1, r.2)
  | .findKey key => (mapFindKey fuel head key h).map fun pos => (.node pos, h)
  | .removeKey key => (mapRemoveKey fuel head key h).map fun r => (.ret r.1, r.2)
  | .removeNode node => (mapRemoveNode node h).map fun r => (.ret r.1, r.2)

def runCalls (fuel head : Nat) : List (Call K D) → Heap K D → Option (List Answer × Heap K D)
  | [], h => some ([], h)
  | call :: calls, h => do
    let (answer, h) ← call.run fuel head h
    let (answers, h) ← runCalls fuel head calls h
    pure (answer :: answers, h)

end FTBU.Map
