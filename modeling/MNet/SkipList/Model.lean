import MNet.Timer

/-! # The skip list

`skiplist_t` as it lies in memory: a list head with `MNET_SKIPLIST_MAX_LEVEL` links, nodes with as
many links as their level, and for each link the two it points to. Following a link that is not
there, that of a freed node say, is a fault. -/

namespace MNet.Skip
open MNet.Lib MNet.Lib.Exec

def MNET_SKIPLIST_MAX_LEVEL : Nat := 32

/-- What a link is part of. -/
inductive Owner where
  | head
  | node (id : NodeId)
deriving DecidableEq, Repr

/-- `struct sk_link *`: `&list->head[level]` or `&node->link[level]`. -/
structure SkLink where
  owner : Owner
  level : Nat
deriving DecidableEq, Repr

/-- `skipnode_t`, less its links. -/
structure SkipNode where
  key : Int
  value : ChannTm
  level : Nat
deriving DecidableEq, Repr

/-- `skiplist_t`, its nodes and all links. -/
structure SkipList where
  level : Int
  count : Int
  next : SkLink → SkLink
  prev : SkLink → SkLink
  node : NodeId → Option SkipNode
  nextNode : NodeId

/-- The number of links an owner has. -/
def SkipList.links (m : SkipList) : Owner → Nat
  | .head => MNET_SKIPLIST_MAX_LEVEL
  | .node id => ((m.node id).map SkipNode.level).getD 0

abbrev S := Exec SkipList Fault

def checkLink (p : SkLink) : S Unit := do
  let m ← Exec.read id
  if p.level < m.links p.owner then pure () else Exec.fail .useAfterFree

def linkNext (p : SkLink) : S SkLink := do
  checkLink p
  Exec.read (·.next p)

def linkPrev (p : SkLink) : S SkLink := do
  checkLink p
  Exec.read (·.prev p)

def setNext (p q : SkLink) : S Unit := do
  checkLink p
  Exec.modify fun m => { m with next := Function.update m.next p q }

def setPrev (p q : SkLink) : S Unit := do
  checkLink p
  Exec.modify fun m => { m with prev := Function.update m.prev p q }

def listInit (link : SkLink) : S Unit := do
  setNext link link
  setPrev link link

/-- `__list_add`. -/
def listAdd (link prev next : SkLink) : S Unit := do
  setNext link next
  setPrev link prev
  setPrev next link
  setNext prev link

/-- `__list_del`. -/
def listUnlink (prev next : SkLink) : S Unit := do
  setNext prev next
  setPrev next prev

def listDel (link : SkLink) : S Unit := do
  let prev ← linkPrev link
  let next ← linkNext link
  listUnlink prev next
  listInit link

def listEmpty (link : SkLink) : S Bool := do
  let next ← linkNext link
  return next = link

/-- `list_entry(pos, skipnode_t, link[i])`, and the node read. -/
def listEntry (pos : SkLink) (i : Nat) : S SkipNode := do
  checkLink pos
  let m ← Exec.read id
  match pos.owner with
  | .head => Exec.fail .useAfterFree
  | .node id => if pos.level = i then Exec.require .useAfterFree (m.node id) else Exec.fail .useAfterFree

/-- `pos--`: the link one level below. Below level 0 the loops are over. -/
def SkLink.below (p : SkLink) : SkLink := { p with level := p.level - 1 }

/-- All links of the head point to themselves; node memory holds nothing yet. -/
def skiplistCreate : SkipList where
  level := 1
  count := 0
  next := id
  prev := id
  node := fun _ => none
  nextNode := 0

/-- `hits` is the number of random values below `0xffff * p` before the first other one. -/
def skiplistRandomLevel (hits : Nat) : Nat :=
  let level := 1 + hits
  if level > MNET_SKIPLIST_MAX_LEVEL then MNET_SKIPLIST_MAX_LEVEL else level

/-- `mm_malloc` leaves the links as they are. -/
def skipnodeCreate (level : Nat) (key : Int) (value : ChannTm) : S NodeId := do
  let id ← Exec.read SkipList.nextNode
  Exec.modify fun m =>
    { m with
      node := Function.update m.node id (some { key := key, value := value, level := level })
      nextNode := id + 1 }
  return id

def skipnodeDestroy (id : NodeId) : S Unit :=
  Exec.modify fun m => { m with node := Function.update m.node id none }

/-- `skiplist_foreach` up to the first node whose key is not smaller, which becomes `end`. -/
def searchLoop (i : Nat) (key : Int) : Nat → SkLink → SkLink → S SkLink
  | 0, _, _ => Exec.fail .hang
  | fuel + 1, pos, stop => do
    if pos = stop then return stop
    else
      let nd ← listEntry pos i
      if nd.key ≥ key then return pos
      else
        let pos ← linkNext pos
        searchLoop i key fuel pos stop

/-- No level has more nodes than were ever created. -/
def levelFuel : S Nat := Exec.read fun m => m.nextNode + 1

/-- The loop of `skiplist_insert` over the levels below the given one. -/
def insertLoop (id : NodeId) (level : Nat) (key : Int) : Nat → SkLink → SkLink → S Unit
  | 0, _, _ => pure ()
  | i + 1, pos, stop => do
    let pos ← linkNext pos
    let fuel ← levelFuel
    let stop ← searchLoop i key fuel pos stop
    let pos ← linkPrev stop
    Exec.when (i < level) (listAdd ⟨.node id, i⟩ pos stop)
    insertLoop id level key i pos.below stop.below

def skiplistInsert (hits : Nat) (key : Int) (value : ChannTm) : S NodeId := do
  let level := skiplistRandomLevel hits
  Exec.modify fun m => if level > m.level then { m with level := level } else m
  let id ← skipnodeCreate level key value
  let top ← Exec.read fun m => m.level.toNat
  insertLoop id level key top ⟨.head, top - 1⟩ ⟨.head, top - 1⟩
  Exec.modify fun m => { m with count := m.count + 1 }
  return id

/-- The loop of `skiplist_remove_skipnode`, from level `i` on. -/
def removeLoop (id : NodeId) : Nat → Nat → S Unit
  | 0, _ => pure ()
  | rest + 1, i => do
    listDel ⟨.node id, i⟩
    let empty ← listEmpty ⟨.head, i⟩
    Exec.when empty (Exec.modify fun m => { m with level := m.level - 1 })
    removeLoop id rest (i + 1)

def skiplistRemoveSkipnode (id : NodeId) : S Unit := do
  let m ← Exec.read fun m => m
  let nd ← Exec.require .useAfterFree (m.node id)
  removeLoop id nd.level 0
  skipnodeDestroy id
  Exec.modify fun m => { m with count := m.count - 1 }

/-! ## Runs -/

inductive Op where
  | insert (hits : Nat) (key : Int) (value : ChannTm)
  | remove (id : NodeId)
deriving DecidableEq, Repr

def opCall : Op → S Unit
  | .insert hits key value => do
    let _ ← skiplistInsert hits key value
    pure ()
  | .remove id => skiplistRemoveSkipnode id

def opCalls : List Op → S Unit
  | [] => pure ()
  | op :: ops => do
    opCall op
    opCalls ops

end MNet.Skip
