import MNet.Lib.Ends
import MNet.Lib.TreeLinks

/-! # The red-black tree of wepoll

`tree_t` and `tree_node_t`, with the rotations and the rebalancing as the macros have them: the
macro parameters `cis` and `trans` are a side and the other one. Nodes live in a memory `node`;
a null pointer is `none`. -/

namespace MNet.Wepoll

open Lib Lib.Exec

structure TreeNode (ι : Type) where
  left : Option ι := none
  right : Option ι := none
  parent : Option ι := none
  key : Nat := 0
  red : Bool := false

structure Tree (ι : Type) where
  root : Option ι := none
  node : ι → TreeNode ι := fun _ => {}

inductive TreeFault where
  | nullDereference
  | stuck
  deriving DecidableEq

variable {ι : Type} [DecidableEq ι]

def TreeNode.link (n : TreeNode ι) : Side → Option ι
  | .left => n.left
  | .right => n.right

def TreeNode.setLink (n : TreeNode ι) (s : Side) (o : Option ι) : TreeNode ι :=
  match s with
  | .left => { n with left := o }
  | .right => { n with right := o }

namespace Tree

def update (t : Tree ι) (x : ι) (f : TreeNode ι → TreeNode ι) : Tree ι :=
  { t with node := Function.update t.node x (f (t.node x)) }

def link (t : Tree ι) (x : ι) (s : Side) : Option ι := (t.node x).link s

def parent (t : Tree ι) (x : ι) : Option ι := (t.node x).parent

def key (t : Tree ι) (x : ι) : Nat := (t.node x).key

def red (t : Tree ι) (x : ι) : Bool := (t.node x).red

def setRoot (t : Tree ι) (o : Option ι) : Tree ι := { t with root := o }

def setLink (t : Tree ι) (x : ι) (s : Side) (o : Option ι) : Tree ι := t.update x fun n => n.setLink s o

def setParent (t : Tree ι) (x : ι) (o : Option ι) : Tree ι := t.update x fun n => { n with parent := o }

def setKey (t : Tree ι) (x : ι) (k : Nat) : Tree ι := t.update x fun n => { n with key := k }

def setRed (t : Tree ι) (x : ι) (c : Bool) : Tree ι := t.update x fun n => { n with red := c }

end Tree

/-- Code that works on one tree. -/
abbrev TreeM (ι : Type) : Type → Type := Exec (Tree ι) TreeFault

/-- The node behind a pointer. -/
def deref (o : Option ι) : TreeM ι ι := require .nullDereference o

/-- The link to `p` in its `parent`, or in the tree, now points to `q`. -/
def treeRelink (parent : Option ι) (p : ι) (q : Option ι) : TreeM ι Unit :=
  match parent with
  | some parent => do
    let left ← read fun t => t.link parent .left
    if left = some p then
      modify fun t => t.setLink parent .left q
    else
      modify fun t => t.setLink parent .right q
  | none => modify fun t => t.setRoot q

/-- `TREE__ROTATE(cis, trans)`. -/
def treeRotate (cis : Side) (node : ι) : TreeM ι Unit := do
  let p := node
  let q ← read fun t => t.link node cis.other
  let parent ← read fun t => t.parent p
  treeRelink parent p q
  let q ← deref q
  modify fun t => t.setParent q parent
  modify fun t => t.setParent p (some q)
  let b ← read fun t => t.link q cis
  modify fun t => t.setLink p cis.other b
  forSome b fun b => modify fun t => t.setParent b (some p)
  modify fun t => t.setLink q cis (some p)

/-- Whether `o && o->red`. -/
def Tree.isRed (t : Tree ι) (o : Option ι) : Bool := o.any t.red

/-- `TREE__REBALANCE_AFTER_INSERT(cis, trans)`, which leaves the `node` the loop goes on with. -/
def treeRebalanceAfterInsert (cis : Side) (node parent : ι) : TreeM ι ι := do
  let grandparent ← read fun t => t.parent parent
  let grandparent ← deref grandparent
  let uncle ← read fun t => t.link grandparent cis.other
  let red ← read fun t => t.isRed uncle
  if red then
    forSome uncle fun uncle => modify fun t => t.setRed uncle false
    modify fun t => t.setRed parent false
    modify fun t => t.setRed grandparent true
    pure grandparent
  else
    let trans ← read fun t => t.link parent cis.other
    if trans = some node then
      treeRotate cis parent
      let up ← read fun t => t.parent parent
      let up ← deref up
      modify fun t => t.setRed up false
      modify fun t => t.setRed grandparent true
      treeRotate cis.other grandparent
      pure parent
    else
      modify fun t => t.setRed parent false
      modify fun t => t.setRed grandparent true
      treeRotate cis.other grandparent
      pure node

/-- The loop of `tree_add` from `node` up. -/
def treeAddLoop : Nat → ι → Option ι → TreeM ι Unit
  | 0, _, _ => fail .stuck
  | fuel + 1, node, parent => do
    let red ← read fun t => t.isRed parent
    if red then
      let parent ← deref parent
      let grandparent ← read fun t => t.parent parent
      let grandparent ← deref grandparent
      let left ← read fun t => t.link grandparent .left
      let node ← treeRebalanceAfterInsert (if left = some parent then .left else .right) node parent
      let parent ← read fun t => t.parent node
      treeAddLoop fuel node parent

/-- `TREE__INSERT_OR_DESCEND(side)`: `node` is hung below `parent`, or the walk goes on. -/
def treeInsertOrDescend (node parent : ι) (descend : ι → TreeM ι (Option ι)) (side : Side) :
    TreeM ι (Option ι) := do
  let child ← read fun t => t.link parent side
  match child with
  | some child => descend child
  | none =>
    modify fun t => t.setLink parent side (some node)
    pure (some parent)

/-- The walk of `tree_add` down from `parent`: it ends with the node below which `node` now hangs,
or without one at the node that has the key. -/
def treeAddDescend (node : ι) (key : Nat) : Nat → ι → TreeM ι (Option ι)
  | 0, _ => fail .stuck
  | fuel + 1, parent => do
    let k ← read fun t => t.key parent
    if key < k then
      treeInsertOrDescend node parent (treeAddDescend node key fuel) .left
    else if k < key then
      treeInsertOrDescend node parent (treeAddDescend node key fuel) .right
    else
      pure none

/-- The rest of `tree_add` once the node hangs below `parent`. -/
def treeAddLinked (fuel : Nat) (node : ι) (key : Nat) (parent : Option ι) : TreeM ι Int := do
  modify fun t => t.setKey node key
  modify fun t => t.setLink node .right none
  modify fun t => t.setLink node .left none
  modify fun t => t.setParent node parent
  modify fun t => t.setRed node true
  treeAddLoop fuel node parent
  let root ← read fun t => t.root
  let root ← deref root
  modify fun t => t.setRed root false
  pure 0

/-- `tree_add`, with `fuel` iterations at most for each of its loops. -/
def treeAdd (fuel : Nat) (node : ι) (key : Nat) : TreeM ι Int := do
  let root ← read fun t => t.root
  match root with
  | some root =>
    let parent ← treeAddDescend node key fuel root
    match parent with
    | some parent => treeAddLinked fuel node key (some parent)
    | none => pure (-1)
  | none =>
    modify fun t => t.setRoot (some node)
    treeAddLinked fuel node key none

/-- The first part of `TREE__REBALANCE_AFTER_REMOVE(cis, trans)`, after which the sibling is black. -/
def treeRemoveRedSibling (cis : Side) (parent : ι) : TreeM ι ι := do
  let sibling ← read fun t => t.link parent cis.other
  let sibling ← deref sibling
  let red ← read fun t => t.red sibling
  if red then
    modify fun t => t.setRed sibling false
    modify fun t => t.setRed parent true
    treeRotate cis parent
    let sibling ← read fun t => t.link parent cis.other
    deref sibling
  else
    pure sibling

/-- The part after which the child of the sibling on side `trans` is red. -/
def treeRemoveRedNephew (cis : Side) (parent sibling : ι) : TreeM ι ι := do
  let nephew ← read fun t => t.link sibling cis.other
  let red ← read fun t => t.isRed nephew
  if red then
    pure sibling
  else
    let nephew ← read fun t => t.link sibling cis
    let nephew ← deref nephew
    modify fun t => t.setRed nephew false
    modify fun t => t.setRed sibling true
    treeRotate cis.other sibling
    let sibling ← read fun t => t.link parent cis.other
    deref sibling

/-- The part with a red child of the sibling on side `trans`. -/
def treeRemoveTurn (cis : Side) (parent sibling : ι) : TreeM ι Unit := do
  let red ← read fun t => t.red parent
  modify fun t => t.setRed sibling red
  let nephew ← read fun t => t.link sibling cis.other
  let nephew ← deref nephew
  modify fun t => t.setRed nephew false
  modify fun t => t.setRed parent false
  treeRotate cis parent

/-- The part with a black sibling, and whether it ends the loop. -/
def treeRemoveBlackSibling (cis : Side) (parent sibling : ι) : TreeM ι Bool := do
  let left ← read fun t => t.isRed (t.link sibling .left)
  let right ← read fun t => t.isRed (t.link sibling .right)
  if left || right then
    let sibling ← treeRemoveRedNephew cis parent sibling
    treeRemoveTurn cis parent sibling
    pure true
  else
    modify fun t => t.setRed sibling true
    pure false

/-- `TREE__REBALANCE_AFTER_REMOVE(cis, trans)`, and whether it ends the loop. -/
def treeRebalanceAfterRemove (cis : Side) (parent : ι) : TreeM ι Bool := do
  let sibling ← treeRemoveRedSibling cis parent
  treeRemoveBlackSibling cis parent sibling

/-- The loop of `tree_del`, with the `node` it ends at. -/
def treeDelLoop : Nat → Option ι → Option ι → TreeM ι (Option ι)
  | 0, _, _ => fail .stuck
  | fuel + 1, node, parent => do
    let root ← read fun t => t.root
    if node = root then
      pure node
    else
      let parent ← deref parent
      let left ← read fun t => t.link parent .left
      let done ← treeRebalanceAfterRemove (if node = left then .left else .right) parent
      if done then
        read fun t => t.root
      else
        let red ← read fun t => t.red parent
        if red then
          pure (some parent)
        else
          let up ← read fun t => t.parent parent
          treeDelLoop fuel (some parent) up

/-- `while (next->left) next = next->left;`. -/
def treeLeftmost : Nat → ι → TreeM ι ι
  | 0, _ => fail .stuck
  | fuel + 1, next => do
    let left ← read fun t => t.link next .left
    match left with
    | some left => treeLeftmost fuel left
    | none => pure next

/-- The end of `tree_del`: `node` hangs below `parent` where a node of colour `red` was taken out. -/
def treeDelLinked (fuel : Nat) (node parent : Option ι) (red : Bool) : TreeM ι Unit := do
  forSome node fun node => modify fun t => t.setParent node parent
  if red then
    pure ()
  else
    let nodeRed ← read fun t => t.isRed node
    if nodeRed then
      forSome node fun node => modify fun t => t.setRed node false
    else
      let node ← treeDelLoop fuel node parent
      forSome node fun node => modify fun t => t.setRed node false

/-- The block of `tree_del` for a node with two children: `next` takes its place. -/
def treeDelTwo (fuel : Nat) (node : ι) (parent : Option ι) (left right next : ι) : TreeM ι Unit := do
  let red ← read fun t => t.red next
  modify fun t => t.setRed next (t.red node)
  modify fun t => t.setLink next .left (some left)
  modify fun t => t.setParent left (some next)
  if next ≠ right then
    let parent ← read fun t => t.parent next
    let parent ← deref parent
    modify fun t => t.setParent next (t.parent node)
    let child ← read fun t => t.link next .right
    modify fun t => t.setLink parent .left child
    modify fun t => t.setLink next .right (some right)
    modify fun t => t.setParent right (some next)
    treeDelLinked fuel child (some parent) red
  else
    modify fun t => t.setParent next parent
    let child ← read fun t => t.link next .right
    treeDelLinked fuel child (some next) red

/-- The block of `tree_del` for a node with one child at most. -/
def treeDelOne (fuel : Nat) (node : ι) (parent next : Option ι) : TreeM ι Unit := do
  let red ← read fun t => t.red node
  treeDelLinked fuel next parent red

/-- `tree_del`, with `fuel` iterations at most for each of its loops. -/
def treeDel (fuel : Nat) (node : ι) : TreeM ι Unit := do
  let parent ← read fun t => t.parent node
  let left ← read fun t => t.link node .left
  let right ← read fun t => t.link node .right
  match left, right with
  | none, next => do
    treeRelink parent node next
    treeDelOne fuel node parent next
  | next, none => do
    treeRelink parent node next
    treeDelOne fuel node parent next
  | some left, some right => do
    let next ← treeLeftmost fuel right
    treeRelink parent node (some next)
    treeDelTwo fuel node parent left right next

/-- `tree_find`, from `node` down. -/
def treeFindFrom (key : Nat) : Nat → Option ι → TreeM ι (Option ι)
  | 0, _ => fail .stuck
  | fuel + 1, node =>
    match node with
    | none => pure none
    | some node => do
      let k ← read fun t => t.key node
      if key < k then
        let left ← read fun t => t.link node .left
        treeFindFrom key fuel left
      else if k < key then
        let right ← read fun t => t.link node .right
        treeFindFrom key fuel right
      else
        pure (some node)

def treeFind (fuel key : Nat) : TreeM ι (Option ι) := do
  let root ← read fun t => t.root
  treeFindFrom key fuel root

def treeRoot : TreeM ι (Option ι) := read fun t => t.root

end MNet.Wepoll
