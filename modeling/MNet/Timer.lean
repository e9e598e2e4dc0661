import MNet.Kernel

/-! # Timers

The level-0 list of the skip list, in order. A node is inserted before the first
one whose key is not smaller, at whatever height `skiplist_random_level` gives
it; the upper levels only shorten the search. -/

namespace MNet
open MNet.Lib

variable {ε : Type}

def skiplistInsert (clock : List TmNode) (node : TmNode) : List TmNode :=
  clock.takeWhile (·.key < node.key) ++ node :: clock.dropWhile (·.key < node.key)

def skiplistRemove (clock : List TmNode) (id : NodeId) : List TmNode :=
  clock.filter (·.id ≠ id)

def skiplistFind (clock : List TmNode) (id : NodeId) : Option TmNode :=
  clock.find? (·.id = id)

/-- `link[0].next` of a node. -/
def skiplistNext (clock : List TmNode) (id : NodeId) : TmLink :=
  match (clock.dropWhile (·.id ≠ id)).tail with
  | [] => .head
  | node :: _ => .node node.id

/-- The dereferenced `tm_clock`. -/
def derefClock : M ε (List TmNode) := do
  let p ← readMnet Mnet.tmClock
  Exec.require .nullDeref p

def setClock (clock : List TmNode) : M ε Unit :=
  modifyMnet fun ss => { ss with tmClock := some clock }

def setTmPos (p : Option TmLink) : M ε Unit := modifyMnet fun ss => { ss with tmPos := p }

/-- `skiplist_insert` of a new node holding `tm`. -/
def newNode (tm : ChannTm) : M ε NodeId := do
  let clock ← derefClock
  let id ← Exec.read Sys.nextNode
  Exec.modify fun s => { s with nextNode := id + 1 }
  setClock (skiplistInsert clock { id := id, key := tm.time, tm := tm })
  return id

/-- The node behind a pointer. -/
def derefNode (id : NodeId) : M ε TmNode := do
  let clock ← derefClock
  Exec.require .useAfterFree (skiplistFind clock id)

def removeNode (id : NodeId) : M ε Unit := do
  let clock ← derefClock
  setClock (skiplistRemove clock id)

/-- The timer's `interval` is an `int`, the argument an `int64_t`. -/
def tmActive (n : ChannId) (interval : Int) : M ε Unit := do
  let now ← sysClock
  let id ← newNode { interval := wrap32 interval, time := wrap64 (now + interval), chann := n }
  modifyChann n fun c => { c with timerNode := some id }

def tmUpdate (n : ChannId) (interval : Int) : M ε Unit := do
  let c ← deref n
  let id ← Exec.require .nullDeref c.timerNode
  let snode ← derefNode id
  let now ← sysClock
  removeNode id
  let interval := wrap32 interval
  let id' ← newNode { snode.tm with interval := interval, time := wrap64 (now + interval) }
  modifyChann n fun c => { c with timerNode := some id' }

def tmKill (n : ChannId) : M ε Unit := do
  let c ← deref n
  match c.timerNode with
  | none => pure ()
  | some id =>
    let _ ← derefNode id
    removeNode id
    modifyChann n fun c => { c with timerNode := none }

def tmSchedule : M ε Unit := do
  let clock ← derefClock
  match clock with
  | [] => setTmPos none
  | node :: _ =>
    let current ← sysClock
    if node.tm.time > current then setTmPos none
    else modifyMnet fun ss => { ss with tmCurrent := current, tmPos := some (.node node.id) }

theorem skiplistInsert_perm (clock : List TmNode) (node : TmNode) :
    (skiplistInsert clock node).Perm (node :: clock) := by
  have h := List.takeWhile_append_dropWhile (p := (·.key < node.key)) (l := clock)
  unfold skiplistInsert
  refine List.perm_middle.trans ?_
  rw [h]

@[simp] theorem mem_skiplistInsert {clock : List TmNode} {node m : TmNode} :
    m ∈ skiplistInsert clock node ↔ m = node ∨ m ∈ clock := by
  rw [(skiplistInsert_perm clock node).mem_iff, List.mem_cons]

@[simp] theorem mem_skiplistRemove {clock : List TmNode} {id : NodeId} {m : TmNode} :
    m ∈ skiplistRemove clock id ↔ m ∈ clock ∧ m.id ≠ id := by
  simp [skiplistRemove]

theorem skiplistFind_some {clock : List TmNode} {id : NodeId} {m : TmNode}
    (h : skiplistFind clock id = some m) : m ∈ clock ∧ m.id = id :=
  ⟨List.mem_of_find?_eq_some h, by simpa using List.find?_some h⟩

/-- The link after a node is that of another node, or of the head. -/
theorem skiplistNext_cases {clock : List TmNode} (hids : (clock.map TmNode.id).Nodup) (id : NodeId) :
    skiplistNext clock id = .head ∨
      ∃ m ∈ clock, m.id ≠ id ∧ skiplistNext clock id = .node m.id := by
  have hsub : (clock.dropWhile (·.id ≠ id)).Sublist clock := List.dropWhile_sublist _
  unfold skiplistNext
  cases hd : clock.dropWhile (·.id ≠ id) with
  | nil => exact .inl rfl
  | cons a l =>
    cases l with
    | nil => exact .inl rfl
    | cons m l =>
      rw [hd] at hsub
      have ha : a.id = id := by
        have hp := List.head?_dropWhile_not (fun m : TmNode => decide (m.id ≠ id)) clock
        rw [hd] at hp
        simpa using hp
      have hne : a.id ≠ m.id := by
        have hnd := (hsub.map TmNode.id).nodup hids
        simp only [List.map_cons, List.nodup_cons, List.mem_cons, not_or] at hnd
        exact hnd.1.1
      exact .inr ⟨m, hsub.subset (by simp), fun e => hne (ha.trans e.symm), rfl⟩

theorem skiplistFind_isSome {clock : List TmNode} {id : NodeId} :
    (skiplistFind clock id).isSome ↔ ∃ m ∈ clock, m.id = id := by
  simp [skiplistFind]

end MNet
