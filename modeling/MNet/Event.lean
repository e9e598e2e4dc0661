import MNet.Chann

/-! # The event queue and the message loop

The epoll build. `_evt_check_expand(&ss->chg)` is left out: the change list always
has a free entry, since nothing raises its count. -/

namespace MNet
open MNet.Lib

variable {ε : Type} (x : ExtTable ε)

inductive EvtSet where
  | read | write | del
deriving DecidableEq, Repr

/-- The mask `_evt_add` asks for. -/
def addedMask (old : BitVec 32) : EvtSet → BitVec 32
  | .read => old ||| EPOLLIN ||| EPOLLRDHUP ||| EPOLLHUP
  | .write => old ||| EPOLLOUT ||| EPOLLRDHUP ||| EPOLLHUP
  | .del => 0

/-- The mask `_evt_del` asks for. -/
def deletedMask (old : BitVec 32) : EvtSet → BitVec 32
  | .read => old &&& ~~~EPOLLIN
  | .write => old &&& ~~~EPOLLOUT
  | .del => 0

/-- `epoll_ctl` on the descriptor of `n`. Without a queue it fails. -/
def evtRequest (n : ChannId) (op : CtlOp) (events : BitVec 32) : M ε Int := do
  let c ← deref n
  let kq ← readMnet Mnet.kq
  if kq then sysEpollCtl op c.fd { events := events, ptr := n } else return -1

/-- The request, and the new mask kept when it works. -/
def evtCtl (n : ChannId) (op : CtlOp) (events : BitVec 32) : M ε Int := do
  let r ← evtRequest n op events
  if r < 0 then return 0
  else
    modifyChann n fun c => { c with epollEvents := events }
    return 1

def evtAdd (n : ChannId) (set : EvtSet) : M ε Int := do
  let c ← deref n
  evtCtl n (if c.epollEvents ≠ 0 then .mod else .add) (addedMask c.epollEvents set)

def evtDel (n : ChannId) (set : EvtSet) : M ε Int := do
  let c ← deref n
  let events := deletedMask c.epollEvents set
  evtCtl n (if events ≠ 0 then .mod else .del) events

def KEV_EVT_ARRAY_SIZE : Nat := 256

/-- A new epoll set and empty record arrays, unless there is one. -/
def evtInit : M ε Unit :=
  Exec.modify fun s =>
    if s.mnet.kq then s
    else { s with
      mnet := { s.mnet with kq := true, evtArray := [] }
      kernel := { s.kernel with epoll := fun _ => none } }

/-- Closing the epoll descriptor drops every registration. -/
def evtFini : M ε Unit :=
  Exec.modify fun s =>
    if s.mnet.kq then
      { s with
        mnet := { s.mnet with kq := false, evtArray := [] }
        kernel := { s.kernel with epoll := fun _ => none } }
    else s

/-- The walk of `_evt_del_channs` along `del_next`, for at most `fuel` channels. -/
def evtDelLoop : Nat → Option ChannId → M ε Unit
  | _, none => pure ()
  | 0, some _ => Exec.fail .hang
  | fuel + 1, some n => do
    let c ← deref n
    channDestroy n
    evtDelLoop fuel c.delNext

/-- A walk that does not run in a circle visits each channel ever created at most once. -/
def walkFuel : M ε Nat := Exec.read fun s => s.nextChann + 1

def evtDelChanns : M ε Unit := do
  let head ← readMnet Mnet.delChanns
  let fuel ← walkFuel
  evtDelLoop fuel head
  modifyMnet fun ss => { ss with delChanns := none }

def evtPoll : M ε Int := do
  evtDelChanns
  tmSchedule
  let recs ← sysEpollWait KEV_EVT_ARRAY_SIZE
  let e ← readErrno
  match recs with
  | none =>
    modifyMnet fun ss => { ss with fdCount := -1, fdIndex := -1 }
    if e ≠ EINTR then return -1 else readMnet Mnet.channCount
  | some evts =>
    modifyMnet fun ss => { ss with evtArray := evts, fdCount := evts.length, fdIndex := -1 }
    readMnet Mnet.channCount

/-- What one round of a message loop comes to: a returned pointer, or `continue`. The
pointer `&n->msg` is given by the channel whose slot it is. -/
inductive Pass where
  | ret (p : Option ChannId)
  | next
deriving DecidableEq, Repr

/-- `if (_chann_msg(..)) return &n->msg; continue`. -/
def emit (n : ChannId) (event : ChannEvent) (r : Option ChannId) (err : Int) : M ε Pass := do
  let pass ← channMsg x n event r err
  return if pass then .ret (some n) else .next

/-- The loop of `_tm_next`, for at most `fuel` rounds: it goes on only when a filter skips a
timer. -/
def tmNext : Nat → M ε (Option ChannId)
  | 0 => Exec.fail .hang
  | fuel + 1 => do
    let pos ← readMnet Mnet.tmPos
    match pos with
    | none => return none
    | some .head => return none
    | some (.node id) =>
      let clock ← derefClock
      let snode ← derefNode id
      setTmPos (some (skiplistNext clock id))
      let current ← readMnet Mnet.tmCurrent
      if snode.tm.time ≤ current then
        let n := snode.tm.chann
        tmUpdate n snode.tm.interval
        let pass ← channMsg x n .timer none 0
        if pass then return some n else tmNext fuel
      else
        setTmPos none
        return none

/-- Takes the head of the `dis_channs` queue. -/
def disNext : M ε (Option ChannId) := do
  let head ← readMnet Mnet.disChanns
  match head with
  | none => return none
  | some n =>
    let c ← deref n
    modifyMnet fun ss => { ss with disChanns := c.disNext }
    return some n

/-- `evt->array[fd_index]`; past the records of the last poll the array is zero. -/
def evtRecord : M ε Kev := readMnet fun ss => ss.evtArray.getD ss.fdIndex.toNat {}

/-- The branches of the state switch. -/
def evtListening (n : ChannId) (raw : Nat) : M ε Pass := do
  if raw = CHANN_TYPE_STREAM then
    let r ← channAccept x n
    match r with
    | none => return .next
    | some c =>
      let _ ← evtAdd c .read
      emit x n .accept (some c) 0
  else emit x n .recv none 0

def evtConnecting (n : ChannId) : M ε Pass := do
  let c ← deref n
  let r ← sysSockError c.fd
  let opt := if r.1 < 0 then 0 else r.2
  if opt = 0 then
    let _ ← evtDel n .write
    let _ ← evtAdd n .read
    modifyChann n fun c => { c with state := .connected }
    emit x n .connected none 0
  else
    let _ ← channDisconnectSocket (opsOf x) n
    emit x n .disconnect none opt

def evtConnected (n : ChannId) (kev : Kev) : M ε Pass := do
  if kev.events &&& EPOLLIN ≠ 0 then emit x n .recv none 0
  else if kev.events &&& EPOLLOUT ≠ 0 then
    let sent ← channSendedRwb x n
    if sent then
      let c ← deref n
      if c.activeSendEvent then emit x n .send none 0
      else
        let _ ← evtDel n .write
        return .next
    else return .next
  else return .next

/-- What `_evt_result_next` does with a record. -/
def evtDispatch (kev : Kev) : M ε Pass := do
  let n ← Exec.require .nullDeref kev.ptr
  let c ← deref n
  if c.state = .closed ∨ c.fd < 0 then return .next
  else if kev.events &&& (EPOLLERR ||| (EPOLLRDHUP ||| EPOLLHUP)) ≠ 0 then
    if kev.events &&& EPOLLERR ≠ 0 then
      let err ← channGetErr n
      let _ ← channDisconnectSocket (opsOf x) n
      emit x n .disconnect none err
    else
      let _ ← channDisconnectSocket (opsOf x) n
      emit x n .disconnect none kev.events.toInt
  else
    match c.state with
    | .listening => evtListening x n ((extConfig x c.ctype).typeFn c.ctype)
    | .connecting => evtConnecting x n
    | .connected => evtConnected x n kev
    | _ => return .next

/-- One round of the loop of `_evt_result_next`: timers first, then queued reports, then the
next record. -/
def evtPass (fuel : Nat) : M ε Pass := do
  let tm ← tmNext x fuel
  match tm with
  | some n => return .ret (some n)
  | none =>
    let dis ← disNext
    match dis with
    | some n => return .ret (some n)
    | none =>
      modifyMnet fun ss => { ss with fdIndex := ss.fdIndex + 1 }
      let ended ← readMnet fun ss => decide (ss.fdIndex ≥ ss.fdCount)
      if ended then return .ret none
      else
        let kev ← evtRecord
        evtDispatch x kev

def evtLoop (fuel : Nat) : Nat → M ε (Option ChannId)
  | 0 => Exec.fail .hang
  | rounds + 1 => do
    let p ← evtPass x fuel
    match p with
    | .ret q => return q
    | .next => evtLoop fuel rounds

/-- The loop of `_evt_result_next`, for at most `fuel` rounds. -/
def evtResultNext (fuel : Nat) : M ε (Option ChannId) := evtLoop x fuel fuel

end MNet
