import MNet.Api
import MNet.Lib.Path

/-! # The abstract machine

`Core` keeps the part of the state that who-owns-what depends on: channels without
their counters, addresses and user data, the lists they are on, the timers, and the
kernel's sockets and registrations. `Act` names the atomic things the library does to
it, and `CStep` says what each of them needs and changes. Every API call is a sequence
of acts (`MNet.Core.Refine`); invariants are proved once for each act. -/

namespace MNet
open MNet.Lib

structure CChann where
  fd : Int := 0
  state : ChannState
  ctype : Nat
  timerNode : Option NodeId := none
  rwbSend : RwbHead := []
  prev : Option ChannId := none
  next : Option ChannId := none
  delNext : Option ChannId := none
  disNext : Option ChannId := none
  activeSendEvent : Bool := false
  epollEvents : BitVec 32 := 0
  msg : ChannMsg := {}

abbrev Heap := ChannId → Option CChann

/-- A write to the channel behind a pointer, if there is one. -/
def alterAt (heap : Heap) (p : Option ChannId) (f : CChann → CChann) : Heap :=
  match p with
  | none => heap
  | some m => Function.update heap m ((heap m).map f)

structure Core where
  heap : Heap
  nextChann : ChannId
  nextNode : NodeId
  nextSock : SockId
  channs : Option ChannId
  channCount : Int
  delChanns : Option ChannId
  disChanns : Option ChannId
  isInit : Bool
  kq : Bool
  evtArray : List Kev
  fdCount : Int
  fdIndex : Int
  tmClock : Option (List TmNode)
  tmPos : Option TmLink
  tmCurrent : Int
  socks : Int → Option SockId
  wire : SockId → List UInt8
  epoll : Int → Option EpollReg
  ctl : Nat → Bool
  lost : List Int

def Chann.core (c : Chann) : CChann where
  fd := c.fd
  state := c.state
  ctype := c.ctype
  timerNode := c.timerNode
  rwbSend := c.rwbSend
  prev := c.prev
  next := c.next
  delNext := c.delNext
  disNext := c.disNext
  activeSendEvent := c.activeSendEvent
  epollEvents := c.epollEvents
  msg := c.msg

/-- `connect` refused at once: neither done nor in progress. -/
def refused (r e : Int) : Prop := ¬ (r ≥ 0 ∨ e = EINPROGRESS ∨ e = EWOULDBLOCK)

instance (r e : Int) : Decidable (refused r e) := by unfold refused; infer_instance

/-- The descriptors a history of calls, newest first, mishandles: those whose `connect` was
refused at once, and those just accepted whose `fcntl` failed. -/
def lostFds : List SysEvent → List Int
  | .connect fd r e :: tr => if refused r e then fd :: lostFds tr else lostFds tr
  | .nonblock fd r :: .accept lfd fd' :: tr =>
    if r < 0 ∧ fd = fd' then fd :: lostFds (.accept lfd fd' :: tr)
    else lostFds (.accept lfd fd' :: tr)
  | _ :: tr => lostFds tr
  | [] => []

def Sys.core {ε : Type} (s : Sys ε) : Core where
  heap n := (s.heap n).map Chann.core
  nextChann := s.nextChann
  nextNode := s.nextNode
  nextSock := s.kernel.nextSock
  channs := s.mnet.channs
  channCount := s.mnet.channCount
  delChanns := s.mnet.delChanns
  disChanns := s.mnet.disChanns
  isInit := s.mnet.isInit
  kq := s.mnet.kq
  evtArray := s.mnet.evtArray
  fdCount := s.mnet.fdCount
  fdIndex := s.mnet.fdIndex
  tmClock := s.mnet.tmClock
  tmPos := s.mnet.tmPos
  tmCurrent := s.mnet.tmCurrent
  socks := s.kernel.socks
  wire := s.kernel.wire
  epoll := s.kernel.epoll
  ctl := s.kernel.oracle.ctl
  lost := lostFds s.kernel.trace

/-- A state in which a channel has a socket. -/
def ChannState.active : ChannState → Prop
  | .closed | .disconnect => False
  | .connecting | .connected | .listening => True

instance (st : ChannState) : Decidable st.active := by cases st <;> unfold ChannState.active <;> infer_instance

inductive Act where
  /-- A new channel, without a socket or accepted with the socket `fd`. -/
  | create (n : ChannId) (ctype : Nat)
  | accept (n : ChannId) (fd : Int)
  /-- An accepted descriptor nobody keeps. -/
  | leak (fd : Int)
  /-- A socket opened and closed again. -/
  | bounce (fd : Int)
  /-- A new socket for `n`, or one whose `connect` was refused at once. -/
  | attach (n : ChannId) (fd : Int) (st : ChannState)
  | refuse (n : ChannId) (fd : Int)
  | established (n : ChannId)
  | disconnect (n : ChannId)
  | close (n : ChannId)
  | destroy (n : ChannId)
  /-- `_evt_add` and `_evt_del` that work. -/
  | watch (n : ChannId) (set : EvtSet)
  | unwatch (n : ChannId) (set : EvtSet)
  /-- The same for writing, when SEND events are turned off. -/
  | mute (n : ChannId)
  /-- What `mnet_multi_reset_event` does to a channel, with and without success. -/
  | rewatch (n : ChannId)
  | forget (n : ChannId)
  | openQueue
  | closeQueue
  /-- `data` handed over, the socket taking the first `i` bytes and the cache the others. -/
  | write (n : ChannId) (data : List UInt8) (i : Nat)
  | flush (n : ChannId) (i : Nat)
  | sendFlag (n : ChannId) (on : Bool)
  | slot (n : ChannId)
  | report (n : ChannId)
  | deliver (n : ChannId)
  | arm (n : ChannId)
  | rearm (n : ChannId)
  | disarm (n : ChannId)
  /-- The cursor moves on, and the timer it leaves is armed again. -/
  | fire (n : ChannId)
  | schedule
  | park
  | batch
  | consume
  | reaped
  | boot
  | shutdown

namespace Core

variable (k : Core)

def set (n : ChannId) (c : CChann) : Core := { k with heap := Function.update k.heap n (some c) }

def openFd (fd : Int) : Core :=
  { k with socks := Function.update k.socks fd (some k.nextSock), nextSock := k.nextSock + 1 }

def closeFd (fd : Int) : Core :=
  { k with socks := Function.update k.socks fd none, epoll := Function.update k.epoll fd none }

/-- The new channel in front of `channs`. -/
def push (c : CChann) : Core :=
  let n := k.nextChann
  { k with
    heap := alterAt (Function.update k.heap n (some { c with next := k.channs, prev := none }))
      k.channs fun d => { d with prev := some n }
    nextChann := n + 1
    channs := some n
    channCount := k.channCount + 1 }

/-- The neighbours of a channel with the contents `c` linked to each other. -/
def unlinked (c : CChann) : Core :=
  { k with
    heap := alterAt (alterAt k.heap c.next fun d => { d with prev := c.prev })
      c.prev fun d => { d with next := c.next }
    channs := match c.prev with
      | none => c.next
      | some _ => k.channs }

/-- `n`, whose contents are `c`, taken out of `channs` and freed. -/
def destroyed (n : ChannId) (c : CChann) : Core :=
  { k.unlinked c with
    heap := Function.update (k.unlinked c).heap n none
    channCount := k.channCount - 1 }

/-- A stream socket takes `bytes`. -/
def onWire (c : CChann) (bytes : List UInt8) : Core :=
  if c.ctype = CHANN_TYPE_STREAM then
    match k.socks c.fd with
    | some i => { k with wire := Function.update k.wire i (k.wire i ++ bytes) }
    | none => k
  else k

/-- A new timer node holding `tm` for the channel `n`, in the list `clock`. -/
def withTimer (n : ChannId) (c : CChann) (clock : List TmNode) (tm : ChannTm) : Core :=
  { k.set n { c with timerNode := some k.nextNode } with
    nextNode := k.nextNode + 1
    tmClock := some (skiplistInsert clock { id := k.nextNode, key := tm.time, tm := tm }) }

/-- The new mask of `n`, whose contents are `c`, in the channel and in the kernel. -/
def interest (n : ChannId) (c : CChann) (events : BitVec 32) : Core :=
  { k.set n { c with epollEvents := events } with
    epoll := Function.update k.epoll c.fd (if events = 0 then none else some ⟨events, n⟩) }

/-- What `memset(ss, 0, sizeof(*ss))` and the closed queue leave. -/
def wiped : Core :=
  { k with
    channs := none, channCount := 0, delChanns := none, disChanns := none, isInit := false
    evtArray := [], fdCount := 0, fdIndex := 0, tmClock := none, tmPos := none, tmCurrent := 0
    kq := false
    epoll := if k.kq then fun _ => none else k.epoll }

end Core

/-- What a record of `epoll_wait` is made of. -/
def Reported (k : Core) (kev : Kev) : Prop :=
  ∃ fd reg, k.epoll fd = some reg ∧ kev.ptr = some reg.ptr ∧ kev.sock = k.socks fd

/-- One act: what it needs, and what it changes. -/
inductive CStep : Core → Act → Core → Prop
  | create {k : Core} (ctype : Nat) :
    CStep k (.create k.nextChann ctype) (k.push { state := .disconnect, ctype := ctype })
  | accept {k : Core} {fd : Int} {m : ChannId} {l : CChann} : k.heap m = some l → 0 < fd →
    k.socks fd = none →
    CStep k (.accept k.nextChann fd)
      ((k.openFd fd).push { fd := fd, state := .connected, ctype := l.ctype })
  | leak {k : Core} {fd : Int} : 0 < fd → k.socks fd = none →
    CStep k (.leak fd) { k.openFd fd with lost := fd :: k.lost }
  | bounce {k : Core} {fd : Int} : 0 < fd → k.socks fd = none →
    CStep k (.bounce fd) ((k.openFd fd).closeFd fd)
  | attach {k : Core} {n : ChannId} {c : CChann} {fd : Int} {st : ChannState} :
    k.heap n = some c → c.state = .disconnect → 0 < fd → k.socks fd = none → st.active →
    CStep k (.attach n fd st) ((k.openFd fd).set n { c with fd := fd, state := st })
  | refuse {k : Core} {n : ChannId} {c : CChann} {fd : Int} :
    k.heap n = some c → c.state = .disconnect → 0 < fd → k.socks fd = none →
    CStep k (.refuse n fd)
      { (k.openFd fd).set n { c with fd := fd } with lost := fd :: k.lost }
  | established {k : Core} {n : ChannId} {c : CChann} :
    k.heap n = some c → c.state = .connecting →
    CStep k (.established n) (k.set n { c with state := .connected })
  | disconnect {k : Core} {n : ChannId} {c : CChann} :
    k.heap n = some c → 0 < c.fd → c.state.active → Spent c.rwbSend →
    CStep k (.disconnect n) ((k.closeFd c.fd).set n
      { c with rwbSend := [], fd := -1, state := .disconnect, epollEvents := 0 })
  | close {k : Core} {n : ChannId} {c : CChann} :
    k.heap n = some c → c.state = .disconnect →
    CStep k (.close n)
      { k.set n { c with delNext := k.delChanns, state := .closed } with delChanns := some n }
  | destroy {k : Core} {n : ChannId} {c : CChann} :
    k.heap n = some c → c.state = .closed → Spent c.rwbSend → c.timerNode = none →
    CStep k (.destroy n) (k.destroyed n c)
  | watch {k : Core} {n : ChannId} {c : CChann} {set : EvtSet} :
    k.heap n = some c → c.state.active → k.kq = true →
    (c.epollEvents = 0 ↔ k.epoll c.fd = none) → set ≠ .del →
    CStep k (.watch n set) (k.interest n c (addedMask c.epollEvents set))
  | unwatch {k : Core} {n : ChannId} {c : CChann} {set : EvtSet} :
    k.heap n = some c → c.state.active → k.kq = true → k.epoll c.fd ≠ none →
    c.state = .connecting ∨ c.rwbSend = [] →
    CStep k (.unwatch n set) (k.interest n c (deletedMask c.epollEvents set))
  | mute {k : Core} {n : ChannId} {c : CChann} :
    k.heap n = some c → c.state.active → k.kq = true → k.epoll c.fd ≠ none →
    rwbCached c.rwbSend ≤ 0 →
    CStep k (.mute n) (k.interest n c (deletedMask c.epollEvents .write))
  | rewatch {k : Core} {n : ChannId} {c : CChann} :
    k.heap n = some c → k.kq = true → 0 ≤ c.fd → k.epoll c.fd = none →
    CStep k (.rewatch n) (k.interest n c (addedMask 0 .read))
  | forget {k : Core} {n : ChannId} {c : CChann} : k.heap n = some c →
    CStep k (.forget n) (k.set n { c with epollEvents := 0 })
  | openQueue {k : Core} : k.kq = false →
    CStep k .openQueue { k with kq := true, evtArray := [], epoll := fun _ => none }
  | closeQueue {k : Core} : k.kq = true →
    CStep k .closeQueue { k with kq := false, evtArray := [], epoll := fun _ => none }
  | write {k : Core} {n : ChannId} {c : CChann} {data : List UInt8} {i : Nat} :
    k.heap n = some c → ChannState.connected.val ≤ c.state.val → data ≠ [] →
    i ≤ data.length → (c.rwbSend = [] ∨ i = 0) →
    CStep k (.write n data i) ((k.onWire c (data.take i)).set n
      { c with
        rwbSend := if i < data.length then rwbCache c.rwbSend (data.drop i) else c.rwbSend })
  | flush {k : Core} {n : ChannId} {c : CChann} {i : Nat} :
    k.heap n = some c → c.state = .connected → c.rwbSend ≠ [] →
    (c.ctype = CHANN_TYPE_STREAM → i ≤ (rwbDrainParam c.rwbSend).length) →
    CStep k (.flush n i) ((k.onWire c ((rwbDrainParam c.rwbSend).take i)).set n
      { c with rwbSend := rwbDrain c.rwbSend i })
  | sendFlag {k : Core} {n : ChannId} {c : CChann} {on : Bool} : k.heap n = some c →
    CStep k (.sendFlag n on) (k.set n { c with activeSendEvent := on })
  | slot {k : Core} {n : ChannId} {c : CChann} (msg : ChannMsg) : k.heap n = some c →
    (c.ctype ≤ CHANN_TYPE_BROADCAST → msg.n = some n) →
    CStep k (.slot n) (k.set n { c with msg := msg })
  | report {k : Core} {n : ChannId} {c : CChann} : k.heap n = some c → ¬ c.state.active →
    (c.ctype ≤ CHANN_TYPE_BROADCAST → c.msg.event = some .disconnect ∧ c.msg.n = some n) →
    CStep k (.report n) { k.set n { c with disNext := k.disChanns } with disChanns := some n }
  | deliver {k : Core} {n : ChannId} {c : CChann} : k.disChanns = some n → k.heap n = some c →
    CStep k (.deliver n) { k with disChanns := c.disNext }
  | arm {k : Core} {n : ChannId} {c : CChann} {clock : List TmNode} {tm : ChannTm} :
    k.heap n = some c → c.timerNode = none → k.tmClock = some clock → tm.chann = n →
    c.state ≠ .closed →
    CStep k (.arm n) (k.withTimer n c clock tm)
  | rearm {k : Core} {n : ChannId} {c : CChann} {clock : List TmNode} {node : TmNode}
      {tm : ChannTm} :
    k.heap n = some c → c.timerNode = some node.id → k.tmClock = some clock →
    skiplistFind clock node.id = some node → tm.chann = node.tm.chann → c.state ≠ .closed →
    CStep k (.rearm n) (k.withTimer n c (skiplistRemove clock node.id) tm)
  | disarm {k : Core} {n : ChannId} {c : CChann} {clock : List TmNode} {id : NodeId} :
    k.heap n = some c → c.timerNode = some id → k.tmClock = some clock →
    CStep k (.disarm n)
      { k.set n { c with timerNode := none } with tmClock := some (skiplistRemove clock id) }
  | fire {k : Core} {n : ChannId} {c : CChann} {clock : List TmNode} {node : TmNode}
      {tm : ChannTm} :
    k.heap n = some c → c.timerNode = some node.id → k.tmClock = some clock →
    skiplistFind clock node.id = some node → node.tm.chann = n → tm.chann = n →
    k.tmPos = some (.node node.id) → node.tm.time ≤ k.tmCurrent →
    CStep k (.fire n)
      { k.withTimer n c (skiplistRemove clock node.id) tm with
        tmPos := some (skiplistNext clock node.id) }
  | schedule {k : Core} {clock : List TmNode} {pos : Option TmLink} {current : Int} :
    k.tmClock = some clock →
    (∀ p, pos = some p → ∃ node, clock.head? = some node ∧ p = .node node.id ∧
      node.tm.time ≤ current) →
    CStep k .schedule { k with tmPos := pos, tmCurrent := current }
  | park {k : Core} : CStep k .park { k with tmPos := none }
  | batch {k : Core} {evts : List Kev} : (∀ e ∈ evts, Reported k e) →
    CStep k .batch { k with evtArray := evts, fdCount := evts.length, fdIndex := -1 }
  | noBatch {k : Core} : CStep k .batch { k with fdCount := -1, fdIndex := -1 }
  | consume {k : Core} : CStep k .consume { k with fdIndex := k.fdIndex + 1 }
  | reaped {k : Core} : CStep k .reaped { k with delChanns := none }
  | boot {k : Core} : k.isInit = false →
    CStep k .boot { k with isInit := true, tmClock := some [] }
  | shutdown {k : Core} : k.channs = none → CStep k .shutdown k.wiped

end MNet
