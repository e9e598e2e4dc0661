import MNet.Wepoll.Queue
import MNet.Wepoll.Tree

/-! # The port of wepoll

`port_state_t` with its sockets and poll groups: `epoll_ctl`, `epoll_wait` and `epoll_close` on one
port, as any number of threads call them. A function runs under the lock of the port and is one
step; `port_wait` lets go of the lock while it waits for completion packets and is cut there. The
AFD driver completes a poll operation in a step of its own. Objects live in a memory from which they
are taken when they are freed, and an access to one that is gone is a fault. The links of a socket and
of a poll group are kept apart, in the tree and the queues, and following one is no fault by itself: that
all the tree and the queues hold is in memory is part of what is shown of the lists behind them. -/

namespace MNet.Wepoll

open Lib Lib.Exec

abbrev SockId : Type := Nat

abbrev GroupId : Type := Nat

/-- The values of `NTSTATUS` that the port tells apart. -/
inductive NtStatus where
  | success
  | pending
  | cancelled
  | failure
  deriving DecidableEq

/-- `NT_SUCCESS`. -/
def NtStatus.ntSuccess : NtStatus → Bool
  | .success => true
  | .pending => true
  | .cancelled => false
  | .failure => false

def AFD_POLL_RECEIVE : BitVec 32 := 0x0001
def AFD_POLL_RECEIVE_EXPEDITED : BitVec 32 := 0x0002
def AFD_POLL_SEND : BitVec 32 := 0x0004
def AFD_POLL_DISCONNECT : BitVec 32 := 0x0008
def AFD_POLL_ABORT : BitVec 32 := 0x0010
def AFD_POLL_LOCAL_CLOSE : BitVec 32 := 0x0020
def AFD_POLL_ACCEPT : BitVec 32 := 0x0080
def AFD_POLL_CONNECT_FAIL : BitVec 32 := 0x0100

def EPOLLIN : BitVec 32 := 1 <<< 0
def EPOLLPRI : BitVec 32 := 1 <<< 1
def EPOLLOUT : BitVec 32 := 1 <<< 2
def EPOLLERR : BitVec 32 := 1 <<< 3
def EPOLLHUP : BitVec 32 := 1 <<< 4
def EPOLLRDNORM : BitVec 32 := 1 <<< 6
def EPOLLRDBAND : BitVec 32 := 1 <<< 7
def EPOLLWRNORM : BitVec 32 := 1 <<< 8
def EPOLLWRBAND : BitVec 32 := 1 <<< 9
def EPOLLMSG : BitVec 32 := 1 <<< 10
def EPOLLRDHUP : BitVec 32 := 1 <<< 13
def EPOLLONESHOT : BitVec 32 := 1 <<< 31

def SOCK_KNOWN_EPOLL_EVENTS : BitVec 32 :=
  EPOLLIN ||| EPOLLPRI ||| EPOLLOUT ||| EPOLLERR ||| EPOLLHUP ||| EPOLLRDNORM ||| EPOLLRDBAND |||
    EPOLLWRNORM ||| EPOLLWRBAND ||| EPOLLMSG ||| EPOLLRDHUP

def POLL_GROUP_MAX_GROUP_SIZE : Nat := 32

def PORT_MAX_ON_STACK_COMPLETIONS : Nat := 256

def EPOLL_CTL_ADD : Int := 1
def EPOLL_CTL_MOD : Int := 2
def EPOLL_CTL_DEL : Int := 3

def INVALID_SOCKET : Nat := 0xffffffffffffffff

def SIZE_MAX : Nat := 0xffffffffffffffff

structure EpollEvent where
  events : BitVec 32
  data : Nat
  deriving DecidableEq

/-- What `AFD_POLL_INFO` holds for the one socket of a poll operation. -/
structure AfdPollInfo where
  numberOfHandles : Nat := 0
  handle : Nat := 0
  events : BitVec 32 := 0
  deriving DecidableEq

inductive SockPollStatus where
  | idle
  | pending
  | cancelled
  deriving DecidableEq

structure SockState where
  ioStatus : NtStatus := .success
  pollInfo : AfdPollInfo := {}
  pollGroup : GroupId
  baseSocket : Nat
  userData : Nat := 0
  userEvents : BitVec 32 := 0
  pendingEvents : BitVec 32 := 0
  pollStatus : SockPollStatus := .idle
  deletePending : Bool := false
  deriving DecidableEq

structure PollGroup where
  groupSize : Nat := 0
  deriving DecidableEq

/-- The heads of the three queues of a port, and the nodes in its sockets and poll groups. -/
inductive QueueNode where
  | updateQueue
  | deletedQueue
  | pollGroupQueue
  | sock (s : SockId)
  | group (g : GroupId)
  deriving DecidableEq

/-- Where a thread is in `port_wait`: outside, in `GetQueuedCompletionStatusEx`, or back from it with
packets or without. -/
inductive Waiter where
  | out
  | polling (maxevents : Nat)
  | woken (maxevents : Nat) (packets : Option (List SockId))
  deriving DecidableEq

/-- A port without its links: the memory of its sockets and poll groups, the poll operations that AFD
has, the completion packets in the IOCP and the threads in `port_wait`. `allocated` counts the objects
in memory and bounds every loop. -/
structure PortData (τ : Type) where
  iocpHandle : Bool := true
  activePollCount : Nat := 0
  socks : SockId → Option SockState := fun _ => none
  groups : GroupId → Option PollGroup := fun _ => none
  allocated : Nat := 0
  inFlight : List SockId := []
  packets : List SockId := []
  waiters : τ → Waiter := fun _ => .out

/-- A port. `tick` counts the requests made to AFD. -/
structure Port (τ : Type) extends PortData τ where
  sockTree : Tree SockId := {}
  queues : QueueMem QueueNode := {}
  tick : Nat := 0

inductive PortFault where
  | tree (f : TreeFault)
  | useAfterFree
  | assertion
  | stuck
  deriving DecidableEq

/-- What `NtDeviceIoControlFile` answers to a poll request. -/
inductive AfdReply where
  | success (info : AfdPollInfo)
  | pending
  | invalidHandle
  | failure

/-- What the system answers during one call. The requests to AFD are numbered; `timedOut` says whether
the last error is a time-out in the end. -/
structure WinEnv where
  baseSocket : Option Nat
  newSock : Option SockId
  newGroup : Option GroupId
  poll : Nat → AfdReply
  cancel : Nat → Bool
  timedOut : Bool

/-- What `afd_poll` leaves as its error. -/
inductive AfdResult where
  | ok
  | ioPending
  | invalidHandle
  | failure
  deriving DecidableEq

variable {τ : Type}

abbrev PortM (τ : Type) : Type → Type := Exec (Port τ) PortFault

namespace PortData

def setSock (d : PortData τ) (s : SockId) (o : Option SockState) : PortData τ :=
  { d with socks := Function.update d.socks s o }

def setGroup (d : PortData τ) (g : GroupId) (o : Option PollGroup) : PortData τ :=
  { d with groups := Function.update d.groups g o }

/-- `malloc` and `free` of a socket and of a poll group. -/
def allocSock (d : PortData τ) (s : SockId) (v : SockState) : PortData τ :=
  { d.setSock s (some v) with allocated := d.allocated + 1 }

def freeSock (d : PortData τ) (s : SockId) : PortData τ :=
  { d.setSock s none with allocated := d.allocated - 1 }

def allocGroup (d : PortData τ) (g : GroupId) : PortData τ :=
  { d.setGroup g (some {}) with allocated := d.allocated + 1 }

def freeGroup (d : PortData τ) (g : GroupId) : PortData τ :=
  { d.setGroup g none with allocated := d.allocated - 1 }

end PortData

def Port.fuel (p : Port τ) : Nat := p.allocated + 2

def Port.setData (p : Port τ) (d : PortData τ) : Port τ := ⟨d, p.sockTree, p.queues, p.tick⟩

def onData (f : PortData τ → PortData τ) : PortM τ Unit := modify fun p => p.setData (f p.toPortData)

def getSock (s : SockId) : PortM τ SockState := do
  let o ← read fun p => p.socks s
  require .useAfterFree o

def updateSock (s : SockId) (f : SockState → SockState) : PortM τ Unit := do
  let v ← getSock s
  onData fun d => d.setSock s (some (f v))

def getGroup (g : GroupId) : PortM τ PollGroup := do
  let o ← read fun p => p.groups g
  require .useAfterFree o

def assert (c : Prop) [Decidable c] : PortM τ Unit := if c then pure () else fail .assertion

/-- A function of the tree, on the sockets of the port. -/
def onTree {α : Type} (m : TreeM SockId α) : PortM τ α := fun p =>
  match m p.sockTree with
  | .ok (a, t) => .ok (a, { p with sockTree := t })
  | .error f => .error (.tree f)

def onQueues (f : QueueMem QueueNode → QueueMem QueueNode) : PortM τ Unit :=
  modify fun p => { p with queues := f p.queues }

/-! ## AFD -/

def afdPoll (env : WinEnv) (s : SockId) : PortM τ AfdResult := do
  updateSock s fun v => { v with ioStatus := .pending }
  let n ← read fun p => p.tick
  modify fun p => { p with tick := n + 1 }
  match env.poll n with
  | .success info => do
    -- the packet of an operation that completes at once is queued like the others
    updateSock s fun v => { v with ioStatus := .success, pollInfo := info }
    onData fun d => { d with packets := d.packets ++ [s] }
    pure .ok
  | .pending => do
    onData fun d => { d with inFlight := d.inFlight ++ [s] }
    pure .ioPending
  | .invalidHandle => pure .invalidHandle
  | .failure => pure .failure

def afdCancelPoll (env : WinEnv) (s : SockId) : PortM τ Int := do
  let v ← getSock s
  if v.ioStatus ≠ .pending then
    pure 0
  else
    let n ← read fun p => p.tick
    modify fun p => { p with tick := n + 1 }
    if env.cancel n then pure 0 else pure (-1)

/-! ## Poll groups -/

/-- `port_get_iocp_handle`. -/
def portGetIocpHandle : PortM τ Unit := do
  let iocpHandle ← read fun p => p.iocpHandle
  assert (iocpHandle = true)

/-- `poll_group__new`. -/
def pollGroupNew (env : WinEnv) : PortM τ (Option GroupId) := do
  portGetIocpHandle
  match env.newGroup with
  | none => pure none
  | some g => do
    onData fun d => d.allocGroup g
    onQueues (queueNodeInit (.group g))
    onQueues (queueAppend .pollGroupQueue (.group g))
    pure (some g)

def pollGroupDelete (g : GroupId) : PortM τ Unit := do
  let w ← getGroup g
  assert (w.groupSize = 0)
  onQueues (queueRemove (.group g))
  onData fun d => d.freeGroup g

/-- The poll group around a queue node. -/
def pollGroupFromQueueNode : QueueNode → PortM τ GroupId
  | .group g => pure g
  | _ => fail .useAfterFree

/-- The group whose turn it is in `poll_group_acquire`. -/
def pollGroupLast : PortM τ (Option GroupId) := do
  let o ← read fun p => queueLast .pollGroupQueue p.queues
  match o with
  | none => pure none
  | some x => do
    let g ← pollGroupFromQueueNode x
    pure (some g)

/-- `++group_size`, and what `poll_group_acquire` does when the group is full then. -/
def pollGroupEnter (g : GroupId) : PortM τ Unit := do
  let w ← getGroup g
  onData fun d => d.setGroup g (some { w with groupSize := w.groupSize + 1 })
  if w.groupSize + 1 = POLL_GROUP_MAX_GROUP_SIZE then
    onQueues (queueMoveToStart .pollGroupQueue (.group g))

/-- Whether `poll_group_acquire` can use the group. -/
def pollGroupHasRoom : Option GroupId → PortM τ Bool
  | none => pure false
  | some g => do
    let w ← getGroup g
    pure (w.groupSize < POLL_GROUP_MAX_GROUP_SIZE)

/-- The end of `poll_group_acquire`. -/
def pollGroupTake : Option GroupId → PortM τ (Option GroupId)
  | none => pure none
  | some g => do
    pollGroupEnter g
    pure (some g)

def pollGroupAcquire (env : WinEnv) : PortM τ (Option GroupId) := do
  let last ← pollGroupLast
  let room ← pollGroupHasRoom last
  if room then
    pollGroupTake last
  else do
    let group ← pollGroupNew env
    pollGroupTake group

def pollGroupRelease (g : GroupId) : PortM τ Unit := do
  let w ← getGroup g
  -- `group_size` is a `size_t`
  let groupSize := (w.groupSize + SIZE_MAX) % (SIZE_MAX + 1)
  onData fun d => d.setGroup g (some { w with groupSize := groupSize })
  assert (groupSize < POLL_GROUP_MAX_GROUP_SIZE)
  onQueues (queueMoveToEnd .pollGroupQueue (.group g))

/-- `poll_group_get_afd_helper_handle`. -/
def pollGroupGetAfdHelperHandle (g : GroupId) : PortM τ Unit := do
  let _ ← getGroup g
  pure ()

/-! ## The sockets of the port -/

/-- The socket around a queue node. -/
def sockStateFromQueueNode : QueueNode → PortM τ SockId
  | .sock s => pure s
  | _ => fail .useAfterFree

def portRegisterSocket (s : SockId) (socket : Nat) : PortM τ Int := do
  let fuel ← read fun p => p.fuel
  onTree (treeAdd fuel s socket)

def portUnregisterSocket (s : SockId) : PortM τ Unit := do
  let fuel ← read fun p => p.fuel
  onTree (treeDel fuel s)

def portFindSocket (socket : Nat) : PortM τ (Option SockId) := do
  let fuel ← read fun p => p.fuel
  onTree (treeFind fuel socket)

/-- `if (queue_is_enqueued(node)) return; queue_append(queue, node);` -/
def portAppendSocket (queue : QueueNode) (s : SockId) : PortM τ Unit := do
  let enqueued ← read fun p => queueIsEnqueued (.sock s) p.queues
  if enqueued then pure () else onQueues (queueAppend queue (.sock s))

/-- `if (!queue_is_enqueued(node)) return; queue_remove(node);` -/
def portRemoveSocket (s : SockId) : PortM τ Unit := do
  let enqueued ← read fun p => queueIsEnqueued (.sock s) p.queues
  if !enqueued then pure () else onQueues (queueRemove (.sock s))

def portRequestSocketUpdate (s : SockId) : PortM τ Unit := portAppendSocket .updateQueue s

def portCancelSocketUpdate (s : SockId) : PortM τ Unit := portRemoveSocket s

def portAddDeletedSocket (s : SockId) : PortM τ Unit := portAppendSocket .deletedQueue s

def portRemoveDeletedSocket (s : SockId) : PortM τ Unit := portRemoveSocket s

/-! ## Sockets -/

/-- `free` of a socket. -/
def sockFree (s : SockId) : PortM τ Unit := do
  let _ ← getSock s
  onData fun d => d.freeSock s

/-- `sock__cancel_poll`. -/
def sockCancelPoll (env : WinEnv) (s : SockId) : PortM τ Int := do
  let v ← getSock s
  assert (v.pollStatus = .pending)
  pollGroupGetAfdHelperHandle v.pollGroup
  let r ← afdCancelPoll env s
  if r < 0 then
    pure (-1)
  else do
    updateSock s fun v => { v with pollStatus := .cancelled, pendingEvents := 0 }
    pure 0

/-- `malloc` and `memset` of a socket with its nodes. -/
def sockAlloc (s : SockId) (baseSocket : Nat) (g : GroupId) : PortM τ Unit := do
  onData fun d => d.allocSock s { baseSocket := baseSocket, pollGroup := g }
  onTree (modify fun t => t.update s fun _ => {})
  onQueues (queueNodeInit (.sock s))

def sockNew (env : WinEnv) (socket : Nat) : PortM τ (Option SockId) := do
  if socket = 0 ∨ socket = INVALID_SOCKET then
    pure none
  else
    match env.baseSocket with
    | none => pure none
    | some baseSocket => do
      let group ← pollGroupAcquire env
      match group with
      | none => pure none
      | some g =>
        match env.newSock with
        | none => do
          pollGroupRelease g
          pure none
        | some s => do
          sockAlloc s baseSocket g
          let r ← portRegisterSocket s socket
          if r < 0 then do
            sockFree s
            pollGroupRelease g
            pure none
          else
            pure (some s)

/-- The part of `sock__delete` for a socket that was not deleted before. -/
def sockUnregister (env : WinEnv) (s : SockId) : PortM τ Unit := do
  let v ← getSock s
  if v.pollStatus = .pending then do
    let _ ← sockCancelPoll env s
    pure ()
  portCancelSocketUpdate s
  portUnregisterSocket s
  updateSock s fun v => { v with deletePending := true }

/-- The part of `sock__delete` that frees the socket, or puts it off. -/
def sockRelease (s : SockId) (force : Bool) : PortM τ Unit := do
  let v ← getSock s
  if force = true ∨ v.pollStatus = .idle then do
    portRemoveDeletedSocket s
    pollGroupRelease v.pollGroup
    sockFree s
  else
    portAddDeletedSocket s

/-- `sock__delete`. -/
def sockDeleteWith (env : WinEnv) (s : SockId) (force : Bool) : PortM τ Int := do
  let v ← getSock s
  if v.deletePending = false then
    sockUnregister env s
  sockRelease s force
  pure 0

def sockDelete (env : WinEnv) (s : SockId) : PortM τ Unit := do
  let _ ← sockDeleteWith env s false
  pure ()

def sockForceDelete (env : WinEnv) (s : SockId) : PortM τ Unit := do
  let _ ← sockDeleteWith env s true
  pure ()

def sockSetEvent (s : SockId) (ev : EpollEvent) : PortM τ Int := do
  let events := ev.events ||| EPOLLERR ||| EPOLLHUP
  updateSock s fun v => { v with userEvents := events, userData := ev.data }
  let v ← getSock s
  if events &&& SOCK_KNOWN_EPOLL_EVENTS &&& ~~~v.pendingEvents ≠ 0 then
    portRequestSocketUpdate s
  pure 0

/-- `if (epoll_events & mask) afd_events |= bits;`, and the same the other way. -/
def orIf (events mask bits acc : BitVec 32) : BitVec 32 := if events &&& mask ≠ 0 then acc ||| bits else acc

def sockEpollEventsToAfdEvents (epollEvents : BitVec 32) : BitVec 32 :=
  let afdEvents := AFD_POLL_LOCAL_CLOSE
  let afdEvents := orIf epollEvents (EPOLLIN ||| EPOLLRDNORM) (AFD_POLL_RECEIVE ||| AFD_POLL_ACCEPT) afdEvents
  let afdEvents := orIf epollEvents (EPOLLPRI ||| EPOLLRDBAND) AFD_POLL_RECEIVE_EXPEDITED afdEvents
  let afdEvents := orIf epollEvents (EPOLLOUT ||| EPOLLWRNORM ||| EPOLLWRBAND) AFD_POLL_SEND afdEvents
  let afdEvents := orIf epollEvents (EPOLLIN ||| EPOLLRDNORM ||| EPOLLRDHUP) AFD_POLL_DISCONNECT afdEvents
  let afdEvents := orIf epollEvents EPOLLHUP AFD_POLL_ABORT afdEvents
  orIf epollEvents EPOLLERR AFD_POLL_CONNECT_FAIL afdEvents

def sockAfdEventsToEpollEvents (afdEvents : BitVec 32) : BitVec 32 :=
  let epollEvents := 0
  let epollEvents := orIf afdEvents (AFD_POLL_RECEIVE ||| AFD_POLL_ACCEPT) (EPOLLIN ||| EPOLLRDNORM) epollEvents
  let epollEvents := orIf afdEvents AFD_POLL_RECEIVE_EXPEDITED (EPOLLPRI ||| EPOLLRDBAND) epollEvents
  let epollEvents := orIf afdEvents AFD_POLL_SEND (EPOLLOUT ||| EPOLLWRNORM ||| EPOLLWRBAND) epollEvents
  let epollEvents := orIf afdEvents AFD_POLL_DISCONNECT (EPOLLIN ||| EPOLLRDNORM ||| EPOLLRDHUP) epollEvents
  let epollEvents := orIf afdEvents AFD_POLL_ABORT EPOLLHUP epollEvents
  -- Linux reports all these events after `connect` has failed
  orIf afdEvents AFD_POLL_CONNECT_FAIL
    (EPOLLIN ||| EPOLLOUT ||| EPOLLERR ||| EPOLLRDNORM ||| EPOLLWRNORM ||| EPOLLRDHUP) epollEvents

/-- What the user is interested in and the pending poll operation does not look for. -/
def SockState.unwatched (v : SockState) : BitVec 32 :=
  v.userEvents &&& SOCK_KNOWN_EPOLL_EVENTS &&& ~~~v.pendingEvents

/-- The end of `sock_update`. -/
def sockUpdated (s : SockId) : PortM τ Int := do
  portCancelSocketUpdate s
  pure 0

/-- The branch of `sock_update` for a socket without a poll operation. -/
def sockSubmit (env : WinEnv) (s : SockId) : PortM τ Int := do
  updateSock s fun v =>
    { v with pollInfo := ⟨1, v.baseSocket, sockEpollEventsToAfdEvents v.userEvents⟩ }
  let v ← getSock s
  pollGroupGetAfdHelperHandle v.pollGroup
  let r ← afdPoll env s
  match r with
  | .invalidHandle => sockDeleteWith env s false
  | .failure => pure (-1)
  | _ => do
    updateSock s fun v => { v with pollStatus := .pending, pendingEvents := v.userEvents }
    sockUpdated s

def sockUpdate (env : WinEnv) (s : SockId) : PortM τ Int := do
  let v ← getSock s
  assert (v.deletePending = false)
  match v.pollStatus with
  | .pending =>
    if v.unwatched = 0 then
      sockUpdated s
    else do
      let r ← sockCancelPoll env s
      if r < 0 then pure (-1) else sockUpdated s
  | .cancelled => sockUpdated s
  | .idle => sockSubmit env s

/-- The end of `sock_feed_event`: the events of a poll operation, filtered and reported. -/
def sockReport (s : SockId) (epollEvents : BitVec 32) : PortM τ (Option EpollEvent) := do
  portRequestSocketUpdate s
  let v ← getSock s
  let epollEvents := epollEvents &&& v.userEvents
  if epollEvents = 0 then
    pure none
  else do
    if v.userEvents &&& EPOLLONESHOT ≠ 0 then
      updateSock s fun v => { v with userEvents := 0 }
    let v ← getSock s
    pure (some ⟨epollEvents, v.userData⟩)

/-- `sock_feed_event`, with the event it writes when it returns 1. -/
def sockFeedEvent (env : WinEnv) (s : SockId) : PortM τ (Option EpollEvent) := do
  updateSock s fun v => { v with pollStatus := .idle, pendingEvents := 0 }
  let v ← getSock s
  if v.deletePending = true then do
    sockDelete env s
    pure none
  else if v.ioStatus = .cancelled then
    sockReport s 0
  else if v.ioStatus.ntSuccess = false then
    sockReport s EPOLLERR
  else if v.pollInfo.numberOfHandles < 1 then
    sockReport s 0
  else if v.pollInfo.events &&& AFD_POLL_LOCAL_CLOSE ≠ 0 then do
    sockDelete env s
    pure none
  else
    sockReport s (sockAfdEventsToEpollEvents v.pollInfo.events)

/-! ## The port -/

/-- The loop of `port__update_events`. -/
def portUpdateEventsLoop (env : WinEnv) : Nat → PortM τ Int
  | 0 => fail .stuck
  | fuel + 1 => do
    let first ← read fun p => queueFirst .updateQueue p.queues
    match first with
    | none => pure 0
    | some x => do
      let s ← sockStateFromQueueNode x
      let r ← sockUpdate env s
      if r < 0 then pure (-1) else portUpdateEventsLoop env fuel

/-- `port__update_events`. -/
def portUpdateEvents (env : WinEnv) : PortM τ Int := do
  let fuel ← read fun p => p.fuel
  portUpdateEventsLoop env fuel

/-- `port__update_events_if_polling`. -/
def portUpdateEventsIfPolling (env : WinEnv) : PortM τ Unit := do
  let activePollCount ← read fun p => p.activePollCount
  if activePollCount > 0 then do
    let _ ← portUpdateEvents env
    pure ()

/-- `port__feed_events`, with the events it writes. -/
def portFeedEvents (env : WinEnv) : List SockId → PortM τ (List EpollEvent)
  | [] => pure []
  | s :: packets => do
    let ev ← sockFeedEvent env s
    let evs ← portFeedEvents env packets
    pure (ev.toList ++ evs)

/-- `port__ctl_add`. -/
def portCtlAdd (env : WinEnv) (sock : Nat) (ev : EpollEvent) : PortM τ Int := do
  let o ← sockNew env sock
  match o with
  | none => pure (-1)
  | some s => do
    let r ← sockSetEvent s ev
    if r < 0 then do
      sockDelete env s
      pure (-1)
    else do
      portUpdateEventsIfPolling env
      pure 0

/-- `port__ctl_mod`. -/
def portCtlMod (env : WinEnv) (sock : Nat) (ev : EpollEvent) : PortM τ Int := do
  let o ← portFindSocket sock
  match o with
  | none => pure (-1)
  | some s => do
    let r ← sockSetEvent s ev
    if r < 0 then
      pure (-1)
    else do
      portUpdateEventsIfPolling env
      pure 0

/-- `port__ctl_del`. -/
def portCtlDel (env : WinEnv) (sock : Nat) : PortM τ Int := do
  let o ← portFindSocket sock
  match o with
  | none => pure (-1)
  | some s => do
    sockDelete env s
    pure 0

/-- `port__ctl_op`. -/
def portCtl (env : WinEnv) (op : Int) (sock : Nat) (ev : EpollEvent) : PortM τ Int :=
  if op = EPOLL_CTL_ADD then portCtlAdd env sock ev
  else if op = EPOLL_CTL_MOD then portCtlMod env sock ev
  else if op = EPOLL_CTL_DEL then portCtlDel env sock
  else pure (-1)

def portClose : PortM τ Unit := onData fun d => { d with iocpHandle := false }

/-- The first loop of `port_delete`. -/
def portDeleteTree (env : WinEnv) : Nat → PortM τ Unit
  | 0 => fail .stuck
  | fuel + 1 => do
    let root ← onTree treeRoot
    match root with
    | none => pure ()
    | some s => do
      sockForceDelete env s
      portDeleteTree env fuel

/-- The second loop of `port_delete`. -/
def portDeleteDeleted (env : WinEnv) : Nat → PortM τ Unit
  | 0 => fail .stuck
  | fuel + 1 => do
    let first ← read fun p => queueFirst .deletedQueue p.queues
    match first with
    | none => pure ()
    | some x => do
      let s ← sockStateFromQueueNode x
      sockForceDelete env s
      portDeleteDeleted env fuel

/-- The third loop of `port_delete`. -/
def portDeleteGroups : Nat → PortM τ Unit
  | 0 => fail .stuck
  | fuel + 1 => do
    let first ← read fun p => queueFirst .pollGroupQueue p.queues
    match first with
    | none => pure ()
    | some x => do
      let g ← pollGroupFromQueueNode x
      pollGroupDelete g
      portDeleteGroups fuel

/-- `port_delete`, up to the `free` of the port itself. -/
def portDelete (env : WinEnv) : PortM τ Int := do
  let iocpHandle ← read fun p => p.iocpHandle
  assert (iocpHandle = false)
  let fuel ← read fun p => p.fuel
  portDeleteTree env fuel
  portDeleteDeleted env fuel
  portDeleteGroups fuel
  let empty ← read fun p => queueIsEmpty .updateQueue p.queues
  assert (empty = true)
  pure 0

/-! ## Waiting -/

variable [DecidableEq τ]

def PortData.setWaiter (d : PortData τ) (t : τ) (w : Waiter) : PortData τ :=
  { d with waiters := Function.update d.waiters t w }

/-- What a call of `port_wait` has come to: it waits, or it returned a number with its events. -/
inductive WaitResult where
  | waiting
  | returned (result : Int) (events : List EpollEvent)
  deriving DecidableEq

/-- The end of `port_wait`. -/
def portWaitEnd (env : WinEnv) (result : Int) (events : List EpollEvent) : PortM τ WaitResult := do
  portUpdateEventsIfPolling env
  if result ≥ 0 then pure (.returned result events)
  else if env.timedOut = true then pure (.returned 0 events)
  else pure (.returned (-1) events)

/-- A round of the loop of `port_wait`, as far as `port__poll` lets go of the lock. -/
def portWaitRound (env : WinEnv) (t : τ) (maxevents : Nat) : PortM τ WaitResult := do
  let r ← portUpdateEvents env
  if r < 0 then
    portWaitEnd env (-1) []
  else do
    onData fun d => { d with activePollCount := d.activePollCount + 1 }
    onData fun d => d.setWaiter t (.polling maxevents)
    pure .waiting

/-- `port_wait`; `alloc` says whether there is memory for more packets than the stack has place for. -/
def portWait (env : WinEnv) (t : τ) (maxevents : Int) (alloc : Bool) : PortM τ WaitResult :=
  if maxevents ≤ 0 then
    pure (.returned (-1) [])
  else
    let maxevents := maxevents.toNat
    portWaitRound env t
      (if maxevents ≤ PORT_MAX_ON_STACK_COMPLETIONS ∨ alloc = true then maxevents
        else PORT_MAX_ON_STACK_COMPLETIONS)

/-- `port_wait` from `GetQueuedCompletionStatusEx` on, which gave `packets` or failed. `again` says
whether there is time left. -/
def portWaitResume (env : WinEnv) (t : τ) (maxevents : Nat) (packets : Option (List SockId)) (again : Bool) :
    PortM τ WaitResult := do
  onData fun d => d.setWaiter t .out
  onData fun d => { d with activePollCount := d.activePollCount - 1 }
  match packets with
  | none => portWaitEnd env (-1) []
  | some packets => do
    let events ← portFeedEvents env packets
    if events.length = 0 ∧ again = true then
      portWaitRound env t maxevents
    else
      portWaitEnd env events.length events

/-- AFD completes the poll operation of a socket: it writes to the socket and queues a packet. -/
def afdComplete (s : SockId) (status : NtStatus) (info : AfdPollInfo) : PortM τ Unit := do
  updateSock s fun v => { v with ioStatus := status, pollInfo := info }
  onData fun d => { d with inFlight := d.inFlight.erase s, packets := d.packets ++ [s] }

/-- `GetQueuedCompletionStatusEx` returns with `n` packets. -/
def gqcsDequeue (t : τ) (maxevents n : Nat) : PortM τ Unit :=
  onData fun d => { d with packets := d.packets.drop n }.setWaiter t (.woken maxevents (some (d.packets.take n)))

/-- `GetQueuedCompletionStatusEx` returns without packets. -/
def gqcsFail (t : τ) (maxevents : Nat) : PortM τ Unit :=
  onData fun d => d.setWaiter t (.woken maxevents none)

/-! ## Runs -/

/-- What happens to a port: calls of its functions, and what AFD and the IOCP do. -/
inductive PortAction (τ : Type) where
  | ctl (env : WinEnv) (op : Int) (sock : Nat) (ev : EpollEvent)
  | wait (env : WinEnv) (t : τ) (maxevents : Int) (alloc : Bool)
  | resume (env : WinEnv) (t : τ) (again : Bool)
  | close
  | complete (s : SockId) (status : NtStatus) (info : AfdPollInfo)
  | dequeue (t : τ) (n : Nat)
  | fail (t : τ)

/-- What a call returns. -/
inductive PortAnswer where
  | none
  | code (r : Int)
  | wait (r : WaitResult)
  deriving DecidableEq

/-- The memory that is handed out is not in use. -/
def WinEnv.Fits (env : WinEnv) (p : Port τ) : Prop :=
  (∀ s, env.newSock = some s → p.socks s = none) ∧ ∀ g, env.newGroup = some g → p.groups g = none

/-- The action can happen: a thread makes one call at a time, AFD completes what it was asked for,
and the IOCP hands out packets in their order. -/
def PortAction.Enabled (p : Port τ) : PortAction τ → Prop
  | .ctl env _ _ _ => env.Fits p
  | .wait _ t _ _ => p.waiters t = .out
  | .resume _ t _ => ∃ m o, p.waiters t = .woken m o
  | .close => p.iocpHandle = true
  | .complete s status _ => s ∈ p.inFlight ∧ status ≠ .pending
  | .dequeue t n => ∃ m, p.waiters t = .polling m ∧ 0 < n ∧ n ≤ m ∧ n ≤ p.packets.length
  | .fail t => ∃ m, p.waiters t = .polling m

def PortAction.exec : PortAction τ → PortM τ PortAnswer
  | .ctl env op sock ev => do
    let r ← portCtl env op sock ev
    pure (.code r)
  | .wait env t maxevents alloc => do
    let r ← portWait env t maxevents alloc
    pure (.wait r)
  | .resume env t again => do
    let w ← read fun p => p.waiters t
    match w with
    | .woken maxevents packets => do
      let r ← portWaitResume env t maxevents packets again
      pure (.wait r)
    | _ => pure .none
  | .close => do
    portClose
    pure .none
  | .complete s status info => do
    afdComplete s status info
    pure .none
  | .dequeue t n => do
    let w ← read fun p => p.waiters t
    match w with
    | .polling maxevents => do
      gqcsDequeue t maxevents n
      pure .none
    | _ => pure .none
  | .fail t => do
    let w ← read fun p => p.waiters t
    match w with
    | .polling maxevents => do
      gqcsFail t maxevents
      pure .none
    | _ => pure .none

end MNet.Wepoll
