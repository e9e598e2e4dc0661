import MNet.Event

/-! # The API

Channel arguments are pointers: `none` is NULL, a channel that has been freed faults. A buffer
is given by its bytes, which carry its length. `apiCall` dispatches a call, and a run is a
sequence of calls that return. -/

namespace MNet
open MNet.Lib

variable {ε : Type} (x : ExtTable ε)

def mnetInit : M ε Int := do
  let inited ← readMnet Mnet.isInit
  if inited then return 0
  else
    evtInit
    let _ ← sysClock
    modifyMnet fun ss =>
      { ss with
        tmClock := some []
        acBalancer := false
        isInit := true
        reserved := fun ctype =>
          decide (CHANN_TYPE_STREAM ≤ ctype ∧ ctype ≤ CHANN_TYPE_BROADCAST) || ss.reserved ctype }
    return 1

/-- The walk of `mnet_fini` along `next`, for at most `fuel` channels. -/
def finiLoop : Nat → Option ChannId → M ε Unit
  | _, none => pure ()
  | 0, some _ => Exec.fail .hang
  | fuel + 1, some n => do
    let c ← deref n
    let _ ← channDisconnectSocket (opsOf x) n
    channCloseSocket (opsOf x) n
    channDestroy n
    finiLoop fuel c.next

def mnetFini : M ε Unit := do
  let inited ← readMnet Mnet.isInit
  if inited then
    let head ← readMnet Mnet.channs
    let fuel ← walkFuel
    finiLoop x fuel head
    evtFini
    modifyMnet fun _ => {}
  else pure ()

def mnetMultiAcceptBalancer (on : Bool) : M ε Unit :=
  modifyMnet fun ss => { ss with acBalancer := on }

def resetLoop : Nat → Option ChannId → M ε Unit
  | _, none => pure ()
  | 0, some _ => Exec.fail .hang
  | fuel + 1, some n => do
    modifyChann n fun c => { c with epollEvents := 0 }
    let _ ← evtAdd n .read
    let c ← deref n
    resetLoop fuel c.next

def mnetMultiResetEvent : M ε Unit := do
  evtFini
  evtInit
  let head ← readMnet Mnet.channs
  let fuel ← walkFuel
  resetLoop fuel head

/-- The callbacks of a table are never NULL. -/
def mnetExtRegister (ctype : Nat) : M ε Int := do
  if ctype ≤ CHANN_TYPE_BROADCAST ∨ MNET_EXT_MAX_SIZE ≤ ctype then return 0
  else
    let reserved ← readMnet Mnet.reserved
    let raw := (x ctype).typeFn ctype
    if reserved ctype = false ∧ CHANN_TYPE_STREAM ≤ raw ∧ raw ≤ CHANN_TYPE_BROADCAST then
      modifyMnet fun ss => { ss with reserved := Function.update ss.reserved ctype true }
      return 1
    else return 0

def mnetChannOpen (ctype : Nat) : M ε (Option ChannId) := do
  if ctype < CHANN_TYPE_STREAM ∨ MNET_EXT_MAX_SIZE ≤ ctype then return none
  else
    let reserved ← readMnet Mnet.reserved
    if reserved ctype = false then return none
    else
      let n ← channCreate ctype .disconnect
      callback .openCb (extConfig x ctype).openCb n
      return some n

def mnetChannClose (n : Option ChannId) : M ε Unit := do
  match n with
  | none => pure ()
  | some n =>
    let c ← deref n
    if c.state.val > ChannState.closed.val then
      let _ ← channDisconnectSocket (opsOf x) n
      channCloseSocket (opsOf x) n
    else pure ()

/-- The wrapped state of a channel. -/
def channState (s : Sys ε) (n : ChannId) (c : Chann) : Int :=
  (extConfig x c.ctype).stateFn s n c.state

def mnetChannConnect (n : Option ChannId) (host : Option Nat) (port : Int) : M ε Int := do
  match n, host with
  | some n, some host =>
    if port > 0 then
      let fd ← channOpenSocket x n (some host) port 0
      if fd > 0 then
        modifyChann n fun c => { c with fd := fd }
        let c ← deref n
        let ext := extConfig x c.ctype
        if ext.typeFn c.ctype = CHANN_TYPE_STREAM then
          let r ← sysConnect fd c.addr
          let e ← readErrno
          if r ≥ 0 ∨ e = EINPROGRESS ∨ e = EWOULDBLOCK then
            modifyChann n fun c => { c with state := .connecting }
            let _ ← evtAdd n .write
            callback .connectCb ext.connectCb n
            return 1
          else return 0
        else
          modifyChann n fun c => { c with state := .connected }
          let _ ← evtAdd n .read
          callback .connectCb ext.connectCb n
          return 1
      else return 0
    else return 0
  | _, _ => return 0

def mnetChannDisconnect (n : Option ChannId) : M ε Unit := do
  match n with
  | none => pure ()
  | some n =>
    let _ ← channDisconnectSocket (opsOf x) n
    pure ()

def mnetChannListen (n : Option ChannId) (host : Option Nat) (port : Int) (backlog : BitVec 32) :
    M ε Int := do
  match n with
  | none => return 0
  | some n =>
    if port > 0 then
      let fd ← channOpenSocket x n host port (backlog ||| 1)
      if fd > 0 then
        modifyChann n fun c => { c with fd := fd }
        modifyChann n fun c => { c with state := .listening }
        let _ ← evtAdd n .read
        let c ← deref n
        callback .listenCb (extConfig x c.ctype).listenCb n
        return 1
      else return 0
    else return 0

def mnetChannSetOpaque (n : Option ChannId) (p : Nat) : M ε Unit := do
  match n with
  | none => pure ()
  | some n => modifyChann n fun c => { c with opaquePtr := p }

def mnetChannGetOpaque (n : Option ChannId) : M ε Nat := do
  match n with
  | none => return 0
  | some n =>
    let c ← deref n
    return c.opaquePtr

/-- An `int`: past the first block, every block counts as `MNET_BUF_SIZE`. -/
def rwbCached : RwbHead → Int
  | [] => 0
  | b :: h => wrap32 (rwbBuffered b + (rwbCount (b :: h) - 1) * MNET_BUF_SIZE)

def channCached (c : Chann) : Int := rwbCached c.rwbSend

def activeSend (n : ChannId) (value : Bool) : M ε Unit := do
  modifyChann n fun c => { c with activeSendEvent := value }
  if value then
    let _ ← evtAdd n .write
    pure ()
  else
    let c ← deref n
    if channCached c ≤ 0 then
      let _ ← evtDel n .write
      pure ()
    else pure ()

def activeTimer (n : ChannId) (value : Int) : M ε Unit := do
  let c ← deref n
  if value > 0 then
    if c.timerNode.isSome then tmUpdate n (wrap64 (value * 1000))
    else tmActive n (wrap64 (value * 1000))
  else if c.timerNode.isSome then tmKill n
  else pure ()

def mnetChannActiveEvent (n : Option ChannId) (et : ChannEvent) (value : Int) : M ε Unit := do
  match n with
  | none => pure ()
  | some n =>
    let s ← Exec.read id
    let c ← deref n
    let on := decide (value ≠ 0)
    if et = .send ∧ channState x s n c = ChannState.connected.val ∧ c.activeSendEvent ≠ on then
      activeSend n on
    else if et = .timer ∧ c.state ≠ .closed then activeTimer n value
    else pure ()

/-- The guard of `mnet_chann_recv` and `mnet_chann_send`, whose `else` branch logs `n->fd`. -/
def channReady (n : ChannId) : M ε Bool := do
  let s ← Exec.read id
  let c ← deref n
  return decide (channState x s n c ≥ ChannState.connected.val)

/-- `buf` tells whether the buffer pointer is not NULL. -/
def mnetChannRecv (n : Option ChannId) (buf : Bool) (len : Int) : M ε Int := do
  let n ← Exec.require .nullDeref n
  let ready ← channReady x n
  if buf ∧ len > 0 ∧ ready then
    let c ← deref n
    let ret ← (extConfig x c.ctype).recvFn n len.toNat
    record (.recvFn n ret)
    Exec.when (ret < 0) (channFail x n)
    modifyChann n fun c => { c with bytesRecv := c.bytesRecv + ret }
    return ret
  else return -1

def mnetChannSend (n : Option ChannId) (buf : Option (List UInt8)) : M ε Int := do
  let n ← Exec.require .nullDeref n
  let ready ← channReady x n
  let data := buf.getD []
  if data ≠ [] ∧ ready then
    let c ← deref n
    if rwbCount c.rwbSend > 0 then
      modifyChann n fun c => { c with rwbSend := rwbCache c.rwbSend data }
      return data.length
    else
      let ret ← channSend x n data
      if ret < 0 then
        channFail x n
        return -1
      else if ret < data.length then
        modifyChann n fun c => { c with rwbSend := rwbCache c.rwbSend (data.drop ret.toNat) }
        let _ ← evtAdd n .write
        return data.length
      else return ret
  else return -1

/-- DGRAM or BROADCAST, which `mnet_dgram_recv` and `mnet_dgram_send` insist on. -/
def isDgram (ctype : Nat) : Bool := ctype = CHANN_TYPE_DGRAM ∨ ctype = CHANN_TYPE_BROADCAST

def mnetDgramRecv (n : Option ChannId) (buf : Bool) (len : Int) : M ε (Int × Option SockAddr) := do
  let n ← Exec.require .nullDeref n
  let c ← deref n
  if isDgram c.ctype ∧ buf ∧ len > 0 then
    let ready ← channReady x n
    if ready then
      let ret ← mnetChannRecv x (some n) buf len
      let c ← deref n
      return (ret, some c.addr)
    else return (0, none)
  else return (0, none)

/-- The destination of a datagram: a connected channel is readdressed, another one connects. -/
def dgramAim (n : ChannId) (host : Nat) (port : Int) : M ε Unit := do
  let ready ← channReady x n
  if ready then channFillAddr n (some host) port
  else
    let _ ← mnetChannConnect x (some n) (some host) port
    pure ()

def mnetDgramSend (n : Option ChannId) (addr : Option (Nat × Int)) (buf : Option (List UInt8)) :
    M ε Int := do
  let n ← Exec.require .nullDeref n
  let c ← deref n
  match addr with
  | none => return 0
  | some (host, port) =>
    if isDgram c.ctype ∧ buf.getD [] ≠ [] then
      dgramAim x n host port
      mnetChannSend x (some n) buf
    else return 0

def mnetChannSocketSetBufsize (n : Option ChannId) (size : Int) : M ε Int := do
  match n with
  | none => return 0
  | some n =>
    if size > 0 then
      modifyChann n fun c => { c with bufSize := size }
      let c ← deref n
      if c.fd > 0 then setBufsize c.fd size else return 1
    else return 0

/-! ## Calls and runs -/

inductive Call where
  | mnetInit
  | mnetFini
  | multiAcceptBalancer (on : Bool)
  | multiResetEvent
  | extRegister (ctype : Nat)
  | poll
  | resultNext (fuel : Nat)
  | channOpen (ctype : Nat)
  | channClose (n : Option ChannId)
  | channConnect (n : Option ChannId) (host : Option Nat) (port : Int)
  | channDisconnect (n : Option ChannId)
  | channListen (n : Option ChannId) (host : Option Nat) (port : Int) (backlog : BitVec 32)
  | channSetOpaque (n : Option ChannId) (p : Nat)
  | channActiveEvent (n : Option ChannId) (et : ChannEvent) (value : Int)
  | channRecv (n : Option ChannId) (buf : Bool) (len : Int)
  | channSend (n : Option ChannId) (buf : Option (List UInt8))
  | dgramRecv (n : Option ChannId) (buf : Bool) (len : Int)
  | dgramSend (n : Option ChannId) (addr : Option (Nat × Int)) (buf : Option (List UInt8))
  | socketSetBufsize (n : Option ChannId) (size : Int)
deriving DecidableEq, Repr

/-- What a call returns. A message is given by the channel whose slot it points to. -/
inductive Ret where
  | unit
  | int (i : Int)
  | chann (n : Option ChannId)
  | msg (p : Option ChannId)
  | received (i : Int) (addr : Option SockAddr)
deriving DecidableEq, Repr

/-- A call with its result made a `Ret`. -/
def ret {α : Type} (f : α → Ret) (m : M ε α) : M ε Ret := do
  let a ← m
  return f a

def apiCall : Call → M ε Ret
  | .mnetInit => ret .int mnetInit
  | .mnetFini => ret (fun _ => .unit) (mnetFini x)
  | .multiAcceptBalancer on => ret (fun _ => .unit) (mnetMultiAcceptBalancer on)
  | .multiResetEvent => ret (fun _ => .unit) mnetMultiResetEvent
  | .extRegister ctype => ret .int (mnetExtRegister x ctype)
  | .poll => ret .int evtPoll
  | .resultNext fuel => ret .msg (evtResultNext x fuel)
  | .channOpen ctype => ret .chann (mnetChannOpen x ctype)
  | .channClose n => ret (fun _ => .unit) (mnetChannClose x n)
  | .channConnect n host port => ret .int (mnetChannConnect x n host port)
  | .channDisconnect n => ret (fun _ => .unit) (mnetChannDisconnect x n)
  | .channListen n host port backlog => ret .int (mnetChannListen x n host port backlog)
  | .channSetOpaque n p => ret (fun _ => .unit) (mnetChannSetOpaque n p)
  | .channActiveEvent n et value => ret (fun _ => .unit) (mnetChannActiveEvent x n et value)
  | .channRecv n buf len => ret .int (mnetChannRecv x n buf len)
  | .channSend n buf => ret .int (mnetChannSend x n buf)
  | .dgramRecv n buf len => ret (fun p => .received p.1 p.2) (mnetDgramRecv x n buf len)
  | .dgramSend n addr buf => ret .int (mnetDgramSend x n addr buf)
  | .socketSetBufsize n size => ret .int (mnetChannSocketSetBufsize n size)

end MNet
