import MNet.Ext

/-! # Channel operations -/

namespace MNet
open MNet.Lib

variable {ε : Type} (x : ExtTable ε)

/-- Puts a new channel in front of `ss->channs`. -/
def channCreate (ctype : Nat) (state : ChannState) : M ε ChannId := do
  let n ← Exec.read Sys.nextChann
  let head ← readMnet Mnet.channs
  Exec.modify fun s => { s with nextChann := n + 1 }
  Exec.modify (·.setChann n { state := state, ctype := ctype, next := head })
  Exec.forSome head fun h => modifyChann h fun c => { c with prev := some n }
  modifyMnet fun ss => { ss with channs := some n, channCount := ss.channCount + 1 }
  return n

def freeChann (n : ChannId) : M ε Unit :=
  Exec.modify fun s => { s with heap := Function.update s.heap n none }

/-- `_rwb_destroy(&n->rwb_send)`, which may never end. -/
def destroyCache (n : ChannId) : M ε Unit := do
  let c ← deref n
  let h ← Exec.require .hang (rwbDestroy c.rwbSend)
  modifyChann n fun c => { c with rwbSend := h }

def unlinkChann (n : ChannId) : M ε Unit := do
  let c ← deref n
  Exec.forSome c.next fun m => modifyChann m fun d => { d with prev := c.prev }
  match c.prev with
  | none => modifyMnet fun ss => { ss with channs := c.next }
  | some m => modifyChann m fun d => { d with next := c.next }

def channDestroy (n : ChannId) : M ε Unit := do
  let c ← deref n
  if c.state = .closed then
    unlinkChann n
    destroyCache n
    tmKill n
    modifyMnet fun ss => { ss with channCount := ss.channCount - 1 }
    freeChann n
  else pure ()

/-- `accept`, or `_chann_multiprocess_accept` when a balancer is installed: `ac_before` may
turn the accept down, and then the result is 0. -/
def acFn (lfd : Int) : M ε (Int × SockAddr) := do
  let balancer ← readMnet Mnet.acBalancer
  if balancer then
    let before ← sysRet
    if before > 0 then
      let r ← sysAccept lfd
      let _ ← sysRet
      return r
    else return (0, {})
  else sysAccept lfd

/-- Two `fcntl` calls: the second only if the first one works. -/
def setNonblocking (fd : Int) : M ε Int := do
  let flag ← sysRet
  if flag ≠ -1 then
    let r ← sysRet
    record (.nonblock fd r)
    return r
  else
    record (.nonblock fd (-1))
    return -1

def channAccept (n : ChannId) : M ε (Option ChannId) := do
  let l ← deref n
  let r ← acFn l.fd
  let fd := r.1
  if fd > 0 then
    let nb ← setNonblocking fd
    if nb ≥ 0 then
      let c ← channCreate l.ctype .connected
      modifyChann c fun d => { d with fd := fd, addr := r.2 }
      callback .acceptCb (extConfig x l.ctype).acceptCb c
      return some c
    else return none
  else return none

def channSend (n : ChannId) (buf : List UInt8) : M ε Int := do
  let c ← deref n
  let ret ← (extConfig x c.ctype).sendFn n buf
  record (.sendFn n buf ret)
  if ret > 0 then
    modifyChann n fun c => { c with bytesSend := c.bytesSend + ret }
    return ret
  else return ret

def channDisconnectSocket (o : OpsTable ε) (n : ChannId) : M ε Int := do
  let c ← deref n
  if c.fd > 0 ∧ c.state.val > ChannState.disconnect.val then
    callback .disconnectCb (opsConfig o c.ctype).disconnectCb n
    let c ← deref n
    sysClose c.fd
    destroyCache n
    modifyChann n fun c => { c with fd := -1, state := .disconnect, epollEvents := 0 }
    return 1
  else return 0

def channCloseSocket (o : OpsTable ε) (n : ChannId) : M ε Unit := do
  let c ← deref n
  if c.state.val > ChannState.closed.val then
    callback .closeCb (opsConfig o c.ctype).closeCb n
    let head ← readMnet Mnet.delChanns
    modifyChann n fun c => { c with delNext := head }
    modifyMnet fun ss => { ss with delChanns := some n }
    modifyChann n fun c => { c with state := .closed, opaquePtr := 0 }
  else pure ()

/-- Fills the message slot of `n`, and asks the filter whether to report it. -/
def channMsg (n : ChannId) (event : ChannEvent) (r : Option ChannId) (err : Int) : M ε Bool := do
  modifyChann n fun c =>
    { c with
      msg := { event := some event, err := err, n := some n, r := r, opaquePtr := c.opaquePtr } }
  let c ← deref n
  (extConfig x c.ctype).filterFn n

/-- `n->dis_next = ss->dis_channs; ss->dis_channs = n`. -/
def pushDis (n : ChannId) : M ε Unit := do
  let head ← readMnet Mnet.disChanns
  modifyChann n fun c => { c with disNext := head }
  modifyMnet fun ss => { ss with disChanns := some n }

/-- What a failed send or recv does: tear down, and queue the report. -/
def channFail (n : ChannId) : M ε Unit := do
  let _ ← channDisconnectSocket (opsOf x) n
  let e ← readErrno
  let pass ← channMsg x n .disconnect none e
  Exec.when pass (pushDis n)

def channGetErr (n : ChannId) : M ε Int := do
  let c ← deref n
  let r ← sysSockError c.fd
  return if r.1 = 0 then r.2 else -9999

/-- The flush loop, for at most `fuel` blocks. -/
def channSendedLoop (n : ChannId) : Nat → M ε Unit
  | 0 => Exec.fail .hang
  | fuel + 1 => do
    let c ← deref n
    let buf := rwbDrainParam c.rwbSend
    let ret ← channSend x n buf
    if ret > 0 then
      modifyChann n fun c => { c with rwbSend := rwbDrain c.rwbSend ret.toNat }
      let c ← deref n
      if ret ≥ buf.length ∧ rwbCount c.rwbSend > 0 then channSendedLoop n fuel else pure ()
    else if ret < 0 then channFail x n
    else pure ()

/-- `true` when all cached data is sent. -/
def channSendedRwb (n : ChannId) : M ε Bool := do
  let c ← deref n
  if rwbCount c.rwbSend ≤ 0 then return true
  else
    channSendedLoop x n (rwbCount c.rwbSend)
    let c ← deref n
    return rwbCount c.rwbSend ≤ 0

def channFillAddr (n : ChannId) (host : Option Nat) (port : Int) : M ε Unit :=
  modifyChann n fun c => { c with addr := { ip := host.getD 0, port := (port % 65536).toNat } }

/-- The checks of a `goto FAILED_OUT` chain: the first negative result ends it. -/
def allOk : List (M ε Int) → M ε Bool
  | [] => pure true
  | m :: ms => do
    let r ← m
    if r < 0 then return false else allOk ms

/-- Two `setsockopt` calls, their results or-ed. -/
def setBufsize (fd : Int) (_size : Int) : M ε Int := do
  let a ← sysSetup fd
  let b ← sysSetup fd
  return if a < 0 ∨ b < 0 then -1 else 0

def channOpenSocket (n : ChannId) (host : Option Nat) (port : Int) (backlog : BitVec 32) :
    M ε Int := do
  let c ← deref n
  if c.state = .disconnect then
    let raw := (extConfig x c.ctype).typeFn c.ctype
    let fd ← sysSocket
    if fd > 0 then
      let size := if c.bufSize > 0 then c.bufSize else MNET_BUF_SIZE
      channFillAddr n host port
      let ok ← allOk ([sysSetup fd]
        ++ (if backlog ≠ 0 then [sysSetup fd] else [])
        ++ (if backlog ≠ 0 ∧ raw = CHANN_TYPE_STREAM then [sysSetup fd] else [])
        ++ [setNonblocking fd]
        ++ (if raw = CHANN_TYPE_STREAM then [sysSetup fd] else [])
        ++ (if raw = CHANN_TYPE_BROADCAST then [sysSetup fd] else [])
        ++ [setBufsize fd size])
      if ok then return fd
      else
        sysClose fd
        return -1
    else return -1
  else return -1

end MNet
