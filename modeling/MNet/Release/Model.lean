import MNet.Api

/-! # The cache released at once

`_rwb_destroy` is meant to release the whole cache, and never ends when it holds unsent data. Here
the library is given with what `_rwb_destroy` does as a parameter. With the code's own loop it is
the library, `apiCallBy_destroyCache`; with `releaseCache` it is what the library is meant to be. -/

namespace MNet
open MNet.Lib MNet.Lib.Exec

/-! ## The library over `_rwb_destroy` -/

section Model

variable {ε : Type} (x : ExtTable ε) (free : ChannId → M ε Unit)

/-- `_rwb_destroy(&n->rwb_send)` as it was meant: all blocks are released. -/
def releaseCache (n : ChannId) : M ε Unit := modifyChann n fun c => { c with rwbSend := [] }

def channDestroyBy (n : ChannId) : M ε Unit := do
  let c ← deref n
  if c.state = .closed then
    unlinkChann n
    free n
    tmKill n
    modifyMnet fun ss => { ss with channCount := ss.channCount - 1 }
    freeChann n
  else pure ()

def channDisconnectSocketBy (o : OpsTable ε) (n : ChannId) : M ε Int := do
  let c ← deref n
  if c.fd > 0 ∧ c.state.val > ChannState.disconnect.val then
    callback .disconnectCb (opsConfig o c.ctype).disconnectCb n
    let c ← deref n
    sysClose c.fd
    free n
    modifyChann n fun c => { c with fd := -1, state := .disconnect, epollEvents := 0 }
    return 1
  else return 0

def channFailBy (n : ChannId) : M ε Unit := do
  let _ ← channDisconnectSocketBy free (opsOf x) n
  let e ← readErrno
  let pass ← channMsg x n .disconnect none e
  Exec.when pass (pushDis n)

def channSendedLoopBy (n : ChannId) : Nat → M ε Unit
  | 0 => Exec.fail .hang
  | fuel + 1 => do
    let c ← deref n
    let buf := rwbDrainParam c.rwbSend
    let ret ← channSend x n buf
    if ret > 0 then
      modifyChann n fun c => { c with rwbSend := rwbDrain c.rwbSend ret.toNat }
      let c ← deref n
      if ret ≥ buf.length ∧ rwbCount c.rwbSend > 0 then channSendedLoopBy n fuel else pure ()
    else if ret < 0 then channFailBy x free n
    else pure ()

def channSendedRwbBy (n : ChannId) : M ε Bool := do
  let c ← deref n
  if rwbCount c.rwbSend ≤ 0 then return true
  else
    channSendedLoopBy x free n (rwbCount c.rwbSend)
    let c ← deref n
    return rwbCount c.rwbSend ≤ 0

def evtDelLoopBy : Nat → Option ChannId → M ε Unit
  | _, none => pure ()
  | 0, some _ => Exec.fail .hang
  | fuel + 1, some n => do
    let c ← deref n
    channDestroyBy free n
    evtDelLoopBy fuel c.delNext

def evtDelChannsBy : M ε Unit := do
  let head ← readMnet Mnet.delChanns
  let fuel ← walkFuel
  evtDelLoopBy free fuel head
  modifyMnet fun ss => { ss with delChanns := none }

def evtPollBy : M ε Int := do
  evtDelChannsBy free
  tmSchedule
  let recs ← sysEpollWait KEV_EVT_ARRAY_SIZE
  let e ← readErrno
  match recs with
  | none =>
    modifyMnet fun ss => { ss with fdCount := -1, fdIndex := -1 }
    if e ≠ EINTR then return -1 else readMnet Mnet.channCount
  | some evts =>
    modifyMnet fun ss => { ss with evtArray := evts, fdCount := evts.length, fdIndex := -1 }
    readMnet Mnet.channCount

def evtConnectingBy (n : ChannId) : M ε Pass := do
  let c ← deref n
  let r ← sysSockError c.fd
  let opt := if r.1 < 0 then 0 else r.2
  if opt = 0 then
    let _ ← evtDel n .write
    let _ ← evtAdd n .read
    modifyChann n fun c => { c with state := .connected }
    emit x n .connected none 0
  else
    let _ ← channDisconnectSocketBy free (opsOf x) n
    emit x n .disconnect none opt

def evtConnectedBy (n : ChannId) (kev : Kev) : M ε Pass := do
  if kev.events &&& EPOLLIN ≠ 0 then emit x n .recv none 0
  else if kev.events &&& EPOLLOUT ≠ 0 then
    let sent ← channSendedRwbBy x free n
    if sent then
      let c ← deref n
      if c.activeSendEvent then emit x n .send none 0
      else
        let _ ← evtDel n .write
        return .next
    else return .next
  else return .next

def evtDispatchBy (kev : Kev) : M ε Pass := do
  let n ← Exec.require .nullDeref kev.ptr
  let c ← deref n
  if c.state = .closed ∨ c.fd < 0 then return .next
  else if kev.events &&& (EPOLLERR ||| (EPOLLRDHUP ||| EPOLLHUP)) ≠ 0 then
    if kev.events &&& EPOLLERR ≠ 0 then
      let err ← channGetErr n
      let _ ← channDisconnectSocketBy free (opsOf x) n
      emit x n .disconnect none err
    else
      let _ ← channDisconnectSocketBy free (opsOf x) n
      emit x n .disconnect none kev.events.toInt
  else
    match c.state with
    | .listening => evtListening x n ((extConfig x c.ctype).typeFn c.ctype)
    | .connecting => evtConnectingBy x free n
    | .connected => evtConnectedBy x free n kev
    | _ => return .next

def evtPassBy (fuel : Nat) : M ε Pass := do
  let tm ← tmNext x fuel
  match tm with
  | some n => return .ret (some n)
  | none =>
    let dis ← disNext
    match dis with
    | some n => return .ret (some n)
    | none =>
      modifyMnet fun ss => { ss with fdIndex := ss.fdIndex + 1 }
      let ended ← readMnet fun ss => decide (ss.fdIndex ≥ ss.fdCount)
      if ended then return .ret none
      else
        let kev ← evtRecord
        evtDispatchBy x free kev

def evtLoopBy (fuel : Nat) : Nat → M ε (Option ChannId)
  | 0 => Exec.fail .hang
  | rounds + 1 => do
    let p ← evtPassBy x free fuel
    match p with
    | .ret q => return q
    | .next => evtLoopBy fuel rounds

def finiLoopBy : Nat → Option ChannId → M ε Unit
  | _, none => pure ()
  | 0, some _ => Exec.fail .hang
  | fuel + 1, some n => do
    let c ← deref n
    let _ ← channDisconnectSocketBy free (opsOf x) n
    channCloseSocket (opsOf x) n
    channDestroyBy free n
    finiLoopBy fuel c.next

def mnetFiniBy : M ε Unit := do
  let inited ← readMnet Mnet.isInit
  if inited then
    let head ← readMnet Mnet.channs
    let fuel ← walkFuel
    finiLoopBy x free fuel head
    evtFini
    modifyMnet fun _ => {}
  else pure ()

def mnetChannCloseBy (n : Option ChannId) : M ε Unit := do
  match n with
  | none => pure ()
  | some n =>
    let c ← deref n
    if c.state.val > ChannState.closed.val then
      let _ ← channDisconnectSocketBy free (opsOf x) n
      channCloseSocket (opsOf x) n
    else pure ()

def mnetChannDisconnectBy (n : Option ChannId) : M ε Unit := do
  match n with
  | none => pure ()
  | some n =>
    let _ ← channDisconnectSocketBy free (opsOf x) n
    pure ()

def mnetChannRecvBy (n : Option ChannId) (buf : Bool) (len : Int) : M ε Int := do
  let n ← Exec.require .nullDeref n
  let ready ← channReady x n
  if buf ∧ len > 0 ∧ ready then
    let c ← deref n
    let ret ← (extConfig x c.ctype).recvFn n len.toNat
    record (.recvFn n ret)
    Exec.when (ret < 0) (channFailBy x free n)
    modifyChann n fun c => { c with bytesRecv := c.bytesRecv + ret }
    return ret
  else return -1

def mnetChannSendBy (n : Option ChannId) (buf : Option (List UInt8)) : M ε Int := do
  let n ← Exec.require .nullDeref n
  let ready ← channReady x n
  let data := buf.getD []
  if data ≠ [] ∧ ready then
    let c ← deref n
    if rwbCount c.rwbSend > 0 then
      modifyChann n fun c => { c with rwbSend := rwbCache c.rwbSend data }
      return data.length
    else
      let ret ← channSend x n data
      if ret < 0 then
        channFailBy x free n
        return -1
      else if ret < data.length then
        modifyChann n fun c => { c with rwbSend := rwbCache c.rwbSend (data.drop ret.toNat) }
        let _ ← evtAdd n .write
        return data.length
      else return ret
  else return -1

def mnetDgramRecvBy (n : Option ChannId) (buf : Bool) (len : Int) : M ε (Int × Option SockAddr) := do
  let n ← Exec.require .nullDeref n
  let c ← deref n
  if isDgram c.ctype ∧ buf ∧ len > 0 then
    let ready ← channReady x n
    if ready then
      let ret ← mnetChannRecvBy x free (some n) buf len
      let c ← deref n
      return (ret, some c.addr)
    else return (0, none)
  else return (0, none)

def mnetDgramSendBy (n : Option ChannId) (addr : Option (Nat × Int)) (buf : Option (List UInt8)) :
    M ε Int := do
  let n ← Exec.require .nullDeref n
  let c ← deref n
  match addr with
  | none => return 0
  | some (host, port) =>
    if isDgram c.ctype ∧ buf.getD [] ≠ [] then
      dgramAim x n host port
      mnetChannSendBy x free (some n) buf
    else return 0

/-- The calls that come to `_rwb_destroy`, the others as they are. -/
def apiCallBy : Call → M ε Ret
  | .mnetFini => ret (fun _ => .unit) (mnetFiniBy x free)
  | .poll => ret .int (evtPollBy free)
  | .resultNext fuel => ret .msg (evtLoopBy x free fuel fuel)
  | .channClose n => ret (fun _ => .unit) (mnetChannCloseBy x free n)
  | .channDisconnect n => ret (fun _ => .unit) (mnetChannDisconnectBy x free n)
  | .channRecv n buf len => ret .int (mnetChannRecvBy x free n buf len)
  | .channSend n buf => ret .int (mnetChannSendBy x free n buf)
  | .dgramRecv n buf len => ret (fun p => .received p.1 p.2) (mnetDgramRecvBy x free n buf len)
  | .dgramSend n addr buf => ret .int (mnetDgramSendBy x free n addr buf)
  | c => apiCall x c

/-! ## With the code's own loop -/

theorem channSendedLoopBy_destroyCache (n : ChannId) (fuel : Nat) :
    channSendedLoopBy x destroyCache n fuel = channSendedLoop x n fuel := by
  induction fuel with
  | zero => rfl
  | succ fuel ih =>
    rw [channSendedLoopBy, channSendedLoop, ih]
    rfl

theorem evtDelLoopBy_destroyCache (fuel : Nat) (p : Option ChannId) :
    evtDelLoopBy (ε := ε) destroyCache fuel p = evtDelLoop fuel p := by
  induction fuel generalizing p with
  | zero => cases p <;> rfl
  | succ fuel ih =>
    cases p with
    | none => rfl
    | some n =>
      rw [evtDelLoopBy, evtDelLoop]
      simp only [ih]
      rfl

theorem evtConnectedBy_destroyCache (n : ChannId) (kev : Kev) :
    evtConnectedBy x destroyCache n kev = evtConnected x n kev := by
  simp only [evtConnectedBy, evtConnected, channSendedRwbBy, channSendedRwb, channSendedLoopBy_destroyCache]

theorem evtDispatchBy_destroyCache (kev : Kev) : evtDispatchBy x destroyCache kev = evtDispatch x kev := by
  simp only [evtDispatchBy, evtDispatch, evtConnectedBy_destroyCache]
  rfl

theorem evtLoopBy_destroyCache (fuel rounds : Nat) :
    evtLoopBy x destroyCache fuel rounds = evtLoop x fuel rounds := by
  have hdispatch : evtDispatchBy x destroyCache = evtDispatch x := funext (evtDispatchBy_destroyCache x)
  have hpass : evtPassBy x destroyCache fuel = evtPass x fuel := by
    rw [evtPassBy, hdispatch]
    rfl
  induction rounds with
  | zero => rfl
  | succ rounds ih =>
    rw [evtLoopBy, hpass, ih]
    rfl

theorem finiLoopBy_destroyCache (fuel : Nat) (p : Option ChannId) :
    finiLoopBy x destroyCache fuel p = finiLoop x fuel p := by
  induction fuel generalizing p with
  | zero => cases p <;> rfl
  | succ fuel ih =>
    cases p with
    | none => rfl
    | some n =>
      rw [finiLoopBy, finiLoop]
      simp only [ih]
      rfl

/-- With its own loop for `_rwb_destroy` this is the library. -/
theorem apiCallBy_destroyCache (c : Call) : apiCallBy x destroyCache c = apiCall x c := by
  cases c with
  | mnetFini => simp only [apiCallBy, apiCall, mnetFiniBy, mnetFini, finiLoopBy_destroyCache]
  | poll =>
    have hloop : evtDelLoopBy (ε := ε) destroyCache = evtDelLoop := funext₂ evtDelLoopBy_destroyCache
    rw [apiCallBy, evtPollBy, evtDelChannsBy, hloop]
    rfl
  | resultNext fuel => simp only [apiCallBy, apiCall, evtLoopBy_destroyCache, evtResultNext]
  | _ => rfl

end Model

end MNet
