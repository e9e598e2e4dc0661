import MNet.Api

/-! # The TLS extension

`CHANN_TYPE_TLS` runs a handshake of SSL objects over stream channels. What the SSL library
answers is taken from the oracle, like a system call: the result of the call, and what
`SSL_get_error` will say of it. The objects themselves, the user data the extension allocates
for its channels and a log of what became of the objects are the private state `Tls`. -/

namespace MNet
open MNet.Lib

def CHANN_TYPE_TLS : Nat := 4

abbrev SslId := Nat

def SSL_ERROR_WANT_READ : Int := 2
def SSL_ERROR_WANT_WRITE : Int := 3

/-- `mnet_tls_ud_t`. -/
structure TlsUd where
  ln : Option ChannId := none
  state : ChannState
  ssl : Option SslId := none
deriving DecidableEq, Repr

/-- An SSL object: its descriptor, and what `SSL_get_error` says of the last call on it. -/
structure Ssl where
  fd : Int := -1
  err : Int := 0
deriving DecidableEq, Repr

inductive SslOp where
  | accept | connect
deriving DecidableEq, Repr

/-- What happened to SSL objects. An object belongs to the channel it was created for. -/
inductive SslEvent where
  | new (n : ChannId) (i : SslId)
  | free (i : SslId)
  | handshake (i : SslId) (op : SslOp) (ret err : Int)
deriving DecidableEq, Repr

/-- The user data and the objects that are allocated. User data are numbered from 1; 0 is NULL. -/
structure Tls where
  uds : Nat → Option TlsUd := fun _ => none
  nextUd : Nat := 1
  ssls : SslId → Option Ssl := fun _ => none
  nextSsl : SslId := 0
  /-- Newest first. -/
  log : List SslEvent := []

abbrev TlsM := M Tls

def Sys.withExt (s : Sys Tls) (e : Tls) : Sys Tls := { s with ext := e }

section

variable (s : Sys Tls) (e e' : Tls)

@[simp] theorem Sys.withExt_ext : (s.withExt e).ext = e := rfl

@[simp] theorem Sys.withExt_heap : (s.withExt e).heap = s.heap := rfl

@[simp] theorem Sys.withExt_nextChann : (s.withExt e).nextChann = s.nextChann := rfl

@[simp] theorem Sys.withExt_mnet : (s.withExt e).mnet = s.mnet := rfl

@[simp] theorem Sys.withExt_kernel : (s.withExt e).kernel = s.kernel := rfl

@[simp] theorem Sys.withExt_withExt : (s.withExt e).withExt e' = s.withExt e' := rfl

theorem Sys.withExt_setChann (n : ChannId) (c : Chann) :
    (s.withExt e).setChann n c = (s.setChann n c).withExt e := rfl

end

/-! ## The SSL library -/

def modifyTls (f : Tls → Tls) : TlsM Unit := Exec.modify fun s => s.withExt (f s.ext)

/-- The object behind a pointer. -/
def derefSsl (ssl : Option SslId) : TlsM (SslId × Ssl) := do
  let i ← Exec.require .nullDeref ssl
  let e ← Exec.read Sys.ext
  let obj ← Exec.require .useAfterFree (e.ssls i)
  return (i, obj)

def Tls.setSsl (e : Tls) (i : SslId) (obj : Ssl) : Tls :=
  { e with ssls := Function.update e.ssls i (some obj) }

def Tls.logged (e : Tls) (ev : SslEvent) : Tls := { e with log := ev :: e.log }

/-- `SSL_new`, for the channel `n`. -/
def sslNew (n : ChannId) : TlsM SslId := do
  let e ← Exec.read Sys.ext
  let i := e.nextSsl
  modifyTls fun e => { (e.setSsl i {}).logged (.new n i) with nextSsl := i + 1 }
  return i

def sslFree (ssl : Option SslId) : TlsM Unit := do
  let (i, _) ← derefSsl ssl
  modifyTls fun e => { e.logged (.free i) with ssls := Function.update e.ssls i none }

/-- `_ssl_set_fd`; the modes it sets have no effect on what is modelled. -/
def sslSetFd (ssl : Option SslId) (fd : Int) : TlsM Unit := do
  let (i, obj) ← derefSsl ssl
  modifyTls fun e => e.setSsl i { obj with fd := fd }

/-- The answer of a call: the result, and what `SSL_get_error` says of it. -/
def sslAnswer : TlsM (Int × Int) := do
  let s ← Exec.read id
  let r ← sysRet
  return (r, s.kernel.oracle.val s.kernel.tick)

/-- What `SSL_accept` and `SSL_connect` report: 1, or a failure. -/
def handshaken (r : Int) : Int := if r = 0 ∨ r = 1 then r else -1

/-- `SSL_accept` or `SSL_connect`. -/
def sslHandshake (op : SslOp) (ssl : Option SslId) : TlsM Int := do
  let (i, obj) ← derefSsl ssl
  let (r, err) ← sslAnswer
  modifyTls fun e => (e.setSsl i { obj with err := err }).logged (.handshake i op (handshaken r) err)
  return handshaken r

/-- `SSL_read` or `SSL_write` of at most `len` bytes. -/
def sslTransfer (ssl : Option SslId) (len : Nat) : TlsM Int := do
  let (i, obj) ← derefSsl ssl
  let (r, err) ← sslAnswer
  modifyTls fun e => e.setSsl i { obj with err := err }
  return transferred r len

/-- `SSL_shutdown` and `SSL_clear`, whose results nobody reads. -/
def sslReset (ssl : Option SslId) : TlsM Unit := do
  let (i, obj) ← derefSsl ssl
  let _ ← sysRet
  modifyTls fun e => e.setSsl i { obj with err := 0 }

/-- `SSL_get_error` reports that the call is to be repeated. -/
def sslIsRw (ssl : Option SslId) : TlsM Bool := do
  let (_, obj) ← derefSsl ssl
  return obj.err = SSL_ERROR_WANT_READ ∨ obj.err = SSL_ERROR_WANT_WRITE

/-! ## User data -/

def derefUd (tu : Nat) : TlsM TlsUd := do
  let e ← Exec.read Sys.ext
  Exec.require .useAfterFree (e.uds tu)

def Tls.setUd (e : Tls) (tu : Nat) (d : TlsUd) : Tls :=
  { e with uds := Function.update e.uds tu (some d) }

def modifyUd (tu : Nat) (f : TlsUd → TlsUd) : TlsM Unit := do
  let d ← derefUd tu
  modifyTls fun e => e.setUd tu (f d)

/-- `calloc`, which works, with the state that is set right after it. -/
def callocUd (state : ChannState) : TlsM Nat := do
  let e ← Exec.read Sys.ext
  let tu := e.nextUd
  modifyTls fun e => { e.setUd tu { state := state } with nextUd := tu + 1 }
  return tu

def freeUd (tu : Nat) : TlsM Unit := modifyTls fun e => { e with uds := Function.update e.uds tu none }

/-! ## The callbacks that do not call back -/

def tlsTypeFn (_ctype : Nat) : Nat := CHANN_TYPE_STREAM

def tlsOpenCb (n : ChannId) : TlsM Unit := do
  let tu ← callocUd .disconnect
  mnetExtChannSetUd (some n) tu

def tlsCloseCb (n : ChannId) : TlsM Unit := do
  let tu ← mnetExtChannGetUd (some n)
  if tu ≠ 0 then
    let d ← derefUd tu
    if d.state.val > ChannState.closed.val then
      modifyUd tu fun d => { d with state := .closed }
      Exec.when (d.ssl ≠ none) (sslFree d.ssl)
      freeUd tu
      mnetExtChannSetUd (some n) 0
    else pure ()
  else pure ()

/-- A listener needs no handshake. -/
def tlsListenCb (n : ChannId) : TlsM Unit := do
  let tu ← mnetExtChannGetUd (some n)
  if tu ≠ 0 then
    mnetExtChannSetUd (some n) 0
    freeUd tu
  else pure ()

def tlsDisconnectCb (n : ChannId) : TlsM Unit := do
  let tu ← mnetExtChannGetUd (some n)
  if tu ≠ 0 then
    let d ← derefUd tu
    if d.state.val > ChannState.disconnect.val then
      modifyUd tu fun d => { d with state := .disconnect }
      sslReset d.ssl
    else pure ()
  else pure ()

/-- The TLS state, if there is one. -/
def tlsStateFn (s : Sys Tls) (n : ChannId) (state : ChannState) : Int :=
  match s.heap n with
  | some c =>
    if s.mnet.reserved c.ctype = true ∧ c.extUd ≠ 0 then
      ((s.ext.uds c.extUd).map (·.state.val)).getD state.val
    else state.val
  | none => state.val

/-- `SSL_read` and `SSL_write` alike: a call that is to be repeated has transferred nothing. -/
def tlsTransferFn (n : ChannId) (len : Nat) : TlsM Int := do
  let tu ← mnetExtChannGetUd (some n)
  if tu ≠ 0 then
    let d ← derefUd tu
    let ret ← sslTransfer d.ssl len
    if ret > 0 then return ret
    else
      let rw ← sslIsRw d.ssl
      return if rw then 0 else ret
  else return -1

def tlsRecvFn (n : ChannId) (len : Nat) : TlsM Int := tlsTransferFn n len

def tlsSendFn (n : ChannId) (buf : List UInt8) : TlsM Int := tlsTransferFn n buf.length

def tlsOps : ExtOps Tls where
  typeFn := tlsTypeFn
  openCb := tlsOpenCb
  closeCb := tlsCloseCb
  listenCb := tlsListenCb
  disconnectCb := tlsDisconnectCb
  stateFn := tlsStateFn
  recvFn := tlsRecvFn
  sendFn := tlsSendFn

/-- TLS registered, and nothing else. -/
def tlsOpsTable : OpsTable Tls := fun ctype =>
  if ctype = CHANN_TYPE_TLS then tlsOps else (internalExt ctype).toExtOps

/-! ## The callbacks that may call back -/

/-- `mnet_chann_disconnect`. -/
def tlsDisconnect (n : ChannId) : TlsM Unit := do
  let _ ← channDisconnectSocket tlsOpsTable n
  pure ()

/-- What one call of a handshake comes to. -/
inductive Handshake where
  | done | again | failed
deriving DecidableEq, Repr

/-- One call of the handshake of `tu`. -/
def tlsHandshake (tu : Nat) (op : SslOp) : TlsM Handshake := do
  let d ← derefUd tu
  let ret ← sslHandshake op d.ssl
  if ret = 1 then
    modifyUd tu fun d => { d with state := .connected }
    return .done
  else
    let rw ← sslIsRw d.ssl
    return if rw then .again else .failed

/-- A new object for the socket of `n`, and the first call of its handshake, after which a
failure hangs up. -/
def tlsBegin (n : ChannId) (tu : Nat) (op : SslOp) : TlsM Unit := do
  let ssl ← sslNew n
  modifyUd tu fun d => { d with ssl := some ssl }
  let c ← deref n
  sslSetFd (some ssl) c.fd
  let h ← tlsHandshake tu op
  Exec.when (h = .failed) (tlsDisconnect n)

def tlsAcceptCb (n : ChannId) : TlsM Unit := do
  let tu ← callocUd .listening
  mnetExtChannSetUd (some n) tu
  tlsBegin n tu .accept

def tlsConnectCb (n : ChannId) : TlsM Unit := do
  let tu ← mnetExtChannGetUd (some n)
  if tu ≠ 0 then
    modifyUd tu fun d => { d with state := .connecting }
    tlsBegin n tu .connect
  else pure ()

def modifyMsg (n : ChannId) (f : ChannMsg → ChannMsg) : TlsM Unit :=
  modifyChann n fun c => { c with msg := f c.msg }

/-- The event that is reported for a call of the handshake made for the message of `n`, when the
user data was `d` before. An accepted channel is announced by its listener. -/
def tlsReport (n : ChannId) (tu : Nat) (d : TlsUd) (p : Option ChannId) : Handshake → TlsM Bool
  | .done => do
    if d.state = .listening then
      modifyMsg n fun msg => { msg with event := some .accept, r := msg.n, n := d.ln }
      modifyUd tu fun d => { d with ln := none }
    else modifyMsg n fun msg => { msg with event := some .connected }
    return true
  | .again => return false
  | .failed => do
    if d.state = .listening then
      Exec.forSome p tlsDisconnect
      return false
    else
      modifyMsg n fun msg => { msg with event := some .disconnect }
      Exec.forSome p tlsDisconnect
      return true

/-- The events CONNECTED and RECV of a channel whose handshake is not done drive it instead. -/
def tlsAdvance (n : ChannId) (p : Option ChannId) : TlsM Bool := do
  let tu ← mnetExtChannGetUd p
  if tu = 0 then return true
  else
    let d ← derefUd tu
    if d.state = .connected then return true
    else
      let h ← tlsHandshake tu (if d.state = .listening then .accept else .connect)
      tlsReport n tu d p h

def tlsFilterFn (n : ChannId) : TlsM Bool := do
  let c ← deref n
  match c.msg.event with
  | some .accept =>
    let tu ← mnetExtChannGetUd c.msg.r
    if tu ≠ 0 then
      modifyUd tu fun d => { d with ln := c.msg.n }
      return false
    else return false
  | some .connected | some .recv => tlsAdvance n c.msg.n
  | _ => return true

def tlsExt : Ext Tls where
  toExtOps := tlsOps
  filterFn := tlsFilterFn
  acceptCb := tlsAcceptCb
  connectCb := tlsConnectCb

/-- What `mnet_tls_config` registers. -/
def tlsTable : ExtTable Tls := fun ctype =>
  if ctype = CHANN_TYPE_TLS then tlsExt else internalExt ctype

theorem opsOf_tlsTable : opsOf tlsTable = tlsOpsTable := by
  funext ctype
  unfold opsOf tlsTable tlsOpsTable
  split <;> rfl

theorem extConfig_tls : extConfig tlsTable CHANN_TYPE_TLS = tlsExt := rfl

theorem extConfig_other {ctype : Nat} (h : ctype ≠ CHANN_TYPE_TLS) :
    extConfig tlsTable ctype = internalExt ctype := by
  unfold extConfig tlsTable
  rw [if_neg h, ite_self]

end MNet
