import MNet.Timer

/-! # Extension types

`mnet_ext_t` in two layers: `ExtOps` holds the callbacks that never call back
into the library, `Ext` adds those that may. The functions of the library take
the table of the registered types as a parameter; the entries of the built-in
types are always `internalExt`. -/

namespace MNet
open MNet.Lib

variable {ε : Type}

structure ExtOps (ε : Type) where
  typeFn : Nat → Nat
  openCb : ChannId → M ε Unit
  closeCb : ChannId → M ε Unit
  listenCb : ChannId → M ε Unit
  disconnectCb : ChannId → M ε Unit
  stateFn : Sys ε → ChannId → ChannState → Int
  recvFn : ChannId → Nat → M ε Int
  sendFn : ChannId → List UInt8 → M ε Int

/-- `filterFn n` gets `&n->msg` and may rewrite it; `false` skips the event. -/
structure Ext (ε : Type) extends ExtOps ε where
  filterFn : ChannId → M ε Bool
  acceptCb : ChannId → M ε Unit
  connectCb : ChannId → M ε Unit

def extTypeFn (ctype : Nat) : Nat := ctype

def extFilterFn (_ : ChannId) : M ε Bool := pure true

def extOpCb (_ : ChannId) : M ε Unit := pure ()

def extStateFn (_ : Sys ε) (_ : ChannId) (state : ChannState) : Int := state.val

/-- `if (ret < 0 && errno == EWOULDBLOCK) ret = 0`. -/
def wouldBlock (ret : Int) : M ε Int := do
  let e ← readErrno
  return if ret < 0 ∧ e = EWOULDBLOCK then 0 else ret

def extStreamRecv (n : ChannId) (len : Nat) : M ε Int := do
  let c ← deref n
  let r ← sysRecv c.fd len
  wouldBlock r.1

/-- `recvfrom` stores the sender in the channel's address. -/
def extDgramRecv (n : ChannId) (len : Nat) : M ε Int := do
  let c ← deref n
  let r ← sysRecv c.fd len
  modifyChann n fun c => if 0 ≤ r.1 then { c with addr := r.2 } else c
  wouldBlock r.1

def extStreamSend (n : ChannId) (buf : List UInt8) : M ε Int := do
  let c ← deref n
  let ret ← sysSend c.fd buf
  wouldBlock ret

def extDgramSend (n : ChannId) (buf : List UInt8) : M ε Int := do
  let c ← deref n
  let ret ← sysSendto c.fd c.addr buf
  wouldBlock ret

def internalExt (ctype : Nat) : Ext ε where
  typeFn := extTypeFn
  filterFn := extFilterFn
  openCb := extOpCb
  closeCb := extOpCb
  listenCb := extOpCb
  acceptCb := extOpCb
  connectCb := extOpCb
  disconnectCb := extOpCb
  stateFn := extStateFn
  recvFn := if ctype = CHANN_TYPE_STREAM then extStreamRecv else extDgramRecv
  sendFn := if ctype = CHANN_TYPE_STREAM then extStreamSend else extDgramSend

/-- What each type between 4 and 7 is registered with. -/
abbrev ExtTable (ε : Type) := Nat → Ext ε

/-- The same, less the callbacks that may call back: all that tearing a socket down needs. -/
abbrev OpsTable (ε : Type) := Nat → ExtOps ε

def extConfig (x : ExtTable ε) (ctype : Nat) : Ext ε :=
  if ctype ≤ CHANN_TYPE_BROADCAST then internalExt ctype else x ctype

def opsConfig (o : OpsTable ε) (ctype : Nat) : ExtOps ε :=
  if ctype ≤ CHANN_TYPE_BROADCAST then (internalExt ctype).toExtOps else o ctype

def opsOf (x : ExtTable ε) : OpsTable ε := fun ctype => (x ctype).toExtOps

/-- The table when nothing is registered. -/
def noExt : ExtTable Unit := internalExt

@[simp] theorem opsConfig_opsOf (x : ExtTable ε) (ctype : Nat) :
    opsConfig (opsOf x) ctype = (extConfig x ctype).toExtOps := by
  unfold opsConfig extConfig opsOf
  split <;> rfl

@[simp] theorem extConfig_noExt (ctype : Nat) : extConfig noExt ctype = internalExt ctype := by
  unfold extConfig noExt
  split <;> rfl

theorem extConfig_builtin (x : ExtTable ε) {ctype : Nat} (h : ctype ≤ CHANN_TYPE_BROADCAST) :
    extConfig x ctype = internalExt ctype := if_pos h

/-- Invokes an operation callback. -/
def callback (op : ExtOp) (cb : ChannId → M ε Unit) (n : ChannId) : M ε Unit := do
  record (.extOp op n)
  cb n

def mnetExtChannSetUd (n : Option ChannId) (ud : Nat) : M ε Unit := do
  match n with
  | none => pure ()
  | some n =>
    let c ← deref n
    let reserved ← readMnet Mnet.reserved
    if reserved c.ctype then modifyChann n fun c => { c with extUd := ud } else pure ()

/-- 0 is NULL. -/
def mnetExtChannGetUd (n : Option ChannId) : M ε Nat := do
  match n with
  | none => return 0
  | some n =>
    let c ← deref n
    let reserved ← readMnet Mnet.reserved
    return if reserved c.ctype then c.extUd else 0

end MNet
