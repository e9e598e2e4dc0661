import Mathlib.Algebra.GroupWithZero.Nat
import Mathlib.Algebra.Ring.Int.Defs
import MNet.State

/-! # System calls

Each call takes its result from the oracle at the current tick. A raw answer a
real kernel cannot give is bent into one it can: a `send` accepts at most what
it was offered and a `sendto` all of it, a new descriptor is positive and not
already open, `epoll_wait` reports registered descriptors only. Every outcome a
call can have is the answer of some oracle. -/

namespace MNet
open MNet.Lib

variable {ε : Type}

def EINTR : Int := 4
def EWOULDBLOCK : Int := 11
def EINPROGRESS : Int := 115

def EPOLLIN : BitVec 32 := 0x001
def EPOLLOUT : BitVec 32 := 0x004
def EPOLLERR : BitVec 32 := 0x008
def EPOLLHUP : BitVec 32 := 0x010
def EPOLLRDHUP : BitVec 32 := 0x2000

/-- A 32-bit `int` holding the value `x`. -/
def wrap32 (x : Int) : Int := Int.bmod x (2 ^ 32)

/-- An `int64_t` holding the value `x`. -/
def wrap64 (x : Int) : Int := Int.bmod x (2 ^ 64)

/-- The current tick, after which the next one is current. -/
def nextTick : M ε Nat := do
  let s ← Exec.read id
  modifyKernel fun k => { k with tick := k.tick + 1 }
  return s.kernel.tick

/-- The result of a call: at least -1, which sets `errno`. -/
def sysRet : M ε Int := do
  let s ← Exec.read id
  let t ← nextTick
  let r := max (s.kernel.oracle.ret t) (-1)
  modifyKernel fun k => if r < 0 then { k with errno := k.oracle.err t } else k
  return r

def readErrno : M ε Int := Exec.read (·.kernel.errno)

/-- Whether a raw result can be a new descriptor. -/
def Kernel.fresh (k : Kernel) (fd : Int) : Prop := 0 < fd ∧ k.socks fd = none

instance (k : Kernel) (fd : Int) : Decidable (k.fresh fd) := by unfold Kernel.fresh; infer_instance

/-- A new socket under the descriptor `fd`. -/
def Kernel.openFd (k : Kernel) (fd : Int) : Kernel :=
  { k with socks := Function.update k.socks fd (some k.nextSock), nextSock := k.nextSock + 1 }

/-- Closing the last descriptor of a socket also drops its epoll registration. -/
def Kernel.closeFd (k : Kernel) (fd : Int) : Kernel :=
  { k with socks := Function.update k.socks fd none, epoll := Function.update k.epoll fd none }

/-- `socket` and `accept`: a fresh descriptor, or -1. -/
def sysNewFd : M ε Int := do
  let r ← sysRet
  let s ← Exec.read id
  if s.kernel.fresh r then
    modifyKernel (·.openFd r)
    return r
  else return -1

def sysSocket : M ε Int := do
  let fd ← sysNewFd
  record (.socket fd)
  return fd

def sysAccept (lfd : Int) : M ε (Int × SockAddr) := do
  let s ← Exec.read id
  let fd ← sysNewFd
  record (.accept lfd fd)
  return (fd, s.kernel.oracle.peer s.kernel.tick)

def sysClose (fd : Int) : M ε Unit := do
  let _ ← sysRet
  modifyKernel (·.closeFd fd)
  record (.close fd)

/-- `setsockopt`, `bind` and `listen`. -/
def sysSetup (fd : Int) : M ε Int := do
  let r ← sysRet
  record (.setup fd r)
  return r

def sysConnect (fd : Int) (_addr : SockAddr) : M ε Int := do
  let r ← sysRet
  let e ← readErrno
  record (.connect fd r e)
  return r

/-- `getsockopt(fd, SOL_SOCKET, SO_ERROR)`: its result and the option's value. -/
def sysSockError (_fd : Int) : M ε (Int × Int) := do
  let s ← Exec.read id
  let r ← sysRet
  return (r, s.kernel.oracle.val s.kernel.tick)

/-- What a transfer of at most `len` bytes reports: -1, or the bytes transferred. -/
def transferred (r : Int) (len : Nat) : Int := if r < 0 then -1 else min r len

def sysSend (fd : Int) (data : List UInt8) : M ε Int := do
  let r ← sysRet
  let ret := transferred r data.length
  modifyKernel fun k =>
    match k.socks fd with
    | some i => { k with wire := Function.update k.wire i (k.wire i ++ data.take ret.toNat) }
    | none => k
  record (.send fd data ret)
  return ret

/-- A datagram is taken as a whole, or not at all. -/
def sysSendto (fd : Int) (addr : SockAddr) (data : List UInt8) : M ε Int := do
  let r ← sysRet
  let ret := if r < 0 then -1 else (data.length : Int)
  record (.sendto fd addr data ret)
  return ret

/-- `recv` and `recvfrom`: the byte count and the sender. -/
def sysRecv (fd : Int) (len : Nat) : M ε (Int × SockAddr) := do
  let s ← Exec.read id
  let r ← sysRet
  let ret := transferred r len
  record (.recv fd len ret)
  return (ret, s.kernel.oracle.peer s.kernel.tick)

inductive CtlOp where
  | add | mod | del
deriving DecidableEq, Repr

/-- Whether a request suits what is registered for the descriptor. -/
def CtlOp.valid (k : Kernel) (op : CtlOp) (fd : Int) : Prop :=
  0 ≤ fd ∧ match op with
    | .add => k.epoll fd = none
    | .mod => k.epoll fd ≠ none
    | .del => k.epoll fd ≠ none

instance (k : Kernel) (op : CtlOp) (fd : Int) : Decidable (op.valid k fd) := by
  unfold CtlOp.valid; cases op <;> infer_instance

def CtlOp.apply (op : CtlOp) (fd : Int) (reg : EpollReg) (k : Kernel) : Kernel :=
  { k with epoll := Function.update k.epoll fd (if op = .del then none else some reg) }

/-- An invalid request fails; whether a valid one succeeds is up to the oracle. -/
def sysEpollCtl (op : CtlOp) (fd : Int) (reg : EpollReg) : M ε Int := do
  let t ← nextTick
  let s ← Exec.read id
  if op.valid s.kernel fd ∧ s.kernel.oracle.ctl t = true then
    modifyKernel (op.apply fd reg)
    record (.epollCtl fd reg.events 0)
    return 0
  else
    modifyKernel fun k => { k with errno := k.oracle.err t }
    record (.epollCtl fd reg.events (-1))
    return -1

/-- The record the kernel makes of a ready descriptor, if it is registered. -/
def Kernel.report (k : Kernel) (p : Int × BitVec 32) : Option Kev :=
  (k.epoll p.1).map fun reg => { events := p.2, ptr := some reg.ptr, sock := k.socks p.1 }

/-- At most `size` records, or -1. -/
def sysEpollWait (size : Nat) : M ε (Option (List Kev)) := do
  let s ← Exec.read id
  let r ← sysRet
  let k := s.kernel
  return if r < 0 then none else some (((k.oracle.events k.tick).filterMap k.report).take size)

/-- `gettimeofday`, in microseconds. -/
def sysClock : M ε Int := do
  let s ← Exec.read id
  let t ← nextTick
  return s.kernel.oracle.clock t

end MNet
