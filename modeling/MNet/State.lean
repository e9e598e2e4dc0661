import Mathlib.Logic.Function.Basic
import MNet.Lib.Exec
import MNet.Rwb

/-! # The state of the library

`chann_t` records live in a heap: a channel id stands for its address, `none`
for memory that is not, or no longer, allocated. `Mnet` is `g_mnet`, `Kernel`
what the operating system keeps for the process, and `Sys` all of it together
with the private state `ε` of a registered extension. -/

namespace MNet
open MNet.Lib

abbrev ChannId := Nat
abbrev NodeId := Nat

/-- The identity of a socket, which outlives the reuse of its descriptor. -/
abbrev SockId := Nat

def MNET_EXT_MAX_SIZE : Nat := 8
def MNET_BUF_SIZE : Int := 64 * 1024

def CHANN_TYPE_STREAM : Nat := 1
def CHANN_TYPE_DGRAM : Nat := 2
def CHANN_TYPE_BROADCAST : Nat := 3

inductive ChannState where
  | closed | disconnect | connecting | connected | listening
deriving DecidableEq, Repr

/-- The value of the C enumerator. -/
def ChannState.val : ChannState → Int
  | .closed => 0
  | .disconnect => 1
  | .connecting => 2
  | .connected => 3
  | .listening => 4

inductive ChannEvent where
  | recv | send | accept | connected | disconnect | timer
deriving DecidableEq, Repr

/-- `struct sockaddr_in`, less the family. -/
structure SockAddr where
  ip : Nat := 0
  port : Nat := 0
deriving DecidableEq, Repr

/-- `chann_msg_t`. Zero-filled memory holds no event. -/
structure ChannMsg where
  event : Option ChannEvent := none
  err : Int := 0
  n : Option ChannId := none
  r : Option ChannId := none
  opaquePtr : Nat := 0
deriving DecidableEq, Repr

/-- `struct s_chann`. -/
structure Chann where
  fd : Int := 0
  state : ChannState
  ctype : Nat
  opaquePtr : Nat := 0
  extUd : Nat := 0
  addr : SockAddr := {}
  timerNode : Option NodeId := none
  rwbSend : RwbHead := []
  prev : Option ChannId := none
  next : Option ChannId := none
  delNext : Option ChannId := none
  disNext : Option ChannId := none
  bytesSend : Int := 0
  bytesRecv : Int := 0
  bufSize : Int := 0
  activeSendEvent : Bool := false
  epollEvents : BitVec 32 := 0
  msg : ChannMsg := {}
deriving DecidableEq, Repr

/-- `chann_tm_t`. -/
structure ChannTm where
  interval : Int
  time : Int
  chann : ChannId
deriving DecidableEq, Repr

/-- `skipnode_t` with the timer it holds. -/
structure TmNode where
  id : NodeId
  key : Int
  tm : ChannTm
deriving DecidableEq, Repr

/-- A level-0 link of the timer list: that of the list head or that of a node. -/
inductive TmLink where
  | head
  | node (id : NodeId)
deriving DecidableEq, Repr

/-- An event record. `ptr` is `data.ptr`; `sock` is the socket the kernel reported it for,
which the record itself does not hold. -/
structure Kev where
  events : BitVec 32 := 0
  ptr : Option ChannId := none
  sock : Option SockId := none
deriving DecidableEq, Repr

/-- `mnet_t`. The timer list is the level-0 list of `tm_clock`, in order. The counters are C
`int`s: fewer than 2^31 channels exist, and fewer than 2^31 rounds of the message loop, each of
which steps `fd_index`, come between two polls. -/
structure Mnet where
  isInit : Bool := false
  channCount : Int := 0
  channs : Option ChannId := none
  delChanns : Option ChannId := none
  disChanns : Option ChannId := none
  kq : Bool := false
  evtArray : List Kev := []
  reserved : Nat → Bool := fun _ => false
  fdCount : Int := 0
  fdIndex : Int := 0
  tmClock : Option (List TmNode) := none
  tmPos : Option TmLink := none
  tmCurrent : Int := 0
  acBalancer : Bool := false

/-- The operation callbacks of an extension. -/
inductive ExtOp where
  | openCb | closeCb | listenCb | acceptCb | connectCb | disconnectCb
deriving DecidableEq, Repr

/-- System calls and extension callbacks, with their results. -/
inductive SysEvent where
  | socket (fd : Int)
  | setup (fd ret : Int)
  | nonblock (fd ret : Int)
  | connect (fd ret err : Int)
  | accept (lfd fd : Int)
  | close (fd : Int)
  | send (fd : Int) (data : List UInt8) (ret : Int)
  | sendto (fd : Int) (addr : SockAddr) (data : List UInt8) (ret : Int)
  | recv (fd : Int) (len : Nat) (ret : Int)
  | epollCtl (fd : Int) (events : BitVec 32) (ret : Int)
  | extOp (op : ExtOp) (n : ChannId)
  | sendFn (n : ChannId) (data : List UInt8) (ret : Int)
  | recvFn (n : ChannId) (ret : Int)
deriving DecidableEq, Repr

/-- What the environment will answer at each tick. Nothing is assumed about it. -/
structure Oracle where
  ret : Nat → Int
  err : Nat → Int
  val : Nat → Int
  clock : Nat → Int
  ctl : Nat → Bool
  events : Nat → List (Int × BitVec 32)
  peer : Nat → SockAddr

/-- An epoll registration: the mask and `data.ptr`. -/
structure EpollReg where
  events : BitVec 32
  ptr : ChannId
deriving DecidableEq, Repr

structure Kernel where
  oracle : Oracle
  tick : Nat := 0
  errno : Int := 0
  /-- The open descriptors `socket` and `accept` returned. -/
  socks : Int → Option SockId := fun _ => none
  nextSock : SockId := 0
  /-- The bytes each stream socket has accepted. -/
  wire : SockId → List UInt8 := fun _ => []
  epoll : Int → Option EpollReg := fun _ => none
  /-- Newest first. -/
  trace : List SysEvent := []

structure Sys (ε : Type) where
  heap : ChannId → Option Chann := fun _ => none
  nextChann : ChannId := 0
  nextNode : NodeId := 0
  mnet : Mnet := {}
  kernel : Kernel
  ext : ε

inductive Fault where
  | nullDeref | useAfterFree | hang
deriving DecidableEq, Repr

abbrev M (ε : Type) := Exec (Sys ε) Fault

variable {ε : Type}

/-- The channel behind a pointer that is not NULL. -/
def deref (n : ChannId) : M ε Chann := do
  let h ← Exec.read Sys.heap
  Exec.require .useAfterFree (h n)

def Sys.setChann (s : Sys ε) (n : ChannId) (c : Chann) : Sys ε :=
  { s with heap := Function.update s.heap n (some c) }

theorem setChann_self (s : Sys ε) (n : ChannId) (c : Chann) : (s.setChann n c).heap n = some c :=
  Function.update_self ..

/-- A write to a field of a channel. -/
def modifyChann (n : ChannId) (f : Chann → Chann) : M ε Unit := do
  let c ← deref n
  Exec.modify (·.setChann n (f c))

def readMnet {α : Type} (f : Mnet → α) : M ε α := Exec.read (f ·.mnet)

def modifyMnet (f : Mnet → Mnet) : M ε Unit := Exec.modify fun s => { s with mnet := f s.mnet }

def modifyKernel (f : Kernel → Kernel) : M ε Unit :=
  Exec.modify fun s => { s with kernel := f s.kernel }

def record (e : SysEvent) : M ε Unit := modifyKernel fun k => { k with trace := e :: k.trace }

@[simp] theorem returns_deref {n : ChannId} {s t : Sys ε} {c : Chann} :
    Exec.Returns (deref n) s c t ↔ s.heap n = some c ∧ t = s := by
  simp [deref, and_comm]

@[simp] theorem returns_modifyChann {n : ChannId} {f : Chann → Chann} {s t : Sys ε} {u : Unit} :
    Exec.Returns (modifyChann n f) s u t ↔ ∃ c, s.heap n = some c ∧ t = s.setChann n (f c) := by
  simp [modifyChann]

@[simp] theorem returns_readMnet {α : Type} {f : Mnet → α} {s t : Sys ε} {a : α} :
    Exec.Returns (readMnet f : M ε α) s a t ↔ a = f s.mnet ∧ t = s := Exec.returns_read

@[simp] theorem returns_modifyMnet {f : Mnet → Mnet} {s t : Sys ε} {u : Unit} :
    Exec.Returns (modifyMnet f : M ε Unit) s u t ↔ t = { s with mnet := f s.mnet } :=
  Exec.returns_modify

@[simp] theorem returns_modifyKernel {f : Kernel → Kernel} {s t : Sys ε} {u : Unit} :
    Exec.Returns (modifyKernel f : M ε Unit) s u t ↔ t = { s with kernel := f s.kernel } :=
  Exec.returns_modify

@[simp] theorem returns_record {e : SysEvent} {s t : Sys ε} {u : Unit} :
    Exec.Returns (record e : M ε Unit) s u t ↔
      t = { s with kernel := { s.kernel with trace := e :: s.kernel.trace } } :=
  Exec.returns_modify

end MNet
