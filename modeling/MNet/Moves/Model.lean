import MNet.Api
import MNet.Core.Model
import MNet.Lib.Within
import Mathlib.Data.Set.Insert
import Mathlib.Logic.Relation

/-! # Moves

What the library does to the whole state, one move at a time, whatever the callbacks of a
registered type do. `Deed` names the moves and `Move` says what each of them changes; every
API call is a sequence of them (`MNet.Moves.Api`). A fact about an extension is proved once for
each move. -/

namespace MNet
open MNet.Lib MNet.Lib.Exec

variable {ε : Type}

/-- A channel less its user pointer, its timer, its queues, its counters and its buffer size. -/
def Chann.face (c : Chann) : Chann :=
  { c with
    opaquePtr := 0, timerNode := none, delNext := none, disNext := none, bytesSend := 0
    bytesRecv := 0, bufSize := 0 }

/-- A call that neither opens or closes a descriptor nor transfers data. -/
def SysEvent.plain : SysEvent → Prop
  | .setup .. | .nonblock .. | .connect .. | .epollCtl .. => True
  | .socket fd | .accept _ fd => fd ≤ 0
  | _ => False

/-- The history grows by events of a kind. -/
def Adds (P : SysEvent → Prop) (s t : Sys ε) : Prop :=
  ∃ l, (∀ e ∈ l, P e) ∧ t.kernel.trace = l ++ s.kernel.trace

def Sys.recorded (s : Sys ε) (e : SysEvent) : Sys ε :=
  { s with kernel := { s.kernel with trace := e :: s.kernel.trace } }

/-- Bookkeeping: the channels, the sockets and the extension are as before. -/
structure Plain (s t : Sys ε) : Prop where
  face : ∀ m, (t.heap m).map Chann.face = (s.heap m).map Chann.face
  nextChann : t.nextChann = s.nextChann
  channs : t.mnet.channs = s.mnet.channs
  channCount : t.mnet.channCount = s.mnet.channCount
  reserved : ∀ ctype, s.mnet.reserved ctype = true → t.mnet.reserved ctype = true
  kq : t.mnet.kq = s.mnet.kq
  socks : t.kernel.socks = s.kernel.socks
  nextSock : t.kernel.nextSock = s.kernel.nextSock
  epoll : t.kernel.epoll = s.kernel.epoll
  oracle : t.kernel.oracle = s.kernel.oracle
  ext : t.ext = s.ext
  trace : Adds SysEvent.plain s t

/-- A descriptor the kernel has just opened. The channels may have changed. -/
structure NewFd (fd : Int) (s t : Sys ε) : Prop where
  pos : 0 < fd
  free : s.kernel.socks fd = none
  nextChann : t.nextChann = s.nextChann
  mnet : t.mnet = s.mnet
  socks : t.kernel.socks = Function.update s.kernel.socks fd (some s.kernel.nextSock)
  nextSock : t.kernel.nextSock = s.kernel.nextSock + 1
  epoll : t.kernel.epoll = s.kernel.epoll
  oracle : t.kernel.oracle = s.kernel.oracle
  ext : t.ext = s.ext
  trace : ∃ e, (e = .socket fd ∨ ∃ lfd, e = .accept lfd fd) ∧ Adds SysEvent.plain (s.recorded e) t

/-- A `connect` that was refused at once. -/
def SysEvent.refuses : SysEvent → Prop
  | .connect _ r e => refused r e
  | _ => False

instance (e : SysEvent) : Decidable e.refuses := by
  cases e <;> unfold SysEvent.refuses <;> infer_instance

/-- The state of a channel of the type `raw` whose socket was opened to connect or to listen, and
what the library waits for on it. -/
def Entered (raw : Nat) (op : ExtOp) (st : ChannState) (set : EvtSet) : Prop :=
  (op = .connectCb ∧ ((raw = CHANN_TYPE_STREAM ∧ st = .connecting ∧ set = .write) ∨
    (raw ≠ CHANN_TYPE_STREAM ∧ st = .connected ∧ set = .read))) ∨
      (op = .listenCb ∧ st = .listening ∧ set = .read)

def Ext.cb (e : Ext ε) : ExtOp → ChannId → M ε Unit
  | .openCb => e.openCb
  | .closeCb => e.closeCb
  | .listenCb => e.listenCb
  | .acceptCb => e.acceptCb
  | .connectCb => e.connectCb
  | .disconnectCb => e.disconnectCb

theorem internalExt_cb (ctype : Nat) (op : ExtOp) (n : ChannId) :
    (internalExt ctype : Ext ε).cb op n = pure () := by cases op <;> rfl

inductive Deed where
  | plain
  /-- A write to one field: the mask in the channel, the SEND flag, the cache, the address, the state. -/
  | forget (n : ChannId)
  | sendFlag (n : ChannId)
  | cache (n : ChannId)
  | address (n : ChannId)
  | established (n : ChannId)
  /-- `epoll_ctl` for the channel. -/
  | ctl (n : ChannId)
  /-- A new event queue, or none. -/
  | queue
  /-- A new channel and its callback. -/
  | opened (n : ChannId)
  | accept (l n : ChannId)
  /-- A new socket and its callback, and sockets that come to nothing. -/
  | attach (n : ChannId) (op : ExtOp)
  | refuse (n : ChannId)
  | bounce (n : ChannId)
  | leak
  | message (n : ChannId) (event : ChannEvent)
  | send (n : ChannId)
  | recv (n : ChannId)
  | disconnect (n : ChannId)
  | close (n : ChannId)
  | destroy (n : ChannId)
  | wipe

/-- What is told of a connection that is up. A filter may go on with its handshake instead. -/
def ChannEvent.drives : ChannEvent → Prop
  | .connected | .recv => True
  | _ => False

/-- One move: when it is made, and what it changes. -/
inductive Move (x : ExtTable ε) : Sys ε → Deed → Sys ε → Prop
  | plain {s t : Sys ε} : Plain s t → Move x s .plain t
  | forget {s : Sys ε} {n : ChannId} {c : Chann} : s.heap n = some c →
    Move x s (.forget n) (s.setChann n { c with epollEvents := 0 })
  | sendFlag {s : Sys ε} {n : ChannId} {c : Chann} {on : Bool} : s.heap n = some c →
    Move x s (.sendFlag n) (s.setChann n { c with activeSendEvent := on })
  | cache {s : Sys ε} {n : ChannId} {c : Chann} {h : RwbHead} : s.heap n = some c →
    Move x s (.cache n) (s.setChann n { c with rwbSend := h })
  | address {s : Sys ε} {n : ChannId} {c : Chann} {a : SockAddr} : s.heap n = some c →
    Move x s (.address n) (s.setChann n { c with addr := a })
  | established {s : Sys ε} {n : ChannId} {c : Chann} : s.heap n = some c → c.state = .connecting →
    Move x s (.established n) (s.setChann n { c with state := .connected })
  | ctl {s t : Sys ε} {n : ChannId} {op : CtlOp} {events : BitVec 32} {r : Int} :
    Returns (evtCtl n op events) s r t → Move x s (.ctl n) t
  | queue {s : Sys ε} {on : Bool} :
    Move x s .queue { s with
      mnet := { s.mnet with kq := on, evtArray := [] }
      kernel := { s.kernel with epoll := fun _ => none } }
  | opened {s a t : Sys ε} {n : ChannId} {ctype : Nat} {u : Unit} :
    s.mnet.reserved ctype = true →
    Returns (channCreate ctype .disconnect) s n a →
    Returns (callback .openCb (extConfig x ctype).openCb n) a u t → Move x s (.opened n) t
  | accept {s a b t : Sys ε} {l n : ChannId} {lc c : Chann} {fd : Int} {addr : SockAddr} {u : Unit} :
    s.heap l = some lc → NewFd fd s a → a.heap = s.heap →
    Returns (channCreate lc.ctype .connected) a n b → b.heap n = some c →
    Returns ((extConfig x c.ctype).acceptCb n)
      ((b.setChann n { c with fd := fd, addr := addr }).recorded (.extOp .acceptCb n)) u t →
    Move x s (.accept l n) t
  | attach {s a b t : Sys ε} {n : ChannId} {c : Chann} {fd r : Int} {addr : SockAddr}
      {st : ChannState} {op : ExtOp} {set : EvtSet} {u : Unit} :
    s.heap n = some c → c.state = .disconnect → NewFd fd s a →
    Entered ((extConfig x c.ctype).typeFn c.ctype) op st set →
    a.heap = Function.update s.heap n (some { c with fd := fd, addr := addr, state := st }) →
    Returns (evtAdd n set) a r b →
    Returns ((extConfig x c.ctype).cb op n) (b.recorded (.extOp op n)) u t →
    Move x s (.attach n op) t
  | refuse {s t : Sys ε} {n : ChannId} {c : Chann} {fd : Int} {addr : SockAddr} :
    s.heap n = some c → c.state = .disconnect → NewFd fd s t →
    t.heap = Function.update s.heap n (some { c with fd := fd, addr := addr }) →
    (∃ e ∈ t.kernel.trace.head?, e.refuses) → Move x s (.refuse n) t
  | bounce {s a t : Sys ε} {n : ChannId} {c : Chann} {fd : Int} {addr : SockAddr} {u : Unit} :
    s.heap n = some c → c.state = .disconnect → NewFd fd s a →
    a.heap = Function.update s.heap n (some { c with addr := addr }) →
    Returns (sysClose fd) a u t → Move x s (.bounce n) t
  | leak {s t : Sys ε} {lfd fd : Int} : NewFd fd s t → t.heap = s.heap →
    Adds SysEvent.plain (s.recorded (.accept lfd fd)) t → Move x s .leak t
  | message {s t : Sys ε} {n : ChannId} {event : ChannEvent} {r : Option ChannId} {err : Int}
      {pass : Bool} : (event.drives → ∃ c, s.heap n = some c ∧ c.state.active) →
    Returns (channMsg x n event r err) s pass t → Move x s (.message n event) t
  | send {s t : Sys ε} {n : ChannId} {data : List UInt8} {r : Int} :
    Returns (channSend x n data) s r t → Move x s (.send n) t
  | recv {s t : Sys ε} {n : ChannId} {c : Chann} {len : Nat} {r : Int} : s.heap n = some c →
    Returns ((extConfig x c.ctype).recvFn n len) s r t →
    Move x s (.recv n) (t.recorded (.recvFn n r))
  | disconnect {s t : Sys ε} {n : ChannId} {r : Int} :
    Returns (channDisconnectSocket (opsOf x) n) s r t → Move x s (.disconnect n) t
  | close {s t : Sys ε} {n : ChannId} {u : Unit} :
    (∀ c, s.heap n = some c → ¬ (0 < c.fd ∧ c.state.active)) →
    Returns (channCloseSocket (opsOf x) n) s u t → Move x s (.close n) t
  | destroy {s t : Sys ε} {n : ChannId} {u : Unit} :
    Returns (channDestroy n) s u t → Move x s (.destroy n) t
  | wipe {s : Sys ε} : Move x s .wipe { s with mnet := {} }

/-- Moves of the set `A` lead from one state to another. -/
abbrev Moves (x : ExtTable ε) (A : Set Deed) : Sys ε → Sys ε → Prop :=
  Relation.ReflTransGen fun s t => ∃ d ∈ A, Move x s d t

section

variable {x : ExtTable ε} {s t : Sys ε} {A B : Set Deed} {d : Deed}

theorem Move.moves (h : Move x s d t) (hd : d ∈ A) : Moves x A s t := .single ⟨d, hd, h⟩

theorem Moves.mono (h : Moves x A s t) (hs : A ⊆ B) : Moves x B s t :=
  Relation.ReflTransGen.mono (fun _ _ ⟨d, hd, hm⟩ => ⟨d, hs hd, hm⟩) _ _ h

/-- What every move of `A` keeps. -/
theorem Moves.keeps {I : Sys ε → Prop} (h : Moves x A s t)
    (hI : ∀ d s t, d ∈ A → Move x s d t → I s → I t) (hs : I s) : I t := by
  induction h with
  | refl => exact hs
  | tail _ hm ih =>
    obtain ⟨d, hd, hm⟩ := hm
    exact hI d _ _ hd hm ih

end

/-! ## The history -/

section

variable {P Q : SysEvent → Prop} {s t u : Sys ε}

theorem adds_of_eq (h : t.kernel.trace = s.kernel.trace) : Adds P s t := ⟨[], by simp, h⟩

theorem adds_recorded {e : SysEvent} (he : P e) : Adds P s (s.recorded e) := ⟨[e], by simpa, rfl⟩

theorem Adds.mono (h : Adds P s t) (hPQ : ∀ e, P e → Q e) : Adds Q s t := by
  obtain ⟨l, hl, ht⟩ := h
  exact ⟨l, fun e he => hPQ e (hl e he), ht⟩

theorem Adds.trans (h : Adds P s t) (h' : Adds P t u) : Adds P s u := by
  obtain ⟨l, hl, ht⟩ := h
  obtain ⟨l', hl', hu⟩ := h'
  refine ⟨l' ++ l, fun e he => ?_, by rw [hu, ht, List.append_assoc]⟩
  exact (List.mem_append.mp he).elim (hl' e) (hl e)

theorem Adds.suffix (h : Adds P s t) : s.kernel.trace <:+ t.kernel.trace := by
  obtain ⟨l, _, ht⟩ := h
  exact ⟨l, ht.symm⟩

end

/-! ## Bookkeeping -/

section

variable {s t u : Sys ε}

theorem Plain.refl (s : Sys ε) : Plain s s where
  face _ := rfl
  nextChann := rfl
  channs := rfl
  channCount := rfl
  reserved _ h := h
  kq := rfl
  socks := rfl
  nextSock := rfl
  epoll := rfl
  oracle := rfl
  ext := rfl
  trace := adds_of_eq rfl

theorem Plain.trans (h : Plain s t) (h' : Plain t u) : Plain s u where
  face m := (h'.face m).trans (h.face m)
  nextChann := h'.nextChann.trans h.nextChann
  channs := h'.channs.trans h.channs
  channCount := h'.channCount.trans h.channCount
  reserved ctype hs := h'.reserved ctype (h.reserved ctype hs)
  kq := h'.kq.trans h.kq
  socks := h'.socks.trans h.socks
  nextSock := h'.nextSock.trans h.nextSock
  epoll := h'.epoll.trans h.epoll
  oracle := h'.oracle.trans h.oracle
  ext := h'.ext.trans h.ext
  trace := h.trace.trans h'.trace

instance : Std.Refl (Plain (ε := ε)) := ⟨Plain.refl⟩

instance : IsTrans (Sys ε) Plain := ⟨fun _ _ _ => Plain.trans⟩

theorem plain_setChann {n : ChannId} {c d : Chann} (hc : s.heap n = some c) (hd : d.face = c.face) :
    Plain s (s.setChann n d) := by
  refine { Plain.refl s with face := fun m => ?_, trace := adds_of_eq rfl }
  by_cases hm : m = n
  · rw [hm, hc]
    simp [Sys.setChann, hd]
  · simp [Sys.setChann, Function.update_of_ne hm]

/-- Only what `Plain` does not speak of is different in the library's own data. -/
theorem plain_mnet {ss : Mnet} (hc : ss.channs = s.mnet.channs)
    (hn : ss.channCount = s.mnet.channCount)
    (hr : ∀ ctype, s.mnet.reserved ctype = true → ss.reserved ctype = true)
    (hkq : ss.kq = s.mnet.kq) : Plain s { s with mnet := ss } :=
  { Plain.refl s with channs := hc, channCount := hn, reserved := hr, kq := hkq, trace := adds_of_eq rfl }

end

end MNet
