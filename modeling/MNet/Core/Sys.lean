import MNet.Core.Base

/-! # The core behind the system calls

What the operations on the state, and the system calls, do to the core. Most leave it as
it is: it has no clock, no `errno` and no user data. -/

namespace MNet
open MNet.Lib MNet.Lib.Exec

variable {ε : Type} {s t : Sys ε} {n : ChannId} {c : Chann} {fd r : Int} {u : Unit}

@[simp] theorem core_heap (s : Sys ε) (n : ChannId) : s.core.heap n = (s.heap n).map Chann.core := rfl

theorem core_heap_some (h : s.heap n = some c) : s.core.heap n = some c.core := by
  simp [h]

@[simp] theorem core_setChann (s : Sys ε) (n : ChannId) (c : Chann) :
    (s.setChann n c).core = s.core.set n c.core := by
  have hh : (fun m => ((s.setChann n c).heap m).map Chann.core) =
      Function.update s.core.heap n (some c.core) := by
    funext m
    by_cases hm : m = n
    · subst hm
      simp [Sys.setChann]
    · simp [Sys.setChann, Function.update_of_ne hm]
  unfold Core.set
  rw [← hh]
  rfl

/-- The core with the library's own fields replaced. -/
def Core.withMnet (k : Core) (ss : Mnet) : Core :=
  { k with
    channs := ss.channs, channCount := ss.channCount, delChanns := ss.delChanns
    disChanns := ss.disChanns, isInit := ss.isInit, kq := ss.kq, evtArray := ss.evtArray
    fdCount := ss.fdCount, fdIndex := ss.fdIndex, tmClock := ss.tmClock, tmPos := ss.tmPos
    tmCurrent := ss.tmCurrent }

theorem Core.withMnet_set (k : Core) (ss : Mnet) (n : ChannId) (c : CChann) :
    (k.withMnet ss).set n c = (k.set n c).withMnet ss := rfl

theorem core_modifyMnet {f : Mnet → Mnet} (h : Returns (modifyMnet f) s u t) :
    t.heap = s.heap ∧ t.mnet = f s.mnet ∧ t.kernel = s.kernel ∧
      t.core = s.core.withMnet (f s.mnet) := by
  rw [returns_modifyMnet] at h
  subst h
  exact ⟨rfl, rfl, rfl, rfl⟩

theorem core_modifyChann {f : Chann → Chann} (h : Returns (modifyChann n f) s u t) :
    ∃ c, s.heap n = some c ∧ t.heap n = some (f c) ∧ t.mnet = s.mnet ∧ t.kernel = s.kernel ∧
      t.core = s.core.set n (f c).core := by
  rw [returns_modifyChann] at h
  obtain ⟨c, hc, rfl⟩ := h
  exact ⟨c, hc, by simp [Sys.setChann], rfl, rfl, core_setChann s n (f c)⟩

/-- Only the fields `Core` keeps of a channel matter. -/
theorem core_setChann_same (h : s.heap n = some c) {d : Chann} (hd : d.core = c.core) :
    (s.setChann n d).core = s.core := by
  rw [core_setChann, hd, Core.set]
  have hu : Function.update s.core.heap n (some c.core) = s.core.heap := by
    rw [Function.update_eq_self_iff]
    exact (core_heap_some h).symm
  rw [hu]

/-- Two states with the same core hold the same channels, up to what the core leaves out. -/
theorem heap_of_core (h : t.core = s.core) {d : Chann} (hd : t.heap n = some d) :
    ∃ c, s.heap n = some c ∧ d.core = c.core := by
  have hc := core_heap_some hd
  rw [h, core_heap, Option.map_eq_some_iff] at hc
  obtain ⟨c, hc, he⟩ := hc
  exact ⟨c, hc, he.symm⟩

/-- A link field of the channels, read from the core. -/
theorem bind_core {α : Type} (s : Sys ε) {f : CChann → Option α} {g : Chann → Option α}
    (h : ∀ c, f c.core = g c) : (fun n => (s.core.heap n).bind f) = fun n => (s.heap n).bind g := by
  funext n
  show ((s.heap n).map Chann.core).bind f = _
  cases s.heap n with
  | none => rfl
  | some c => exact h c

/-! ## The trace -/

/-- The last call was no `accept`. -/
def notAccept (s : Sys ε) : Prop := ∀ lfd fd tr, s.kernel.trace ≠ .accept lfd fd :: tr

/-- The calls that never lose a descriptor. -/
def SysEvent.harmless : SysEvent → Prop
  | .connect .. | .nonblock .. => False
  | _ => True

theorem lostFds_harmless {e : SysEvent} (he : e.harmless) (tr : List SysEvent) :
    lostFds (e :: tr) = lostFds tr := by
  cases e <;> first | exact he.elim | rw [lostFds]
  all_goals simp

theorem lostFds_nonblock {tr : List SysEvent} (h : ∀ lfd fd tr', tr ≠ .accept lfd fd :: tr') :
    lostFds (.nonblock fd r :: tr) = lostFds tr := by
  rw [lostFds]
  · simp
  · rintro _ _ _ _ _ ⟨rfl, rfl⟩ rfl
    exact h _ _ _ rfl

/-- Everything in the kernel state but what the core keeps may change, and the trace by calls
that lose nothing. -/
theorem core_kernel {k : Kernel} (hs : k.socks = s.kernel.socks) (hn : k.nextSock = s.kernel.nextSock)
    (hw : k.wire = s.kernel.wire) (he : k.epoll = s.kernel.epoll)
    (ho : k.oracle = s.kernel.oracle) (ht : lostFds k.trace = lostFds s.kernel.trace) :
    ({ s with kernel := k } : Sys ε).core = s.core := by
  simp only [Sys.core, hs, hn, hw, he, ho, ht]

@[simp] theorem core_tick (s : Sys ε) (i : Nat) :
    ({ s with kernel := { s.kernel with tick := i } } : Sys ε).core = s.core := rfl

@[simp] theorem core_errno (s : Sys ε) (e : Int) :
    ({ s with kernel := { s.kernel with errno := e } } : Sys ε).core = s.core := rfl

theorem core_record {e : SysEvent} (h : Returns (record e) s u t) (he : e.harmless) :
    t.core = s.core := by
  rw [returns_record] at h
  subst h
  exact core_kernel rfl rfl rfl rfl rfl (lostFds_harmless he _)

/-! ## System calls -/

theorem core_nextTick {i : Nat} (h : Returns nextTick s i t) :
    i = s.kernel.tick ∧ t = { s with kernel := { s.kernel with tick := i + 1 } } := by
  simp only [nextTick, returns_bind, returns_read, returns_modifyKernel, returns_pure] at h
  obtain ⟨_, _, ⟨rfl, rfl⟩, _, _, rfl, rfl, rfl⟩ := h
  exact ⟨rfl, rfl⟩

/-- A result is the oracle's answer at the tick, and only `errno` and the tick change. -/
theorem sysRet_spec (h : Returns sysRet s r t) :
    r = max (s.kernel.oracle.ret s.kernel.tick) (-1) ∧
    t = { s with kernel := { s.kernel with
      tick := s.kernel.tick + 1
      errno := if r < 0 then s.kernel.oracle.err s.kernel.tick else s.kernel.errno } } := by
  simp only [sysRet, returns_bind, returns_read, returns_modifyKernel, returns_pure] at h
  obtain ⟨_, _, ⟨rfl, rfl⟩, i, u, hi, _, _, rfl, rfl, rfl⟩ := h
  obtain ⟨rfl, rfl⟩ := core_nextTick hi
  refine ⟨rfl, ?_⟩
  split <;> rfl

theorem core_sysRet (h : Returns sysRet s r t) : t.core = s.core ∧ -1 ≤ r := by
  obtain ⟨hr, ht⟩ := sysRet_spec h
  subst ht
  exact ⟨core_kernel rfl rfl rfl rfl rfl rfl, by rw [hr]; exact Int.le_max_right _ _⟩

theorem trace_sysRet (h : Returns sysRet s r t) : t.kernel.trace = s.kernel.trace := by
  obtain ⟨_, rfl⟩ := sysRet_spec h
  rfl

/-- `socket` and `accept`: nothing happens, or there is a new descriptor. -/
theorem core_sysNewFd (h : Returns sysNewFd s fd t) :
    t.kernel.trace = s.kernel.trace ∧ ((fd = -1 ∧ t.core = s.core) ∨
      (0 < fd ∧ s.core.socks fd = none ∧ t.core = s.core.openFd fd)) := by
  simp only [sysNewFd, returns_bind, returns_read] at h
  obtain ⟨r, a, hr, _, _, ⟨rfl, rfl⟩, h⟩ := h
  have hcore := (core_sysRet hr).1
  have htr := trace_sysRet hr
  rcases returns_ite.mp h with ⟨hf, h⟩ | ⟨_, h⟩
  · simp only [returns_bind, returns_modifyKernel, returns_pure] at h
    obtain ⟨_, _, rfl, rfl, rfl⟩ := h
    obtain ⟨hpos, hnone⟩ := hf
    refine ⟨htr, .inr ⟨hpos, ?_, ?_⟩⟩
    · rw [← hcore]
      exact hnone
    · rw [← hcore]
      rfl
  · simp only [returns_pure] at h
    obtain ⟨rfl, rfl⟩ := h
    exact ⟨htr, .inl ⟨rfl, hcore⟩⟩

theorem core_sysSocket (h : Returns sysSocket s fd t) :
    notAccept t ∧ ((fd = -1 ∧ t.core = s.core) ∨
      (0 < fd ∧ s.core.socks fd = none ∧ t.core = s.core.openFd fd)) := by
  simp only [sysSocket, returns_bind, returns_pure] at h
  obtain ⟨_, a, hfd, _, b, hrec, rfl, rfl⟩ := h
  obtain ⟨_, hnew⟩ := core_sysNewFd hfd
  rw [core_record hrec trivial]
  rw [returns_record] at hrec
  subst hrec
  exact ⟨fun _ _ _ he => by simp at he, hnew⟩

theorem core_sysAccept {lfd : Int} {p : Int × SockAddr} (h : Returns (sysAccept lfd) s p t) :
    t.kernel.trace = .accept lfd p.1 :: s.kernel.trace ∧ ((p.1 = -1 ∧ t.core = s.core) ∨
      (0 < p.1 ∧ s.core.socks p.1 = none ∧ t.core = s.core.openFd p.1)) := by
  simp only [sysAccept, returns_bind, returns_read, returns_pure] at h
  obtain ⟨_, _, ⟨rfl, rfl⟩, fd, a, hfd, _, b, hrec, rfl, rfl⟩ := h
  obtain ⟨htr, hnew⟩ := core_sysNewFd hfd
  rw [core_record hrec trivial]
  rw [returns_record] at hrec
  subst hrec
  exact ⟨by simp [htr], hnew⟩

theorem core_sysClose (h : Returns (sysClose fd) s u t) : t.core = s.core.closeFd fd := by
  simp only [sysClose, returns_bind, returns_modifyKernel] at h
  obtain ⟨_, a, hr, _, b, rfl, hrec⟩ := h
  rw [core_record hrec trivial, ← (core_sysRet hr).1]
  rfl

theorem core_sysSetup (h : Returns (sysSetup fd) s r t) : t.core = s.core ∧ notAccept t := by
  simp only [sysSetup, returns_bind, returns_pure] at h
  obtain ⟨_, a, hr, _, b, hrec, rfl, rfl⟩ := h
  refine ⟨by rw [core_record hrec trivial, (core_sysRet hr).1], ?_⟩
  rw [returns_record] at hrec
  subst hrec
  exact fun _ _ _ he => by simp at he

/-- A refused `connect` counts against its descriptor. -/
theorem core_sysConnect {addr : SockAddr} (h : Returns (sysConnect fd addr) s r t) :
    (refused r t.kernel.errno → t.core = { s.core with lost := fd :: s.core.lost }) ∧
    (¬ refused r t.kernel.errno → t.core = s.core) := by
  simp only [sysConnect, readErrno, returns_bind, returns_read, returns_pure] at h
  obtain ⟨_, a, hr, _, _, ⟨rfl, rfl⟩, _, b, hrec, rfl, rfl⟩ := h
  rw [returns_record] at hrec
  subst hrec
  have hcore := (core_sysRet hr).1
  rw [← hcore]
  constructor
  · intro hf
    simp only [Sys.core, lostFds, if_pos hf]
  · intro hf
    simp only [Sys.core, lostFds, if_neg hf]

theorem core_sysSockError {p : Int × Int} (h : Returns (sysSockError fd) s p t) :
    t.core = s.core := by
  simp only [sysSockError, returns_bind, returns_read, returns_pure] at h
  obtain ⟨_, _, ⟨rfl, rfl⟩, _, a, hr, rfl, rfl⟩ := h
  exact (core_sysRet hr).1

theorem transferred_le (r : Int) (len : Nat) : transferred r len ≤ len := by
  unfold transferred
  split
  · omega
  · exact Int.min_le_right _ _

/-- The bytes accepted go to the socket's wire. -/
theorem core_sysSend {data : List UInt8} (h : Returns (sysSend fd data) s r t) :
    r ≤ data.length ∧ t.core = match s.core.socks fd with
      | some i => { s.core with
          wire := Function.update s.core.wire i (s.core.wire i ++ data.take r.toNat) }
      | none => s.core := by
  simp only [sysSend, returns_bind, returns_modifyKernel, returns_pure] at h
  obtain ⟨_, a, hr, _, _, rfl, _, b, hrec, rfl, rfl⟩ := h
  refine ⟨transferred_le _ _, ?_⟩
  rw [core_record hrec trivial, ← (core_sysRet hr).1]
  have hsocks : a.core.socks fd = a.kernel.socks fd := rfl
  rw [hsocks]
  cases a.kernel.socks fd <;> rfl

theorem core_sysSendto {addr : SockAddr} {data : List UInt8}
    (h : Returns (sysSendto fd addr data) s r t) : t.core = s.core := by
  simp only [sysSendto, returns_bind, returns_pure] at h
  obtain ⟨_, a, hr, _, b, hrec, rfl, rfl⟩ := h
  rw [core_record hrec trivial, (core_sysRet hr).1]

theorem core_sysRecv {len : Nat} {p : Int × SockAddr} (h : Returns (sysRecv fd len) s p t) :
    t.core = s.core := by
  simp only [sysRecv, returns_bind, returns_read, returns_pure] at h
  obtain ⟨_, _, ⟨rfl, rfl⟩, _, a, hr, _, b, hrec, rfl, rfl⟩ := h
  rw [core_record hrec trivial, (core_sysRet hr).1]

/-- `epoll_ctl` does what it is asked, or fails and changes nothing; it fails on a request
that does not suit, or when the oracle says so. -/
theorem core_sysEpollCtl {op : CtlOp} {reg : EpollReg} (h : Returns (sysEpollCtl op fd reg) s r t) :
    (r = 0 ∧ op.valid s.kernel fd ∧ t.core = { s.core with
        epoll := Function.update s.core.epoll fd (if op = .del then none else some reg) }) ∨
    (r = -1 ∧ t.core = s.core ∧
      ¬ (op.valid s.kernel fd ∧ s.core.ctl s.kernel.tick = true)) := by
  simp only [sysEpollCtl, returns_bind, returns_read] at h
  obtain ⟨i, a, hi, _, _, ⟨rfl, rfl⟩, h⟩ := h
  obtain ⟨rfl, rfl⟩ := core_nextTick hi
  have hv : op.valid { s.kernel with tick := s.kernel.tick + 1 } fd ↔ op.valid s.kernel fd := by
    cases op <;> exact Iff.rfl
  rcases returns_ite.mp h with ⟨⟨hvalid, hctl⟩, h⟩ | ⟨hno, h⟩
  · simp only [returns_bind, returns_modifyKernel, returns_pure] at h
    obtain ⟨_, _, rfl, _, b, hrec, rfl, rfl⟩ := h
    refine .inl ⟨rfl, hv.mp hvalid, ?_⟩
    rw [core_record hrec trivial]
    rfl
  · simp only [returns_bind, returns_modifyKernel, returns_pure] at h
    obtain ⟨_, _, rfl, _, b, hrec, rfl, rfl⟩ := h
    refine .inr ⟨rfl, ?_, fun hc => hno ⟨hv.mpr hc.1, hc.2⟩⟩
    rw [core_record hrec trivial]
    rfl

/-- Every record `epoll_wait` delivers is of a registered descriptor. -/
theorem core_sysEpollWait {size : Nat} {p : Option (List Kev)}
    (h : Returns (sysEpollWait size) s p t) :
    t.core = s.core ∧ ∀ evts, p = some evts → ∀ e ∈ evts, Reported s.core e := by
  simp only [sysEpollWait, returns_bind, returns_read, returns_pure] at h
  obtain ⟨_, _, ⟨rfl, rfl⟩, r, a, hr, rfl, rfl⟩ := h
  refine ⟨(core_sysRet hr).1, fun evts he e hm => ?_⟩
  split at he
  · cases he
  · cases he
    obtain ⟨q, _, hq⟩ := List.mem_filterMap.mp (List.mem_of_mem_take hm)
    simp only [Kernel.report, Option.map_eq_some_iff] at hq
    obtain ⟨reg, hreg, rfl⟩ := hq
    exact ⟨q.1, reg, hreg, rfl, rfl⟩

theorem core_sysClock (h : Returns sysClock s r t) : t.core = s.core := by
  simp only [sysClock, returns_bind, returns_read, returns_pure] at h
  obtain ⟨_, _, ⟨rfl, rfl⟩, i, a, hi, rfl, rfl⟩ := h
  obtain ⟨rfl, rfl⟩ := core_nextTick hi
  rfl

end MNet
