import MNet.Core.Sys
import MNet.Moves.Model

/-! # System calls, timers and channel operations as moves -/

namespace MNet
open MNet.Lib MNet.Lib.Exec

variable {ε : Type} {x : ExtTable ε} {s t : Sys ε} {n : ChannId} {u : Unit}

/-! ## System calls -/

/-- Only the kernel's own bookkeeping is different. -/
structure Outside (s t : Sys ε) : Prop where
  heap : t.heap = s.heap
  nextChann : t.nextChann = s.nextChann
  mnet : t.mnet = s.mnet
  socks : t.kernel.socks = s.kernel.socks
  nextSock : t.kernel.nextSock = s.kernel.nextSock
  epoll : t.kernel.epoll = s.kernel.epoll
  oracle : t.kernel.oracle = s.kernel.oracle
  ext : t.ext = s.ext
  trace : Adds SysEvent.plain s t

namespace Outside

variable {a b : Sys ε}

theorem refl (s : Sys ε) : Outside s s where
  heap := rfl
  nextChann := rfl
  mnet := rfl
  socks := rfl
  nextSock := rfl
  epoll := rfl
  oracle := rfl
  ext := rfl
  trace := adds_of_eq rfl

theorem trans (h : Outside s a) (h' : Outside a b) : Outside s b where
  heap := h'.heap.trans h.heap
  nextChann := h'.nextChann.trans h.nextChann
  mnet := h'.mnet.trans h.mnet
  socks := h'.socks.trans h.socks
  nextSock := h'.nextSock.trans h.nextSock
  epoll := h'.epoll.trans h.epoll
  oracle := h'.oracle.trans h.oracle
  ext := h'.ext.trans h.ext
  trace := h.trace.trans h'.trace

theorem plain (h : Outside s t) : Plain s t where
  face m := by rw [h.heap]
  nextChann := h.nextChann
  channs := by rw [h.mnet]
  channCount := by rw [h.mnet]
  reserved := by
    rw [h.mnet]
    exact fun _ hr => hr
  kq := by rw [h.mnet]
  socks := h.socks
  nextSock := h.nextSock
  epoll := h.epoll
  oracle := h.oracle
  ext := h.ext
  trace := h.trace

end Outside

instance : Std.Refl (Outside (ε := ε)) := ⟨Outside.refl⟩

instance : IsTrans (Sys ε) Outside := ⟨fun _ _ _ => Outside.trans⟩

theorem outside_record {e : SysEvent} (he : e.plain) : Within Outside (record e) s := by
  intro _ t h
  rw [returns_record] at h
  subst h
  exact { Outside.refl s with trace := adds_recorded he }

theorem outside_nextTick : Within Outside (nextTick) s := by
  intro i t h
  obtain ⟨_, rfl⟩ := core_nextTick h
  exact { Outside.refl s with trace := adds_of_eq rfl }

theorem outside_sysRet : Within Outside (sysRet) s := by
  intro r t h
  obtain ⟨_, rfl⟩ := sysRet_spec h
  exact { Outside.refl s with trace := adds_of_eq rfl }

theorem outside_sysSetup (fd : Int) : Within Outside (sysSetup fd) s :=
  .bind outside_sysRet fun _ _ _ => (outside_record (by trivial)).bind fun _ _ _ => within_pure _

theorem outside_setNonblocking (fd : Int) : Within Outside (setNonblocking fd) s :=
  .bind outside_sysRet fun _ _ _ => .ite
    (fun _ => .bind outside_sysRet fun _ _ _ => (outside_record (by trivial)).bind fun _ _ _ => within_pure _)
    fun _ => (outside_record (by trivial)).bind fun _ _ _ => within_pure _

theorem outside_sysConnect (fd : Int) (addr : SockAddr) : Within Outside (sysConnect fd addr) s :=
  .bind outside_sysRet fun _ _ _ => .read_bind <|
    (outside_record (by trivial)).bind fun _ _ _ => within_pure _

/-- What it returns is in the history, with the `errno` it left. -/
theorem sysConnect_trace {fd r : Int} {addr : SockAddr} (h : Returns (sysConnect fd addr) s r t) :
    ∃ tr, t.kernel.trace = .connect fd r t.kernel.errno :: tr := by
  simp only [sysConnect, readErrno, returns_bind, returns_read, returns_record, returns_pure] at h
  obtain ⟨_, a, _, _, _, ⟨rfl, rfl⟩, _, _, rfl, rfl, rfl⟩ := h
  exact ⟨_, rfl⟩

theorem outside_sysSockError (fd : Int) : Within Outside (sysSockError fd) s :=
  .read_bind <| .bind outside_sysRet fun _ _ _ => within_pure _

theorem outside_sysEpollWait (size : Nat) : Within Outside (sysEpollWait size) s :=
  .read_bind <| .bind outside_sysRet fun _ _ _ => within_pure _

theorem outside_sysClock : Within Outside (sysClock) s :=
  .read_bind <| .bind outside_nextTick fun _ _ _ => within_pure _

theorem outside_setBufsize (fd size : Int) : Within Outside (setBufsize fd size) s :=
  (outside_sysSetup fd).bind fun _ _ _ => (outside_sysSetup fd).bind fun _ _ _ => within_pure _

theorem outside_allOk {ms : List (M ε Int)} (h : ∀ m ∈ ms, ∀ s, Within Outside m s) :
    Within Outside (allOk ms) s := by
  induction ms generalizing s with
  | nil => exact within_pure true
  | cons m ms ih =>
    refine (h m (by simp) s).bind fun r _ _ => .ite (fun _ => within_pure false) fun _ => ?_
    exact ih fun m hm => h m (List.mem_cons_of_mem _ hm)

/-- `socket` and `accept` open a descriptor, or nothing happens. -/
theorem sysNewFd_cases {fd : Int} (h : Returns sysNewFd s fd t) :
    t.heap = s.heap ∧ t.nextChann = s.nextChann ∧ t.mnet = s.mnet ∧ t.kernel.epoll = s.kernel.epoll ∧
      t.kernel.oracle = s.kernel.oracle ∧ t.ext = s.ext ∧ t.kernel.trace = s.kernel.trace ∧
      ((fd = -1 ∧ t.kernel.socks = s.kernel.socks ∧ t.kernel.nextSock = s.kernel.nextSock) ∨
        (0 < fd ∧ s.kernel.socks fd = none ∧
          t.kernel.socks = Function.update s.kernel.socks fd (some s.kernel.nextSock) ∧
          t.kernel.nextSock = s.kernel.nextSock + 1)) := by
  simp only [sysNewFd, returns_bind, returns_read] at h
  obtain ⟨r, a, hr, _, _, ⟨rfl, rfl⟩, h⟩ := h
  obtain ⟨_, rfl⟩ := sysRet_spec hr
  rcases returns_ite.mp h with ⟨hf, h⟩ | ⟨_, h⟩
  · simp only [returns_bind, returns_modifyKernel, returns_pure] at h
    obtain ⟨_, _, rfl, rfl, rfl⟩ := h
    exact ⟨rfl, rfl, rfl, rfl, rfl, rfl, rfl, .inr ⟨hf.1, hf.2, rfl, rfl⟩⟩
  · obtain ⟨rfl, rfl⟩ := returns_pure.mp h
    exact ⟨rfl, rfl, rfl, rfl, rfl, rfl, rfl, .inl ⟨rfl, rfl, rfl⟩⟩

/-- The same with the record of the call. -/
theorem newFd_recorded {fd : Int} {a : Sys ε} {e : SysEvent} (h : Returns sysNewFd s fd a)
    (he : (e = .socket fd ∨ ∃ lfd, e = .accept lfd fd)) :
    (fd ≤ 0 ∧ Outside s (a.recorded e)) ∨ (NewFd fd s (a.recorded e) ∧ a.heap = s.heap) := by
  obtain ⟨hheap, hnext, hmnet, hepoll, horacle, hext, htrace, ⟨hneg, hsocks, hsock⟩ |
    ⟨hpos, hfree, hsocks, hsock⟩⟩ := sysNewFd_cases h
  · refine .inl ⟨by omega, hheap, hnext, hmnet, hsocks, hsock, hepoll, horacle, hext, [e], ?_, ?_⟩
    · intro e' he'
      rw [List.mem_singleton.mp he']
      rcases he with rfl | ⟨_, rfl⟩ <;> exact (by omega : fd ≤ 0)
    · exact congrArg (e :: ·) htrace
  · refine .inr ⟨⟨hpos, hfree, hnext, hmnet, hsocks, hsock, hepoll, horacle, hext, e, he, [], ?_, ?_⟩, hheap⟩
    · simp
    · exact congrArg (e :: ·) htrace

theorem sysSocket_cases {fd : Int} (h : Returns sysSocket s fd t) :
    (fd ≤ 0 ∧ Outside s t) ∨ (NewFd fd s t ∧ t.heap = s.heap) := by
  simp only [sysSocket, returns_bind, returns_record, returns_pure] at h
  obtain ⟨_, a, hnew, _, _, rfl, rfl, rfl⟩ := h
  exact newFd_recorded hnew (.inl rfl)

/-- What follows a new descriptor and only concerns the kernel. -/
theorem NewFd.outside {fd : Int} {a : Sys ε} (h : NewFd fd s a) (h' : Outside a t) : NewFd fd s t where
  pos := h.pos
  free := h.free
  nextChann := h'.nextChann.trans h.nextChann
  mnet := h'.mnet.trans h.mnet
  socks := h'.socks.trans h.socks
  nextSock := h'.nextSock.trans h.nextSock
  epoll := h'.epoll.trans h.epoll
  oracle := h'.oracle.trans h.oracle
  ext := h'.ext.trans h.ext
  trace := by
    obtain ⟨e, he, ht⟩ := h.trace
    exact ⟨e, he, ht.trans h'.trace⟩

/-- What precedes it. -/
theorem Outside.newFd {fd : Int} {a : Sys ε} (h : Outside s a) (hs : a.kernel.trace = s.kernel.trace)
    (h' : NewFd fd a t) : NewFd fd s t where
  pos := h'.pos
  free := by
    rw [← h.socks]
    exact h'.free
  nextChann := h'.nextChann.trans h.nextChann
  mnet := h'.mnet.trans h.mnet
  socks := by rw [h'.socks, h.socks, h.nextSock]
  nextSock := by rw [h'.nextSock, h.nextSock]
  epoll := h'.epoll.trans h.epoll
  oracle := h'.oracle.trans h.oracle
  ext := h'.ext.trans h.ext
  trace := by
    obtain ⟨e, he, l, hl, ht⟩ := h'.trace
    refine ⟨e, he, l, hl, ht.trans ?_⟩
    show l ++ e :: a.kernel.trace = l ++ e :: s.kernel.trace
    rw [hs]

theorem sysAccept_cases {lfd : Int} {p : Int × SockAddr} (h : Returns (sysAccept lfd) s p t) :
    (p.1 ≤ 0 ∧ Outside s t) ∨ (NewFd p.1 s t ∧ t.heap = s.heap ∧
      Adds SysEvent.plain (s.recorded (.accept lfd p.1)) t) := by
  simp only [sysAccept, returns_bind, returns_read, returns_record, returns_pure] at h
  obtain ⟨_, _, ⟨rfl, rfl⟩, fd, a, hnew, _, _, rfl, rfl, rfl⟩ := h
  refine (newFd_recorded hnew (.inr ⟨lfd, rfl⟩)).imp_right fun hnewFd => ⟨hnewFd.1, hnewFd.2, [], by simp, ?_⟩
  exact congrArg (SysEvent.accept lfd fd :: ·) (sysNewFd_cases hnew).2.2.2.2.2.2.1

theorem acFn_cases {lfd : Int} {p : Int × SockAddr} (h : Returns (acFn lfd) s p t) :
    (p.1 ≤ 0 ∧ Outside s t) ∨ (NewFd p.1 s t ∧ t.heap = s.heap ∧
      Adds SysEvent.plain (s.recorded (.accept lfd p.1)) t) := by
  simp only [acFn, returns_bind, returns_readMnet, and_assoc, exists_and_left, exists_eq_left] at h
  rcases returns_ite.mp h with ⟨_, h⟩ | ⟨_, h⟩
  · simp only [returns_bind] at h
    obtain ⟨before, a, hbefore, h⟩ := h
    have ha := outside_sysRet _ _ hbefore
    rcases returns_ite.mp h with ⟨_, h⟩ | ⟨_, h⟩
    · simp only [returns_bind, returns_pure] at h
      obtain ⟨_, b, hacc, _, d, hafter, rfl, rfl⟩ := h
      have hd := outside_sysRet _ _ hafter
      obtain ⟨hneg, hb⟩ | ⟨hb, hheap, l, hl, htr⟩ := sysAccept_cases hacc
      · exact .inl ⟨hneg, (ha.trans hb).trans hd⟩
      · refine .inr ⟨(ha.newFd (trace_sysRet hbefore) hb).outside hd,
          hd.heap.trans (hheap.trans ha.heap), Adds.trans ⟨l, hl, htr.trans ?_⟩ hd.trace⟩
        show l ++ _ :: a.kernel.trace = l ++ _ :: s.kernel.trace
        rw [trace_sysRet hbefore]
    · obtain ⟨rfl, rfl⟩ := returns_pure.mp h
      exact .inl ⟨le_refl _, ha⟩
  · exact sysAccept_cases h

/-! ## Bookkeeping -/

theorem Lib.Exec.Within.outside {α : Type} {m : M ε α} (h : Within Outside m s) : Within Plain m s :=
  h.mono fun _ => Outside.plain

theorem plain_modifyChann {f : Chann → Chann} (hf : ∀ c, (f c).face = c.face) :
    Within Plain (modifyChann n f) s := by
  intro _ t h
  obtain ⟨c, hc, rfl⟩ := returns_modifyChann.mp h
  exact plain_setChann hc (hf c)

theorem plain_modifyMnet {f : Mnet → Mnet}
    (hf : ∀ ss, (f ss).channs = ss.channs ∧ (f ss).channCount = ss.channCount ∧
      (∀ ctype, ss.reserved ctype = true → (f ss).reserved ctype = true) ∧ (f ss).kq = ss.kq) :
    Within Plain (modifyMnet f) s := by
  intro _ t h
  rw [returns_modifyMnet] at h
  subst h
  exact plain_mnet (hf _).1 (hf _).2.1 (hf _).2.2.1 (hf _).2.2.2

theorem Lib.Exec.Within.deref_bind {R : Sys ε → Sys ε → Prop} {α : Type} {f : Chann → M ε α}
    (h : ∀ c, s.heap n = some c → Within R (f c) s) : Within R (deref n >>= f) s :=
  .bind_same fun c t hc => by
    obtain ⟨hc, rfl⟩ := returns_deref.mp hc
    exact ⟨rfl, h c hc⟩

theorem Lib.Exec.Within.derefClock_bind {R : Sys ε → Sys ε → Prop} {α : Type} {f : List TmNode → M ε α}
    (h : ∀ clock, Within R (f clock) s) : Within R (derefClock >>= f) s :=
  .bind_same fun clock t hc => by
    simp only [derefClock, returns_bind, returns_readMnet, returns_require] at hc
    obtain ⟨_, _, ⟨_, rfl⟩, _, rfl⟩ := hc
    exact ⟨rfl, h clock⟩

theorem plain_setClock (clock : List TmNode) : Within Plain (setClock clock) s :=
  plain_modifyMnet fun _ => ⟨rfl, rfl, fun _ h => h, rfl⟩

theorem plain_newNode (tm : ChannTm) : Within Plain (newNode tm) s :=
  .derefClock_bind fun _ => .read_bind <| by
    refine Within.bind (fun _ t h => ?_) fun _ _ _ => (plain_setClock _).bind fun _ _ _ => within_pure _
    rw [returns_modify] at h
    subst h
    exact { Plain.refl s with trace := adds_of_eq rfl }

theorem plain_removeNode (id : NodeId) : Within Plain (removeNode id) s :=
  .derefClock_bind fun _ => plain_setClock _

theorem plain_derefNode (id : NodeId) : Within Plain (derefNode id) s :=
  .derefClock_bind fun _ => within_require _ _

theorem plain_tmActive (interval : Int) : Within Plain (tmActive n interval) s :=
  outside_sysClock.outside.bind fun _ _ _ => (plain_newNode _).bind fun _ _ _ =>
    plain_modifyChann fun _ => rfl

theorem plain_tmUpdate (interval : Int) : Within Plain (tmUpdate n interval) s :=
  .deref_bind fun _ _ => .require_bind fun _ _ => (plain_derefNode _).bind fun _ _ _ =>
    outside_sysClock.outside.bind fun _ _ _ => (plain_removeNode _).bind fun _ _ _ =>
      (plain_newNode _).bind fun _ _ _ => plain_modifyChann fun _ => rfl

theorem plain_tmKill : Within Plain (tmKill n) s := by
  refine .deref_bind fun c _ => ?_
  cases c.timerNode with
  | none => exact within_pure ()
  | some id =>
    exact (plain_derefNode id).bind fun _ _ _ => (plain_removeNode id).bind fun _ _ _ =>
      plain_modifyChann fun _ => rfl

theorem plain_tmSchedule : Within Plain (tmSchedule) s := by
  refine .derefClock_bind fun clock => ?_
  cases clock with
  | nil => exact plain_modifyMnet fun _ => ⟨rfl, rfl, fun _ h => h, rfl⟩
  | cons node clock =>
    exact outside_sysClock.outside.bind fun _ _ _ => .ite
      (fun _ => plain_modifyMnet fun _ => ⟨rfl, rfl, fun _ h => h, rfl⟩) fun _ => plain_modifyMnet fun _ => ⟨rfl, rfl, fun _ h => h, rfl⟩

theorem plain_pushDis : Within Plain (pushDis n) s :=
  .read_bind <| .bind (plain_modifyChann fun _ => rfl) fun _ _ _ =>
    plain_modifyMnet fun _ => ⟨rfl, rfl, fun _ h => h, rfl⟩

theorem plain_disNext : Within Plain (disNext) s := by
  refine .read_bind ?_
  cases s.mnet.disChanns with
  | none => exact within_pure none
  | some n =>
    exact .deref_bind fun _ _ => .bind (plain_modifyMnet fun _ => ⟨rfl, rfl, fun _ h => h, rfl⟩) fun _ _ _ =>
      within_pure _

theorem plain_channGetErr : Within Plain (channGetErr n) s :=
  .deref_bind fun _ _ => (outside_sysSockError _).outside.bind fun _ _ _ => within_pure _

/-! ## The event queue -/

/-- `epoll_ctl` for a channel may change its mask and its registration, and nothing else. -/
structure Controlled (n : ChannId) (c : Chann) (ev : BitVec 32) (s t : Sys ε) : Prop where
  was : s.heap n = some c
  heap : t.heap = Function.update s.heap n (some { c with epollEvents := ev })
  nextChann : t.nextChann = s.nextChann
  mnet : t.mnet = s.mnet
  socks : t.kernel.socks = s.kernel.socks
  nextSock : t.kernel.nextSock = s.kernel.nextSock
  oracle : t.kernel.oracle = s.kernel.oracle
  ext : t.ext = s.ext
  trace : Adds SysEvent.plain s t

/-- It works, or nothing changes; it fails on a request that does not suit, or when the
oracle says so. -/
theorem evtCtl_cases {op : CtlOp} {events : BitVec 32} {r : Int}
    (h : Returns (evtCtl n op events) s r t) : ∃ c ev, Controlled n c ev s t ∧
      ((r = 1 ∧ s.mnet.kq = true ∧ op.valid s.kernel c.fd ∧ ev = events ∧
          t.kernel.epoll = (op.apply c.fd ⟨events, n⟩ s.kernel).epoll) ∨
       (r = 0 ∧ ev = c.epollEvents ∧ t.kernel.epoll = s.kernel.epoll ∧
          ¬ (s.mnet.kq = true ∧ op.valid s.kernel c.fd ∧
            s.kernel.oracle.ctl s.kernel.tick = true))) := by
  simp only [evtCtl, evtRequest, returns_bind, returns_deref, returns_readMnet, and_assoc,
    exists_and_left, exists_eq_left] at h
  obtain ⟨q, a, ⟨c, hc, hreq⟩, h⟩ := h
  have hself : Function.update s.heap n (some { c with epollEvents := c.epollEvents }) = s.heap := by
    rw [Function.update_eq_self_iff]
    exact hc.symm
  rcases returns_ite.mp hreq with ⟨hkq, hreq⟩ | ⟨hkq, hreq⟩
  swap
  · obtain ⟨rfl, rfl⟩ := returns_pure.mp hreq
    rw [if_pos (by decide)] at h
    obtain ⟨rfl, rfl⟩ := returns_pure.mp h
    exact ⟨c, _, ⟨hc, hself.symm, rfl, rfl, rfl, rfl, rfl, rfl, adds_of_eq rfl⟩,
      .inr ⟨rfl, rfl, rfl, fun hno => hkq hno.1⟩⟩
  simp only [sysEpollCtl, returns_bind, returns_read] at hreq
  obtain ⟨i, b, hi, _, _, ⟨rfl, rfl⟩, hreq⟩ := hreq
  obtain ⟨rfl, rfl⟩ := core_nextTick hi
  have hv : op.valid { s.kernel with tick := s.kernel.tick + 1 } c.fd ↔ op.valid s.kernel c.fd := by
    cases op <;> exact Iff.rfl
  rcases returns_ite.mp hreq with ⟨⟨hvalid, hctl⟩, hreq⟩ | ⟨hno, hreq⟩
  · simp only [returns_bind, returns_modifyKernel, returns_record, returns_pure] at hreq
    obtain ⟨_, _, rfl, _, _, rfl, rfl, rfl⟩ := hreq
    rw [if_neg (by decide)] at h
    simp only [returns_bind, returns_modifyChann, returns_pure] at h
    obtain ⟨_, _, ⟨c', hc', rfl⟩, rfl, rfl⟩ := h
    rw [show _ = s.heap n from rfl, hc, Option.some.injEq] at hc'
    subst hc'
    exact ⟨c, events, ⟨hc, rfl, rfl, rfl, rfl, rfl, rfl, rfl, adds_recorded trivial⟩,
      .inl ⟨rfl, hkq, hv.mp hvalid, rfl, rfl⟩⟩
  · simp only [returns_bind, returns_modifyKernel, returns_record, returns_pure] at hreq
    obtain ⟨_, _, rfl, _, _, rfl, rfl, rfl⟩ := hreq
    rw [if_pos (by decide)] at h
    obtain ⟨rfl, rfl⟩ := returns_pure.mp h
    exact ⟨c, _, ⟨hc, hself.symm, rfl, rfl, rfl, rfl, rfl, rfl, adds_recorded trivial⟩,
      .inr ⟨rfl, rfl, rfl, fun hw => hno ⟨hv.mpr hw.2.1, hw.2.2⟩⟩⟩

theorem evtAdd_cases {set : EvtSet} {r : Int} (h : Returns (evtAdd n set) s r t) :
    ∃ c ev, Controlled n c ev s t := by
  simp only [evtAdd, returns_bind, returns_deref, and_assoc, exists_and_left, exists_eq_left] at h
  obtain ⟨c, _, h⟩ := h
  obtain ⟨c, ev, hc, _⟩ := evtCtl_cases h
  exact ⟨c, ev, hc⟩

theorem evtDel_cases {set : EvtSet} {r : Int} (h : Returns (evtDel n set) s r t) :
    ∃ c ev, Controlled n c ev s t := by
  simp only [evtDel, returns_bind, returns_deref, and_assoc, exists_and_left, exists_eq_left] at h
  obtain ⟨c, _, h⟩ := h
  obtain ⟨c, ev, hc, _⟩ := evtCtl_cases h
  exact ⟨c, ev, hc⟩

theorem Controlled.chann {c : Chann} {ev : BitVec 32} (h : Controlled n c ev s t) :
    t.heap n = some { c with epollEvents := ev } := by rw [h.heap, Function.update_self]

/-! ## Writes and callbacks -/

section

variable {A : Set Deed}

theorem Lib.Exec.Within.moves {α : Type} {m : M ε α} (h : Within Plain m s) (hA : .plain ∈ A) :
    Within (Moves x A) m s := h.mono fun _ ht => (Move.plain ht).moves hA

theorem moves_cache {f : Chann → RwbHead} (hA : .cache n ∈ A) :
    Within (Moves x A) (modifyChann n fun c => { c with rwbSend := f c }) s := by
  intro _ t h
  obtain ⟨c, hc, rfl⟩ := returns_modifyChann.mp h
  exact (Move.cache hc).moves hA

theorem moves_address {f : Chann → SockAddr} (hA : .address n ∈ A) :
    Within (Moves x A) (modifyChann n fun c => { c with addr := f c }) s := by
  intro _ t h
  obtain ⟨c, hc, rfl⟩ := returns_modifyChann.mp h
  exact (Move.address hc).moves hA

theorem moves_evtAdd {set : EvtSet} (hA : .ctl n ∈ A) : Within (Moves x A) (evtAdd n set) s :=
  .deref_bind fun _ _ _ _ h => (Move.ctl h).moves hA

theorem moves_evtDel {set : EvtSet} (hA : .ctl n ∈ A) : Within (Moves x A) (evtDel n set) s :=
  .deref_bind fun _ _ _ _ h => (Move.ctl h).moves hA

theorem moves_channMsg {event : ChannEvent} {r : Option ChannId} {err : Int}
    (hup : event.drives → ∃ c, s.heap n = some c ∧ c.state.active) (hA : .message n event ∈ A) :
    Within (Moves x A) (channMsg x n event r err) s := fun _ _ h => (Move.message hup h).moves hA

theorem moves_emit {event : ChannEvent} {r : Option ChannId} {err : Int}
    (hup : event.drives → ∃ c, s.heap n = some c ∧ c.state.active) (hA : .message n event ∈ A) :
    Within (Moves x A) (emit x n event r err) s := (moves_channMsg hup hA).bind fun _ _ _ => within_pure _

theorem moves_disconnect (hA : .disconnect n ∈ A) :
    Within (Moves x A) (channDisconnectSocket (opsOf x) n) s :=
  fun _ _ h => (Move.disconnect h).moves hA

/-- What a failed transfer consists of. -/
def failDeeds (n : ChannId) : Set Deed :=
  {d | d = .plain ∨ d = .disconnect n ∨ d = .message n .disconnect}

theorem moves_channFail (hA : failDeeds n ⊆ A) : Within (Moves x A) (channFail x n) s :=
  (moves_disconnect (hA (by simp [failDeeds]))).bind fun _ _ _ => .read_bind <|
    (moves_channMsg False.elim (hA (by simp [failDeeds]))).bind fun _ _ _ => .when fun _ =>
      plain_pushDis.moves (hA (by simp [failDeeds]))

/-- What a flush consists of. -/
def flushDeeds (n : ChannId) : Set Deed :=
  {d | d ∈ failDeeds n ∨ d = .send n ∨ d = .cache n}

theorem moves_channSendedLoop (hA : flushDeeds n ⊆ A) {fuel : Nat} :
    Within (Moves x A) (channSendedLoop x n fuel) s := by
  induction fuel generalizing s with
  | zero => exact within_fail
  | succ fuel ih =>
    refine .deref_bind fun c _ => .bind (fun _ _ h => (Move.send h).moves (hA (by simp [flushDeeds])))
      fun r _ _ => .ite (fun _ => ?_) fun _ => .ite (fun _ => ?_) fun _ => within_pure ()
    · exact .bind (moves_cache (hA (by simp [flushDeeds]))) fun _ _ _ => .deref_bind fun _ _ =>
        .ite (fun _ => ih) fun _ => within_pure ()
    · exact moves_channFail fun _ hd => hA (.inl hd)

theorem moves_channSendedRwb (hA : flushDeeds n ⊆ A) : Within (Moves x A) (channSendedRwb x n) s :=
  .deref_bind fun _ _ => .ite (fun _ => within_pure true) fun _ =>
    (moves_channSendedLoop hA).bind fun _ _ _ => .deref_bind fun _ _ => within_pure _

end

/-! ## New channels and sockets -/

/-- A new channel in front of the list. -/
structure Created (m : ChannId) (ctype : Nat) (st : ChannState) (s t : Sys ε) : Prop where
  id : m = s.nextChann
  nextChann : t.nextChann = m + 1
  mnet : t.mnet = { s.mnet with channs := some m, channCount := s.mnet.channCount + 1 }
  kernel : t.kernel = s.kernel
  ext : t.ext = s.ext
  chann : ∃ p, t.heap m = some { state := st, ctype := ctype, next := s.mnet.channs, prev := p }
  others : ∀ i ≠ m, t.heap i =
    (s.heap i).map fun c => if s.mnet.channs = some i then { c with prev := some m } else c

theorem channCreate_created {ctype : Nat} {st : ChannState} {m : ChannId}
    (h : Returns (channCreate ctype st) s m t) : Created m ctype st s t := by
  simp only [channCreate, returns_bind, returns_read, returns_readMnet, returns_modify, returns_pure,
    and_assoc, exists_and_left, exists_eq_left] at h
  obtain ⟨_, _, _, a, hhead, _, b, hb, rfl, rfl⟩ := h
  rw [returns_modifyMnet] at hb
  subst hb
  cases hc : s.mnet.channs with
  | none =>
    rw [hc] at hhead
    rw [returns_forSome_none.mp hhead]
    exact ⟨rfl, rfl, rfl, rfl, rfl, ⟨none, by simp [Sys.setChann, hc]⟩, fun i hi => by
      simp [Sys.setChann, Function.update_of_ne hi, hc]⟩
  | some j =>
    rw [hc] at hhead
    obtain ⟨c, hcj, rfl⟩ := returns_modifyChann.mp (returns_forSome_some.mp hhead)
    refine ⟨rfl, rfl, rfl, rfl, rfl, ?_, fun i hi => ?_⟩
    · by_cases hj : s.nextChann = j
      · subst hj
        simp only [Sys.setChann, Function.update_self, Option.some.injEq] at hcj
        subst hcj
        exact ⟨some s.nextChann, by simp [Sys.setChann, hc]⟩
      · exact ⟨none, by simp [Sys.setChann, Function.update_of_ne hj, hc]⟩
    · by_cases hj : i = j
      · subst hj
        simp only [Sys.setChann, Function.update_of_ne hi] at hcj
        simp [Sys.setChann, hcj, hc]
      · have hj' : j ≠ i := fun e => hj e.symm
        simp [Sys.setChann, Function.update_of_ne hi, Function.update_of_ne hj, hc, hj']

/-- `accept` comes to nothing, loses a descriptor, or there is a new channel, whose callback
runs. -/
theorem channAccept_cases {q : Option ChannId} (h : Returns (channAccept x n) s q t) :
    (q = none ∧ (Plain s t ∨ Move x s .leak t)) ∨
      ∃ m, q = some m ∧ Move x s (.accept n m) t := by
  simp only [channAccept, returns_bind, returns_deref, and_assoc, exists_and_left,
    exists_eq_left] at h
  obtain ⟨l, hl, p, a, hac, h⟩ := h
  rcases returns_ite.mp h with ⟨hfd, h⟩ | ⟨hfd, h⟩
  · obtain ⟨hneg, _⟩ | ⟨ha, hheap, htr⟩ := acFn_cases hac
    · omega
    simp only [returns_bind] at h
    obtain ⟨nb, b, hnb, h⟩ := h
    have hb := outside_setNonblocking _ _ _ hnb
    rcases returns_ite.mp h with ⟨_, h⟩ | ⟨_, h⟩
    · simp only [returns_bind, returns_pure, callback, returns_modifyChann, returns_record] at h
      obtain ⟨m, d, hnew, _, _, ⟨c, hc, rfl⟩, _, e, ⟨_, _, rfl, hcb⟩, rfl, rfl⟩ := h
      have hcty : c.ctype = l.ctype := by
        obtain ⟨_, hm⟩ := (channCreate_created hnew).chann
        rw [hc, Option.some.injEq] at hm
        rw [hm]
      rw [← hcty] at hcb
      exact .inr ⟨m, rfl, .accept hl (ha.outside hb) (hb.heap.trans hheap) hnew hc hcb⟩
    · obtain ⟨rfl, rfl⟩ := returns_pure.mp h
      exact .inl ⟨rfl, .inr (.leak (ha.outside hb) (hb.heap.trans hheap) (htr.trans hb.trace))⟩
  · obtain ⟨rfl, rfl⟩ := returns_pure.mp h
    obtain ⟨_, ha⟩ | ⟨ha, _⟩ := acFn_cases hac
    · exact .inl ⟨rfl, .inl ha.plain⟩
    · exact absurd ha.pos hfd

/-- Whatever was put in a list only if a condition holds. -/
theorem mem_ite_singleton {α : Type} {c : Prop} [Decidable c] {a b : α}
    (h : a ∈ if c then [b] else []) : a = b := by
  split at h
  · exact List.mem_singleton.mp h
  · cases h

/-- A descriptor for `n`, or none left open. -/
theorem channOpenSocket_cases {host : Option Nat} {port fd : Int} {backlog : BitVec 32}
    (h : Returns (channOpenSocket x n host port backlog) s fd t) :
    ∃ c, s.heap n = some c ∧
      ((fd ≤ 0 ∧ Plain s t) ∨ (fd ≤ 0 ∧ Move x s (.bounce n) t) ∨
        (c.state = .disconnect ∧ NewFd fd s t ∧ ∃ addr,
          t.heap = Function.update s.heap n (some { c with addr := addr }))) := by
  simp only [channOpenSocket, returns_bind, returns_deref, and_assoc, exists_and_left,
    exists_eq_left] at h
  obtain ⟨c, hc, h⟩ := h
  refine ⟨c, hc, ?_⟩
  rcases returns_ite.mp h with ⟨hst, h⟩ | ⟨_, h⟩
  swap
  · obtain ⟨rfl, rfl⟩ := returns_pure.mp h
    exact .inl ⟨by omega, .refl _⟩
  simp only [returns_bind] at h
  obtain ⟨f, a, hf, h⟩ := h
  rcases returns_ite.mp h with ⟨hpos, h⟩ | ⟨hpos, h⟩
  swap
  · obtain ⟨rfl, rfl⟩ := returns_pure.mp h
    obtain ⟨_, ha⟩ | ⟨ha, _⟩ := sysSocket_cases hf
    · exact .inl ⟨by omega, ha.plain⟩
    · exact absurd ha.pos hpos
  obtain ⟨hneg, _⟩ | ⟨ha, hheap⟩ := sysSocket_cases hf
  · omega
  simp only [channFillAddr, returns_bind, returns_modifyChann] at h
  obtain ⟨_, _, ⟨c', hc', rfl⟩, ok, d, hok, h⟩ := h
  rw [hheap, hc, Option.some.injEq] at hc'
  subst hc'
  have hd : Outside _ d := outside_allOk (fun m hm s => by
    simp only [List.mem_append, List.mem_cons, List.not_mem_nil, or_false] at hm
    rcases hm with ((((((rfl | hm) | hm) | rfl) | hm) | hm) | rfl)
    · exact outside_sysSetup f
    · rw [mem_ite_singleton hm]
      exact outside_sysSetup f
    · rw [mem_ite_singleton hm]
      exact outside_sysSetup f
    · exact outside_setNonblocking f
    · rw [mem_ite_singleton hm]
      exact outside_sysSetup f
    · rw [mem_ite_singleton hm]
      exact outside_sysSetup f
    · exact outside_setBufsize f _) _ _ hok
  generalize ({ ip := host.getD 0, port := (port % 65536).toNat } : SockAddr) = addr at hd
  have hfill : NewFd f s (a.setChann n { c with addr := addr }) :=
    { ha with trace := ha.trace }
  have hdh : d.heap = Function.update s.heap n (some { c with addr := addr }) := by
    rw [hd.heap, Sys.setChann, hheap]
  rcases returns_ite.mp h with ⟨_, h⟩ | ⟨_, h⟩
  · obtain ⟨rfl, rfl⟩ := returns_pure.mp h
    exact .inr (.inr ⟨hst, hfill.outside hd, addr, hdh⟩)
  · simp only [returns_bind, returns_pure] at h
    obtain ⟨_, e, hclose, rfl, rfl⟩ := h
    exact .inr (.inl ⟨by omega, .bounce hc hst (hfill.outside hd) hdh hclose⟩)

/-! ## Transfers of the built-in types -/

def SysEvent.wired : SysEvent → Prop
  | .send .. | .sendto .. | .recv .. => True
  | _ => False

/-- A transfer of data: only addresses and the kernel's bookkeeping are different. -/
structure Wired (s t : Sys ε) : Prop where
  heap : ∀ m, (t.heap m).map (fun c => { c with addr := {} }) =
    (s.heap m).map fun c => { c with addr := {} }
  nextChann : t.nextChann = s.nextChann
  mnet : t.mnet = s.mnet
  socks : t.kernel.socks = s.kernel.socks
  nextSock : t.kernel.nextSock = s.kernel.nextSock
  epoll : t.kernel.epoll = s.kernel.epoll
  oracle : t.kernel.oracle = s.kernel.oracle
  ext : t.ext = s.ext
  trace : Adds SysEvent.wired s t

theorem Wired.refl (s : Sys ε) : Wired s s :=
  ⟨fun _ => rfl, rfl, rfl, rfl, rfl, rfl, rfl, rfl, adds_of_eq rfl⟩

theorem Wired.trans {a : Sys ε} (h : Wired s a) (h' : Wired a t) : Wired s t where
  heap m := (h'.heap m).trans (h.heap m)
  nextChann := h'.nextChann.trans h.nextChann
  mnet := h'.mnet.trans h.mnet
  socks := h'.socks.trans h.socks
  nextSock := h'.nextSock.trans h.nextSock
  epoll := h'.epoll.trans h.epoll
  oracle := h'.oracle.trans h.oracle
  ext := h'.ext.trans h.ext
  trace := h.trace.trans h'.trace

instance : Std.Refl (Wired (ε := ε)) := ⟨Wired.refl⟩

instance : IsTrans (Sys ε) Wired := ⟨fun _ _ _ => Wired.trans⟩

theorem wired_record {e : SysEvent} (he : e.wired) : Within Wired (record e) s := by
  intro _ t h
  rw [returns_record] at h
  subst h
  exact { Wired.refl s with trace := adds_recorded he }

theorem wired_sysRet : Within (Wired (ε := ε)) (sysRet) s := by
  intro r t h
  obtain ⟨_, rfl⟩ := sysRet_spec h
  exact { Wired.refl s with trace := adds_of_eq rfl }

theorem wired_wouldBlock (r : Int) : Within (Wired (ε := ε)) (wouldBlock r) s :=
  .read_bind (within_pure _)

theorem wired_sysRecv (fd : Int) (len : Nat) : Within (Wired (ε := ε)) (sysRecv fd len) s :=
  .read_bind <| .bind wired_sysRet fun _ _ _ => (wired_record (by trivial)).bind fun _ _ _ =>
    within_pure _

theorem wired_internal_recvFn (ctype len : Nat) :
    Within (Wired (ε := ε)) ((internalExt ctype).recvFn n len) s := by
  unfold internalExt
  dsimp only
  split
  · exact .deref_bind fun _ _ => (wired_sysRecv _ _).bind fun _ _ _ => wired_wouldBlock _
  · refine .deref_bind fun _ _ => (wired_sysRecv _ _).bind fun _ _ _ =>
      .bind (fun _ t h => ?_) fun _ _ _ => wired_wouldBlock _
    obtain ⟨c, hc, rfl⟩ := returns_modifyChann.mp h
    refine { Wired.refl _ with heap := fun m => ?_, trace := adds_of_eq rfl }
    by_cases hm : m = n
    · rw [hm, hc]
      simp only [Sys.setChann, Function.update_self, Option.map_some]
      split <;> rfl
    · simp [Sys.setChann, Function.update_of_ne hm]

theorem wired_internal_sendFn (ctype : Nat) (data : List UInt8) :
    Within (Wired (ε := ε)) ((internalExt ctype).sendFn n data) s := by
  have hsend : ∀ s fd, Within (Wired (ε := ε)) (sysSend fd data) s := fun s fd =>
    .bind wired_sysRet fun _ a _ => .bind (fun _ t h => by
      rw [returns_modifyKernel] at h
      cases hf : a.kernel.socks fd <;> rw [hf] at h <;> subst h <;>
        exact { Wired.refl a with trace := adds_of_eq rfl }) fun _ _ _ =>
          (wired_record (by trivial)).bind fun _ _ _ => within_pure _
  have hsendto : ∀ s fd addr, Within (Wired (ε := ε)) (sysSendto fd addr data) s := fun s fd addr =>
    .bind wired_sysRet fun _ _ _ => (wired_record (by trivial)).bind fun _ _ _ => within_pure _
  unfold internalExt
  dsimp only
  split
  · exact .deref_bind fun _ _ => (hsend _ _).bind fun _ _ _ => wired_wouldBlock _
  · exact .deref_bind fun _ _ => (hsendto _ _ _).bind fun _ _ _ => wired_wouldBlock _

end MNet
