import MNet.Silent
import MNet.Sockets
import MNet.WriteInterest

/-! # What every channel waits for

With built-in types, a kernel that grants every valid request and no reset of the queue, the
mask of a channel is what its state needs, and no request the library makes is turned down. In
the middle of a call one channel may be on its way from one mask to another. -/

namespace MNet
open MNet.Lib MNet.Lib.Exec

variable {s t : Sys Unit} {n : ChannId} {p : Option ChannId}

/-- The mask has what the state of the channel waits for. -/
structure CChann.suited (c : CChann) : Prop where
  connecting : c.state = .connecting → c.epollEvents &&& EPOLLOUT ≠ 0
  receiving : c.state = .connected ∨ c.state = .listening → c.epollEvents &&& EPOLLIN ≠ 0

/-- All channels but `p` have the right mask. -/
def Suited (p : Option ChannId) (k : Core) : Prop :=
  ∀ n c, p ≠ some n → k.heap n = some c → c.suited

/-- The acts that may leave `n` with the wrong mask. -/
def Act.unsettles (n : ChannId) (a : Act) : Prop :=
  (∃ fd st, a = .attach n fd st) ∨ (∃ fd, a = .accept n fd) ∨ a = .established n ∨
    (∃ set, a = .unwatch n set) ∨ a = .mute n

/-- Descriptors of channels without a socket are lost ones. -/
def Core.idle (k : Core) : Prop :=
  ∀ n c, k.heap n = some c → ¬ c.state.active → 0 < c.fd → c.fd ∈ k.lost

theorem suited_of_inactive {c : CChann} (h : ¬ c.state.active) : c.suited := by
  refine ⟨fun hst => absurd (by rw [hst]; trivial) h, ?_⟩
  rintro (hst | hst) <;> exact absurd (by rw [hst]; trivial) h

/-- A channel with a socket waits for something. -/
theorem CChann.suited.mask_ne_zero {c : CChann} (h : c.suited) (ha : c.state.active) :
    c.epollEvents ≠ 0 := by
  intro h0
  cases hst : c.state with
  | connecting => exact h.connecting hst (by rw [h0]; rfl)
  | connected => exact h.receiving (.inl hst) (by rw [h0]; rfl)
  | listening => exact h.receiving (.inr hst) (by rw [h0]; rfl)
  | closed | disconnect => exact ChannState.not_active_iff.mpr (by simp [hst]) ha

section Act

variable {k k' : Core} {a : Act} {c c' : CChann}

theorem CStep.suited (hs : CStep k a k') (hb : Base k) (h : Suited p k) (ha : a.keepsMask)
    (hp : ∀ n, a.unsettles n → p = some n) : Suited p k' := by
  intro n c' hn hc'
  cases hc : k.heap n with
  | none =>
    obtain ⟨_, ⟨_, _, rfl⟩ | ⟨fd, _, _, rfl, _⟩⟩ := hs.appears hb hc hc'
    · exact suited_of_inactive id
    · exact absurd (hp n (.inr (.inl ⟨fd, rfl⟩))) hn
  | some c =>
    have hsuit := h n c hn hc
    obtain ⟨_, _, hgone⟩ | ⟨d, hd, ht⟩ := hs.at hb hc
    · rw [hgone] at hc'
      cases hc'
    rw [hc'] at hd
    cases hd
    cases ht with
    | attach => exact absurd (hp n (.inl ⟨_, _, rfl⟩)) hn
    | established => exact absurd (hp n (.inr (.inr (.inl rfl)))) hn
    | disconnect | close => exact suited_of_inactive id
    | interest hi =>
      obtain ⟨set, rfl, _, rfl⟩ | ⟨set, rfl, _⟩ | ⟨rfl, _⟩ | ⟨rfl, _⟩ | ⟨rfl, _⟩ := hi
      · cases hs with
        | watch _ _ _ _ hset =>
          exact ⟨fun hst => addedMask_keeps hset (hsuit.connecting hst),
            fun hst => addedMask_keeps hset (hsuit.receiving hst)⟩
      · exact absurd (hp n (.inr (.inr (.inr (.inl ⟨set, rfl⟩))))) hn
      · exact absurd (hp n (.inr (.inr (.inr (.inr rfl))))) hn
      · exact ha.elim
      · exact ha.elim
    | _ => exact ⟨hsuit.connecting, hsuit.receiving⟩

theorem CStep.lost_mono (hs : CStep k a k') {fd : Int} (h : fd ∈ k.lost) : fd ∈ k'.lost := by
  cases hs with
  | leak | refuse => exact List.mem_cons_of_mem _ h
  | @write n c data i =>
    obtain ⟨w, hwire⟩ := k.onWire_eq c (data.take i)
    rw [hwire]
    exact h
  | @flush n c i =>
    obtain ⟨w, hwire⟩ := k.onWire_eq c ((rwbDrainParam c.rwbSend).take i)
    rw [hwire]
    exact h
  | _ => exact h

theorem CStep.idle (hs : CStep k a k') (hb : Base k) (h : k.idle) : k'.idle := by
  intro n c' hc' hno hpos
  cases hc : k.heap n with
  | none =>
    obtain ⟨_, ⟨_, _, rfl⟩ | ⟨_, _, _, _, _, _, _, _, rfl⟩⟩ := hs.appears hb hc hc'
    · exact absurd hpos (Int.lt_irrefl 0)
    · exact absurd trivial hno
  | some c =>
    have hold : ¬ c.state.active → 0 < c.fd → c.fd ∈ k'.lost := fun hno hpos =>
      hs.lost_mono (h n c hc hno hpos)
    obtain ⟨_, _, hgone⟩ | ⟨d, hd, ht⟩ := hs.at hb hc
    · rw [hgone] at hc'
      cases hc'
    rw [hc'] at hd
    cases hd
    cases ht with
    | attach _ _ _ hact => exact absurd hact hno
    | established => exact absurd trivial hno
    | disconnect => exact absurd hpos (show ¬ (0 : Int) < -1 by decide)
    | refuse =>
      cases hs with
      | refuse => exact List.mem_cons_self ..
    | close hst => exact hold (ChannState.not_active_disconnect hst) hpos
    | _ => exact hold hno hpos

/-- Nothing is registered for the descriptor of a channel without a socket. -/
theorem Core.idle.unregistered (h : k.idle) (hb : Base k) (hacc : k.accounted)
    (hw : Watchers k.heap k.epoll) (hc : k.heap n = some c) (hno : ¬ c.state.active) :
    k.epoll c.fd = none := by
  cases hreg : k.epoll c.fd with
  | none => rfl
  | some reg =>
    obtain ⟨d, hd, hact, hfd⟩ := hw c.fd reg hreg
    have hpos := (hb.own.opened _ d hd hact).1
    rw [hfd] at hpos
    exact absurd ⟨_, d, hd, hact, hfd⟩ (Accounted.lost hacc c.fd (h n c hc hno hpos)).2

/-- Only a reset and `mnet_fini` take the queue away. -/
theorem CStep.keeps_queue (hs : CStep k a k') (ha : a.keepsMask) (hdown : a ≠ .shutdown)
    (hkq : k.kq = true) : k'.kq = true := by
  cases hs with
  | closeQueue => exact ha.elim
  | shutdown => exact absurd rfl hdown
  | @write n c data i =>
    obtain ⟨w, hwire⟩ := k.onWire_eq c (data.take i)
    rw [hwire]
    exact hkq
  | @flush n c i =>
    obtain ⟨w, hwire⟩ := k.onWire_eq c ((rwbDrainParam c.rwbSend).take i)
    rw [hwire]
    exact hkq
  | _ => first | exact hkq | rfl

end Act

/-- Giving up interest for writing leaves that for reading. -/
theorem deletedMask_keeps {old : BitVec 32} (h : old &&& EPOLLIN ≠ 0) :
    deletedMask old .write &&& EPOLLIN ≠ 0 := by
  show old &&& ~~~EPOLLOUT &&& EPOLLIN ≠ 0
  rw [BitVec.and_assoc, show ~~~EPOLLOUT &&& EPOLLIN = EPOLLIN by decide]
  exact h

/-! ## Requests -/

/-- Every request so far was granted, the masks agree and, but for that of `p`, are the right
ones, and there is a queue when a channel can be opened. -/
structure Tended (p : Option ChannId) (s : Sys Unit) : Prop where
  base : Base s.core
  watched : Watched s.core
  ctl : ∀ i, s.core.ctl i = true
  suited : Suited p s.core
  granted : ∀ q ∈ s.kernel.requests, q.2 = 0
  opens : ∀ ctype, s.mnet.reserved ctype = true → s.core.kq = true

/-- What may go on while only the masks of `p` are wrong. -/
def Act.tends (p : Option ChannId) (a : Act) : Prop :=
  a.keepsMask ∧ (∀ n ctype, a ≠ .create n ctype) ∧ a ≠ .shutdown ∧ ∀ n, a.unsettles n → p = some n

/-- Every request is recorded with its result. -/
theorem sysEpollCtl_requests {op : CtlOp} {fd r : Int} {reg : EpollReg}
    (h : Returns (sysEpollCtl op fd reg) s r t) :
    t.mnet = s.mnet ∧ t.kernel.requests = (fd, r) :: s.kernel.requests := by
  simp only [sysEpollCtl, returns_bind, returns_read] at h
  obtain ⟨i, a, hi, _, _, ⟨rfl, rfl⟩, h⟩ := h
  obtain ⟨rfl, rfl⟩ := core_nextTick hi
  rcases returns_ite.mp h with ⟨_, h⟩ | ⟨_, h⟩
  all_goals
    simp only [returns_bind, returns_modifyKernel, returns_record, returns_pure] at h
    obtain ⟨_, _, rfl, _, _, rfl, rfl, rfl⟩ := h
    exact ⟨rfl, rfl⟩

theorem evtCtl_requests {op : CtlOp} {events : BitVec 32} (h : Returns (evtCtl n op events) s 1 t) :
    t.mnet = s.mnet ∧ ∃ q : Int × Int, q.2 = 0 ∧ t.kernel.requests = q :: s.kernel.requests := by
  simp only [evtCtl, evtRequest, returns_bind, returns_deref, returns_readMnet] at h
  obtain ⟨q, a, ⟨c, _, ⟨hc, rfl⟩, kq, _, ⟨rfl, rfl⟩, hctl⟩, h⟩ := h
  rcases returns_ite.mp h with ⟨_, h⟩ | ⟨hok, h⟩
  · exact absurd (returns_pure.mp h).1 (by decide)
  simp only [returns_bind, returns_pure, returns_modifyChann] at h
  obtain ⟨_, b, ⟨d, _, rfl⟩, _, rfl⟩ := h
  rcases returns_ite.mp hctl with ⟨_, hctl⟩ | ⟨_, hctl⟩
  · obtain ⟨hm, hr⟩ := sysEpollCtl_requests hctl
    obtain ⟨rfl, _⟩ | ⟨rfl, _⟩ := core_sysEpollCtl hctl
    · exact ⟨hm, _, rfl, hr⟩
    · exact absurd hok (by decide)
  · exact absurd hok (by rw [(returns_pure.mp hctl).1]; decide)

namespace Tended

variable {c : CChann} {r : Int} {A : Set Act}

theorem exempt (h : Tended none s) (p : Option ChannId) : Tended p s :=
  { h with suited := fun n c _ => h.suited n c (by simp) }

theorem settle (h : Tended (some n) s) (hn : s.core.heap n = some c) (hc : c.suited) :
    Tended none s := by
  refine { h with suited := fun m d _ hd => ?_ }
  by_cases hm : m = n
  · subst hm
    rw [hn] at hd
    cases hd
    exact hc
  · exact h.suited m d (by simpa using fun he => hm he.symm) hd

theorem steps (h : Tended p s) (hs : Steps A s.core t.core) (hA : ∀ a ∈ A, a.tends p)
    (hsil : Silent s t) : Tended p t := by
  have hk := hs.keeps (I := fun k => Base k ∧ Suited p k ∧ (s.core.kq = true → k.kq = true))
    (fun a k k' ha hs ⟨hb, hsuit, hkq⟩ => ?_) ⟨h.base, h.suited, id⟩
  · obtain ⟨hb, hsuit, hkq⟩ := hk
    refine ⟨hb, hs.watched h.base h.watched fun a ha => ⟨(hA a ha).1, (hA a ha).2.1⟩, ?_, hsuit, ?_,
      fun ctype hres => hkq (h.opens ctype ?_)⟩
    · rw [hs.ctl]
      exact h.ctl
    · rw [hsil.requests]
      exact h.granted
    · rw [← hsil.reserved]
      exact hres
  · obtain ⟨hmask, _, hdown, hun⟩ := hA a ha
    exact ⟨hb.step hs, hs.suited hb hsuit hmask hun, fun hq => hs.keeps_queue hmask hdown (hkq hq)⟩

theorem step (h : Tended p s) {a : Act} (hs : CStep s.core a t.core) (ha : a.tends p)
    (hsil : Silent s t) : Tended p t :=
  h.steps (A := {a}) (.single hs rfl) (fun b hb => by rw [show b = a from hb]; exact ha) hsil

theorem same (h : Tended p s) (hc : t.core = s.core) (hsil : Silent s t) : Tended p t :=
  h.steps (A := ∅) (.of_eq hc) (fun _ ha => ha.elim) hsil

/-- A request that works. -/
theorem request (h : Tended p s) {a : Act} (hs : CStep s.core a t.core) (ha : a.keepsMask)
    (hnew : ∀ n ctype, a ≠ .create n ctype) (hdown : a ≠ .shutdown) (hsuit : Suited p t.core)
    (hm : t.mnet = s.mnet) {q : Int × Int} (hq : q.2 = 0)
    (hr : t.kernel.requests = q :: s.kernel.requests) : Tended p t := by
  refine ⟨h.base.step hs, hs.watched h.base h.watched ha fun n ctype he => absurd he (hnew n ctype), ?_,
    hsuit, ?_, fun ctype hres => hs.keeps_queue ha hdown (h.opens ctype (hm ▸ hres))⟩
  · rw [hs.ctl]
    exact h.ctl
  · rw [hr]
    intro q' hq'
    rcases List.mem_cons.mp hq' with rfl | hq'
    · exact hq
    · exact h.granted q' hq'

theorem add (h : Tended p s) {set : EvtSet} (hset : set ≠ .del) (hn : s.core.heap n = some c)
    (hact : c.state.active) (hr : Returns (evtAdd n set) s r t) :
    Tended p t ∧ t.core.heap n = some { c with epollEvents := addedMask c.epollEvents set } := by
  obtain ⟨rfl, hs, ht⟩ := evtAdd_works hset h.base h.watched h.ctl hn hact hr
  simp only [evtAdd, returns_bind, returns_deref, and_assoc, exists_and_left, exists_eq_left] at hr
  obtain ⟨_, _, hr⟩ := hr
  obtain ⟨hm, q, hq, hreq⟩ := evtCtl_requests hr
  have hsuit : Suited p t.core := hs.suited h.base h.suited trivial (by simp [Act.unsettles])
  refine ⟨h.request hs trivial (by simp) (by simp) hsuit hm hq hreq, ?_⟩
  rw [ht]
  exact Core.interest_heap ..

/-- Giving up interest for writing works. Only a channel that is connecting may need it. -/
theorem drop (h : Tended none s) (hn : s.core.heap n = some c) (hact : c.state.active)
    (hgo : c.state = .connecting ∧ p = some n ∨ c.state ≠ .connecting ∧ rwbCached c.rwbSend ≤ 0)
    (hr : Returns (evtDel n .write) s r t) :
    Tended p t ∧ t.core.heap n = some { c with epollEvents := deletedMask c.epollEvents .write } := by
  have hsuit := h.suited n c (by simp) hn
  obtain ⟨rfl, hkq, hreg, ht⟩ :=
    evtDel_works h.base h.watched h.ctl hn hact (hsuit.mask_ne_zero hact) hr
  have hheap : t.core.heap n = some { c with epollEvents := deletedMask c.epollEvents .write } := by
    rw [ht]
    exact Core.interest_heap ..
  refine ⟨?_, hheap⟩
  have hsuit' : Suited p t.core := by
    intro m d hm hd
    by_cases hmn : m = n
    · subst hmn
      rw [hheap] at hd
      cases hd
      obtain ⟨_, rfl⟩ | ⟨hst, _⟩ := hgo
      · exact absurd rfl hm
      · exact ⟨fun he => absurd he hst, fun he => deletedMask_keeps (hsuit.receiving he)⟩
    · rw [ht] at hd
      exact h.suited m d (by simp) ((Function.update_of_ne hmn ..).symm.trans hd)
  simp only [evtDel, returns_bind, returns_deref, and_assoc, exists_and_left, exists_eq_left] at hr
  obtain ⟨_, _, hr⟩ := hr
  obtain ⟨hm, q, hq, hreq⟩ := evtCtl_requests hr
  obtain ⟨hst, _⟩ | ⟨_, hle⟩ := hgo
  · have hs : CStep s.core (.unwatch n .write) t.core := by
      rw [ht]
      exact .unwatch hn hact hkq hreg (.inl hst)
    exact (h.exempt p).request hs trivial (by simp) (by simp) hsuit' hm hq hreq
  · have hs : CStep s.core (.mute n) t.core := by
      rw [ht]
      exact .mute hn hact hkq hreg hle
    exact (h.exempt p).request hs trivial (by simp) (by simp) hsuit' hm hq hreq

end Tended

/-! ## Opening sockets -/

theorem addedMask_read (old : BitVec 32) : addedMask old .read &&& EPOLLIN ≠ 0 :=
  or_and_ne_zero (.inl (or_and_ne_zero (.inl (or_and_ne_zero (.inr (by decide))))))

/-- A callback of a built-in type does nothing. -/
theorem callback_noExt {op : ExtOp} {ctype : Nat} {u : Unit}
    (h : Returns (callback op ((extConfig noExt ctype).cb op) n) s u t) : t.core = s.core := by
  rw [extConfig_noExt, callback] at h
  simp only [returns_bind] at h
  obtain ⟨_, a, hrec, h⟩ := h
  rw [internalExt_cb] at h
  rw [(returns_pure.mp h).2]
  exact core_record hrec trivial

theorem Tended.callback (h : Tended p s) {op : ExtOp} {ctype : Nat} {u : Unit}
    (hr : Returns (MNet.callback op ((extConfig noExt ctype).cb op) n) s u t) : Tended p t :=
  h.same (callback_noExt hr) (silent_cb op ctype _ _ hr)

/-- The end of opening a socket: interest for it, then the callback. -/
theorem Tended.attach (h : Tended none s) {f g : Sys Unit} {fd r : Int} {st : ChannState} {c : CChann}
    {set : EvtSet} {op : ExtOp} {ctype : Nat} (hs : CStep s.core (.attach n fd st) f.core)
    (hsil : Silent s f) (hn : f.core.heap n = some c) (hc : c.state = st)
    (hset : (st = .connecting ∧ set = .write) ∨ ((st = .connected ∨ st = .listening) ∧ set = .read))
    (hadd : Returns (evtAdd n set) f r g)
    (hcb : Returns (MNet.callback op ((extConfig noExt ctype).cb op) n) g () t) : Tended none t := by
  have hf : Tended (some n) f :=
    (h.exempt _).step hs ⟨trivial, by simp, by simp, by simp [Act.unsettles]⟩ hsil
  have hne : set ≠ .del := by obtain ⟨_, rfl⟩ | ⟨_, rfl⟩ := hset <;> simp
  have hact : c.state.active := by
    rw [hc]
    obtain ⟨rfl, _⟩ | ⟨rfl | rfl, _⟩ := hset <;> trivial
  obtain ⟨hg, hgn⟩ := hf.add hne hn hact hadd
  refine (hg.settle hgn ?_).callback hcb
  obtain ⟨rfl, rfl⟩ | ⟨hst, rfl⟩ := hset
  · exact ⟨fun _ => addedMask_write _, fun he => by simp [hc] at he⟩
  · exact ⟨fun he => by simp [hc ▸ he] at hst, fun _ => addedMask_read _⟩

theorem Tended.bounce (h : Tended none s) (hs : t.core = s.core ∨ ∃ f, CStep s.core (.bounce f) t.core)
    (hsil : Silent s t) : Tended none t := by
  obtain hs | ⟨f, hs⟩ := hs
  · exact h.same hs hsil
  · exact h.step hs ⟨trivial, by simp, by simp, by simp [Act.unsettles]⟩ hsil

theorem Tended.connect (h : Tended none s) {host : Option Nat} {port r : Int}
    (hr : Returns (mnetChannConnect noExt (some n) host port) s r t) : Tended none t := by
  obtain rfl | ⟨fd, a, host, hopen, ⟨rfl, ha⟩ | ⟨b, addr, q, hmod, hconn, href⟩ |
    ⟨b, e, f, g, c, q, st, set, ctype, hmod, hconn, hset, hst, hatt, hfn, hc, hadd, hcb⟩⟩ :=
    mnetChannConnect_parts hr
  · exact h
  · exact h.bounce ha (silent_channOpenSocket _ _ _ _ _ hopen)
  all_goals
    have hb : Silent s b := (silent_channOpenSocket _ _ _ _ _ hopen).trans (silent_modifyChann _ _ _ hmod)
  · exact h.step href ⟨trivial, by simp, by simp, by simp [Act.unsettles]⟩
      (hb.trans (silent_sysConnect _ _ _ _ hconn))
  · have hf : Silent s f := by
      obtain rfl | ⟨addr, q, hconn⟩ := hconn
      · exact hb.trans (silent_modifyChann _ _ _ hset)
      · exact (hb.trans (silent_sysConnect _ _ _ _ hconn)).trans (silent_modifyChann _ _ _ hset)
    exact h.attach hatt hf hfn hc (hst.imp_right fun hst => ⟨.inl hst.1, hst.2.1⟩) hadd hcb

theorem Tended.listen (h : Tended none s) {host : Option Nat} {port r : Int} {backlog : BitVec 32}
    (hr : Returns (mnetChannListen noExt (some n) host port backlog) s r t) : Tended none t := by
  obtain rfl | ⟨fd, a, hopen, ⟨rfl, ha⟩ | ⟨b, d, e, c, q, ctype, hmod, hset, hatt, hdn, hc, hadd, hcb⟩⟩ :=
    mnetChannListen_parts hr
  · exact h
  · exact h.bounce ha (silent_channOpenSocket _ _ _ _ _ hopen)
  · have hd : Silent s d := ((silent_channOpenSocket _ _ _ _ _ hopen).trans
      (silent_modifyChann _ _ _ hmod)).trans (silent_modifyChann _ _ _ hset)
    exact h.attach hatt hd hdn hc (.inr ⟨.inr rfl, rfl⟩) hadd hcb

/-! ## Data -/

theorem Handed.silent (h : Handed noExt n s t) : Silent s t := by
  obtain ⟨a, ha, ht⟩ := h
  have hsa : Silent s a := by
    obtain rfl | ⟨data, q, hsend⟩ := ha
    · exact .refl _
    · exact silent_channSend _ _ _ hsend
  obtain rfl | ⟨f, hmod⟩ := ht
  · exact hsa
  · exact hsa.trans (silent_modifyChann _ _ _ hmod)

theorem failActs_tends {a : Act} (ha : a ∈ ({.slot n, .disconnect n, .report n} : Set Act)) :
    a.tends p := by
  obtain rfl | rfl | rfl := ha <;> exact ⟨trivial, by simp, by simp, by simp [Act.unsettles]⟩

theorem Tended.fail (h : Tended p s) {u : Unit} (hr : Returns (channFail noExt n) s u t) : Tended p t :=
  h.steps (channFail_steps tame_noExt h.base hr) (fun _ ha => failActs_tends ha)
    (silent_channFail _ _ hr)

theorem Tended.send (h : Tended none s) {buf : Option (List UInt8)} {r : Int}
    (hr : Returns (mnetChannSend noExt (some n) buf) s r t) : Tended none t := by
  obtain ⟨_, rfl⟩ | ⟨c, i, k, hn, _, _, hw, hk⟩ | ⟨_, _, a, ha, hfail, hand⟩ :=
    mnetChannSend_spec tame_noExt hr
  · exact h
  · have hwrite : ∀ {b : Sys Unit}, b.core = k → Handed noExt n s b → Tended none b := by
      rintro b rfl hand
      exact h.step hw ⟨trivial, by simp, by simp, by simp [Act.unsettles]⟩ hand.silent
    obtain ⟨ht, _, hand⟩ | ⟨_, b, q, hb, hadd, hand⟩ := hk
    · exact hwrite ht hand
    · obtain ⟨d, hd, hact⟩ : ∃ d, b.core.heap n = some d ∧ d.state.active := by
        rw [hb]
        cases hw with
        | write hn hst => exact ⟨_, Function.update_self .., ChannState.active_of_connected hst⟩
      exact ((hwrite hb hand).add (by simp) hd hact hadd).1
  · exact (h.same ha hand.silent).fail hfail

theorem Tended.activeSend (h : Tended none s) {value : Bool} {c : CChann} {u : Unit}
    (hn : s.core.heap n = some c) (hst : ChannState.connected.val ≤ c.state.val)
    (hr : Returns (MNet.activeSend n value) s u t) : Tended none t := by
  obtain ⟨a, ha, hmod, hrest⟩ := activeSend_spec hn hr
  have han : a.core.heap n = some { c with activeSendEvent := value } := by rw [ha]; simp
  have hta : Tended none a := by
    have hflag : CStep s.core (.sendFlag n value) a.core := by
      rw [ha]
      exact .sendFlag hn
    exact h.step hflag ⟨trivial, by simp, by simp, by simp [Act.unsettles]⟩ (silent_modifyChann _ _ _ hmod)
  have hact := ChannState.active_of_connected hst
  obtain ⟨_, q, hadd⟩ | ⟨_, hle, q, hdel⟩ | ⟨_, _, rfl⟩ := hrest
  · exact (hta.add (by simp) han hact hadd).1
  · refine (hta.drop han hact (.inr ⟨fun he => ?_, hle⟩) hdel).1
    rw [show c.state = .connecting from he] at hst
    exact absurd hst (by decide)
  · exact hta

/-! ## Records -/

theorem Tended.emit (h : Tended p s) {event : ChannEvent} {q : Option ChannId} {err : Int} {w : Pass}
    (hr : Returns (MNet.emit noExt n event q err) s w t) : Tended p t := by
  refine h.steps (emit_steps tame_noExt h.base hr) (fun a ha => ?_) (silent_emit _ _ _ _ _ hr)
  obtain rfl | rfl := ha <;> exact ⟨trivial, by simp, by simp, by simp [Act.unsettles]⟩

theorem Tended.down (h : Tended p s) {r : Int}
    (hr : Returns (channDisconnectSocket (opsOf noExt) n) s r t) : Tended p t := by
  refine h.steps (channDisconnectSocket_steps tame_noExt.ops h.base hr) (fun a ha => ?_)
    (silent_channDisconnectSocket _ _ hr)
  rw [show a = .disconnect n from ha]
  exact ⟨trivial, by simp, by simp, by simp [Act.unsettles]⟩

/-- A channel that was accepted is connected. -/
theorem channAccept_connected {m : ChannId} (h : Returns (channAccept noExt n) s (some m) t) :
    ∃ c, t.core.heap m = some c ∧ c.state = .connected := by
  obtain ⟨hno, _⟩ | ⟨m', hm, hmove⟩ := channAccept_cases h
  · cases hno
  cases hm
  cases hmove with
  | @accept _ a b _ _ l c fd addr u _ _ _ hnew hc hcb =>
    rw [extConfig_noExt, show (internalExt c.ctype : Ext Unit).acceptCb m = pure () from rfl] at hcb
    obtain ⟨_, hm⟩ := (channCreate_created hnew).chann
    rw [hc, Option.some.injEq] at hm
    refine ⟨({ c with fd := fd, addr := addr } : Chann).core, ?_, by rw [hm]; rfl⟩
    rw [(returns_pure.mp hcb).2]
    exact core_heap_some (Function.update_self ..)

theorem Tended.listening (h : Tended none s) {raw : Nat} {w : Pass}
    (hr : Returns (evtListening noExt n raw) s w t) : Tended none t := by
  simp only [evtListening] at hr
  rcases returns_ite.mp hr with ⟨_, hr⟩ | ⟨_, hr⟩
  swap
  · exact h.emit hr
  simp only [returns_bind] at hr
  obtain ⟨q, a, hacc, hr⟩ := hr
  have hsil : Silent s a := silent_channAccept _ _ hacc
  obtain ⟨rfl, ha⟩ | ⟨m, fd, k, rfl, hstep, hdis⟩ := channAccept_spec tame_noExt h.base hacc
  · rw [(returns_pure.mp hr).2]
    obtain ha | ⟨fd, ha⟩ := ha
    · exact h.same ha hsil
    · exact h.step ha ⟨trivial, by simp, by simp, by simp [Act.unsettles]⟩ hsil
  · simp only [returns_bind] at hr
    obtain ⟨r, b, hadd, hemit⟩ := hr
    -- until interest is added, the new channel has none
    have ha : Tended (some m) a := by
      refine (h.exempt _).steps (A := {.accept m fd, .disconnect m})
        ((Steps.single hstep (.inl rfl)).trans (hdis.mono fun _ ha => .inr ha)) (fun b hb => ?_) hsil
      obtain rfl | rfl := hb <;> exact ⟨trivial, by simp, by simp, by simp [Act.unsettles]⟩
    obtain ⟨c, hc, hst⟩ := channAccept_connected hacc
    obtain ⟨hb, hbn⟩ := ha.add (by simp) hc (by rw [hst]; trivial) hadd
    refine (hb.settle hbn ⟨fun he => ?_, fun _ => addedMask_read _⟩).emit hemit
    rw [show c.state = .connecting from he] at hst
    cases hst

theorem Tended.connecting (h : Tended none s) {c : CChann} {w : Pass} (hn : s.core.heap n = some c)
    (hst : c.state = .connecting) (hr : Returns (evtConnecting noExt n) s w t) : Tended none t := by
  simp only [evtConnecting, returns_bind, returns_deref, and_assoc, exists_and_left,
    exists_eq_left] at hr
  obtain ⟨_, _, opt, a, hopt, hr⟩ := hr
  have ha : Tended none a := h.same (core_sysSockError hopt) (silent_sysSockError _ _ _ hopt)
  have hna : a.core.heap n = some c := by
    rw [core_sysSockError hopt]
    exact hn
  have hact : c.state.active := by rw [hst]; trivial
  rcases returns_ite.mp hr with ⟨_, hr⟩ | ⟨_, hr⟩
  · simp only [returns_bind] at hr
    obtain ⟨_, b, hdel, _, d, hadd, _, e, hmod, hemit⟩ := hr
    obtain ⟨hb, hbn⟩ := ha.drop (p := some n) hna hact (.inl ⟨hst, rfl⟩) hdel
    obtain ⟨hd, hdn⟩ := hb.add (by simp) hbn hact hadd
    obtain ⟨c', hc', _, _, _, he⟩ := core_modifyChann hmod
    have hc'' := core_heap_some hc'
    rw [hdn, Option.some.injEq] at hc''
    have hest : CStep d.core (.established n) e.core := by
      rw [he]
      exact .established (core_heap_some hc') (by rw [← hc'']; exact hst)
    have hte := hd.step hest ⟨trivial, by simp, by simp, by simp [Act.unsettles]⟩
      (silent_modifyChann _ _ _ hmod)
    have hen : e.core.heap n = some ({ c' with state := .connected } : Chann).core := by
      rw [he, Core.set_heap, Function.update_self]
    refine (hte.settle hen ⟨fun hno => (by cases hno), fun _ => ?_⟩).emit hemit
    show c'.core.epollEvents &&& EPOLLIN ≠ 0
    rw [← hc'']
    exact addedMask_read _
  · simp only [returns_bind] at hr
    obtain ⟨_, b, hdis, hemit⟩ := hr
    exact (ha.down hdis).emit hemit

theorem Tended.connected (h : Tended none s) {c : CChann} {kev : Kev} {w : Pass}
    (hn : s.core.heap n = some c) (hst : c.state = .connected)
    (hr : Returns (evtConnected noExt n kev) s w t) : Tended none t := by
  simp only [evtConnected] at hr
  rcases returns_ite.mp hr with ⟨_, hr⟩ | ⟨_, hr⟩
  · exact h.emit hr
  rcases returns_ite.mp hr with ⟨_, hr⟩ | ⟨_, hr⟩
  swap
  · rw [(returns_pure.mp hr).2]
    exact h
  simp only [returns_bind] at hr
  obtain ⟨sent, a, hflush, hr⟩ := hr
  obtain ⟨⟨hfl, d, hd, hdst⟩, hempty⟩ := channSendedRwb_spec tame_noExt h.base hn hst hflush
  have ha : Tended none a := by
    refine h.steps hfl (fun b hb => ?_) (silent_channSendedRwb _ _ hflush)
    obtain ⟨i, rfl⟩ := hb
    exact ⟨trivial, by simp, by simp, by simp [Act.unsettles]⟩
  rcases returns_ite.mp hr with ⟨hsent, hr⟩ | ⟨_, hr⟩
  swap
  · rw [(returns_pure.mp hr).2]
    exact ha
  simp only [returns_bind, returns_deref, and_assoc, exists_and_left, exists_eq_left] at hr
  obtain ⟨e, he, hr⟩ := hr
  rcases returns_ite.mp hr with ⟨_, hr⟩ | ⟨_, hr⟩
  · exact ha.emit hr
  · simp only [returns_bind, returns_pure] at hr
    obtain ⟨_, b, hdel, _, rfl⟩ := hr
    refine (ha.drop hd (by rw [hdst]; trivial) (.inr ⟨by simp [hdst], ?_⟩) hdel).1
    rw [hempty hsent d hd]
    exact Int.le_refl 0

theorem Tended.dispatch (h : Tended none s) {kev : Kev} {w : Pass}
    (hr : Returns (evtDispatch noExt kev) s w t) : Tended none t := by
  obtain ⟨n, c, _, hc, ⟨_, _, rfl⟩ | ⟨_, _, _, a, b, r, err, ha, hdis, hemit, hpre⟩ |
    ⟨_, _, _, ⟨_, hr⟩ | ⟨hst, hr⟩ | ⟨hst, hr⟩ | ⟨_, _, rfl⟩⟩⟩ := evtDispatch_cases hr
  · exact h
  · have hsil : Silent s a := by
      obtain rfl | ⟨q, hq⟩ := hpre
      · exact .refl _
      · exact silent_sysSockError _ _ _ hq
    exact ((h.same ha hsil).down hdis).emit hemit
  · exact h.listening hr
  · exact h.connecting (core_heap_some hc) hst hr
  · exact h.connected (core_heap_some hc) hst hr
  · exact h

theorem Tended.timers (h : Tended none s) {fuel : Nat} {q : Option ChannId}
    (hr : Returns (tmNext noExt fuel) s q t) : Tended none t := by
  refine h.steps (tmNext_steps tame_noExt h.base hr) (fun a ha => ?_) (silent_tmNext _ _ hr)
  obtain rfl | ⟨n, rfl | rfl | rfl⟩ := ha <;>
    exact ⟨trivial, by simp, by simp, by simp [Act.unsettles]⟩

/-- The cursor moves on. -/
theorem Tended.consume (h : Tended none s) :
    Tended none { s with mnet := { s.mnet with fdIndex := s.mnet.fdIndex + 1 } } :=
  h.step (a := .consume) .consume ⟨trivial, by simp, by simp, by simp [Act.unsettles]⟩ (.of_trace rfl rfl)

theorem Tended.pass (h : Tended none s) {fuel : Nat} {w : Pass}
    (hr : Returns (evtPass noExt fuel) s w t) : Tended none t := by
  obtain ⟨n, _, htm⟩ | ⟨n, a, _, htm, hdis⟩ | ⟨a, _, htm, _, rfl, _⟩ | ⟨u, kev, hf, hd⟩ := evtPass_cases hr
  · exact h.timers htm
  · have ha := h.timers htm
    obtain ⟨hno, _⟩ | ⟨m, _, hdel⟩ := disNext_spec hdis
    · cases hno
    · exact ha.step hdel ⟨trivial, by simp, by simp, by simp [Act.unsettles]⟩ (silent_disNext _ _ hdis)
  · exact (h.timers htm).consume
  · obtain ⟨a, htm, _, rfl⟩ := hf.quiet
    exact (h.timers htm).consume.dispatch hd

theorem Tended.loop (h : Tended none s) {fuel rounds : Nat} {q : Option ChannId}
    (hr : Returns (evtLoop noExt fuel rounds) s q t) : Tended none t := by
  induction rounds generalizing s with
  | zero => exact absurd hr returns_fail
  | succ rounds ih =>
    simp only [evtLoop, returns_bind] at hr
    obtain ⟨w, a, hpass, hr⟩ := hr
    have ha := h.pass hpass
    cases w with
    | ret q' =>
      rw [(returns_pure.mp hr).2]
      exact ha
    | next => exact ih ha hr

/-! ## Calls -/

theorem Tended.event (h : Tended none s) {et : ChannEvent} {value : Int} {u : Unit}
    (hr : Returns (mnetChannActiveEvent noExt (some n) et value) s u t) : Tended none t := by
  obtain ⟨d, hn, ⟨_, hst, _, hr⟩ | ⟨_, hst, hr⟩ | rfl⟩ := mnetChannActiveEvent_cases tame_noExt hr
  · exact h.activeSend hn hst hr
  · refine h.steps (activeTimer_steps hn hst hr) (fun a ha => ?_) (silent_activeTimer _ _ hr)
    obtain rfl | rfl | rfl := ha <;> exact ⟨trivial, by simp, by simp, by simp [Act.unsettles]⟩
  · exact h

theorem Tended.dgramSend (h : Tended none s) {addr : Option (Nat × Int)} {buf : Option (List UInt8)}
    {r : Int} (hr : Returns (mnetDgramSend noExt (some n) addr buf) s r t) : Tended none t := by
  obtain ⟨rfl, _⟩ | ⟨_, host, port, a, _, _, _, _, haim, hsend⟩ := mnetDgramSend_cases hr
  · exact h
  refine Tended.send ?_ hsend
  simp only [dgramAim, returns_bind] at haim
  obtain ⟨ready, b, hready, haim⟩ := haim
  obtain rfl := channReady_same hready
  rcases returns_ite.mp haim with ⟨_, haim⟩ | ⟨_, haim⟩
  · have hsil := silent_modifyChann _ _ _ haim
    rw [channFillAddr, returns_modifyChann] at haim
    obtain ⟨c, hc, rfl⟩ := haim
    exact h.same (core_setChann_same hc rfl) hsil
  · simp only [returns_bind, returns_pure] at haim
    obtain ⟨q, d, hconn, _, rfl⟩ := haim
    exact h.connect hconn

theorem mnetInit_opens {r : Int} (h : Returns mnetInit s r t) (hs : Tended none s) :
    t.kernel.requests = s.kernel.requests ∧ ∀ ctype, t.mnet.reserved ctype = true → t.core.kq = true := by
  simp only [mnetInit, returns_bind, returns_readMnet, and_assoc, exists_and_left, exists_eq_left] at h
  rcases returns_ite.mp h with ⟨_, h⟩ | ⟨_, h⟩
  · rw [(returns_pure.mp h).2]
    exact ⟨rfl, hs.opens⟩
  simp only [returns_bind, returns_pure, returns_modifyMnet] at h
  obtain ⟨_, a, hqueue, _, b, hclock, _, _, rfl, _, rfl⟩ := h
  obtain ⟨ha, hkq⟩ : a.kernel.requests = s.kernel.requests ∧ a.mnet.kq = true := by
    rw [evtInit, returns_modify] at hqueue
    subst hqueue
    by_cases hq : s.mnet.kq = true
    · simp [hq]
    · simp [hq, Kernel.requests]
  refine ⟨(silent_sysClock _ _ hclock).requests.trans ha, fun _ _ => ?_⟩
  have hkb := congrArg Core.kq (core_sysClock hclock)
  exact hkb.trans hkq

theorem mnetFini_opens {u : Unit} (h : Returns (mnetFini noExt) s u t) (hs : Tended none s) :
    t.kernel.requests = s.kernel.requests ∧ ∀ ctype, t.mnet.reserved ctype = true → t.core.kq = true := by
  simp only [mnetFini, returns_bind, returns_readMnet, and_assoc, exists_and_left, exists_eq_left] at h
  rcases returns_ite.mp h with ⟨_, h⟩ | ⟨_, h⟩
  swap
  · rw [(returns_pure.mp h).2]
    exact ⟨rfl, hs.opens⟩
  simp only [walkFuel, returns_bind, returns_readMnet, returns_read, returns_modifyMnet, and_assoc,
    exists_and_left, exists_eq_left] at h
  obtain ⟨_, a, hloop, _, b, hqueue, rfl⟩ := h
  have hb : b.kernel.requests = a.kernel.requests := by
    rw [evtFini, returns_modify] at hqueue
    subst hqueue
    split <;> rfl
  exact ⟨hb.trans (silent_finiLoop _ _ hloop).requests, fun _ hres => by cases hres⟩

theorem Call.unsettles_acts {c : Call} {a : Act} (ha : a ∈ c.acts) (h : a.unsettles n) : c.asks := by
  cases c with
  | channConnect | channListen | channActiveEvent | channSend | dgramSend | resultNext | multiResetEvent =>
    trivial
  | channClose m | channDisconnect m | channRecv m | dgramRecv m =>
    cases m <;> obtain ⟨_, _, rfl⟩ | ⟨_, rfl⟩ | rfl | ⟨_, rfl⟩ | rfl := h <;> simp [Call.acts] at ha
  | _ =>
    obtain ⟨_, _, rfl⟩ | ⟨_, rfl⟩ | rfl | ⟨_, rfl⟩ | rfl := h <;>
      simp [Call.acts, finiActs, reapActs] at ha

theorem Call.shutdown_acts {c : Call} (ha : .shutdown ∈ c.acts) : c = .mnetFini := by
  cases c with
  | mnetFini => rfl
  | channConnect m | channListen m | channClose m | channDisconnect m | channActiveEvent m
  | channSend m | dgramSend m | channRecv m | dgramRecv m =>
    cases m <;> simp [Call.acts, connectActs, listenActs, sendActs, activeActs, activeSendActs,
      activeTimerActs] at ha
  | _ => simp [Call.acts, reapActs, resetActs, loopActs, timerActs, recordActs] at ha

/-- A call that asks for nothing. -/
theorem Tended.quiet (h : Tended none s) {i : Call × Ret} (hs : Step noExt s i t) (hask : ¬ i.1.asks)
    (hreq : t.kernel.requests = s.kernel.requests)
    (hopens : ∀ ctype, t.mnet.reserved ctype = true → t.core.kq = true) : Tended none t := by
  have hreset : i.1 ≠ .multiResetEvent := fun he => hask (by rw [he]; trivial)
  have hqueue : KeepsQueue s i.1 := by
    unfold KeepsQueue
    split
    · exact hreset ‹_›
    · exact h.opens _
    · trivial
  have hacts := apiCall_steps tame_noExt h.base hs
  refine ⟨hs.base tame_noExt h.base, hs.watched tame_noExt hqueue h.base h.watched, ?_, ?_, ?_, hopens⟩
  · rw [hs.ctl tame_noExt h.base]
    exact h.ctl
  · refine (hacts.keeps (I := fun k => Base k ∧ Suited none k) (fun a k k' ha hs ⟨hb, hsuit⟩ => ?_)
      ⟨h.base, h.suited⟩).2
    exact ⟨hb.step hs, hs.suited hb hsuit (Call.keepsMask_acts hreset ha)
      fun n hun => absurd (Call.unsettles_acts ha hun) hask⟩
  · rw [hreq]
    exact h.granted

theorem Tended.call (h : Tended none s) {i : Call × Ret} (hs : Step noExt s i t)
    (hreset : i.1 ≠ .multiResetEvent) : Tended none t := by
  obtain ⟨c, r⟩ := i
  by_cases hask : c.asks
  · cases c with
    | channConnect n =>
      obtain ⟨_, _, hr⟩ := returns_ret.mp hs
      cases n with
      | none =>
        rw [(returns_pure.mp hr).2]
        exact h
      | some n => exact h.connect hr
    | channListen n =>
      obtain ⟨_, _, hr⟩ := returns_ret.mp hs
      cases n with
      | none =>
        rw [(returns_pure.mp hr).2]
        exact h
      | some n => exact h.listen hr
    | channActiveEvent n =>
      obtain ⟨_, _, hr⟩ := returns_ret.mp hs
      cases n with
      | none =>
        rw [(returns_pure.mp hr).2]
        exact h
      | some n => exact h.event hr
    | channSend n =>
      obtain ⟨_, _, hr⟩ := returns_ret.mp hs
      cases n with
      | none =>
        simp only [mnetChannSend, Exec.require, returns_bind] at hr
        obtain ⟨_, _, hr, _⟩ := hr
        exact absurd hr returns_fail
      | some n => exact h.send hr
    | dgramSend n =>
      obtain ⟨_, _, hr⟩ := returns_ret.mp hs
      cases n with
      | none =>
        simp only [mnetDgramSend, Exec.require, returns_bind] at hr
        obtain ⟨_, _, hr, _⟩ := hr
        exact absurd hr returns_fail
      | some n => exact h.dgramSend hr
    | resultNext fuel =>
      obtain ⟨_, _, hr⟩ := returns_ret.mp hs
      exact h.loop hr
    | multiResetEvent => exact absurd rfl hreset
    | _ => exact hask.elim
  · by_cases hres : c.reserves
    · cases c with
      | mnetInit =>
        obtain ⟨_, _, hr⟩ := returns_ret.mp hs
        obtain ⟨hreq, hopens⟩ := mnetInit_opens hr h
        exact h.quiet hs hask hreq hopens
      | mnetFini =>
        obtain ⟨_, _, hr⟩ := returns_ret.mp hs
        obtain ⟨hreq, hopens⟩ := mnetFini_opens hr h
        exact h.quiet hs hask hreq hopens
      | _ => exact hres.elim
    · have hsil := silent_apiCall hask hres _ _ hs
      refine h.quiet hs hask hsil.requests fun ctype ht => ?_
      have hkq := (apiCall_steps tame_noExt h.base hs).keeps (I := fun k => k.kq = true)
        (fun a k k' ha hs hk => hs.keeps_queue (Call.keepsMask_acts hreset ha) ?_ hk)
      · exact hkq (h.opens ctype (by rw [← hsil.reserved]; exact ht))
      · rintro rfl
        exact hres (by rw [Call.shutdown_acts (c := c) ha]; trivial)

/-! ## Runs -/

/-- `mnet_multi_reset_event` is not called. -/
def NoReset (_ : Sys ε) (c : Call) : Prop := c ≠ .multiResetEvent

instance {ε : Type} (s : Sys ε) (c : Call) : Decidable (NoReset s c) := by
  unfold NoReset
  infer_instance

/-- What the kernel has registered for the channel is the mask it keeps, and the mask is that of
its state. -/
structure Mirrors {ε : Type} (s : Sys ε) (n : ChannId) (c : Chann) : Prop where
  mask : s.kernel.epoll c.fd = if c.epollEvents = 0 then none else some ⟨c.epollEvents, n⟩
  idle : (c.epollEvents = 0 ∧ s.kernel.epoll c.fd = none) ↔ c.state = .disconnect ∨ c.state = .closed
  connecting : c.state = .connecting → c.epollEvents &&& EPOLLOUT ≠ 0
  receiving : c.state = .connected ∨ c.state = .listening → c.epollEvents &&& EPOLLIN ≠ 0

/-- When every valid request is granted and nothing is reset, masks and registrations agree
between calls, and every request that was made, in the middle of calls too, was valid: an
invalid one is recorded with the result -1. -/
theorem masks_mirrored {o : Oracle} {l : List (Call × Ret)} (ho : ∀ i, o.ctl i = true)
    (h : RunWhere noExt NoReset (Sys.start o ()) l s) :
    (∀ n c, s.heap n = some c → Mirrors s n c) ∧ ∀ q ∈ s.kernel.requests, q.2 = 0 := by
  have hstart : Tended none (Sys.start o ()) := by
    refine ⟨base_start o (), watched_start o (), ho, ?_, ?_, ?_⟩
    · intro n c _ hc
      cases hc
    · intro q hq
      cases hq
    · intro ctype hres
      cases hres
  have hs : Tended none s :=
    Path.keeps (I := Tended none) h (fun _ _ _ hi hs => hs.call hi.1 hi.2) hstart
  have hreach : Reachable noExt s := ⟨o, (), l, h.run⟩
  have hidle : s.core.idle := hreach.keeps tame_noExt (fun _ _ n c hc => by cases hc)
    fun _ _ _ hs hb hk => hs.idle hb hk
  refine ⟨fun n c hc => ?_, hs.granted⟩
  have hn := core_heap_some hc
  have hsuit := hs.suited n _ (by simp) hn
  by_cases hact : c.state.active
  · have hmask := hs.watched.mirrored.mask n _ hn hact
    have hne : c.epollEvents ≠ 0 := hsuit.mask_ne_zero hact
    refine ⟨hmask, ⟨fun he => absurd he.1 hne, ?_⟩, hsuit.connecting, hsuit.receiving⟩
    rintro (hst | hst) <;> simp [hst, ChannState.active] at hact
  · have hzero : c.epollEvents = 0 := hs.watched.mirrored.idle n _ hn hact
    have hnone : s.kernel.epoll c.fd = none :=
      hidle.unregistered hs.base (hreach.accounted tame_noExt) hs.watched.watchers hn hact
    refine ⟨by rw [hnone, if_pos hzero], ⟨fun _ => ?_, fun _ => ⟨hzero, hnone⟩⟩, hsuit.connecting,
      hsuit.receiving⟩
    exact (ChannState.not_active_iff.mp hact).symm

set_option synthInstance.maxSize 1000 in
/-- A connection waits for writing, after five requests. -/
theorem masks_mirrored_stuck : ∃ (s : Sys Unit) (c : Chann), s.heap 0 = some c ∧
    c.epollEvents &&& EPOLLOUT ≠ 0 ∧ Mirrors s 0 c ∧ s.kernel.requests.length = 5 ∧
    ∀ q ∈ s.kernel.requests, q.2 = 0 := by
  have hrun : AfterWhere noExt NoReset stuckCalls (Sys.start stuckOracle ()) fun s =>
      (s.heap 0).map (fun c => decide (c.epollEvents &&& EPOLLOUT ≠ 0)) = some true ∧
        s.kernel.requests.length = 5 := by decide +kernel
  obtain ⟨l, s, h, hvals, hlen⟩ := hrun.run
  obtain ⟨c, hc, hout⟩ := Option.map_eq_some_iff.mp hvals
  obtain ⟨hmask, hreq⟩ := masks_mirrored (fun _ => rfl) h
  exact ⟨s, c, hc, of_decide_eq_true hout, hmask 0 c hc, hlen, hreq⟩

end MNet
