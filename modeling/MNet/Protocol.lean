import MNet.Moves.Api
import MNet.Protocol.Model
import MNet.Sockets

/-! # The callback protocol

Every move keeps the history in order, so every call does. -/

namespace MNet
open MNet.Lib MNet.Lib.Exec

variable {ε : Type} {x : ExtTable ε} {s t : Sys ε} {n : ChannId} {c : Chann} {w : Monitor}

/-! ## Callbacks -/

theorem Wired.aside (h : Wired s t) : Aside s t where
  bones m := by
    have hm := congrArg (Option.map Chann.bones) (h.heap m)
    rw [Option.map_map, Option.map_map] at hm
    exact hm
  nextChann := h.nextChann
  channs := by rw [h.mnet]
  channCount := by rw [h.mnet]
  socks := h.socks
  trace := h.trace.mono fun e he => by cases e <;> trivial

section

variable (hx : Obedient x)
include hx

theorem aside_cb (ctype : Nat) (op : ExtOp) (ha : op ≠ .acceptCb) (hc : op ≠ .connectCb) :
    Within Aside ((extConfig x ctype).cb op n) s := by
  unfold extConfig
  split
  · cases op <;> exact within_pure ()
  · exact hx.ops ctype op n s ha hc

theorem aside_recvFn (ctype len : Nat) : Within Aside ((extConfig x ctype).recvFn n len) s := by
  unfold extConfig
  split
  · exact (wired_internal_recvFn ctype len).mono fun _ => Wired.aside
  · exact hx.recvFn ctype n len s

theorem aside_sendFn (ctype : Nat) (data : List UInt8) :
    Within Aside ((extConfig x ctype).sendFn n data) s := by
  unfold extConfig
  split
  · exact (wired_internal_sendFn ctype data).mono fun _ => Wired.aside
  · exact hx.sendFn ctype n data s

theorem callsBack_cb (ctype : Nat) (op : ExtOp) :
    Within (CallsBack x) ((extConfig x ctype).cb op n) s := by
  by_cases ha : op = .acceptCb
  · subst ha
    unfold extConfig
    split
    · exact within_pure ()
    · exact hx.acceptCb ctype n s
  by_cases hc : op = .connectCb
  · subst hc
    unfold extConfig
    split
    · exact within_pure ()
    · exact hx.connectCb ctype n s
  · exact (aside_cb hx ctype op ha hc).mono fun _ h => .single (.inl h)

theorem callsBack_filterFn (ctype : Nat) : Within (CallsBack x) ((extConfig x ctype).filterFn n) s := by
  unfold extConfig
  split
  · exact within_pure true
  · exact hx.filterFn ctype n s

end

/-! ## Closing -/

theorem Chann.phase_active (h : c.state.active) : c.phase = .up c.fd := by
  unfold Chann.phase
  cases hst : c.state <;> simp_all [ChannState.active]

theorem Chann.phase_idle (h : c.state = .disconnect) : c.phase = .idle := by
  unfold Chann.phase
  rw [h]

theorem Sys.phase_some (hc : s.heap n = some c) : s.phase n = c.phase := by
  unfold Sys.phase
  rw [hc]

/-- A descriptor no channel has is closed. -/
theorem Obeys.shut {fd : Int} (h : Obeys w s) (hheap : t.heap = s.heap)
    (hnext : t.nextChann = s.nextChann) (hmnet : t.mnet = s.mnet)
    (hsocks : t.kernel.socks = Function.update s.kernel.socks fd none)
    (hno : ∀ m d, s.heap m = some d → d.state.active → d.fd ≠ fd) : Obeys (w.closes fd) t where
  reg := by
    have hcore : t.core.heap = s.core.heap := by
      funext m
      rw [core_heap, core_heap, hheap]
    rw [hcore, hmnet, hnext]
    exact h.reg
  phase m := by
    rw [show (w.closes fd).phase = w.phase from rfl, h.phase m]
    unfold Sys.phase
    rw [hheap, hnext]
  isOpen f := by
    rw [hsocks]
    by_cases hf : f = fd
    · subst hf
      simp [Monitor.closes]
    · simp only [Monitor.closes, Function.update_of_ne hf]
      exact h.isOpen f
  fds m d hd hact := by
    rw [hheap] at hd
    rw [hsocks, Function.update_of_ne (hno m d hd hact)]
    exact h.fds m d hd hact
  inj := by
    rw [hheap]
    exact h.inj

section

variable (hx : Obedient x)
include hx

theorem channDisconnectSocket_ordered {r : Int}
    (h : Returns (channDisconnectSocket (opsOf x) n) s r t) (hs : Ordered s) : Ordered t := by
  obtain ⟨w, hw⟩ := hs
  obtain ⟨c, hc, ⟨_, _, rfl⟩ | ⟨_, hact, _, a, d, u, hcb, hrel⟩⟩ := channDisconnectSocket_cases h
  · exact ⟨w, hw⟩
  rw [opsConfig_opsOf] at hcb
  have ha : Aside (s.recorded (.extOp .disconnectCb n)) a :=
    aside_cb hx c.ctype .disconnectCb (by decide) (by decide) u a hcb
  obtain ⟨c', hc', hfd, hst⟩ := ha.was hrel.was
  rw [show (s.recorded (.extOp .disconnectCb n)).heap n = s.heap n from rfl, hc,
    Option.some.injEq] at hc'
  subst hc'
  have hafter : w.after (w.phase n) .disconnectCb = some .idle := by
    rw [hw.obeys.phase n, Sys.phase_some hc, Chann.phase_active hact]
    exact if_pos ((hw.obeys.isOpen c.fd).mpr (hw.obeys.fds n c hc hact).2)
  have ho : Obeys w a := (hw.obeys.recorded rfl rfl).aside ha
  obtain ⟨l, hl, htr⟩ := ha.trace
  have hrun : monitor a.kernel.trace = some (w.enters .disconnectCb n .idle) := by
    rw [htr]
    exact monitor_append (monitor_op hw.run hafter) hl
  refine ⟨(w.enters .disconnectCb n .idle).closes d.fd, ?_, ?_, fun hu => ?_⟩
  · rw [hrel.trace]
    exact monitor_close hrun
  · have hothers : ∀ m e, m ≠ n → a.heap m = some e → e.state.active → e.fd ≠ d.fd :=
      fun m e hm he hea hef => hm (ho.inj m n e d he hrel.was hea (hst ▸ hact) hef)
    refine ho.write hrel.was hrel.heap rfl rfl hrel.nextChann (by rw [hrel.mnet]; exact ⟨rfl, rfl⟩)
      rfl (fun f => ?_) (fun h => h.elim) fun m e hm he hea => ?_
    · rw [hrel.socks]
      by_cases hf : f = d.fd
      · subst hf
        simp [Monitor.closes]
      · simp only [Monitor.closes, Monitor.enters, Function.update_of_ne hf]
        exact ho.isOpen f
    · rw [hrel.socks, Function.update_of_ne (hothers m e hm he hea)]
      exact (ho.fds m e he hea).2
  · refine ((hw.tidy (hu.before ?_)).enters).shut
    rw [hrel.trace, htr]
    exact (List.suffix_cons _ _).trans ((List.suffix_append _ _).trans (List.suffix_cons _ _))

/-- A channel is closed only once it has no socket. -/
theorem channCloseSocket_ordered {u : Unit}
    (hdown : ∀ c, s.heap n = some c → ¬ (0 < c.fd ∧ c.state.active))
    (h : Returns (channCloseSocket (opsOf x) n) s u t) (hs : Ordered s) : Ordered t := by
  obtain ⟨w, hw⟩ := hs
  obtain ⟨c, hc, ⟨_, rfl⟩ | ⟨hne, a, d, v, hcb, hd, rfl⟩⟩ := channCloseSocket_cases h
  · exact ⟨w, hw⟩
  have hst : c.state = .disconnect := by
    have hno : ¬ c.state.active := fun hact => hdown c hc ⟨(hw.obeys.fds n c hc hact).1, hact⟩
    revert hne hno
    cases c.state <;> simp [ChannState.active]
  rw [opsConfig_opsOf] at hcb
  have ha : Aside (s.recorded (.extOp .closeCb n)) a :=
    aside_cb hx c.ctype .closeCb (by decide) (by decide) v a hcb
  have hafter : w.after (w.phase n) .closeCb = some .gone := by
    rw [hw.obeys.phase n, Sys.phase_some hc, Chann.phase_idle hst]
    simp [Monitor.after]
  have ho : Obeys w a := (hw.obeys.recorded rfl rfl).aside ha
  obtain ⟨l, hl, htr⟩ := ha.trace
  refine ⟨w.enters .closeCb n .gone, ?_, ?_, fun hu => ?_⟩
  · show monitor a.kernel.trace = _
    rw [htr]
    exact monitor_append (monitor_op hw.run hafter) hl
  · exact ho.write hd rfl rfl rfl rfl ⟨rfl, rfl⟩ rfl ho.isOpen (fun h => h.elim) fun m e _ he hea =>
      (ho.fds m e he hea).2
  · refine (hw.tidy (hu.before ?_)).enters
    show s.kernel.trace <:+ a.kernel.trace
    rw [htr]
    exact (List.suffix_cons _ _).trans (List.suffix_append _ _)

theorem CallsBack.ordered (h : CallsBack x s t) (hs : Ordered s) : Ordered t := by
  induction h with
  | refl => exact hs
  | tail _ hstep ih =>
    obtain ha | ⟨m, u, hd⟩ := hstep
    · obtain ⟨w, hw⟩ := ih
      exact ⟨w, hw.aside ha⟩
    · cases m with
      | none => rwa [(returns_pure.mp hd).2]
      | some m =>
        simp only [mnetChannDisconnect, returns_bind, returns_pure] at hd
        obtain ⟨r, b, hd, _, rfl⟩ := hd
        exact channDisconnectSocket_ordered hx hd ih

end

/-! ## Moves -/

theorem Destroyed.kept (h : Destroyed n c s t) {m : ChannId} {d : Chann} (hd : t.heap m = some d) :
    m ≠ n ∧ ∃ e, s.heap m = some e ∧ d.fd = e.fd ∧ d.state = e.state := by
  have hm : m ≠ n := by
    intro he
    rw [he, h.gone] at hd
    cases hd
  have hb := h.bare m hm
  rw [hd] at hb
  obtain ⟨e, he, hbare⟩ := Option.map_eq_some_iff.mp hb.symm
  have hfd : d.bare.fd = e.bare.fd := by rw [hbare]
  have hst : d.bare.state = e.bare.state := by rw [hbare]
  exact ⟨hm, e, he, hfd, hst⟩

theorem Obeys.destroyed (h : Obeys w s) (hd : Destroyed n c s t) : Obeys w t where
  reg := hd.reg h.reg
  phase m := by
    rw [h.phase m]
    by_cases hm : m = n
    · subst hm
      have hlt : m < t.nextChann := by
        rw [hd.nextChann]
        refine h.reg.lt m ?_
        rw [core_heap_some hd.was]
        exact Option.some_ne_none _
      rw [Sys.phase_some hd.was, Sys.phase, hd.gone]
      unfold Chann.phase
      rw [hd.closed]
      exact (if_pos hlt).symm
    · have hb := hd.bare m hm
      unfold Sys.phase
      rw [hd.nextChann]
      cases ht : t.heap m with
      | none =>
        rw [ht] at hb
        rw [Option.map_eq_none_iff.mp hb.symm]
      | some d =>
        obtain ⟨_, e, he, hfd, hst⟩ := hd.kept ht
        rw [he]
        exact (Chann.phase_eq hfd hst).symm
  isOpen fd := by
    rw [hd.socks]
    exact h.isOpen fd
  fds m d hm hact := by
    obtain ⟨_, e, he, hfd, hst⟩ := hd.kept hm
    rw [hd.socks, hfd]
    exact h.fds m e he (hst ▸ hact)
  inj m i d e hm hi hda hea hde := by
    obtain ⟨_, d', hd', hfd, hst⟩ := hd.kept hm
    obtain ⟨_, e', he', hfd', hst'⟩ := hd.kept hi
    exact h.inj m i d' e' hd' he' (hst ▸ hda) (hst' ▸ hea) (by rw [← hfd, ← hfd', hde])

/-- A channel whose socket was opened to connect or to listen. -/
theorem Entered.active {raw : Nat} {op : ExtOp} {st : ChannState} {set : EvtSet} (h : Entered raw op st set) :
    st.active ∧ (op = .connectCb ∨ op = .listenCb) := by
  obtain ⟨rfl, ⟨_, rfl, _⟩ | ⟨_, rfl, _⟩⟩ | ⟨rfl, rfl, _⟩ := h
  · exact ⟨trivial, .inl rfl⟩
  · exact ⟨trivial, .inl rfl⟩
  · exact ⟨trivial, .inr rfl⟩

/-- One field of a channel written that the monitor does not read. -/
theorem Ordered.aside (hs : Ordered s) (ha : Aside s t) : Ordered t := by
  obtain ⟨w, hw⟩ := hs
  exact ⟨w, hw.aside ha⟩

theorem accept_ordered {a b : Sys ε} {lc : Chann} {fd : Int} {addr : SockAddr}
    (hnew : NewFd fd s a) (hheap : a.heap = s.heap)
    (hcreate : Returns (channCreate lc.ctype .connected) a n b) (hc : b.heap n = some c)
    (hs : Ordered s) :
    Ordered ((b.setChann n { c with fd := fd, addr := addr }).recorded (.extOp .acceptCb n)) := by
  obtain ⟨w, hw⟩ := hs
  obtain ⟨own, hrun⟩ := hnew.monitor hw.run
  have hcr := channCreate_created hcreate
  have hst : c.state = .connected := by
    obtain ⟨p, hp⟩ := hcr.chann
    rw [hc, Option.some.injEq] at hp
    rw [hp]
  have hopen : a.kernel.socks fd ≠ none := by
    rw [hnew.socks]
    simp
  have hleak : Obeys (w.opens fd own) a := hw.obeys.leak hnew hheap
  obtain ⟨hph, ho⟩ := hleak.push
    (t := b.setChann n { c with fd := fd, addr := addr }) hcreate hc rfl ⟨rfl, rfl⟩ rfl rfl
    (by rw [← hcr.kernel]; rfl) fun _ => ⟨hnew.pos, hopen, fun m d hd hda => by
      rw [hheap] at hd
      exact hw.obeys.fresh hnew.free hd hda⟩
  have hafter : (w.opens fd own).after ((w.opens fd own).phase n) .acceptCb = some (.up fd) := by
    rw [hph]
    simp [Monitor.after, Monitor.opens]
  rw [Chann.phase_active (by rw [show ChannState.active _ = c.state.active from rfl, hst]; trivial)] at ho
  refine ⟨_, Follows.enter ?_ hafter ho fun hu => (hw.tidy fun e he => hu e ?_).announced (by decide)⟩
  · show monitor b.kernel.trace = _
    rw [hcr.kernel]
    exact hrun
  · show e ∈ b.kernel.trace
    rw [hcr.kernel]
    obtain ⟨_, _, htr⟩ := hnew.trace
    exact htr.suffix.subset (List.mem_cons_of_mem _ he)

theorem attach_ordered {a b : Sys ε} {fd r : Int} {addr : SockAddr} {raw : Nat} {st : ChannState} {op : ExtOp}
    {set : EvtSet} (hc : s.heap n = some c) (hst : c.state = .disconnect) (hnew : NewFd fd s a)
    (hent : Entered raw op st set)
    (hheap : a.heap = Function.update s.heap n (some { c with fd := fd, addr := addr, state := st }))
    (hadd : Returns (evtAdd n set) a r b) (hs : Ordered s) : Ordered (b.recorded (.extOp op n)) := by
  obtain ⟨w, hw⟩ := hs
  obtain ⟨own, hrun⟩ := hnew.monitor hw.run
  obtain ⟨hact, hop⟩ := hent.active
  have ho : Obeys _ a := hw.obeys.take own hnew hc hheap rfl rfl fun _ => rfl
  rw [Chann.phase_active (by exact hact)] at ho
  obtain ⟨_, _, hctl⟩ := evtAdd_cases hadd
  have hb : Aside a b := hctl.aside
  obtain ⟨l, hl, htr⟩ := hb.trace
  have hafter : (w.opens fd own).after ((w.opens fd own).phase n) op = some (.up fd) := by
    rw [show (w.opens fd own).phase n = .idle by
      rw [show (w.opens fd own).phase = w.phase from rfl, hw.obeys.phase n, Sys.phase_some hc,
        Chann.phase_idle hst]]
    obtain rfl | rfl := hop <;> simp [Monitor.after, Monitor.opens]
  refine ⟨_, Follows.enter ?_ hafter (ho.aside hb) fun hu => ?_⟩
  · rw [htr]
    exact monitor_append hrun hl
  · obtain ⟨_, _, hnt⟩ := hnew.trace
    refine (hw.tidy (hu.before ?_)).announced ?_
    · exact (List.suffix_cons _ _).trans (hnt.suffix.trans hb.trace.suffix)
    · obtain rfl | rfl := hop <;> decide

/-- A descriptor `n` does not come to use, which is closed again. -/
theorem bounce_ordered {a : Sys ε} {fd : Int} {addr : SockAddr} {u : Unit}
    (hc : s.heap n = some c) (hst : c.state = .disconnect) (hnew : NewFd fd s a)
    (hheap : a.heap = Function.update s.heap n (some { c with addr := addr }))
    (hclose : Returns (sysClose fd) a u t) (hs : Ordered s) : Ordered t := by
  obtain ⟨w, hw⟩ := hs
  obtain ⟨own, hrun⟩ := hnew.monitor hw.run
  have ho : Obeys _ a := hw.obeys.take own hnew hc hheap rfl rfl
    fun h => (by rw [show ChannState.active _ = c.state.active from rfl, hst] at h; exact h.elim)
  obtain ⟨hth, htn, htm, _, hts, _, _, _, htt⟩ := sysClose_cases hclose
  have hphase : Function.update w.phase n (Chann.phase { c with addr := addr }) = w.phase := by
    rw [Function.update_eq_self_iff, hw.obeys.phase n, Sys.phase_some hc]
    rfl
  rw [hphase] at ho
  refine ⟨(w.opens fd own).closes fd, ?_, ho.shut hth htn htm hts fun m d hd hda => ?_, fun hu => ?_⟩
  · rw [htt]
    exact monitor_close hrun
  · rw [hheap] at hd
    by_cases hm : m = n
    · subst hm
      rw [Function.update_self, Option.some.injEq] at hd
      subst hd
      rw [show ChannState.active _ = c.state.active from rfl, hst] at hda
      exact hda.elim
    · rw [Function.update_of_ne hm] at hd
      exact hw.obeys.fresh hnew.free hd hda
  · obtain ⟨_, _, hnt⟩ := hnew.trace
    refine (hw.tidy (hu.before ?_)).closes
    rw [htt]
    exact (List.suffix_cons _ _).trans (hnt.suffix.trans (List.suffix_cons _ _))

theorem leak_ordered {lfd fd : Int} (hnew : NewFd fd s t) (hheap : t.heap = s.heap)
    (hadd : Adds SysEvent.plain (s.recorded (.accept lfd fd)) t) (hs : Ordered s) : Ordered t := by
  obtain ⟨w, hw⟩ := hs
  obtain ⟨l, hl, htr⟩ := hadd
  refine ⟨w.opens fd false, ?_, hw.obeys.leak hnew hheap, fun hu => hw.tidy (hu.before ?_)⟩
  · rw [htr]
    exact monitor_append (monitor_accept hw.run hnew.pos) fun e he => (hl e he).unseen
  · rw [htr]
    exact (List.suffix_cons _ _).trans (List.suffix_append _ _)

/-- A refused socket stays with its channel, and in the history. -/
theorem refuse_ordered {fd : Int} {addr : SockAddr} (hc : s.heap n = some c)
    (hst : c.state = .disconnect) (hnew : NewFd fd s t)
    (hheap : t.heap = Function.update s.heap n (some { c with fd := fd, addr := addr }))
    (href : ∃ e ∈ t.kernel.trace, e.refuses) (hs : Ordered s) : Ordered t := by
  obtain ⟨w, hw⟩ := hs
  obtain ⟨own, hrun⟩ := hnew.monitor hw.run
  have ho : Obeys _ t := hw.obeys.take own hnew hc hheap rfl rfl fun _ => rfl
  have hphase : Function.update w.phase n (Chann.phase { c with fd := fd, addr := addr }) = w.phase := by
    rw [Function.update_eq_self_iff, hw.obeys.phase n, Sys.phase_some hc, Chann.phase_idle hst,
      Chann.phase_idle (by exact hst)]
  rw [hphase] at ho
  obtain ⟨e, he, href⟩ := href
  exact ⟨w.opens fd own, hrun, ho, fun hu => absurd href (hu e he)⟩

theorem established_ordered (hc : s.heap n = some c) (hst : c.state = .connecting) (hs : Ordered s) :
    Ordered (s.setChann n { c with state := .connected }) := by
  obtain ⟨w, hw⟩ := hs
  have hact : c.state.active := by
    rw [hst]
    trivial
  have hphase : w.phase = Function.update w.phase n (Chann.phase { c with state := .connected }) := by
    rw [eq_comm, Function.update_eq_self_iff, hw.obeys.phase n, Sys.phase_some hc,
      Chann.phase_active hact, Chann.phase_active (by trivial)]
  refine ⟨w, hw.run, hw.obeys.write hc rfl rfl rfl rfl ⟨rfl, rfl⟩ hphase hw.obeys.isOpen (fun _ => ?_)
    fun m d _ hd hda => (hw.obeys.fds m d hd hda).2, hw.tidy⟩
  obtain ⟨hpos, hopen⟩ := hw.obeys.fds n c hc hact
  exact ⟨hpos, hopen, fun m d hm hd hda he => hm (hw.obeys.inj m n d c hd hc hda hact he)⟩

section

variable (hx : Obedient x)
include hx

theorem opened_ordered {a : Sys ε} {ctype : Nat} {u : Unit}
    (hnew : Returns (channCreate ctype .disconnect) s n a)
    (hcb : Returns (callback .openCb (extConfig x ctype).openCb n) a u t) (hs : Ordered s) :
    Ordered t := by
  obtain ⟨w, hw⟩ := hs
  obtain ⟨_, _, rfl, hcb⟩ := returns_callback.mp hcb
  have hcr := channCreate_created hnew
  obtain ⟨p, hp⟩ := hcr.chann
  obtain ⟨hph, ho⟩ := hw.obeys.push (t := a) hnew hp (Function.update_eq_self_iff.mpr hp.symm).symm
    ⟨rfl, rfl⟩ rfl rfl (by rw [hcr.kernel]) fun h => h.elim
  have hrun : monitor a.kernel.trace = some w := by
    rw [hcr.kernel]
    exact hw.run
  have hafter : w.after (w.phase n) .openCb = some .idle := by
    rw [hph]
    simp [Monitor.after]
  have htidy : a.Unrefused → (w.enters .openCb n .idle).Tidy := fun hu =>
    (hw.tidy (by rw [Sys.Unrefused, ← hcr.kernel]; exact hu)).enters
  have hcb' : Aside _ t := aside_cb hx ctype .openCb (by decide) (by decide) _ _ hcb
  exact ⟨_, (Follows.enter hrun hafter ho htidy).aside hcb'⟩

/-- A send adds to the history what the monitor does not look at. -/
theorem aside_channSend {data : List UInt8} {r : Int} (h : Returns (channSend x n data) s r t) :
    Aside s t := by
  obtain ⟨c, a, _, hsend, ht⟩ := channSend_cases h
  have ha : Aside s (a.recorded (.sendFn n data r)) :=
    (aside_sendFn hx _ data _ _ hsend).trans (aside_recorded (by trivial))
  obtain ⟨_, rfl⟩ | ⟨_, d, hd, rfl⟩ := ht
  · exact ha
  · exact ha.trans (aside_setChann (show (a.recorded _).heap n = some d from hd) rfl)

theorem Move.ordered {d : Deed} (h : Move x s d t) (hd : d ≠ .wipe) (hs : Ordered s) : Ordered t := by
  cases h with
  | plain h => exact hs.aside h.aside
  | forget hc | sendFlag hc | cache hc | address hc => exact hs.aside (aside_setChann hc rfl)
  | established hc hst => exact established_ordered hc hst hs
  | ctl h =>
    obtain ⟨_, _, hctl, _⟩ := evtCtl_cases h
    exact hs.aside hctl.aside
  | queue => exact hs.aside { Aside.refl s with trace := adds_of_eq rfl }
  | opened _ hnew hcb => exact opened_ordered hx hnew hcb hs
  | accept _ hnew hheap hcreate hc hcb =>
    exact (callsBack_cb hx _ .acceptCb _ _ hcb).ordered hx (accept_ordered hnew hheap hcreate hc hs)
  | attach hc hst hnew hent hheap hadd hcb =>
    exact (callsBack_cb hx _ _ _ _ hcb).ordered hx (attach_ordered hc hst hnew hent hheap hadd hs)
  | refuse hc hst hnew hheap href => exact refuse_ordered hc hst hnew hheap (href.imp fun _ h => ⟨List.mem_of_mem_head? h.1, h.2⟩) hs
  | bounce hc hst hnew hheap hclose => exact bounce_ordered hc hst hnew hheap hclose hs
  | leak hnew hheap hadd => exact leak_ordered hnew hheap hadd hs
  | message _ h =>
    obtain ⟨c, hc, h⟩ := channMsg_cases h
    exact (callsBack_filterFn hx _ _ _ h).ordered hx (hs.aside (aside_setChann hc rfl))
  | send h => exact hs.aside (aside_channSend hx h)
  | recv _ h => exact (hs.aside (aside_recvFn hx _ _ _ _ h)).aside (aside_recorded (by trivial))
  | disconnect h => exact channDisconnectSocket_ordered hx h hs
  | close hdown h => exact channCloseSocket_ordered hx hdown h hs
  | destroy h =>
    obtain ⟨w, hw⟩ := hs
    obtain ⟨c, hc, ⟨_, rfl⟩ | hdes⟩ := channDestroy_cases h
    · exact ⟨w, hw⟩
    · obtain ⟨l, hl, htr⟩ := hdes.trace
      refine ⟨w, ?_, hw.obeys.destroyed hdes, fun hu => hw.tidy (hu.before hdes.trace.suffix)⟩
      rw [htr]
      exact monitor_append hw.run fun e he => (hl e he).unseen
  | wipe => exact absurd rfl hd

/-! ## Shutdown -/

omit hx in
theorem Aside.next {d : Chann} (h : Aside s t) (hc : s.heap n = some c) (hd : t.heap n = some d) :
    d.next = c.next := by
  have hb := h.bones n
  rw [hc, hd] at hb
  exact congrArg (·.2.2.2) (Option.some.inj hb)

omit hx in
theorem Aside.none_iff (h : Aside s t) : t.heap n = none ↔ s.heap n = none := by
  have hb := h.bones n
  constructor
  · intro ht
    rw [ht] at hb
    exact Option.map_eq_none_iff.mp hb.symm
  · intro hs
    rw [hs] at hb
    exact Option.map_eq_none_iff.mp hb

omit hx in
theorem update_none {α β : Type} [DecidableEq α] {f : α → Option β} {i j : α} {v w : β} (hi : f i = some w)
    (hj : f j = none) : Function.update f i (some v) j = none := by
  have hij : j ≠ i := by
    rintro rfl
    rw [hi] at hj
    cases hj
  rw [Function.update_of_ne hij, hj]

theorem channDisconnectSocket_next {r : Int} (h : Returns (channDisconnectSocket (opsOf x) n) s r t)
    (hc : s.heap n = some c) :
    t.mnet.channs = s.mnet.channs ∧ (∃ d, t.heap n = some d ∧ d.next = c.next) ∧
      ∀ m, s.heap m = none → t.heap m = none := by
  obtain ⟨c', hc', ⟨_, _, rfl⟩ | ⟨_, _, _, a, d, u, hcb, hrel⟩⟩ := channDisconnectSocket_cases h
  · exact ⟨rfl, ⟨c, hc, rfl⟩, fun _ hm => hm⟩
  rw [opsConfig_opsOf] at hcb
  have ha : Aside (s.recorded (.extOp .disconnectCb n)) a :=
    aside_cb hx c'.ctype .disconnectCb (by decide) (by decide) u a hcb
  have hnext : d.next = c.next := ha.next hc hrel.was
  rw [hrel.mnet, hrel.heap, Function.update_self]
  exact ⟨ha.channs, ⟨_, rfl, hnext⟩, fun m hm => update_none hrel.was (ha.none_iff.mpr hm)⟩

theorem channCloseSocket_next {u : Unit} (h : Returns (channCloseSocket (opsOf x) n) s u t)
    (hc : s.heap n = some c) :
    t.mnet.channs = s.mnet.channs ∧ (∃ d, t.heap n = some d ∧ d.next = c.next ∧ d.state = .closed) ∧
      ∀ m, s.heap m = none → t.heap m = none := by
  obtain ⟨c', hc', ⟨hcl, rfl⟩ | ⟨_, a, d, v, hcb, hd, rfl⟩⟩ := channCloseSocket_cases h
  · rw [hc, Option.some.injEq] at hc'
    exact ⟨rfl, ⟨c, hc, rfl, hc' ▸ hcl⟩, fun _ hm => hm⟩
  rw [opsConfig_opsOf] at hcb
  have ha : Aside (s.recorded (.extOp .closeCb n)) a :=
    aside_cb hx c'.ctype .closeCb (by decide) (by decide) v a hcb
  have hnext : d.next = c.next := ha.next hc hd
  exact ⟨ha.channs, ⟨_, Function.update_self .., hnext, rfl⟩, fun m hm => update_none hd (ha.none_iff.mpr hm)⟩

/-- One round of `mnet_fini` frees the first channel of the list, and the next one is the first. -/
theorem finiRound_ordered {a b : Sys ε} {r : Int} {u v : Unit} (hp : s.mnet.channs = some n)
    (hc : s.heap n = some c) (hdis : Returns (channDisconnectSocket (opsOf x) n) s r a)
    (hclose : Returns (channCloseSocket (opsOf x) n) a u b) (hdestroy : Returns (channDestroy n) b v t)
    (hs : Ordered s) : Ordered t ∧ t.mnet.channs = c.next ∧ t.heap n = none ∧
      ∀ m, s.heap m = none → t.heap m = none := by
  obtain ⟨hca, ⟨c₁, hc₁, hn₁⟩, hgone⟩ := channDisconnectSocket_next hx hdis hc
  obtain ⟨hcb, ⟨c₂, hc₂, hn₂, hst⟩, hgone'⟩ := channCloseSocket_next hx hclose hc₁
  have ha := channDisconnectSocket_ordered hx hdis hs
  have hb := channCloseSocket_ordered hx (fun _ => channDisconnectSocket_down hdis) hclose ha
  have ht : Ordered t := Move.ordered hx (.destroy hdestroy) (by simp) hb
  obtain ⟨c₃, hc₃, ⟨hne, _⟩ | hdes⟩ := channDestroy_cases hdestroy
  all_goals
    rw [hc₂, Option.some.injEq] at hc₃
    subst hc₃
  · exact absurd hst hne
  obtain ⟨w, hw⟩ := hb
  refine ⟨ht, ?_, hdes.gone, fun m hm => ?_⟩
  · rw [hdes.head hw.obeys.reg (hcb.trans (hca.trans hp)), hn₂, hn₁]
  · by_contra hne
    obtain ⟨d, hd⟩ := Option.ne_none_iff_exists'.mp hne
    obtain ⟨_, e, he, _⟩ := hdes.kept hd
    rw [hgone' m (hgone m hm)] at he
    cases he

/-- The walk of `mnet_fini` closes and frees every channel. -/
theorem finiLoop_ordered {fuel : Nat} {p : Option ChannId} {u : Unit}
    (h : Returns (finiLoop x fuel p) s u t) (hp : s.mnet.channs = p) (hs : Ordered s) :
    Ordered t ∧ t.mnet.channs = none := by
  induction fuel generalizing s p with
  | zero =>
    cases p with
    | none =>
      rw [(returns_pure.mp h).2]
      exact ⟨hs, hp⟩
    | some n => exact absurd h returns_fail
  | succ fuel ih =>
    cases p with
    | none =>
      rw [(returns_pure.mp h).2]
      exact ⟨hs, hp⟩
    | some n =>
      simp only [finiLoop, returns_bind, returns_deref, and_assoc, exists_and_left,
        exists_eq_left] at h
      obtain ⟨c, hc, r, a, hdis, _, b, hclose, _, d, hdestroy, h⟩ := h
      obtain ⟨hd, hhead, _⟩ := finiRound_ordered hx hp hc hdis hclose hdestroy hs
      exact ih h hhead hd

omit hx in
theorem Ordered.wiped (hs : Ordered s) (hnone : s.mnet.channs = none) :
    Ordered { s with mnet := {} } ∧ ∀ m, s.heap m = none := by
  obtain ⟨w, hw⟩ := hs
  have hr : Registered s.core.heap none s.mnet.channCount s.nextChann := hnone ▸ hw.obeys.reg
  have hall : ∀ m, s.heap m = none := fun m => by
    have := hr.all_none m
    rwa [core_heap, Option.map_eq_none_iff] at this
  refine ⟨⟨w, hw.run, ⟨⟨⟨[], .nil, fun m => ?_, rfl⟩, hw.obeys.reg.lt⟩, hw.obeys.phase,
    hw.obeys.isOpen, hw.obeys.fds, hw.obeys.inj⟩, hw.tidy⟩, hall⟩
  simp [core_heap, hall m]

/-- `mnet_fini` leaves no channel behind, if there was anything to shut down. -/
theorem mnetFini_ordered {u : Unit} (h : Returns (mnetFini x) s u t) (hs : Ordered s) :
    Ordered t ∧ (s.mnet.isInit = true → ∀ m, t.heap m = none) := by
  simp only [mnetFini, returns_bind, returns_readMnet, and_assoc, exists_and_left,
    exists_eq_left] at h
  rcases returns_ite.mp h with ⟨_, h⟩ | ⟨hinit, h⟩
  · simp only [walkFuel, returns_bind, returns_readMnet, returns_read, returns_modifyMnet, and_assoc,
      exists_and_left, exists_eq_left] at h
    obtain ⟨_, a, hloop, _, b, hfini, rfl⟩ := h
    obtain ⟨ha, hnone⟩ := finiLoop_ordered hx hloop rfl hs
    have hb : Aside a b := by
      rw [evtFini, returns_modify] at hfini
      rw [hfini]
      split
      · exact { Aside.refl a with trace := adds_of_eq rfl }
      · exact .refl a
    obtain ⟨ht, hall⟩ := (ha.aside hb).wiped (hb.channs.trans hnone)
    exact ⟨ht, fun _ => hall⟩
  · rw [(returns_pure.mp h).2]
    exact ⟨hs, fun hi => absurd hi hinit⟩

/-! ## Runs -/

omit hx in
theorem Call.spares {c : Call} (h : c ≠ .mnetFini) : .wipe ∉ c.deeds := by
  cases c with
  | mnetFini => exact absurd rfl h
  | channClose n | channConnect n | channDisconnect n | channListen n | channActiveEvent n
  | channRecv n | dgramRecv n | channSend n | dgramSend n =>
    cases n <;> simp [Call.deeds, connectDeeds, listenDeeds, activeDeeds, recvDeeds, failDeeds, sendDeeds,
      flushDeeds, dgramDeeds]
  | _ =>
    simp [Call.deeds, resetDeeds, pollDeeds, loopDeeds, timerDeeds, recordDeeds, flushDeeds, failDeeds]

theorem Step.ordered {l : Call × Ret} (h : Step x s l t) (hs : Ordered s) : Ordered t := by
  obtain ⟨c, r⟩ := l
  by_cases hc : c = .mnetFini
  · subst hc
    obtain ⟨_, _, h⟩ := returns_ret.mp h
    exact (mnetFini_ordered hx h hs).1
  · refine Moves.keeps (I := Ordered) (moves_apiCall c r t h) (fun d a b hd hm => ?_) hs
    exact hm.ordered hx fun he => Call.spares hc (he ▸ hd)

omit hx in
theorem ordered_start (o : Oracle) (e : ε) : Ordered (Sys.start o e) := by
  refine ⟨{}, rfl, ⟨⟨⟨[], .nil, fun m => by simp [Sys.start, core_heap], rfl⟩, fun m hm => ?_⟩,
    fun m => rfl, fun fd => ?_, fun n c hc => ?_, fun n m c d hc => ?_⟩, fun _ => ⟨rfl, rfl⟩⟩
  · exact absurd rfl hm
  · simp [Sys.start]
  · cases hc
  · cases hc

end

end MNet
