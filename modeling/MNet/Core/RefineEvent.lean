import MNet.Core.RefineChann

/-! # The event queue and the message loop as acts -/

namespace MNet
open MNet.Lib MNet.Lib.Exec

variable {ε : Type} {x : ExtTable ε} {s t : Sys ε} {n : ChannId} {r : Int} {u : Unit}

/-! ## Interest masks -/

theorem evtCtl_spec {op : CtlOp} {events : BitVec 32} (h : Returns (evtCtl n op events) s r t) :
    ∃ c, s.core.heap n = some c ∧
      ((r = 1 ∧ s.core.kq = true ∧ op.valid s.kernel c.fd ∧
        t.core = { s.core.set n { c with epollEvents := events } with
          epoll := Function.update s.core.epoll c.fd
            (if op = .del then none else some ⟨events, n⟩) }) ∨
      (r = 0 ∧ t.core = s.core ∧ ¬ (s.core.kq = true ∧ op.valid s.kernel c.fd ∧
        s.core.ctl s.kernel.tick = true))) := by
  simp only [evtCtl, evtRequest, returns_bind, returns_deref, returns_readMnet] at h
  obtain ⟨q, a, ⟨c, _, ⟨hc, rfl⟩, kq, _, ⟨rfl, rfl⟩, hctl⟩, h⟩ := h
  refine ⟨c.core, core_heap_some hc, ?_⟩
  rcases returns_ite.mp hctl with ⟨hkq, hctl⟩ | ⟨hkq, hctl⟩
  · obtain ⟨rfl, hv, ha⟩ | ⟨rfl, ha, hno⟩ := core_sysEpollCtl hctl
    · rcases returns_ite.mp h with ⟨hneg, _⟩ | ⟨_, h⟩
      · omega
      simp only [returns_bind, returns_pure] at h
      obtain ⟨_, b, hmod, rfl, rfl⟩ := h
      obtain ⟨d, hd, _, _, _, ht⟩ := core_modifyChann hmod
      have hd' := core_heap_some hd
      rw [ha] at hd'
      have hdc : d.core = c.core := by
        have := (core_heap_some hc).symm.trans hd'
        exact (Option.some.inj this).symm
      have hset : ({ d with epollEvents := events } : Chann).core =
          { c.core with epollEvents := events } := by rw [← hdc]; rfl
      refine .inl ⟨rfl, hkq, hv, ?_⟩
      rw [ht, hset, ha]
      rfl
    · rcases returns_ite.mp h with ⟨_, h⟩ | ⟨hneg, _⟩
      · obtain ⟨rfl, rfl⟩ := returns_pure.mp h
        exact .inr ⟨rfl, ha, fun hc => hno hc.2⟩
      · omega
  · obtain ⟨rfl, rfl⟩ := returns_pure.mp hctl
    rcases returns_ite.mp h with ⟨_, h⟩ | ⟨hneg, _⟩
    · obtain ⟨rfl, rfl⟩ := returns_pure.mp h
      exact .inr ⟨rfl, rfl, fun hc => hkq hc.1⟩
    · omega

theorem addedMask_ne_zero {old : BitVec 32} {set : EvtSet} (h : set ≠ .del) :
    addedMask old set ≠ 0 := by
  cases set with
  | read | write =>
    intro h0
    simp only [addedMask] at h0
    have := (BitVec.or_eq_zero_iff.mp h0).2
    exact absurd this (by decide)
  | del => exact absurd rfl h

/-- Adding interest works exactly on a suitable request that the kernel grants. -/
theorem evtAdd_spec {set : EvtSet} (hset : set ≠ .del) (h : Returns (evtAdd n set) s r t) :
    ∃ c, s.core.heap n = some c ∧
      ((r = 1 ∧ s.core.kq = true ∧ 0 ≤ c.fd ∧ (c.epollEvents = 0 ↔ s.core.epoll c.fd = none) ∧
        t.core = s.core.interest n c (addedMask c.epollEvents set)) ∨
      (r = 0 ∧ t.core = s.core ∧ ¬ (s.core.kq = true ∧ 0 ≤ c.fd ∧
        (c.epollEvents = 0 ↔ s.core.epoll c.fd = none) ∧
        s.core.ctl s.kernel.tick = true))) := by
  simp only [evtAdd, returns_bind, returns_deref, and_assoc, exists_and_left, exists_eq_left] at h
  obtain ⟨d, hd, h⟩ := h
  obtain ⟨c, hc, h⟩ := evtCtl_spec h
  rw [core_heap_some hd] at hc
  cases hc
  have hvalid : (if d.epollEvents ≠ 0 then CtlOp.mod else .add).valid s.kernel d.core.fd ↔
      0 ≤ d.core.fd ∧ (d.core.epollEvents = 0 ↔ s.core.epoll d.core.fd = none) := by
    have he : s.core.epoll d.core.fd = s.kernel.epoll d.core.fd := rfl
    have hm : d.core.epollEvents = d.epollEvents := rfl
    rw [he, hm]
    by_cases h0 : d.epollEvents = 0
    · rw [if_neg (not_not.mpr h0)]
      simp [h0, CtlOp.valid]
    · rw [if_pos h0]
      simp [show ¬ d.epollEvents = 0#32 from h0, CtlOp.valid]
  refine ⟨d.core, core_heap_some hd, ?_⟩
  rw [hvalid] at h
  rcases h with ⟨hr, hkq, ⟨hfd, he⟩, ht⟩ | ⟨hr, ht, hno⟩
  · refine .inl ⟨hr, hkq, hfd, he, ?_⟩
    have hop : (if d.epollEvents ≠ 0 then CtlOp.mod else .add) ≠ .del := by split <;> simp
    have hm : d.core.epollEvents = d.epollEvents := rfl
    rw [ht, Core.interest, if_neg hop, hm, if_neg (addedMask_ne_zero hset)]
  · exact .inr ⟨hr, ht, fun hc => hno ⟨hc.1, ⟨hc.2.1, hc.2.2.1⟩, hc.2.2.2⟩⟩

/-- Giving up interest works exactly on what is registered, when the kernel agrees. -/
theorem evtDel_spec {set : EvtSet} (h : Returns (evtDel n set) s r t) :
    ∃ c, s.core.heap n = some c ∧
      ((r = 1 ∧ s.core.kq = true ∧ s.core.epoll c.fd ≠ none ∧
        t.core = s.core.interest n c (deletedMask c.epollEvents set)) ∨
      (r = 0 ∧ t.core = s.core ∧ ¬ (s.core.kq = true ∧ 0 ≤ c.fd ∧ s.core.epoll c.fd ≠ none ∧
        s.core.ctl s.kernel.tick = true))) := by
  simp only [evtDel, returns_bind, returns_deref, and_assoc, exists_and_left, exists_eq_left] at h
  obtain ⟨d, hd, h⟩ := h
  obtain ⟨c, hc, h⟩ := evtCtl_spec h
  rw [core_heap_some hd] at hc
  cases hc
  have hvalid : (if deletedMask d.epollEvents set ≠ 0 then CtlOp.mod else .del).valid s.kernel
      d.core.fd ↔ 0 ≤ d.core.fd ∧ s.core.epoll d.core.fd ≠ none := by
    split <;> exact Iff.rfl
  refine ⟨d.core, core_heap_some hd, ?_⟩
  rw [hvalid] at h
  have hm : d.core.epollEvents = d.epollEvents := rfl
  rcases h with ⟨hr, hkq, ⟨_, he⟩, ht⟩ | ⟨hr, ht, hno⟩
  · refine .inl ⟨hr, hkq, he, ?_⟩
    rw [ht, Core.interest, hm]
    simp
  · exact .inr ⟨hr, ht, fun hc => hno ⟨hc.1, ⟨hc.2.1, hc.2.2.1⟩, hc.2.2.2⟩⟩

/-- On a channel with a socket, adding interest is the act `watch`. -/
theorem evtAdd_steps {set : EvtSet} {c : CChann} (hset : set ≠ .del) (hn : s.core.heap n = some c)
    (ha : c.state.active) (h : Returns (evtAdd n set) s r t) :
    Steps {.watch n set} s.core t.core := by
  obtain ⟨d, hd, ⟨_, hkq, _, he, ht⟩ | ⟨_, ht, _⟩⟩ := evtAdd_spec hset h
  · rw [hn] at hd
    cases hd
    rw [ht]
    exact .single (.watch hn ha hkq he hset) rfl
  · exact .of_eq ht

/-- A channel without a descriptor gets no interest. -/
theorem evtAdd_of_neg {set : EvtSet} {c : CChann} (hset : set ≠ .del) (hn : s.core.heap n = some c)
    (hfd : c.fd < 0) (h : Returns (evtAdd n set) s r t) : t.core = s.core := by
  obtain ⟨d, hd, ⟨_, _, hpos, _⟩ | ⟨_, ht, _⟩⟩ := evtAdd_spec hset h
  · rw [hn] at hd
    cases hd
    omega
  · exact ht

theorem evtDel_steps {set : EvtSet} {c : CChann} (hn : s.core.heap n = some c)
    (ha : c.state.active) (hgo : c.state = .connecting ∨ c.rwbSend = [])
    (h : Returns (evtDel n set) s r t) : Steps {.unwatch n set} s.core t.core := by
  obtain ⟨d, hd, ⟨_, hkq, he, ht⟩ | ⟨_, ht, _⟩⟩ := evtDel_spec h
  · rw [hn] at hd
    cases hd
    rw [ht]
    exact .single (.unwatch hn ha hkq he hgo) rfl
  · exact .of_eq ht

/-- Interest is all that `watch` and `unwatch` change. -/
theorem Steps.keeps_channel {A : Set Act} {k k' : Core} {c : CChann} {set : EvtSet}
    (hA : A ⊆ {.watch n set, .unwatch n set}) (h : Steps A k k') (hn : k.heap n = some c) :
    ∃ d, k'.heap n = some d ∧ d.state = c.state ∧ d.fd = c.fd ∧ d.rwbSend = c.rwbSend ∧
      d.activeSendEvent = c.activeSendEvent ∧ d.ctype = c.ctype := by
  refine h.keeps (I := fun k => ∃ d, k.heap n = some d ∧ d.state = c.state ∧ d.fd = c.fd ∧
    d.rwbSend = c.rwbSend ∧ d.activeSendEvent = c.activeSendEvent ∧ d.ctype = c.ctype) ?_
    ⟨c, hn, rfl, rfl, rfl, rfl, rfl⟩
  intro a k k' ha hs ⟨d, hd, hrest⟩
  rcases hA ha with rfl | rfl
  · cases hs with
    | watch hn' =>
      rw [hd] at hn'
      cases hn'
      exact ⟨_, Function.update_self .., hrest⟩
  · cases hs with
    | unwatch hn' =>
      rw [hd] at hn'
      cases hn'
      exact ⟨_, Function.update_self .., hrest⟩

/-! ## Polling -/

/-- What freeing the closed channels consists of. -/
def reapActs : Set Act := {a | ∃ n, a = .disarm n ∨ a = .destroy n}

theorem channDestroy_steps (hb : Base s.core) (h : Returns (channDestroy n) s u t) :
    Steps reapActs s.core t.core := by
  obtain ⟨c, _, ⟨_, ht⟩ | ⟨_, _, _, hs⟩⟩ := channDestroy_spec hb h
  · exact .of_eq ht
  · exact hs.mono (by rintro a (rfl | rfl) <;> exact ⟨n, by simp⟩)

theorem evtDelLoop_steps {fuel : Nat} {p : Option ChannId} (hb : Base s.core)
    (h : Returns (evtDelLoop fuel p) s u t) : Steps reapActs s.core t.core := by
  induction fuel generalizing s p with
  | zero =>
    cases p with
    | none => exact .of_eq (congrArg Sys.core (returns_pure.mp h).2)
    | some n => exact absurd h returns_fail
  | succ fuel ih =>
    cases p with
    | none => exact .of_eq (congrArg Sys.core (returns_pure.mp h).2)
    | some n =>
      simp only [evtDelLoop, returns_bind, returns_deref, and_assoc, exists_and_left,
        exists_eq_left] at h
      obtain ⟨c, _, _, a, hdes, h⟩ := h
      have hs := channDestroy_steps hb hdes
      exact hs.trans (ih (hs.base hb) h)

theorem evtDelChanns_spec (hb : Base s.core) (h : Returns evtDelChanns s u t) :
    ∃ k, Steps reapActs s.core k ∧ CStep k .reaped t.core := by
  simp only [evtDelChanns, walkFuel, returns_bind, returns_readMnet, returns_read] at h
  obtain ⟨_, _, ⟨rfl, rfl⟩, _, _, ⟨rfl, rfl⟩, _, a, hloop, hdel⟩ := h
  obtain ⟨_, _, _, ht⟩ := core_modifyMnet hdel
  refine ⟨a.core, evtDelLoop_steps hb hloop, ?_⟩
  rw [ht]
  exact .reaped

/-- The parts of a poll, and what it returns unless it fails. -/
theorem evtPoll_parts (h : Returns evtPoll s r t) :
    ∃ a k, Returns evtDelChanns s () a ∧ CStep a.core .schedule k ∧ CStep k .batch t.core ∧
      (r = -1 ∨ r = t.core.channCount) := by
  simp only [evtPoll, readErrno, returns_bind, returns_read] at h
  obtain ⟨_, a, hdel, _, b, hsched, recs, _, hwait, e, c, ⟨rfl, rfl⟩, h⟩ := h
  obtain ⟨hc, hrecs⟩ := core_sysEpollWait hwait
  refine ⟨a, b.core, hdel, tmSchedule_spec hsched, ?_⟩
  rw [← hc]
  cases recs with
  | none =>
    simp only [returns_bind] at h
    obtain ⟨_, d, hset, h⟩ := h
    obtain ⟨_, _, _, hd⟩ := core_modifyMnet hset
    have hbatch : CStep c.core .batch d.core := by
      rw [hd]
      exact .noBatch
    rcases returns_ite.mp h with ⟨_, h⟩ | ⟨_, h⟩
    · obtain ⟨hr, ht⟩ := returns_pure.mp h
      rw [ht]
      exact ⟨hbatch, .inl hr⟩
    · obtain ⟨hr, ht⟩ := returns_readMnet.mp h
      rw [ht]
      exact ⟨hbatch, .inr hr⟩
  | some evts =>
    simp only [returns_bind, returns_readMnet] at h
    obtain ⟨_, d, hset, rfl, rfl⟩ := h
    obtain ⟨_, _, _, hd⟩ := core_modifyMnet hset
    refine ⟨?_, .inr rfl⟩
    rw [hd]
    exact .batch (by rw [hc]; exact hrecs evts rfl)

/-- A poll frees the closed channels, puts the cursor in place and takes a new batch. -/
theorem evtPoll_spec (hb : Base s.core) (h : Returns evtPoll s r t) :
    ∃ k k' k'', Steps reapActs s.core k ∧ CStep k .reaped k' ∧ CStep k' .schedule k'' ∧
      CStep k'' .batch t.core := by
  obtain ⟨a, k'', hdel, hsched, hbatch, _⟩ := evtPoll_parts h
  obtain ⟨k, hk, hreap⟩ := evtDelChanns_spec hb hdel
  exact ⟨k, a.core, k'', hk, hreap, hsched, hbatch⟩

/-! ## Timers and the queue of the message loop -/

/-- What delivering timers consists of. -/
def timerActs : Set Act := {a | a = .park ∨ ∃ n, a = .fire n ∨ a = .slot n ∨ a = .disconnect n}

/-- The cursor on a timer that is due: the act `fire`. -/
theorem fire_spec {clock : List TmNode} {node : TmNode} {a b : Sys ε} {interval : Int}
    (hb : Base s.core) (hclock : s.core.tmClock = some clock)
    (hpos : s.core.tmPos = some (.node node.id)) (hf : skiplistFind clock node.id = some node)
    (hdue : node.tm.time ≤ s.core.tmCurrent)
    (ha : a.core = { s.core with tmPos := some (skiplistNext clock node.id) })
    (h : Returns (tmUpdate node.tm.chann interval) a u b) :
    CStep s.core (.fire node.tm.chann) b.core := by
  obtain ⟨c, clock', node', tm, hn, hclock', hf', htn, htm, hcore⟩ := tmUpdate_spec h
  rw [ha] at hn hclock'
  have hcl : clock' = clock := Option.some.inj (hclock'.symm.trans hclock)
  subst hcl
  have ht := hb.timed_some hclock
  -- the channel's own node is the one the cursor was on
  have hid := ht.unique hn (skiplistFind_some hf).1 rfl
  rw [htn, Option.some.injEq] at hid
  rw [hid, hf, Option.some.injEq] at hf'
  subst hf'
  rw [hcore, ha]
  exact .fire hn htn hclock hf rfl htm hpos hdue

/-- A round of the loop of `_tm_next`. -/
theorem tmNext_cases {fuel : Nat} {p : Option ChannId} (h : Returns (tmNext x (fuel + 1)) s p t) :
    (p = none ∧ t = s ∧ (s.mnet.tmPos = none ∨ s.mnet.tmPos = some .head)) ∨
      ∃ clock node, s.mnet.tmClock = some clock ∧ s.mnet.tmPos = some (.node node.id) ∧
        skiplistFind clock node.id = some node ∧
        ((p = none ∧ s.mnet.tmCurrent < node.tm.time ∧ t = { s with mnet := { s.mnet with tmPos := none } }) ∨
          (node.tm.time ≤ s.mnet.tmCurrent ∧ ∃ a pass b,
            Returns (tmUpdate node.tm.chann node.tm.interval)
              { s with mnet := { s.mnet with tmPos := some (skiplistNext clock node.id) } } () a ∧
            Returns (channMsg x node.tm.chann .timer none 0) a pass b ∧
            ((pass = true ∧ p = some node.tm.chann ∧ t = b) ∨
              (pass = false ∧ Returns (tmNext x fuel) b p t)))) := by
  simp only [tmNext, returns_bind, returns_readMnet, and_assoc, exists_and_left, exists_eq_left] at h
  cases hpos : s.mnet.tmPos with
  | none =>
    rw [hpos] at h
    obtain ⟨rfl, rfl⟩ := returns_pure.mp h
    exact .inl ⟨rfl, rfl, .inl rfl⟩
  | some l =>
    rw [hpos] at h
    cases l with
    | head =>
      obtain ⟨rfl, rfl⟩ := returns_pure.mp h
      exact .inl ⟨rfl, rfl, .inr rfl⟩
    | node id =>
      simp only [derefNode, derefClock, setTmPos, returns_bind, returns_readMnet, returns_require,
        returns_modifyMnet, and_assoc, exists_and_left, exists_eq_left] at h
      obtain ⟨clock, hclock, node, _, ⟨clock', hclock', hfind, rfl⟩, _, h⟩ := h
      rw [hclock, Option.some.injEq] at hclock'
      subst hclock'
      obtain rfl : node.id = id := (skiplistFind_some hfind).2
      refine .inr ⟨clock, node, hclock, rfl, hfind, ?_⟩
      rcases returns_ite.mp h with ⟨hdue, h⟩ | ⟨hlate, h⟩
      · simp only [returns_bind] at h
        obtain ⟨_, a, hup, pass, b, hmsg, h⟩ := h
        refine .inr ⟨hdue, a, pass, b, hup, hmsg, ?_⟩
        cases pass with
        | true =>
          obtain ⟨rfl, rfl⟩ := returns_pure.mp h
          exact .inl ⟨rfl, rfl, rfl⟩
        | false => exact .inr ⟨rfl, h⟩
      · simp only [returns_bind, returns_modifyMnet, returns_pure] at h
        obtain ⟨_, _, rfl, rfl, rfl⟩ := h
        exact .inl ⟨rfl, Int.not_le.mp hlate, rfl⟩

theorem tmNext_steps (hx : Tame x) {fuel : Nat} {q : Option ChannId} (hb : Base s.core)
    (h : Returns (tmNext x fuel) s q t) : Steps timerActs s.core t.core := by
  induction fuel generalizing s with
  | zero => exact absurd h returns_fail
  | succ fuel ih =>
    obtain ⟨_, rfl, _⟩ | ⟨clock, node, hclock, hpos, hf, hcases⟩ := tmNext_cases h
    · exact .of_eq rfl
    · obtain ⟨_, _, rfl⟩ | ⟨hdue, a, pass, b, hupd, hmsg, hnext⟩ := hcases
      · exact .single .park (.inl rfl)
      · have hfire : CStep s.core (.fire node.tm.chann) a.core :=
          fire_spec hb hclock hpos hf hdue rfl hupd
        obtain ⟨c, hn, _, hrest⟩ := channMsg_spec hx (hb.step hfire) hmsg
        have hslot := CStep.slot (msgOf node.tm.chann c .timer none 0) (core_heap_some hn)
          fun _ => rfl
        have hs : Steps timerActs s.core b.core := by
          refine (Steps.single hfire ?_).trans ((Steps.single hslot ?_).trans (hrest.mono ?_))
          · exact .inr ⟨_, .inl rfl⟩
          · exact .inr ⟨_, .inr (.inl rfl)⟩
          · rintro a (rfl | rfl)
            · exact .inr ⟨_, .inr (.inl rfl)⟩
            · exact .inr ⟨_, .inr (.inr rfl)⟩
        obtain ⟨_, _, rfl⟩ | ⟨_, hnext⟩ := hnext
        · exact hs
        · exact hs.trans (ih (hs.base hb) hnext)

theorem disNext_spec {q : Option ChannId} (h : Returns disNext s q t) :
    (q = none ∧ s.core.disChanns = none ∧ t = s) ∨
    (∃ n, q = some n ∧ CStep s.core (.deliver n) t.core) := by
  simp only [disNext, returns_bind, returns_readMnet] at h
  obtain ⟨head, _, ⟨hhead, rfl⟩, h⟩ := h
  cases head with
  | none =>
    obtain ⟨rfl, rfl⟩ := returns_pure.mp h
    exact .inl ⟨rfl, hhead.symm, rfl⟩
  | some n =>
    simp only [returns_bind, returns_deref, returns_pure, and_assoc, exists_and_left,
      exists_eq_left] at h
    obtain ⟨c, hc, _, a, hset, rfl, rfl⟩ := h
    obtain ⟨_, _, _, ht⟩ := core_modifyMnet hset
    refine .inr ⟨n, rfl, ?_⟩
    rw [ht]
    exact .deliver hhead.symm (core_heap_some hc)

/-! ## Records -/

/-- What handling a record of `n` consists of; `m` is the channel it may accept. -/
def recordActs (n m : ChannId) : Set Act :=
  {a | a = .slot n ∨ a = .disconnect n ∨ a = .established n ∨ a = .unwatch n .write ∨
    a = .watch n .read ∨ (∃ i, a = .flush n i) ∨ (∃ fd, a = .leak fd) ∨ (∃ fd, a = .accept m fd) ∨
    a = .disconnect m ∨ a = .watch m .read}

theorem msgActs_subset (n m : ChannId) : {.slot n, .disconnect n} ⊆ recordActs n m := by
  rintro a (rfl | rfl) <;> simp [recordActs]

/-- A message is reported for the channel it is about, or dropped. -/
theorem emit_spec (hx : Tame x) (hb : Base s.core) {event : ChannEvent} {q : Option ChannId}
    {err : Int} {p : Pass} (h : Returns (emit x n event q err) s p t) :
    ∃ c, s.heap n = some c ∧ (p = .ret (some n) ∨ p = .next) ∧
      Steps {.slot n, .disconnect n} s.core t.core ∧
      (c.ctype ≤ CHANN_TYPE_BROADCAST → p = .ret (some n) ∧
        t = s.setChann n { c with msg := msgOf n c event q err }) := by
  simp only [emit, returns_bind, returns_pure] at h
  obtain ⟨pass, a, hmsg, rfl, rfl⟩ := h
  obtain ⟨c, hc, hbuiltin, hrest⟩ := channMsg_spec hx hb hmsg
  have hslot := CStep.slot (msgOf n c event q err) (core_heap_some hc) fun _ => rfl
  refine ⟨c, hc, by cases pass <;> simp, (Steps.single hslot (.inl rfl)).trans hrest, fun hle => ?_⟩
  obtain ⟨rfl, ht⟩ := hbuiltin hle
  exact ⟨rfl, ht⟩

theorem emit_steps (hx : Tame x) (hb : Base s.core) {event : ChannEvent} {q : Option ChannId}
    {err : Int} {p : Pass} (h : Returns (emit x n event q err) s p t) :
    Steps {.slot n, .disconnect n} s.core t.core := by
  obtain ⟨_, _, _, hs, _⟩ := emit_spec hx hb h
  exact hs

/-- An accepted channel has its descriptor, or none at all. -/
theorem accepted_heap {k k' k'' : Core} {m : ChannId} {fd : Int} (hb : Base k)
    (hacc : CStep k (.accept m fd) k') (h : Steps {.disconnect m} k' k'') :
    ∃ d, k''.heap m = some d ∧ (d.state.active ∨ d.fd < 0) := by
  refine h.keeps (I := fun k => ∃ d, k.heap m = some d ∧ (d.state.active ∨ d.fd < 0)) ?_ ?_
  · rintro a k k' rfl hs ⟨d, hd, _⟩
    cases hs with
    | disconnect hn => exact ⟨_, Function.update_self .., .inr (Int.negSucc_lt_zero 0)⟩
  · cases hacc with
    | accept hm hpos hnone =>
      exact ⟨_, Core.push_heap (hb.openFd hnone), .inl trivial⟩

/-- What accepting a channel consists of. -/
def acceptActs (n m : ChannId) : Set Act :=
  {a | a = .slot n ∨ a = .disconnect n ∨ (∃ fd, a = .leak fd) ∨ (∃ fd, a = .accept m fd) ∨
    a = .disconnect m ∨ a = .watch m .read}

/-- A record for a listening channel: a new channel with interest for reading, or a datagram. -/
theorem evtListening_spec (hx : Tame x) (hb : Base s.core) {raw : Nat} {p : Pass}
    (h : Returns (evtListening x n raw) s p t) :
    Steps (acceptActs n s.core.nextChann) s.core t.core := by
  have hmsg : {.slot n, .disconnect n} ⊆ acceptActs n s.core.nextChann := by
    rintro a (rfl | rfl) <;> simp [acceptActs]
  simp only [evtListening] at h
  rcases returns_ite.mp h with ⟨_, h⟩ | ⟨_, h⟩
  · simp only [returns_bind] at h
    obtain ⟨q, a, hacc, h⟩ := h
    obtain ⟨rfl, ha⟩ | ⟨m, fd, k, rfl, hstep, hdis⟩ := channAccept_spec hx hb hacc
    · rw [(returns_pure.mp h).2]
      rcases ha with ha | ⟨fd, ha⟩
      · exact .of_eq ha
      · exact .single ha (by simp [acceptActs])
    · simp only [returns_bind] at h
      obtain ⟨r, b, hadd, hemit⟩ := h
      have hm : m = s.core.nextChann := by cases hstep; rfl
      have ha : Steps (acceptActs n s.core.nextChann) s.core a.core := by
        refine (Steps.single hstep ?_).trans (hdis.mono ?_)
        · simp [acceptActs, hm]
        · rintro _ rfl
          simp [acceptActs, hm]
      have hba := ha.base hb
      obtain ⟨d, hd, hactive⟩ := accepted_heap hb hstep hdis
      have hab : Steps (acceptActs n s.core.nextChann) a.core b.core := by
        rcases hactive with hact | hneg
        · refine (evtAdd_steps (by simp) hd hact hadd).mono ?_
          rintro _ rfl
          simp [acceptActs, hm]
        · exact .of_eq (evtAdd_of_neg (by simp) hd hneg hadd)
      exact (ha.trans hab).trans
        ((emit_steps hx (hab.base hba) hemit).mono hmsg)
  · exact (emit_steps hx hb h).mono hmsg

theorem evtListening_steps (hx : Tame x) (hb : Base s.core) {raw : Nat} {p : Pass}
    (h : Returns (evtListening x n raw) s p t) :
    Steps (recordActs n s.core.nextChann) s.core t.core := by
  refine (evtListening_spec hx hb h).mono fun a ha => ?_
  obtain rfl | rfl | ⟨fd, rfl⟩ | ⟨fd, rfl⟩ | rfl | rfl := ha <;> simp [recordActs]

theorem evtConnecting_steps (hx : Tame x) (hb : Base s.core) {c : CChann} {p : Pass}
    (hn : s.core.heap n = some c) (hst : c.state = .connecting)
    (h : Returns (evtConnecting x n) s p t) :
    Steps (recordActs n s.core.nextChann) s.core t.core := by
  simp only [evtConnecting, returns_bind, returns_deref, and_assoc, exists_and_left,
    exists_eq_left] at h
  obtain ⟨_, _, opt, a, hopt, h⟩ := h
  have ha := core_sysSockError hopt
  have hba : Base a.core := ha ▸ hb
  have hna : a.core.heap n = some c := ha ▸ hn
  have hact : c.state.active := by rw [hst]; trivial
  rw [← ha]
  rcases returns_ite.mp h with ⟨_, h⟩ | ⟨_, h⟩
  · simp only [returns_bind] at h
    obtain ⟨_, b, hdel, _, d, hadd, _, e, hmod, hemit⟩ := h
    have hab := evtDel_steps hna hact (.inl hst) hdel
    obtain ⟨c₁, hc₁, hst₁, _⟩ := hab.keeps_channel (by rintro _ rfl; exact .inr rfl) hna
    have hbd := evtAdd_steps (by simp) hc₁ (by rw [hst₁]; exact hact) hadd
    obtain ⟨c₂, hc₂, hst₂, _⟩ := hbd.keeps_channel (by rintro _ rfl; exact .inl rfl) hc₁
    obtain ⟨c₃, hc₃, _, _, _, he⟩ := core_modifyChann hmod
    rw [core_heap_some hc₃, Option.some.injEq] at hc₂
    have hest : CStep d.core (.established n) e.core := by
      rw [he]
      refine CStep.established (core_heap_some hc₃) ?_
      rw [hc₂, hst₂, hst₁, hst]
    have hs : Steps (recordActs n a.core.nextChann) a.core e.core := by
      refine (hab.mono ?_).trans ((hbd.mono ?_).trans (.single hest (by simp [recordActs])))
      · rintro _ rfl
        simp [recordActs]
      · rintro _ rfl
        simp [recordActs]
    exact hs.trans ((emit_steps hx (hs.base hba) hemit).mono (msgActs_subset _ _))
  · simp only [returns_bind] at h
    obtain ⟨_, b, hdis, hemit⟩ := h
    have hab := channDisconnectSocket_steps hx.ops hba hdis
    exact (hab.mono (by rintro _ rfl; simp [recordActs])).trans
      ((emit_steps hx (hab.base hba) hemit).mono (msgActs_subset _ _))

theorem evtConnected_steps (hx : Tame x) (hb : Base s.core) {c : CChann} {kev : Kev} {p : Pass}
    (hn : s.core.heap n = some c) (hst : c.state = .connected)
    (h : Returns (evtConnected x n kev) s p t) :
    Steps (recordActs n s.core.nextChann) s.core t.core := by
  simp only [evtConnected] at h
  rcases returns_ite.mp h with ⟨_, h⟩ | ⟨_, h⟩
  · exact (emit_steps hx hb h).mono (msgActs_subset _ _)
  rcases returns_ite.mp h with ⟨_, h⟩ | ⟨_, h⟩
  · simp only [returns_bind] at h
    obtain ⟨sent, a, hflush, h⟩ := h
    obtain ⟨⟨hfl, d, hd, hdst⟩, hempty⟩ := channSendedRwb_spec hx hb hn hst hflush
    have ha : Steps (recordActs n s.core.nextChann) s.core a.core := by
      refine hfl.mono ?_
      rintro _ ⟨i, rfl⟩
      simp [recordActs]
    have hba := ha.base hb
    rcases returns_ite.mp h with ⟨hsent, h⟩ | ⟨_, h⟩
    · simp only [returns_bind, returns_deref, and_assoc, exists_and_left, exists_eq_left] at h
      obtain ⟨e, he, h⟩ := h
      rcases returns_ite.mp h with ⟨_, h⟩ | ⟨_, h⟩
      · exact ha.trans ((emit_steps hx hba h).mono (msgActs_subset _ _))
      · simp only [returns_bind, returns_pure] at h
        obtain ⟨_, b, hdel, _, rfl⟩ := h
        refine ha.trans ((evtDel_steps hd (by rw [hdst]; trivial) (.inr (hempty hsent d hd)) hdel).mono ?_)
        rintro _ rfl
        simp [recordActs]
    · rw [(returns_pure.mp h).2]
      exact ha
  · exact .of_eq (congrArg Sys.core (returns_pure.mp h).2)

/-- A record is dropped, tells of an error, or is handled by the state of its channel. -/
theorem evtDispatch_cases {kev : Kev} {p : Pass} (h : Returns (evtDispatch x kev) s p t) :
    ∃ n c, kev.ptr = some n ∧ s.heap n = some c ∧
      (((c.state = .closed ∨ c.fd < 0) ∧ p = .next ∧ t = s) ∨
       (c.state ≠ .closed ∧ 0 ≤ c.fd ∧ kev.events &&& (EPOLLERR ||| (EPOLLRDHUP ||| EPOLLHUP)) ≠ 0 ∧
          ∃ a b r err, a.core = s.core ∧ Returns (channDisconnectSocket (opsOf x) n) a r b ∧
            Returns (emit x n .disconnect none err) b p t ∧
            (a = s ∨ ∃ q, Returns (sysSockError c.fd) s q a)) ∨
       (c.state ≠ .closed ∧ 0 ≤ c.fd ∧ kev.events &&& (EPOLLERR ||| (EPOLLRDHUP ||| EPOLLHUP)) = 0 ∧
          ((c.state = .listening ∧
              Returns (evtListening x n ((extConfig x c.ctype).typeFn c.ctype)) s p t) ∨
           (c.state = .connecting ∧ Returns (evtConnecting x n) s p t) ∨
           (c.state = .connected ∧ Returns (evtConnected x n kev) s p t) ∨
           (c.state = .disconnect ∧ p = .next ∧ t = s)))) := by
  simp only [evtDispatch, returns_bind, returns_require, returns_deref, and_assoc, exists_and_left,
    exists_eq_left] at h
  obtain ⟨n, hn, c, hc, h⟩ := h
  refine ⟨n, c, hn, hc, ?_⟩
  rcases returns_ite.mp h with ⟨hgone, h⟩ | ⟨hlive, h⟩
  · obtain ⟨rfl, rfl⟩ := returns_pure.mp h
    exact .inl ⟨hgone, rfl, rfl⟩
  obtain ⟨hst, hfd⟩ := not_or.mp hlive
  have hfd' : 0 ≤ c.fd := Int.not_lt.mp hfd
  rcases returns_ite.mp h with ⟨herr, h⟩ | ⟨herr, h⟩
  · refine .inr (.inl ⟨hst, hfd', herr, ?_⟩)
    rcases returns_ite.mp h with ⟨_, h⟩ | ⟨_, h⟩
    · simp only [channGetErr, returns_bind, returns_deref, returns_pure, and_assoc,
        exists_and_left, exists_eq_left] at h
      obtain ⟨err, a, ⟨d, hd, q, b, hq, rfl, rfl⟩, r, e, hdis, hemit⟩ := h
      rw [hc] at hd
      cases hd
      exact ⟨a, e, r, _, core_sysSockError hq, hdis, hemit, .inr ⟨q, hq⟩⟩
    · simp only [returns_bind] at h
      obtain ⟨r, a, hdis, hemit⟩ := h
      exact ⟨s, a, r, _, rfl, hdis, hemit, .inl rfl⟩
  · refine .inr (.inr ⟨hst, hfd', not_not.mp herr, ?_⟩)
    cases hs : c.state with
    | closed => exact absurd hs hst
    | listening => rw [hs] at h; exact .inl ⟨rfl, h⟩
    | connecting => rw [hs] at h; exact .inr (.inl ⟨rfl, h⟩)
    | connected => rw [hs] at h; exact .inr (.inr (.inl ⟨rfl, h⟩))
    | disconnect =>
      rw [hs] at h
      obtain ⟨rfl, rfl⟩ := returns_pure.mp h
      exact .inr (.inr (.inr ⟨rfl, rfl, rfl⟩))

/-- The socket is torn down, and its end reported. -/
theorem evtDown_steps (hx : Tame x) (hb : Base s.core) {a b : Sys ε} {r err : Int} {p : Pass}
    (ha : a.core = s.core) (hdis : Returns (channDisconnectSocket (opsOf x) n) a r b)
    (hemit : Returns (emit x n .disconnect none err) b p t) :
    Steps {.slot n, .disconnect n} s.core t.core := by
  have hs := channDisconnectSocket_steps hx.ops (ha ▸ hb) hdis
  rw [ha] at hs
  exact (hs.mono fun _ ha => .inr ha).trans (emit_steps hx (hs.base hb) hemit)

/-- Handling a record acts on the channel the record points to, and on one it accepts. -/
theorem evtDispatch_steps (hx : Tame x) (hb : Base s.core) {kev : Kev} {p : Pass}
    (h : Returns (evtDispatch x kev) s p t) :
    ∃ n, kev.ptr = some n ∧ Steps (recordActs n s.core.nextChann) s.core t.core := by
  obtain ⟨n, c, hn, hc, ⟨_, _, rfl⟩ | ⟨_, _, _, a, b, r, err, ha, hdis, hemit, _⟩ |
    ⟨_, _, _, ⟨_, h⟩ | ⟨hst, h⟩ | ⟨hst, h⟩ | ⟨_, _, rfl⟩⟩⟩ := evtDispatch_cases h
  all_goals refine ⟨n, hn, ?_⟩
  · exact .refl _
  · exact (evtDown_steps hx hb ha hdis hemit).mono (msgActs_subset _ _)
  · exact evtListening_steps hx hb h
  · exact evtConnecting_steps hx hb (core_heap_some hc) hst h
  · exact evtConnected_steps hx hb (core_heap_some hc) hst h
  · exact .refl _

/-! ## The message loop -/

/-- With no timer due and nothing queued, the next record is fetched. -/
structure Fetches (x : ExtTable ε) (fuel : Nat) (s u : Sys ε) (kev : Kev) : Prop where
  quiet : ∃ a, Returns (tmNext x fuel) s none a ∧ a.mnet.disChanns = none ∧
    u = { a with mnet := { a.mnet with fdIndex := a.mnet.fdIndex + 1 } }
  lt : u.mnet.fdIndex < u.mnet.fdCount
  record : kev = u.mnet.evtArray.getD u.mnet.fdIndex.toNat {}

/-- A record is looked at when the queue is empty. -/
theorem Fetches.queue {fuel : Nat} {u : Sys ε} {kev : Kev} (h : Fetches x fuel s u kev) :
    u.mnet.disChanns = none := by
  obtain ⟨a, _, hnone, rfl⟩ := h.quiet
  exact hnone

/-- One round of the loop: a timer, a queued report, the end of the batch, or a record. -/
theorem evtPass_cases {fuel : Nat} {p : Pass} (h : Returns (evtPass x fuel) s p t) :
    (∃ n, p = .ret (some n) ∧ Returns (tmNext x fuel) s (some n) t) ∨
    (∃ n a, p = .ret (some n) ∧ Returns (tmNext x fuel) s none a ∧ Returns disNext a (some n) t) ∨
    (∃ a, p = .ret none ∧ Returns (tmNext x fuel) s none a ∧ a.mnet.disChanns = none ∧
      t = { a with mnet := { a.mnet with fdIndex := a.mnet.fdIndex + 1 } } ∧
      t.mnet.fdIndex ≥ t.mnet.fdCount) ∨
    (∃ u kev, Fetches x fuel s u kev ∧ Returns (evtDispatch x kev) u p t) := by
  simp only [evtPass, returns_bind] at h
  obtain ⟨tm, a, htm, h⟩ := h
  cases tm with
  | some n =>
    obtain ⟨rfl, rfl⟩ := returns_pure.mp h
    exact .inl ⟨n, rfl, htm⟩
  | none =>
    simp only [returns_bind] at h
    obtain ⟨dis, b, hdis, h⟩ := h
    cases dis with
    | some n =>
      obtain ⟨rfl, rfl⟩ := returns_pure.mp h
      exact .inr (.inl ⟨n, a, rfl, htm, hdis⟩)
    | none =>
      obtain ⟨_, hnone, rfl⟩ | ⟨n, hn, _⟩ := disNext_spec hdis
      · simp only [returns_bind, returns_modifyMnet, returns_readMnet] at h
        obtain ⟨_, _, rfl, ended, _, ⟨rfl, rfl⟩, h⟩ := h
        rcases returns_ite.mp h with ⟨hover, h⟩ | ⟨hover, h⟩
        · obtain ⟨rfl, rfl⟩ := returns_pure.mp h
          exact .inr (.inr (.inl ⟨b, rfl, htm, hnone, rfl, of_decide_eq_true hover⟩))
        · simp only [evtRecord, returns_bind, returns_readMnet] at h
          obtain ⟨kev, _, ⟨rfl, rfl⟩, h⟩ := h
          refine .inr (.inr (.inr ⟨_, _, ⟨⟨b, htm, hnone, rfl⟩, ?_, rfl⟩, h⟩))
          simpa using hover
      · cases hn

theorem disNext_none (h : s.mnet.disChanns = none) : Returns (disNext : M ε (Option ChannId)) s none s := by
  rw [disNext, (returns_readMnet.mpr ⟨rfl, rfl⟩).bind_iff, h]
  exact returns_pure.mpr ⟨rfl, rfl⟩

/-- A round that fetches a record handles it. -/
theorem Fetches.pass {fuel : Nat} {u : Sys ε} {kev : Kev} (h : Fetches x fuel s u kev) (p : Pass)
    (t : Sys ε) : Returns (evtPass x fuel) s p t ↔ Returns (evtDispatch x kev) u p t := by
  obtain ⟨⟨a, htm, hdis, rfl⟩, hlt, rfl⟩ := h
  have hmore : ¬ decide (a.mnet.fdIndex + 1 ≥ a.mnet.fdCount) = true := by simpa using hlt
  rw [evtPass, htm.bind_iff]
  simp only
  rw [(disNext_none hdis).bind_iff]
  simp only
  rw [(returns_modifyMnet (u := ()) |>.mpr rfl).bind_iff, (returns_readMnet.mpr ⟨rfl, rfl⟩).bind_iff, if_neg hmore,
    evtRecord, (returns_readMnet.mpr ⟨rfl, rfl⟩).bind_iff]

theorem tmNext_none (hpos : s.mnet.tmPos = none) (fuel : Nat) : Returns (tmNext x (fuel + 1)) s none s := by
  rw [tmNext, (returns_readMnet.mpr ⟨rfl, rfl⟩).bind_iff, hpos]
  exact returns_pure.mpr ⟨rfl, rfl⟩

/-- Without timers and queued reports the next record is fetched at once. -/
theorem fetches_idle {fuel : Nat} (hpos : s.mnet.tmPos = none) (hdis : s.mnet.disChanns = none)
    (hlt : s.mnet.fdIndex + 1 < s.mnet.fdCount) :
    Fetches x (fuel + 1) s { s with mnet := { s.mnet with fdIndex := s.mnet.fdIndex + 1 } }
      (s.mnet.evtArray.getD (s.mnet.fdIndex + 1).toNat {}) where
  quiet := ⟨s, tmNext_none hpos fuel, hdis, rfl⟩
  lt := hlt
  record := rfl

/-- What a round does before it comes to a record. -/
def idleActs : Set Act := {a | a ∈ timerActs ∨ (∃ n, a = .deliver n) ∨ a = .consume}

/-- Every act of the message loop. -/
def loopActs : Set Act :=
  {a | a ∈ timerActs ∨ (∃ n, a = .deliver n) ∨ a = .consume ∨ ∃ n m, a ∈ recordActs n m}

theorem Fetches.steps (hx : Tame x) {fuel : Nat} {u : Sys ε} {kev : Kev} (hb : Base s.core)
    (h : Fetches x fuel s u kev) : ∃ k, Steps timerActs s.core k ∧ k.disChanns = none ∧
      CStep k .consume u.core := by
  obtain ⟨a, htm, hnone, rfl⟩ := h.quiet
  exact ⟨a.core, tmNext_steps hx hb htm, hnone, .consume⟩

theorem Fetches.idle_steps (hx : Tame x) {fuel : Nat} {u : Sys ε} {kev : Kev} (hb : Base s.core)
    (h : Fetches x fuel s u kev) : Steps idleActs s.core u.core := by
  obtain ⟨k, hk, _, hcons⟩ := h.steps hx hb
  exact (hk.mono fun a ha => .inl ha).trans (.single hcons (.inr (.inr rfl)))

theorem idleActs_subset : idleActs ⊆ loopActs := by
  rintro a (ha | ha | ha)
  · exact .inl ha
  · exact .inr (.inl ha)
  · exact .inr (.inr (.inl ha))

/-- A round is over before it comes to a record, or handles the one it fetches. -/
theorem evtPass_split (hx : Tame x) {fuel : Nat} {p : Pass} (hb : Base s.core)
    (h : Returns (evtPass x fuel) s p t) : ((∃ q, p = .ret q) ∧ Steps idleActs s.core t.core) ∨
      ∃ u kev, Fetches x fuel s u kev ∧ Returns (evtDispatch x kev) u p t := by
  have htimer : ∀ {q : Option ChannId} {a : Sys ε}, Returns (tmNext x fuel) s q a →
      Steps idleActs s.core a.core := fun htm => (tmNext_steps hx hb htm).mono fun a ha => .inl ha
  obtain ⟨n, hp, htm⟩ | ⟨n, a, hp, htm, hdis⟩ | ⟨a, hp, htm, _, rfl, _⟩ | hrec := evtPass_cases h
  · exact .inl ⟨⟨_, hp⟩, htimer htm⟩
  · obtain ⟨hnone, _⟩ | ⟨m, _, hdel⟩ := disNext_spec hdis
    · cases hnone
    · exact .inl ⟨⟨_, hp⟩, (htimer htm).trans (.single hdel (.inr (.inl ⟨m, rfl⟩)))⟩
  · exact .inl ⟨⟨_, hp⟩, (htimer htm).trans (.single .consume (.inr (.inr rfl)))⟩
  · exact .inr hrec

theorem evtDispatch_loop (hx : Tame x) {kev : Kev} {p : Pass} (hb : Base s.core)
    (h : Returns (evtDispatch x kev) s p t) : Steps loopActs s.core t.core := by
  obtain ⟨n, _, hs⟩ := evtDispatch_steps hx hb h
  exact hs.mono fun a ha => .inr (.inr (.inr ⟨n, _, ha⟩))

theorem evtPass_steps (hx : Tame x) {fuel : Nat} {p : Pass} (hb : Base s.core)
    (h : Returns (evtPass x fuel) s p t) : Steps loopActs s.core t.core := by
  obtain ⟨_, hs⟩ | ⟨u, kev, hf, hd⟩ := evtPass_split hx hb h
  · exact hs.mono idleActs_subset
  · have hs := (hf.idle_steps hx hb).mono idleActs_subset
    exact hs.trans (evtDispatch_loop hx (hs.base hb) hd)

/-- The rounds the loop has made so far. -/
abbrev Rounds (x : ExtTable ε) (fuel : Nat) : Sys ε → Sys ε → Prop :=
  Relation.ReflTransGen fun a b => Returns (evtPass x fuel) a .next b

theorem Rounds.keeps {I : Sys ε → Prop} {fuel : Nat} (h : Rounds x fuel s t) (hs : I s)
    (hpass : ∀ a b, I a → Returns (evtPass x fuel) a .next b → I b) : I t := by
  induction h with
  | refl => exact hs
  | tail _ hab ih => exact hpass _ _ ih hab

/-- The loop goes on for some rounds, and returns from the one after them. -/
theorem evtLoop_rounds {fuel rounds : Nat} {q : Option ChannId} (h : Returns (evtLoop x fuel rounds) s q t) :
    ∃ a, Rounds x fuel s a ∧ Returns (evtPass x fuel) a (.ret q) t := by
  induction rounds generalizing s with
  | zero => exact absurd h returns_fail
  | succ rounds ih =>
    obtain ⟨p, a, hpass, h⟩ := returns_bind.mp h
    cases p with
    | ret q' =>
      obtain ⟨rfl, rfl⟩ := returns_pure.mp h
      exact ⟨s, .refl, hpass⟩
    | next =>
      obtain ⟨b, hb, hret⟩ := ih h
      exact ⟨b, .head hpass hb, hret⟩

/-- What every round keeps, the loop keeps. -/
theorem evtLoop_keeps {I : Sys ε → Prop} {fuel rounds : Nat} {q : Option ChannId} (hs : I s)
    (hpass : ∀ a p b, I a → Returns (evtPass x fuel) a p b → I b)
    (h : Returns (evtLoop x fuel rounds) s q t) : I t := by
  obtain ⟨a, ha, hret⟩ := evtLoop_rounds h
  exact hpass a _ t (ha.keeps hs fun a b => hpass a _ b) hret

theorem evtLoop_steps (hx : Tame x) {fuel rounds : Nat} {q : Option ChannId} (hb : Base s.core)
    (h : Returns (evtLoop x fuel rounds) s q t) : Steps loopActs s.core t.core := by
  refine (evtLoop_keeps (I := fun a => Base a.core ∧ Steps loopActs s.core a.core)
    ⟨hb, .refl _⟩ (fun a p b ⟨ha, hs⟩ hpass => ?_) h).2
  have hab := evtPass_steps hx ha hpass
  exact ⟨hab.base ha, hs.trans hab⟩

end MNet
