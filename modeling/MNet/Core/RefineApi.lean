import MNet.Core.RefineEvent

/-! # API calls as acts -/

namespace MNet
open MNet.Lib MNet.Lib.Exec

variable {ε : Type} {x : ExtTable ε} {s t : Sys ε} {n : ChannId} {r : Int} {u : Unit}

/-! ## The whole library -/

theorem evtInit_spec (h : Returns evtInit s u t) :
    (s.core.kq = true ∧ t.core = s.core) ∨ (s.core.kq = false ∧ CStep s.core .openQueue t.core) := by
  rw [evtInit, returns_modify] at h
  subst h
  cases hkq : s.mnet.kq with
  | true => exact .inl ⟨hkq, rfl⟩
  | false => exact .inr ⟨hkq, .openQueue hkq⟩

theorem evtFini_spec (h : Returns evtFini s u t) :
    (s.core.kq = false ∧ t.core = s.core) ∨ (s.core.kq = true ∧ CStep s.core .closeQueue t.core) := by
  rw [evtFini, returns_modify] at h
  subst h
  cases hkq : s.mnet.kq with
  | false => exact .inl ⟨hkq, rfl⟩
  | true => exact .inr ⟨hkq, .closeQueue hkq⟩

theorem mnetInit_steps (h : Returns mnetInit s r t) : Steps {.openQueue, .boot} s.core t.core := by
  simp only [mnetInit, returns_bind, returns_readMnet, and_assoc, exists_and_left,
    exists_eq_left] at h
  rcases returns_ite.mp h with ⟨_, h⟩ | ⟨hno, h⟩
  · exact .of_eq (congrArg Sys.core (returns_pure.mp h).2)
  · simp only [returns_bind, returns_pure] at h
    obtain ⟨_, a, hinit, _, b, hclock, _, c, hboot, _, rfl⟩ := h
    have hb := core_sysClock hclock
    obtain ⟨_, _, _, ht⟩ := core_modifyMnet hboot
    have hsa : Steps {.openQueue, .boot} s.core a.core ∧ a.core.isInit = s.core.isInit := by
      obtain ⟨_, ha⟩ | ⟨_, ha⟩ := evtInit_spec hinit
      · exact ⟨.of_eq ha, by rw [ha]⟩
      · refine ⟨.single ha (.inl rfl), ?_⟩
        generalize a.core = k at ha
        cases ha
        rfl
    have hboot : CStep b.core .boot t.core := by
      rw [ht]
      refine .boot ?_
      rw [hb, hsa.2]
      exact Bool.eq_false_iff.mpr hno
    rw [hb] at hboot
    exact hsa.1.trans (.single hboot (.inr rfl))

/-- What the shutdown consists of, up to the end of the channel list. -/
def finiActs : Set Act := {a | a ∈ reapActs ∨ ∃ n, a = .disconnect n ∨ a = .close n}

/-- What happens to one channel. -/
def downActs (n : ChannId) : Set Act := {.disconnect n, .close n, .disarm n, .destroy n}

theorem downActs_subset (n : ChannId) : downActs n ⊆ finiActs := by
  rintro _ (rfl | rfl | rfl | rfl)
  · exact .inr ⟨n, .inl rfl⟩
  · exact .inr ⟨n, .inr rfl⟩
  · exact .inl ⟨n, .inl rfl⟩
  · exact .inl ⟨n, .inr rfl⟩

/-- The first channel of the list is torn down and freed, and the second one is first. -/
theorem fini_step (hx : Tame x) (hb : Base s.core) {c : CChann} (hn : s.core.heap n = some c)
    (hhead : s.core.channs = some n) {a b : Sys ε} {r : Int} {u v : Unit}
    (hdis : Returns (channDisconnectSocket (opsOf x) n) s r a)
    (hclose : Returns (channCloseSocket (opsOf x) n) a u b) (hdes : Returns (channDestroy n) b v t) :
    Steps (downActs n) s.core t.core ∧ t.core.channs = c.next ∧ t.core.heap n = none := by
  have hact : Steps (downActs n) s.core a.core :=
    (channDisconnectSocket_steps hx.ops hb hdis).mono fun _ ha => .inl ha
  -- disconnecting and closing leave the lists alone
  obtain ⟨c₁, hc₁, hch₁, hnx₁, hcl₁⟩ : ∃ d, a.core.heap n = some d ∧ a.core.channs = some n ∧
      d.next = c.next ∧ ¬ d.state.active := by
    obtain ⟨d, hd, ⟨_, _, _, ha⟩ | ⟨hno, _, ha⟩⟩ := channDisconnectSocket_spec hx.ops hb hdis
    all_goals
      rw [core_heap_some hd] at hn
      cases hn
    · exact ⟨d.core.released, by rw [ha]; simp, by rw [ha]; exact hhead, rfl, id⟩
    · exact ⟨d.core, ha ▸ core_heap_some hd, ha ▸ hhead, rfl, hno⟩
  have hba := hact.base hb
  obtain ⟨hact₂, hch₂, c₂, hc₂, hst₂, hnx₂⟩ := channCloseSocket_steps hx.ops hc₁ hcl₁ hclose
  rw [hch₁] at hch₂
  rw [hnx₁] at hnx₂
  have hbb := hact₂.base hba
  obtain ⟨d, hd, ⟨hopen, _⟩ | ⟨_, hnone, hchanns, hfree⟩⟩ := channDestroy_spec hbb hdes
  all_goals
    rw [hc₂, Option.some.injEq] at hd
    subst hd
  · exact absurd hst₂ hopen
  · refine ⟨(hact.trans (hact₂.mono fun _ ha => .inr (.inl ha))).trans (hfree.mono ?_), ?_, hnone⟩
    · rintro _ (rfl | rfl) <;> simp [downActs]
    · obtain ⟨l, hl, _, _⟩ := hbb.reg.list
      rw [hch₂] at hl
      have hprev : c₂.prev = none := by
        cases hl with
        | cons hp _ =>
          rw [prevOf, hc₂] at hp
          exact hp
      rw [hchanns, Core.unlinked, hprev, ← hnx₂]

theorem finiLoop_spec (hx : Tame x) {fuel : Nat} {p : Option ChannId} (hb : Base s.core)
    (hp : s.core.channs = p) (h : Returns (finiLoop x fuel p) s u t) :
    Steps finiActs s.core t.core ∧ t.core.channs = none := by
  induction fuel generalizing s p with
  | zero =>
    cases p with
    | none =>
      rw [(returns_pure.mp h).2]
      exact ⟨.refl _, hp⟩
    | some n => exact absurd h returns_fail
  | succ fuel ih =>
    cases p with
    | none =>
      rw [(returns_pure.mp h).2]
      exact ⟨.refl _, hp⟩
    | some n =>
      simp only [finiLoop, returns_bind, returns_deref, and_assoc, exists_and_left,
        exists_eq_left] at h
      obtain ⟨c, hc, r, a, hdis, _, b, hclose, _, d, hdes, h⟩ := h
      obtain ⟨hs, hhead, _⟩ := fini_step hx hb (core_heap_some hc) hp hdis hclose hdes
      obtain ⟨hs', hnil⟩ := ih (hs.base hb) hhead h
      exact ⟨(hs.mono (downActs_subset n)).trans hs', hnil⟩

/-- A shutdown frees every channel and then forgets everything. -/
theorem mnetFini_spec (hx : Tame x) (hb : Base s.core) (h : Returns (mnetFini x) s u t) :
    (s.core.isInit = false ∧ t.core = s.core) ∨
      (s.core.isInit = true ∧ ∃ k, Steps finiActs s.core k ∧ CStep k .shutdown t.core) := by
  simp only [mnetFini, returns_bind, returns_readMnet, and_assoc, exists_and_left,
    exists_eq_left] at h
  rcases returns_ite.mp h with ⟨hinit, h⟩ | ⟨hinit, h⟩
  · simp only [walkFuel, returns_bind, returns_readMnet, returns_read, and_assoc, exists_and_left,
      exists_eq_left] at h
    obtain ⟨_, a, hloop, _, b, hfini, hwipe⟩ := h
    obtain ⟨hs, hnil⟩ := finiLoop_spec hx hb rfl hloop
    obtain ⟨_, _, _, ht⟩ := core_modifyMnet hwipe
    refine .inr ⟨hinit, a.core, hs, ?_⟩
    have hw : t.core = a.core.wiped := by
      obtain ⟨hkq, hbc⟩ | ⟨hkq, hbc⟩ := evtFini_spec hfini
      · rw [ht, hbc, Core.wiped, hkq]
        rfl
      · generalize b.core = k at hbc ht
        cases hbc
        rw [ht, Core.wiped, hkq]
        rfl
    rw [hw]
    exact .shutdown hnil
  · exact .inl ⟨Bool.eq_false_iff.mpr hinit, congrArg Sys.core (returns_pure.mp h).2⟩

/-! ## The event queue reset -/

/-- What `mnet_multi_reset_event` consists of. -/
def resetActs : Set Act :=
  {a | a = .closeQueue ∨ a = .openQueue ∨ ∃ n, a = .forget n ∨ a = .rewatch n}

theorem resetLoop_steps {fuel : Nat} {p : Option ChannId} (h : Returns (resetLoop fuel p) s u t) :
    Steps resetActs s.core t.core := by
  induction fuel generalizing s p with
  | zero =>
    cases p with
    | none => exact .of_eq (congrArg Sys.core (returns_pure.mp h).2)
    | some n => exact absurd h returns_fail
  | succ fuel ih =>
    cases p with
    | none => exact .of_eq (congrArg Sys.core (returns_pure.mp h).2)
    | some n =>
      simp only [resetLoop, returns_bind, returns_deref, and_assoc, exists_and_left,
        exists_eq_left] at h
      obtain ⟨_, a, hmod, _, b, hadd, _, _, h⟩ := h
      obtain ⟨c, hc, _, _, _, ha⟩ := core_modifyChann hmod
      have hforget : Steps resetActs s.core a.core := by
        rw [ha]
        exact .single (.forget (core_heap_some hc)) (.inr (.inr ⟨n, .inl rfl⟩))
      refine (hforget.trans ?_).trans (ih h)
      obtain ⟨d, hd, ⟨_, hkq, hfd, he, hb⟩ | ⟨_, hb, _⟩⟩ := evtAdd_spec (by simp) hadd
      · have hdz : d.epollEvents = 0 := by
          rw [ha, Core.set_heap, Function.update_self, Option.some.injEq] at hd
          rw [← hd]
          rfl
        rw [hb, hdz]
        exact .single (.rewatch hd hkq hfd (he.mp hdz)) (.inr (.inr ⟨n, .inr rfl⟩))
      · exact .of_eq hb

theorem mnetMultiResetEvent_steps (h : Returns mnetMultiResetEvent s u t) :
    Steps resetActs s.core t.core := by
  simp only [mnetMultiResetEvent, walkFuel, returns_bind, returns_readMnet, returns_read, and_assoc,
    exists_and_left, exists_eq_left] at h
  obtain ⟨_, a, hfini, _, b, hinit, hloop⟩ := h
  have ha : Steps resetActs s.core a.core := by
    obtain ⟨_, ha⟩ | ⟨_, ha⟩ := evtFini_spec hfini
    · exact .of_eq ha
    · exact .single ha (.inl rfl)
  have hb : Steps resetActs a.core b.core := by
    obtain ⟨_, hb⟩ | ⟨_, hb⟩ := evtInit_spec hinit
    · exact .of_eq hb
    · exact .single hb (.inr (.inl rfl))
  exact (ha.trans hb).trans (resetLoop_steps hloop)

/-! ## Channels -/

theorem mnetChannOpen_steps (hx : Tame x) {ctype : Nat} {q : Option ChannId}
    (h : Returns (mnetChannOpen x ctype) s q t) :
    t.core = s.core ∨ CStep s.core (.create s.core.nextChann ctype) t.core := by
  simp only [mnetChannOpen] at h
  rcases returns_ite.mp h with ⟨_, h⟩ | ⟨_, h⟩
  · exact .inl (congrArg Sys.core (returns_pure.mp h).2)
  simp only [returns_bind, returns_readMnet, and_assoc, exists_and_left, exists_eq_left] at h
  rcases returns_ite.mp h with ⟨_, h⟩ | ⟨_, h⟩
  · exact .inl (congrArg Sys.core (returns_pure.mp h).2)
  simp only [returns_bind, returns_pure] at h
  obtain ⟨n, a, hnew, _, b, hcb, _, rfl⟩ := h
  obtain ⟨_, _, ha⟩ := channCreate_spec hnew
  rw [(quiet_openCb hx ctype n).callback _ _ _ hcb, ha]
  exact .inr (.create ctype)

theorem mnetChannClose_steps (hx : Tame x) (hb : Base s.core)
    (h : Returns (mnetChannClose x (some n)) s u t) :
    Steps {.disconnect n, .close n} s.core t.core := by
  simp only [mnetChannClose, returns_bind, returns_deref, and_assoc, exists_and_left,
    exists_eq_left] at h
  obtain ⟨c, hc, h⟩ := h
  rcases returns_ite.mp h with ⟨_, h⟩ | ⟨_, h⟩
  · simp only [returns_bind] at h
    obtain ⟨r, a, hdis, hclose⟩ := h
    have hs := channDisconnectSocket_steps hx.ops hb hdis
    obtain ⟨d, hd, hno⟩ := channDisconnectSocket_inactive hx.ops hb hdis
    exact (hs.mono fun _ ha => .inl ha).trans
      ((channCloseSocket_steps hx.ops hd hno hclose).1.mono fun _ ha => .inr ha)
  · exact .of_eq (congrArg Sys.core (returns_pure.mp h).2)

theorem channOpenSocket_busy {host : Option Nat} {port fd : Int} {backlog : BitVec 32} {c : CChann}
    (hn : s.core.heap n = some c) (hst : c.state ≠ .disconnect)
    (h : Returns (channOpenSocket x n host port backlog) s fd t) :
    fd ≤ 0 ∧ Steps {a | ∃ fd, a = .bounce fd} s.core t.core := by
  obtain ⟨d, hd, ⟨_, hdis, _⟩ | ⟨hneg, ht | ⟨f, ht⟩⟩⟩ := channOpenSocket_spec h
  · rw [hn] at hd
    cases hd
    exact absurd hdis hst
  · exact ⟨hneg, .of_eq ht⟩
  · exact ⟨hneg, .single ht ⟨f, rfl⟩⟩

/-- A socket that was opened for `n`, in the two writes the source makes. -/
theorem attach_set {k k' : Core} {c : CChann} {fd : Int} {st : ChannState} (hk : k' = k.openFd fd)
    (hn : k.heap n = some c) (hst : c.state = .disconnect) (hpos : 0 < fd)
    (hnone : k.socks fd = none) (hact : st.active) :
    CStep k (.attach n fd st) ((k'.set n { c with fd := fd }).set n { c with fd := fd, state := st }) := by
  rw [hk, Core.set_set]
  exact .attach hn hst hpos hnone hact

/-- What connecting consists of. -/
def connectActs (n : ChannId) : Set Act :=
  {a | (∃ fd, a = .bounce fd) ∨ (∃ fd, a = .refuse n fd) ∨ (∃ fd st, a = .attach n fd st) ∨
    a = .watch n .write ∨ a = .watch n .read ∨ a = .disconnect n}

/-- The end of a connect: interest for the new socket, then the callback, which may disconnect. -/
theorem connect_finish (hx : Tame x) {a b : Sys ε} {set : EvtSet} {c : CChann} {ctype : Nat}
    {u : Unit} (hb : Base a.core) (hset : set ≠ .del) (hn : a.core.heap n = some c)
    (hact : c.state.active) (hadd : Returns (evtAdd n set) a r b)
    (hcb : Returns (callback .connectCb (extConfig x ctype).connectCb n) b u t) :
    Steps {.watch n set, .disconnect n} a.core t.core := by
  have hab := evtAdd_steps hset hn hact hadd
  simp only [callback, returns_bind] at hcb
  obtain ⟨_, d, hrec, hcb⟩ := hcb
  have hd := core_record hrec trivial
  have hbb := hab.base hb
  rw [← hd] at hab hbb
  refine (hab.mono ?_).trans (((reenters_connectCb hx hcb).steps hx.ops hbb).mono ?_)
  · rintro _ rfl
    exact .inl rfl
  · rintro _ rfl
    exact .inr rfl

/-- Connecting gets no socket, is refused at once, or gets as far as asking for interest. -/
theorem mnetChannConnect_parts {host : Option Nat} {port : Int}
    (h : Returns (mnetChannConnect x (some n) host port) s r t) :
    t = s ∨ ∃ fd a host, Returns (channOpenSocket x n host port 0) s fd a ∧
      ((t = a ∧ (a.core = s.core ∨ ∃ f, CStep s.core (.bounce f) a.core)) ∨
       (∃ b addr q, Returns (modifyChann n fun c => { c with fd := fd }) a () b ∧
          Returns (sysConnect fd addr) b q t ∧ CStep s.core (.refuse n fd) t.core) ∨
       (∃ b e f g c q st set ctype, Returns (modifyChann n fun c => { c with fd := fd }) a () b ∧
          (e = b ∨ ∃ addr q, Returns (sysConnect fd addr) b q e) ∧
          Returns (modifyChann n fun c => { c with state := st }) e () f ∧
          ((st = .connecting ∧ set = .write) ∨ (st = .connected ∧ set = .read ∧
            (extConfig x c.ctype).typeFn c.ctype ≠ CHANN_TYPE_STREAM)) ∧
          CStep s.core (.attach n fd st) f.core ∧ f.core.heap n = some c ∧ c.state = st ∧
          Returns (evtAdd n set) f q g ∧
          Returns (callback .connectCb (extConfig x ctype).connectCb n) g () t)) := by
  cases host with
  | none => exact .inl (returns_pure.mp h).2
  | some host =>
    simp only [mnetChannConnect] at h
    rcases returns_ite.mp h with ⟨_, h⟩ | ⟨_, h⟩
    swap
    · exact .inl (returns_pure.mp h).2
    simp only [returns_bind] at h
    obtain ⟨fd, a, hopen, h⟩ := h
    refine .inr ⟨fd, a, some host, hopen, ?_⟩
    obtain ⟨c, hn, ⟨hpos, hst, hnone, ha⟩ | ⟨hneg, ha⟩⟩ := channOpenSocket_spec hopen
    · rcases returns_ite.mp h with ⟨_, h⟩ | ⟨hno, _⟩
      swap
      · exact absurd hpos hno
      simp only [returns_bind, returns_deref, and_assoc, exists_and_left, exists_eq_left] at h
      obtain ⟨_, b, hmod, d, hd, h⟩ := h
      obtain ⟨c', hc', hbn, _, _, hbc⟩ := core_modifyChann hmod
      have hc'' := core_heap_some hc'
      rw [ha, show (s.core.openFd fd).heap = s.core.heap from rfl, hn, Option.some.injEq] at hc''
      have hfd : ({ c' with fd := fd } : Chann).core = { c with fd := fd } := by rw [hc'']; rfl
      rw [hfd] at hbc
      -- the state is written after the descriptor
      have hstate : ∀ {e : Sys ε} {f : Sys ε} {u : Unit} {st : ChannState},
          e.core = b.core → Returns (modifyChann n fun c => { c with state := st }) e u f →
          st.active → CStep s.core (.attach n fd st) f.core ∧
            f.core.heap n = some { c with fd := fd, state := st } := by
        intro e f u st he hset hact
        obtain ⟨c₁, hc₁, _, _, _, hf⟩ := core_modifyChann hset
        have hc₁' := core_heap_some hc₁
        rw [he, hbc, Core.set_heap, Function.update_self, Option.some.injEq] at hc₁'
        have hfin : ({ c₁ with state := st } : Chann).core = { c with fd := fd, state := st } := by
          have : ({ c₁ with state := st } : Chann).core = { c₁.core with state := st } := rfl
          rw [this, ← hc₁']
        refine ⟨?_, ?_⟩
        · rw [hf, hfin, he, hbc]
          exact attach_set ha hn hst hpos hnone hact
        · rw [hf, hfin, Core.set_heap, Function.update_self]
      have hraw : d.ctype = c.ctype := by
        rw [hbn, Option.some.injEq] at hd
        rw [← hd, hc'']
        rfl
      rcases returns_ite.mp h with ⟨_, h⟩ | ⟨hty, h⟩
      · simp only [readErrno, returns_bind, returns_read, and_assoc, exists_and_left,
          exists_eq_left] at h
        obtain ⟨q, e, hconn, h⟩ := h
        obtain ⟨href, hok⟩ := core_sysConnect hconn
        rcases returns_ite.mp h with ⟨hgo, h⟩ | ⟨hgo, h⟩
        · simp only [returns_bind, returns_pure] at h
          obtain ⟨_, f, hset, q, g, hadd, _, i, hcb, _, rfl⟩ := h
          obtain ⟨hatt, hfn⟩ := hstate (hok (not_not.mpr hgo)) hset trivial
          exact .inr (.inr ⟨b, e, f, g, _, q, _, _, _, hmod, .inr ⟨_, _, hconn⟩, hset,
            .inl ⟨rfl, rfl⟩, hatt, hfn, rfl, hadd, hcb⟩)
        · rw [(returns_pure.mp h).2]
          refine .inr (.inl ⟨b, _, q, hmod, hconn, ?_⟩)
          rw [href hgo, hbc, ha]
          exact .refuse hn hst hpos hnone
      · simp only [returns_bind, returns_pure] at h
        obtain ⟨_, f, hset, q, g, hadd, _, i, hcb, _, rfl⟩ := h
        obtain ⟨hatt, hfn⟩ := hstate rfl hset trivial
        exact .inr (.inr ⟨b, b, f, g, _, q, _, _, _, hmod, .inl rfl, hset, .inr ⟨rfl, rfl, hraw ▸ hty⟩,
          hatt, hfn, rfl, hadd, hcb⟩)
    · rcases returns_ite.mp h with ⟨hpos, _⟩ | ⟨_, h⟩
      · omega
      exact .inl ⟨(returns_pure.mp h).2, ha⟩

theorem mnetChannConnect_steps (hx : Tame x) {host : Option Nat} {port : Int} (hb : Base s.core)
    (h : Returns (mnetChannConnect x (some n) host port) s r t) :
    Steps (connectActs n) s.core t.core := by
  obtain rfl | ⟨fd, a, host, _, ⟨rfl, ha | ⟨f, ha⟩⟩ | ⟨_, _, _, _, _, href⟩ |
    ⟨b, e, f, g, c, q, st, set, ctype, _, _, _, hst, hatt, hfn, hc, hadd, hcb⟩⟩ :=
    mnetChannConnect_parts h
  · exact .refl _
  · exact .of_eq ha
  · exact .single ha (by simp [connectActs])
  · exact .single href (by simp [connectActs])
  · have hset : set = .read ∨ set = .write := by
      obtain ⟨_, rfl⟩ | ⟨_, rfl, _⟩ := hst
      · exact .inr rfl
      · exact .inl rfl
    have hact : c.state.active := by
      rw [hc]
      obtain ⟨rfl, _⟩ | ⟨rfl, _⟩ := hst <;> trivial
    have htail := connect_finish hx (hb.step hatt) (by obtain rfl | rfl := hset <;> simp) hfn hact hadd hcb
    refine (Steps.single hatt (by simp [connectActs])).trans (htail.mono ?_)
    rintro _ (rfl | rfl)
    · obtain rfl | rfl := hset <;> simp [connectActs]
    · simp [connectActs]

/-- What listening consists of. -/
def listenActs (n : ChannId) : Set Act :=
  {a | (∃ fd, a = .bounce fd) ∨ (∃ fd st, a = .attach n fd st) ∨ a = .watch n .read}

/-- Listening gets no socket, or asks for interest in a socket that listens. -/
theorem mnetChannListen_parts {host : Option Nat} {port : Int} {backlog : BitVec 32}
    (h : Returns (mnetChannListen x (some n) host port backlog) s r t) :
    t = s ∨ ∃ fd a, Returns (channOpenSocket x n host port (backlog ||| 1)) s fd a ∧
      ((t = a ∧ (a.core = s.core ∨ ∃ f, CStep s.core (.bounce f) a.core)) ∨
       (∃ b d e c q ctype, Returns (modifyChann n fun c => { c with fd := fd }) a () b ∧
          Returns (modifyChann n fun c => { c with state := .listening }) b () d ∧
          CStep s.core (.attach n fd .listening) d.core ∧ d.core.heap n = some c ∧
          c.state = .listening ∧ Returns (evtAdd n .read) d q e ∧
          Returns (callback .listenCb (extConfig x ctype).listenCb n) e () t)) := by
  simp only [mnetChannListen] at h
  rcases returns_ite.mp h with ⟨_, h⟩ | ⟨_, h⟩
  swap
  · exact .inl (returns_pure.mp h).2
  simp only [returns_bind] at h
  obtain ⟨fd, a, hopen, h⟩ := h
  refine .inr ⟨fd, a, hopen, ?_⟩
  obtain ⟨c, hn, ⟨hpos, hst, hnone, ha⟩ | ⟨hneg, ha⟩⟩ := channOpenSocket_spec hopen
  · rcases returns_ite.mp h with ⟨_, h⟩ | ⟨hno, _⟩
    swap
    · exact absurd hpos hno
    simp only [returns_bind, returns_deref, returns_pure, and_assoc, exists_and_left,
      exists_eq_left] at h
    obtain ⟨_, b, hmod, _, d, hmod', q, e, hadd, f, hf, _, g, hcb, _, rfl⟩ := h
    obtain ⟨c₁, hc₁, hb₁, _, _, hb⟩ := core_modifyChann hmod
    obtain ⟨c₂, hc₂, hd₂, _, _, hd⟩ := core_modifyChann hmod'
    rw [hb₁] at hc₂
    cases hc₂
    have hc₁' := core_heap_some hc₁
    rw [ha, show (s.core.openFd fd).heap = s.core.heap from rfl, hn, Option.some.injEq] at hc₁'
    have h₁ : ({ c₁ with fd := fd } : Chann).core = { c with fd := fd } := by rw [hc₁']; rfl
    have h₂ : ({ c₁ with fd := fd, state := .listening } : Chann).core =
        { c with fd := fd, state := .listening } := by rw [hc₁']; rfl
    have hatt : CStep s.core (.attach n fd .listening) d.core := by
      rw [hd, h₂, hb, h₁]
      exact attach_set ha hn hst hpos hnone trivial
    have hdn : d.core.heap n = some { c with fd := fd, state := .listening } := by
      rw [hd, h₂, Core.set_heap, Function.update_self]
    exact .inr ⟨b, d, e, _, q, _, hmod, hmod', hatt, hdn, rfl, hadd, hcb⟩
  · rcases returns_ite.mp h with ⟨hpos, _⟩ | ⟨_, h⟩
    · omega
    exact .inl ⟨(returns_pure.mp h).2, ha⟩

/-- The new socket is one that listens. -/
theorem mnetChannListen_spec (hx : Tame x) {host : Option Nat} {port : Int} {backlog : BitVec 32}
    (h : Returns (mnetChannListen x (some n) host port backlog) s r t) :
    Steps {a | (∃ fd, a = .bounce fd) ∨ (∃ fd, a = .attach n fd .listening) ∨ a = .watch n .read}
      s.core t.core := by
  obtain rfl | ⟨fd, a, _, ⟨rfl, ha | ⟨f, ha⟩⟩ | ⟨b, d, e, c, q, ctype, _, _, hatt, hdn, hc, hadd, hcb⟩⟩ :=
    mnetChannListen_parts h
  · exact .refl _
  · exact .of_eq ha
  · exact .single ha (by simp)
  · rw [(quiet_listenCb hx ctype n).callback _ _ _ hcb]
    refine (Steps.single hatt (by simp)).trans ((evtAdd_steps (by simp) hdn (by rw [hc]; trivial) hadd).mono ?_)
    intro _ ha
    rw [ha]
    simp

theorem mnetChannListen_steps (hx : Tame x) {host : Option Nat} {port : Int} {backlog : BitVec 32}
    (h : Returns (mnetChannListen x (some n) host port backlog) s r t) :
    Steps (listenActs n) s.core t.core := by
  refine (mnetChannListen_spec hx h).mono fun a ha => ?_
  rcases ha with ha | ⟨fd, ha⟩ | ha
  · exact .inl ha
  · exact .inr (.inl ⟨fd, _, ha⟩)
  · exact .inr (.inr ha)

/-- A channel that is not DISCONNECT is not connected again. -/
theorem mnetChannConnect_busy {host : Option Nat} {port : Int} {c : CChann}
    (hn : s.core.heap n = some c) (hst : c.state ≠ .disconnect)
    (h : Returns (mnetChannConnect x (some n) host port) s r t) :
    Steps {a | ∃ fd, a = .bounce fd} s.core t.core := by
  cases host with
  | none => exact .of_eq (congrArg Sys.core (returns_pure.mp h).2)
  | some host =>
    simp only [mnetChannConnect] at h
    rcases returns_ite.mp h with ⟨_, h⟩ | ⟨_, h⟩
    swap
    · exact .of_eq (congrArg Sys.core (returns_pure.mp h).2)
    simp only [returns_bind] at h
    obtain ⟨fd, a, hopen, h⟩ := h
    obtain ⟨hneg, ha⟩ := channOpenSocket_busy hn hst hopen
    rw [if_neg (Int.not_lt.mpr hneg)] at h
    rw [(returns_pure.mp h).2]
    exact ha

/-- Nor does it listen. -/
theorem mnetChannListen_busy {host : Option Nat} {port : Int} {backlog : BitVec 32} {c : CChann}
    (hn : s.core.heap n = some c) (hst : c.state ≠ .disconnect)
    (h : Returns (mnetChannListen x (some n) host port backlog) s r t) :
    Steps {a | ∃ fd, a = .bounce fd} s.core t.core := by
  simp only [mnetChannListen] at h
  rcases returns_ite.mp h with ⟨_, h⟩ | ⟨_, h⟩
  swap
  · exact .of_eq (congrArg Sys.core (returns_pure.mp h).2)
  simp only [returns_bind] at h
  obtain ⟨fd, a, hopen, h⟩ := h
  obtain ⟨hneg, ha⟩ := channOpenSocket_busy hn hst hopen
  rw [if_neg (Int.not_lt.mpr hneg)] at h
  rw [(returns_pure.mp h).2]
  exact ha

/-! ## Data -/

/-- The guard of a transfer lets only connected and listening channels through. -/
theorem channReady_spec (hx : Tame x) {ready : Bool} (h : Returns (channReady x n) s ready t) :
    t = s ∧ ∃ c, s.heap n = some c ∧
      (ready = true → ChannState.connected.val ≤ c.core.state.val ∧
        channState x s n c ≥ ChannState.connected.val) := by
  simp only [channReady, returns_bind, returns_read, returns_deref, returns_pure, and_assoc,
    exists_and_left, exists_eq_left] at h
  obtain ⟨c, hc, rfl, rfl⟩ := h
  exact ⟨rfl, c, hc, fun hr =>
    ⟨connected_of_stateFn hx (of_decide_eq_true hr), of_decide_eq_true hr⟩⟩

/-- `mnet_chann_send` reaches the socket, and the socket reports an error. -/
def SendFails (x : ExtTable ε) (s : Sys ε) (n : ChannId) (buf : Option (List UInt8)) : Prop :=
  ∃ c, s.heap n = some c ∧ channState x s n c ≥ ChannState.connected.val ∧ buf.getD [] ≠ [] ∧
    c.rwbSend = [] ∧ ∃ r a, Returns (channSend x n (buf.getD [])) s r a ∧ r < 0

/-- `mnet_chann_recv` reaches the socket, and the socket reports an error. -/
def RecvFails (x : ExtTable ε) (s : Sys ε) (n : ChannId) (buf : Bool) (len : Int) : Prop :=
  ∃ c, s.heap n = some c ∧ channState x s n c ≥ ChannState.connected.val ∧ buf = true ∧ 0 < len ∧
    ∃ r a, Returns ((extConfig x c.ctype).recvFn n len.toNat) s r a ∧ r < 0

/-- At most a transfer, and a write to the channel. -/
def Handed (x : ExtTable ε) (n : ChannId) (s t : Sys ε) : Prop :=
  ∃ a, (a = s ∨ ∃ data q, Returns (channSend x n data) s q a) ∧
    (t = a ∨ ∃ f, Returns (modifyChann n f) a () t)

/-- A send call is turned down, accepted, or fails and tears the channel down. An accepted one
hands some bytes to the socket and caches the rest; when these are the first cached bytes, it
asks for write events. -/
theorem mnetChannSend_spec (hx : Tame x) {buf : Option (List UInt8)}
    (h : Returns (mnetChannSend x (some n) buf) s r t) :
    (r = -1 ∧ t = s) ∨
    (∃ c i a, s.core.heap n = some c ∧ 0 < r ∧ (c.ctype = CHANN_TYPE_STREAM → r = (buf.getD []).length) ∧
      CStep s.core (.write n (buf.getD []) i) a ∧
      ((t.core = a ∧ (c.rwbSend = [] → (buf.getD []).length ≤ i) ∧ Handed x n s t) ∨
        (c.rwbSend = [] ∧ ∃ b q, b.core = a ∧ Returns (evtAdd n .write) b q t ∧ Handed x n s b))) ∨
    (SendFails x s n buf ∧ r = -1 ∧
      ∃ a, a.core = s.core ∧ Returns (channFail x n) a () t ∧ Handed x n s a) := by
  simp only [mnetChannSend, returns_bind, returns_require, and_assoc, exists_and_left,
    exists_eq_left, Option.some.injEq, exists_eq_left'] at h
  obtain ⟨ready, a, hready, h⟩ := h
  obtain ⟨rfl, c, hc, hact⟩ := channReady_spec hx hready
  rcases returns_ite.mp h with ⟨⟨hdata, hr⟩, h⟩ | ⟨_, h⟩
  swap
  · obtain ⟨rfl, rfl⟩ := returns_pure.mp h
    exact .inl ⟨rfl, rfl⟩
  obtain ⟨hst, hready⟩ := hact hr
  simp only [returns_bind, returns_deref, and_assoc, exists_and_left, exists_eq_left] at h
  obtain ⟨c', hc', h⟩ := h
  rw [hc] at hc'
  cases hc'
  have hn := core_heap_some hc
  have hlen : 0 < (buf.getD []).length := List.length_pos_iff.mpr hdata
  rcases returns_ite.mp h with ⟨hcount, h⟩ | ⟨hcount, h⟩
  · -- data goes behind what is cached already
    simp only [returns_bind, returns_pure] at h
    obtain ⟨_, b, hmod, rfl, rfl⟩ := h
    obtain ⟨d, hd, _, _, _, ht⟩ := core_modifyChann hmod
    rw [hc] at hd
    cases hd
    refine .inr (.inl ⟨c.core, 0, t.core, hn, by omega, fun _ => rfl, ?_,
      .inl ⟨rfl, ?_, a, .inl rfl, .inr ⟨_, hmod⟩⟩⟩)
    · have hw := CStep.write (k := a.core) (i := 0) hn hst hdata (Nat.zero_le _) (.inr rfl)
      rw [List.take_zero, Core.onWire_nil, if_pos hlen, List.drop_zero] at hw
      rw [ht]
      exact hw
    · intro hnil
      have hnil' : c.rwbSend = [] := hnil
      rw [hnil'] at hcount
      exact absurd hcount (by decide)
  · have hnil : c.core.rwbSend = [] := List.length_eq_zero_iff.mp (Nat.le_zero.mp (Nat.not_lt.mp hcount))
    simp only [returns_bind] at h
    obtain ⟨q, b, hsend, h⟩ := h
    obtain ⟨hle, hb⟩ := channSend_spec hx hc hsend
    rcases returns_ite.mp h with ⟨hneg, h⟩ | ⟨hneg, h⟩
    · simp only [returns_bind, returns_pure] at h
      obtain ⟨_, d, hfail, rfl, rfl⟩ := h
      rw [show q.toNat = 0 by omega, List.take_zero, Core.onWire_nil] at hb
      exact .inr (.inr ⟨⟨c, hc, hready, hdata, hnil, q, b, hsend, hneg⟩, rfl, b, hb, hfail,
        b, .inr ⟨_, q, hsend⟩, .inl rfl⟩)
    · have hw := CStep.write (k := a.core) (i := min q.toNat (buf.getD []).length) hn hst hdata
        (Nat.min_le_right _ _) (.inl hnil)
      have htake : (buf.getD []).take (min q.toNat (buf.getD []).length) = (buf.getD []).take q.toNat := by
        rw [List.take_eq_take_iff]
        omega
      rw [htake, ← hb] at hw
      rcases returns_ite.mp h with ⟨hpart, h⟩ | ⟨hfull, h⟩
      · -- what the socket left is cached, and write events asked for
        simp only [returns_bind, returns_pure] at h
        obtain ⟨_, d, hmod, r', e, hadd, rfl, rfl⟩ := h
        obtain ⟨c₁, hc₁, _, _, _, hd⟩ := core_modifyChann hmod
        have hc₁' := core_heap_some hc₁
        rw [hb, Core.onWire_heap, hn, Option.some.injEq] at hc₁'
        have hmin : min q.toNat (buf.getD []).length = q.toNat := by omega
        rw [hmin, if_pos (by omega)] at hw
        have hset : ({ c₁ with rwbSend := rwbCache c₁.rwbSend ((buf.getD []).drop q.toNat) } :
            Chann).core =
            { c.core with rwbSend := rwbCache c.core.rwbSend ((buf.getD []).drop q.toNat) } := by
          rw [hc₁']
          rfl
        rw [← hset, ← hd] at hw
        exact .inr (.inl ⟨c.core, _, d.core, hn, by omega, fun _ => rfl, hw,
          .inr ⟨hnil, d, r', rfl, hadd, b, .inr ⟨_, q, hsend⟩, .inr ⟨_, hmod⟩⟩⟩)
      · obtain ⟨rfl, rfl⟩ := returns_pure.mp h
        have hmin : min r.toNat (buf.getD []).length = (buf.getD []).length := by omega
        rw [hmin, if_neg (Nat.lt_irrefl _)] at hw
        have hsame : t.core.set n { c.core with rwbSend := c.core.rwbSend } = t.core := by
          have htn : t.core.heap n = some c.core := by rw [hb, Core.onWire_heap, hn]
          rw [Core.set, Function.update_eq_self_iff.mpr htn.symm]
        rw [hsame] at hw
        exact .inr (.inl ⟨c.core, _, t.core, hn, by omega, fun hty => by have := hle hty; omega, hw,
          .inl ⟨rfl, fun _ => Nat.le_refl _, t, .inr ⟨_, r, hsend⟩, .inl rfl⟩⟩)

/-- What sending consists of. -/
def sendActs (n : ChannId) : Set Act :=
  {a | (∃ data i, a = .write n data i) ∨ a = .watch n .write ∨ a = .slot n ∨ a = .disconnect n ∨
    a = .report n}

theorem channFail_steps (hx : Tame x) (hb : Base s.core) (h : Returns (channFail x n) s u t) :
    Steps {.slot n, .disconnect n, .report n} s.core t.core := by
  obtain ⟨c, k, _, hk, ht | ht, _⟩ := channFail_spec hx hb h
  all_goals
    have hs : Steps {.slot n, .disconnect n, .report n} s.core k :=
      hk.mono (by rintro _ (rfl | rfl) <;> simp)
  · rw [ht]
    exact hs
  · exact hs.trans (.single ht (by simp))

theorem mnetChannSend_steps (hx : Tame x) {buf : Option (List UInt8)} (hb : Base s.core)
    (h : Returns (mnetChannSend x (some n) buf) s r t) : Steps (sendActs n) s.core t.core := by
  obtain ⟨_, rfl⟩ | ⟨c, i, k, hn, _, _, hw, hk⟩ | ⟨_, _, a, ha, hfail, _⟩ := mnetChannSend_spec hx h
  · exact .refl _
  · have hs : Steps (sendActs n) s.core k := .single hw (.inl ⟨_, i, rfl⟩)
    rcases hk with ⟨ht, _⟩ | ⟨_, b, q, hbk, hadd, _⟩
    · rw [ht]
      exact hs
    · have hd : ∃ d, k.heap n = some d ∧ d.state.active := by
        cases hw with
        | write hn hst => exact ⟨_, Function.update_self .., ChannState.active_of_connected hst⟩
      obtain ⟨d, hd, hact⟩ := hd
      subst hbk
      refine hs.trans ((evtAdd_steps (by simp) hd hact hadd).mono ?_)
      rintro _ rfl
      simp [sendActs]
  · rw [← ha]
    refine (channFail_steps hx (ha ▸ hb) hfail).mono ?_
    rintro _ (rfl | rfl | rfl) <;> simp [sendActs]

/-- A receive call changes nothing, or fails and tears the channel down. -/
theorem mnetChannRecv_spec (hx : Tame x) {buf : Bool} {len : Int}
    (h : Returns (mnetChannRecv x (some n) buf len) s r t) :
    t.core = s.core ∨
    (RecvFails x s n buf len ∧ r < 0 ∧ ∃ a b, a.core = s.core ∧ Returns (channFail x n) a () b ∧
      t.core = b.core ∧ t.kernel = b.kernel) := by
  simp only [mnetChannRecv, returns_bind, returns_require, and_assoc, exists_and_left,
    exists_eq_left, Option.some.injEq, exists_eq_left'] at h
  obtain ⟨ready, a, hready, h⟩ := h
  obtain ⟨rfl, c, hc, hact⟩ := channReady_spec hx hready
  rcases returns_ite.mp h with ⟨⟨hbuf, hlen, hr⟩, h⟩ | ⟨_, h⟩
  swap
  · exact .inl (congrArg Sys.core (returns_pure.mp h).2)
  simp only [returns_bind, returns_deref, returns_pure, and_assoc, exists_and_left,
    exists_eq_left] at h
  obtain ⟨c', hc', q, b, hrecv, _, d, hrec, _, e, hfail, _, f, hmod, rfl, rfl⟩ := h
  have hd : d.core = a.core :=
    (core_record hrec trivial).trans (quiet_recvFn hx c'.ctype n len.toNat _ _ _ hrecv)
  have hf : t.core = e.core ∧ t.kernel = e.kernel := by
    rw [returns_modifyChann] at hmod
    obtain ⟨g, hg, rfl⟩ := hmod
    exact ⟨core_setChann_same hg rfl, rfl⟩
  rcases returns_when.mp hfail with ⟨hneg, hfail⟩ | ⟨_, rfl⟩
  · rw [hc] at hc'
    cases hc'
    have hfails : RecvFails x a n buf len := ⟨c, hc, (hact hr).2, hbuf, hlen, r, b, hrecv, hneg⟩
    exact .inr ⟨hfails, hneg, d, e, hd, hfail, hf.1, hf.2⟩
  · exact .inl (hf.1.trans hd)

theorem channReady_of {c : Chann} (hc : s.heap n = some c)
    (hst : channState x s n c ≥ ChannState.connected.val) : Returns (channReady x n) s true s := by
  simp [channReady, hc, hst]

/-- A failing send is the failure. -/
theorem SendFails.call (hx : Tame x) {buf : Option (List UInt8)} (h : SendFails x s n buf) :
    ∃ a, a.core = s.core ∧ ∀ r t, Returns (mnetChannSend x (some n) buf) s r t ↔
      r = -1 ∧ Returns (channFail x n) a () t := by
  obtain ⟨c, hc, hst, hdata, hnil, q, a, hsend, hneg⟩ := h
  obtain ⟨_, ha⟩ := channSend_spec hx hc hsend
  rw [show q.toNat = 0 by omega, List.take_zero, Core.onWire_nil] at ha
  refine ⟨a, ha, fun r t => ?_⟩
  have hcount : ¬ rwbCount c.rwbSend > 0 := by simp [hnil, rwbCount]
  have hreq : Returns (Exec.require Fault.nullDeref (some n)) s n s := rfl
  rw [mnetChannSend, hreq.bind_iff, (channReady_of hc hst).bind_iff, if_pos ⟨hdata, rfl⟩,
    (returns_deref.mpr ⟨hc, rfl⟩).bind_iff, if_neg hcount, hsend.bind_iff, if_pos hneg]
  simp only [returns_bind, returns_pure]
  constructor
  · rintro ⟨_, _, hfail, rfl, rfl⟩
    exact ⟨rfl, hfail⟩
  · rintro ⟨rfl, hfail⟩
    exact ⟨(), t, hfail, rfl, rfl⟩

/-- A failing receive is the failure, and then counts the bytes. -/
theorem RecvFails.call (hx : Tame x) {buf : Bool} {len : Int} (h : RecvFails x s n buf len) :
    ∃ a q, a.core = s.core ∧ ∀ r t, Returns (mnetChannRecv x (some n) buf len) s r t ↔
      r = q ∧ ∃ b, Returns (channFail x n) a () b ∧
        Returns (modifyChann n fun c => { c with bytesRecv := c.bytesRecv + q }) b () t := by
  obtain ⟨c, hc, hst, hbuf, hlen, q, a, hrecv, hneg⟩ := h
  obtain ⟨e, he⟩ : ∃ e, Returns (record (.recvFn n q)) a () e := ⟨_, returns_record.mpr rfl⟩
  refine ⟨e, q, (core_record he trivial).trans (quiet_recvFn hx c.ctype n len.toNat _ _ _ hrecv),
    fun r t => ?_⟩
  have hreq : Returns (Exec.require Fault.nullDeref (some n)) s n s := rfl
  rw [mnetChannRecv, hreq.bind_iff, (channReady_of hc hst).bind_iff, if_pos ⟨hbuf, hlen, rfl⟩,
    (returns_deref.mpr ⟨hc, rfl⟩).bind_iff, hrecv.bind_iff, he.bind_iff, Exec.when, if_pos hneg]
  simp only [returns_bind, returns_pure]
  constructor
  · rintro ⟨_, b, hfail, _, _, hmod, rfl, rfl⟩
    exact ⟨rfl, b, hfail, hmod⟩
  · rintro ⟨rfl, b, hfail, hmod⟩
    exact ⟨(), b, hfail, (), t, hmod, rfl, rfl⟩

theorem mnetChannRecv_steps (hx : Tame x) {buf : Bool} {len : Int} (hb : Base s.core)
    (h : Returns (mnetChannRecv x (some n) buf len) s r t) :
    Steps {.slot n, .disconnect n, .report n} s.core t.core := by
  obtain ht | ⟨_, _, a, b, ha, hfail, ht, _⟩ := mnetChannRecv_spec hx h
  · exact .of_eq ht
  · rw [ht, ← ha]
    exact channFail_steps hx (ha ▸ hb) hfail

/-- A datagram is received like other data, or not at all. -/
theorem mnetDgramRecv_cases {buf : Bool} {len : Int} {q : Int × Option SockAddr}
    (h : Returns (mnetDgramRecv x (some n) buf len) s q t) :
    t = s ∨ (∃ c, s.heap n = some c ∧ isDgram c.ctype = true) ∧
      Returns (mnetChannRecv x (some n) buf len) s q.1 t := by
  simp only [mnetDgramRecv, returns_bind, returns_require, returns_deref, and_assoc,
    exists_and_left, exists_eq_left, Option.some.injEq, exists_eq_left'] at h
  obtain ⟨c, hc, h⟩ := h
  rcases returns_ite.mp h with ⟨⟨hty, _⟩, h⟩ | ⟨_, h⟩
  swap
  · exact .inl (returns_pure.mp h).2
  simp only [returns_bind] at h
  obtain ⟨ready, a, hready, hrest⟩ := h
  have ha : a = s := by
    simp only [channReady, returns_bind, returns_read, returns_deref, returns_pure] at hready
    obtain ⟨_, _, ⟨_, rfl⟩, _, _, ⟨_, rfl⟩, _, rfl⟩ := hready
    rfl
  subst ha
  have hdgram : ∃ c, a.heap n = some c ∧ isDgram c.ctype = true := ⟨c, hc, hty⟩
  rcases returns_ite.mp hrest with ⟨_, hrest⟩ | ⟨_, hrest⟩
  · simp only [returns_bind, returns_deref, returns_pure, and_assoc, exists_and_left,
      exists_eq_left] at hrest
    obtain ⟨r, b, hrecv, _, _, rfl, rfl⟩ := hrest
    exact .inr ⟨hdgram, hrecv⟩
  · exact .inl (returns_pure.mp hrest).2

/-- A datagram is aimed by writing its address down, or by a connect. -/
theorem dgramAim_cases (hx : Tame x) {host : Nat} {port : Int} (h : Returns (dgramAim x n host port) s u t) :
    t.core = s.core ∨ ∃ r, Returns (mnetChannConnect x (some n) (some host) port) s r t := by
  simp only [dgramAim, returns_bind] at h
  obtain ⟨ready, a, hready, h⟩ := h
  obtain ⟨rfl, _⟩ := channReady_spec hx hready
  rcases returns_ite.mp h with ⟨_, h⟩ | ⟨_, h⟩
  · rw [channFillAddr, returns_modifyChann] at h
    obtain ⟨c, hc, rfl⟩ := h
    exact .inl (core_setChann_same hc rfl)
  · simp only [returns_bind, returns_pure] at h
    obtain ⟨r, b, hconn, _, rfl⟩ := h
    exact .inr ⟨r, hconn⟩

theorem dgramAim_steps (hx : Tame x) {host : Nat} {port : Int} (hb : Base s.core)
    (h : Returns (dgramAim x n host port) s u t) : Steps (connectActs n) s.core t.core := by
  obtain hsame | ⟨r, hconn⟩ := dgramAim_cases hx h
  · exact .of_eq hsame
  · exact mnetChannConnect_steps hx hb hconn

/-- A datagram is aimed, then sent like other data, by a datagram channel only. -/
theorem mnetDgramSend_cases {addr : Option (Nat × Int)} {buf : Option (List UInt8)}
    (h : Returns (mnetDgramSend x (some n) addr buf) s r t) :
    (t = s ∧ r = 0) ∨ (∃ c host port a, s.heap n = some c ∧ isDgram c.ctype = true ∧
      addr = some (host, port) ∧ buf.getD [] ≠ [] ∧ Returns (dgramAim x n host port) s () a ∧
      Returns (mnetChannSend x (some n) buf) a r t) := by
  simp only [mnetDgramSend, returns_bind, returns_require, returns_deref, and_assoc,
    exists_and_left, exists_eq_left, Option.some.injEq, exists_eq_left'] at h
  obtain ⟨c, hc, h⟩ := h
  obtain _ | ⟨host, port⟩ := addr
  · obtain ⟨rfl, rfl⟩ := returns_pure.mp h
    exact .inl ⟨rfl, rfl⟩
  · rcases returns_ite.mp h with ⟨⟨hty, hdata⟩, h⟩ | ⟨_, h⟩
    · simp only [returns_bind] at h
      obtain ⟨_, a, haim, hsend⟩ := h
      exact .inr ⟨c, host, port, a, hc, hty, rfl, hdata, haim, hsend⟩
    · obtain ⟨rfl, rfl⟩ := returns_pure.mp h
      exact .inl ⟨rfl, rfl⟩

/-! ## Events and timers -/

/-- What turning SEND events on and off consists of. -/
def activeSendActs (n : ChannId) : Set Act :=
  {a | (∃ on, a = .sendFlag n on) ∨ a = .watch n .write ∨ a = .mute n}

/-- What starting, changing and stopping a timer consists of. -/
def activeTimerActs (n : ChannId) : Set Act := {.arm n, .rearm n, .disarm n}

/-- What `mnet_chann_active_event` consists of. -/
def activeActs (n : ChannId) : Set Act := {a | a ∈ activeSendActs n ∨ a ∈ activeTimerActs n}

/-- Turning SEND events on or off: the flag, then interest for writing. It is given up only
when nothing seems to be cached. -/
theorem activeSend_spec {value : Bool} {c : CChann} (hn : s.core.heap n = some c)
    (h : Returns (activeSend n value) s u t) :
    ∃ a, a.core = s.core.set n { c with activeSendEvent := value } ∧
      Returns (modifyChann n fun c => { c with activeSendEvent := value }) s () a ∧
      ((value = true ∧ ∃ q, Returns (evtAdd n .write) a q t) ∨
       (value = false ∧ rwbCached c.rwbSend ≤ 0 ∧ ∃ q, Returns (evtDel n .write) a q t) ∨
       (value = false ∧ ¬ rwbCached c.rwbSend ≤ 0 ∧ t = a)) := by
  simp only [activeSend, returns_bind] at h
  obtain ⟨_, a, hmod, h⟩ := h
  obtain ⟨d, hd, had, _, _, ha⟩ := core_modifyChann hmod
  rw [core_heap_some hd] at hn
  cases hn
  refine ⟨a, ha, hmod, ?_⟩
  rcases returns_ite.mp h with ⟨hv, h⟩ | ⟨hv, h⟩
  · simp only [returns_bind, returns_pure] at h
    obtain ⟨q, b, hadd, _, rfl⟩ := h
    exact .inl ⟨hv, q, hadd⟩
  · have hv' : value = false := Bool.eq_false_iff.mpr hv
    simp only [returns_bind, returns_deref, and_assoc, exists_and_left, exists_eq_left] at h
    obtain ⟨e, he, h⟩ := h
    rw [had] at he
    cases he
    rcases returns_ite.mp h with ⟨hc, h⟩ | ⟨hc, h⟩
    · simp only [returns_bind, returns_pure] at h
      obtain ⟨q, b, hdel, _, rfl⟩ := h
      exact .inr (.inl ⟨hv', hc, q, hdel⟩)
    · exact .inr (.inr ⟨hv', hc, (returns_pure.mp h).2⟩)

theorem activeSend_steps {value : Bool} {c : CChann} (hn : s.core.heap n = some c)
    (hact : c.state.active) (h : Returns (activeSend n value) s u t) :
    Steps (activeSendActs n) s.core t.core := by
  obtain ⟨a, ha, _, hrest⟩ := activeSend_spec hn h
  have hflag : Steps (activeSendActs n) s.core a.core := by
    rw [ha]
    exact .single (.sendFlag hn) (.inl ⟨value, rfl⟩)
  have han : a.core.heap n = some { c with activeSendEvent := value } := by rw [ha]; simp
  refine hflag.trans ?_
  obtain ⟨_, q, hadd⟩ | ⟨_, hc, q, hdel⟩ | ⟨_, _, rfl⟩ := hrest
  · refine (evtAdd_steps (by simp) han hact hadd).mono ?_
    rintro _ rfl
    simp [activeSendActs]
  · obtain ⟨d, hd, ⟨_, hkq, he, ht⟩ | ⟨_, ht, _⟩⟩ := evtDel_spec hdel
    · rw [han] at hd
      cases hd
      rw [ht]
      exact .single (.mute han hact hkq he hc) (.inr (.inr rfl))
    · exact .of_eq ht
  · exact .refl _

theorem activeTimer_steps {value : Int} {c : CChann} (hn : s.core.heap n = some c)
    (hopen : c.state ≠ .closed) (h : Returns (activeTimer n value) s u t) :
    Steps (activeTimerActs n) s.core t.core := by
  simp only [activeTimer, returns_bind, returns_deref, and_assoc, exists_and_left,
    exists_eq_left] at h
  obtain ⟨d, hd, h⟩ := h
  rw [core_heap_some hd] at hn
  cases hn
  rcases returns_ite.mp h with ⟨_, h⟩ | ⟨_, h⟩
  · rcases returns_ite.mp h with ⟨_, h⟩ | ⟨hno, h⟩
    · obtain ⟨c', clock, node, tm, hn, hclock, hf, htn, htm, ht⟩ := tmUpdate_spec h
      rw [core_heap_some hd] at hn
      cases hn
      rw [ht]
      exact .single (.rearm (core_heap_some hd) htn hclock hf htm hopen) (.inr (.inl rfl))
    · obtain ⟨c', clock, tm, hn, hclock, htm, ht⟩ := tmActive_spec h
      rw [core_heap_some hd] at hn
      cases hn
      rw [ht]
      have hnone : d.timerNode = none := by simpa using hno
      exact .single (.arm (core_heap_some hd) hnone hclock htm hopen) (.inl rfl)
  · rcases returns_ite.mp h with ⟨_, h⟩ | ⟨_, h⟩
    · obtain ⟨c', hn, ⟨_, ht⟩ | ⟨id, clock, hid, hclock, ht⟩⟩ := tmKill_spec h
      · exact .of_eq ht
      · rw [ht]
        exact .single (.disarm hn hid hclock) (.inr (.inr rfl))
    · exact .of_eq (congrArg Sys.core (returns_pure.mp h).2)

/-- A SEND event on a connected channel, a TIMER event on one that is not closed, or nothing. -/
theorem mnetChannActiveEvent_cases (hx : Tame x) {et : ChannEvent} {value : Int}
    (h : Returns (mnetChannActiveEvent x (some n) et value) s u t) :
    ∃ c, s.core.heap n = some c ∧
      ((et = .send ∧ ChannState.connected.val ≤ c.state.val ∧
          c.activeSendEvent ≠ decide (value ≠ 0) ∧
          Returns (activeSend n (decide (value ≠ 0))) s u t) ∨
       (et = .timer ∧ c.state ≠ .closed ∧ Returns (activeTimer n value) s u t) ∨ t = s) := by
  simp only [mnetChannActiveEvent, returns_bind, returns_read, returns_deref, and_assoc,
    exists_and_left, exists_eq_left] at h
  obtain ⟨c, hc, h⟩ := h
  refine ⟨c.core, core_heap_some hc, ?_⟩
  rcases returns_ite.mp h with ⟨⟨he, hst, hflag⟩, h⟩ | ⟨_, h⟩
  · exact .inl ⟨he, connected_of_stateFn hx (Int.le_of_eq hst.symm), hflag, h⟩
  · rcases returns_ite.mp h with ⟨⟨he, hst⟩, h⟩ | ⟨_, h⟩
    · exact .inr (.inl ⟨he, hst, h⟩)
    · exact .inr (.inr (returns_pure.mp h).2)

theorem mnetChannActiveEvent_steps (hx : Tame x) {et : ChannEvent} {value : Int}
    (h : Returns (mnetChannActiveEvent x (some n) et value) s u t) :
    Steps (activeActs n) s.core t.core := by
  obtain ⟨c, hn, ⟨_, hst, _, h⟩ | ⟨_, hst, h⟩ | rfl⟩ := mnetChannActiveEvent_cases hx h
  · exact (activeSend_steps hn (ChannState.active_of_connected hst) h).mono fun _ ha => .inl ha
  · exact (activeTimer_steps hn hst h).mono fun _ ha => .inr ha
  · exact .refl _

/-- A buffer size is only stored, and set on an open socket. -/
theorem mnetChannSocketSetBufsize_core {size : Int} (h : Returns (mnetChannSocketSetBufsize (some n) size) s r t) :
    t.core = s.core := by
  simp only [mnetChannSocketSetBufsize] at h
  rcases returns_ite.mp h with ⟨_, h⟩ | ⟨_, h⟩
  swap
  · exact congrArg Sys.core (returns_pure.mp h).2
  simp only [returns_bind, returns_deref, and_assoc, exists_and_left, exists_eq_left] at h
  obtain ⟨_, a, hmod, d, hd, h⟩ := h
  have ha : a.core = s.core := by
    rw [returns_modifyChann] at hmod
    obtain ⟨c, hc, rfl⟩ := hmod
    exact core_setChann_same hc rfl
  rcases returns_ite.mp h with ⟨_, h⟩ | ⟨_, h⟩
  · simp only [setBufsize, returns_bind, returns_pure] at h
    obtain ⟨_, b, hb, _, e, he, _, rfl⟩ := h
    rw [(core_sysSetup he).1, (core_sysSetup hb).1, ha]
  · rw [(returns_pure.mp h).2, ha]

end MNet
