import MNet.Core.RefineEvent
import MNet.Core.Run
import MNet.Moves.Chann
import MNet.Moves.Spec

/-! # API calls as moves -/

namespace MNet
open MNet.Lib MNet.Lib.Exec

variable {ε : Type} {x : ExtTable ε} {s t : Sys ε} {n : ChannId} {u : Unit} {A : Set Deed}

/-! ## The message loop -/

/-- What a record of the channel `n` may lead to. -/
def recordDeeds (n : ChannId) : Set Deed :=
  {d | d ∈ flushDeeds n ∨ d = .leak ∨ d = .ctl n ∨ d = .established n ∨ (∃ ev, d = .message n ev) ∨
    ∃ m, d = .accept n m ∨ d = .ctl m}

theorem moves_evtListening {raw : Nat} {c : Chann} (hc : s.heap n = some c) (hst : c.state = .listening)
    (hA : recordDeeds n ⊆ A) : Within (Moves x A) (evtListening x n raw) s := by
  have hup : c.state.active := hst ▸ trivial
  have hmsg : ∀ ev, .message n ev ∈ A := fun ev => hA (by simp [recordDeeds])
  refine .ite (fun _ => .bind (fun q t h => ?_) fun q _ _ => ?_) fun _ => moves_emit (fun _ => ⟨c, hc, hup⟩) (hmsg _)
  · obtain ⟨_, ht | ht⟩ | ⟨m, _, ht⟩ := channAccept_cases h
    · exact (Move.plain ht).moves (hA (by simp [recordDeeds, flushDeeds, failDeeds]))
    · exact ht.moves (hA (by simp [recordDeeds]))
    · exact ht.moves (hA (by simp [recordDeeds]))
  · cases q with
    | none => exact within_pure _
    | some c =>
      exact (moves_evtAdd (hA (by simp [recordDeeds]))).bind fun _ _ _ => moves_emit False.elim (hmsg _)

theorem moves_evtConnecting {c : Chann} (hc : s.heap n = some c) (hst : c.state = .connecting)
    (hA : recordDeeds n ⊆ A) : Within (Moves x A) (evtConnecting x n) s := by
  have hmsg : ∀ ev, .message n ev ∈ A := fun ev => hA (by simp [recordDeeds])
  have hctl : .ctl n ∈ A := hA (by simp [recordDeeds])
  have hplain : .plain ∈ A := hA (by simp [recordDeeds, flushDeeds, failDeeds])
  refine .deref_bind fun d hd => .bind ((outside_sysSockError _).outside.moves hplain)
    fun r a hr => .ite (fun _ => ?_) fun _ => ?_
  · have ha := (outside_sysSockError _ _ _ hr).heap
    refine .bind (moves_evtDel hctl) fun _ b hdel => .bind (moves_evtAdd hctl) fun _ e hadd =>
      .bind (fun _ f h => ?_) fun _ f h => moves_emit (fun _ => ?_) (hmsg _)
    · -- neither `epoll_ctl` changes the state of the channel
      obtain ⟨c₁, _, h₁⟩ := evtDel_cases hdel
      obtain ⟨c₂, _, h₂⟩ := evtAdd_cases hadd
      have he₁ := h₁.was
      rw [ha, hc, Option.some.injEq] at he₁
      have he₂ := h₂.was
      rw [h₁.chann, Option.some.injEq] at he₂
      obtain ⟨c₃, hc₃, rfl⟩ := returns_modifyChann.mp h
      have he₃ := h₂.chann
      rw [hc₃, Option.some.injEq] at he₃
      refine (Move.established hc₃ ?_).moves (hA (by simp [recordDeeds]))
      rw [he₃, ← he₂, ← he₁]
      exact hst
    · obtain ⟨c₃, _, rfl⟩ := returns_modifyChann.mp h
      exact ⟨_, setChann_self .., trivial⟩
  · exact .bind (moves_disconnect (hA (by simp [recordDeeds, flushDeeds, failDeeds])))
      fun _ _ _ => moves_emit False.elim (hmsg _)

/-- What a record of a connected channel may lead to. -/
def connectedDeeds (n : ChannId) : Set Deed :=
  {d | d ∈ flushDeeds n ∨ d = .ctl n ∨ ∃ ev, d = .message n ev}

theorem connectedDeeds_subset : connectedDeeds n ⊆ recordDeeds n := by
  rintro d (hd | rfl | ⟨ev, rfl⟩)
  · exact .inl hd
  · simp [recordDeeds]
  · simp [recordDeeds]

theorem moves_evtConnected {kev : Kev} {c : Chann} (hc : s.heap n = some c) (hst : c.state = .connected)
    (hA : connectedDeeds n ⊆ A) : Within (Moves x A) (evtConnected x n kev) s := by
  have hup : c.state.active := hst ▸ trivial
  have hmsg : ∀ ev, .message n ev ∈ A := fun ev => hA (.inr (.inr ⟨ev, rfl⟩))
  refine .ite (fun _ => moves_emit (fun _ => ⟨c, hc, hup⟩) (hmsg _)) fun _ => .ite (fun _ => ?_) fun _ => within_pure _
  refine .bind (moves_channSendedRwb fun _ hd => hA (.inl hd)) fun _ _ _ =>
    .ite (fun _ => .deref_bind fun _ _ => .ite (fun _ => moves_emit False.elim (hmsg _)) fun _ => ?_)
      fun _ => within_pure _
  exact (moves_evtDel (hA (.inr (.inl rfl)))).bind fun _ _ _ => within_pure _

/-- Handling a record moves only the channel the record points to, and one it accepts. -/
theorem moves_evtDispatch {kev : Kev} (hA : ∀ n, kev.ptr = some n → recordDeeds n ⊆ A) :
    Within (Moves x A) (evtDispatch x kev) s := by
  refine .require_bind fun n hn => .deref_bind fun c hc => .ite (fun _ => within_pure _) fun _ => ?_
  have hA := hA n hn
  have hdown : ∀ a err, Within (Moves x A)
      (do let _ ← channDisconnectSocket (opsOf x) n; emit x n .disconnect none err) a :=
    fun _ _ => .bind (moves_disconnect (hA (by simp [recordDeeds, flushDeeds, failDeeds])))
      fun _ _ _ => moves_emit False.elim (hA (by simp [recordDeeds]))
  refine .ite (fun _ => .ite (fun _ => ?_) fun _ => hdown _ _) fun _ => ?_
  · exact .bind (plain_channGetErr.moves (hA (by simp [recordDeeds, flushDeeds, failDeeds])))
      fun _ _ _ => hdown _ _
  · cases hst : c.state with
    | closed => exact within_pure _
    | disconnect => exact within_pure _
    | listening => exact moves_evtListening hc hst hA
    | connecting => exact moves_evtConnecting hc hst hA
    | connected => exact moves_evtConnected hc hst (connectedDeeds_subset.trans hA)

/-- What a round of the loop does before it handles a record. -/
def timerDeeds : Set Deed := {d | d = .plain ∨ ∃ n, d = .message n .timer}

theorem moves_tmNext {fuel : Nat} (hA : timerDeeds ⊆ A) : Within (Moves x A) (tmNext x fuel) s := by
  have hplain : .plain ∈ A := hA (.inl rfl)
  have hpos : ∀ {s : Sys ε} p, Within (Moves x A) (setTmPos p) s :=
    fun _ => Within.moves (plain_modifyMnet fun _ => ⟨rfl, rfl, fun _ h => h, rfl⟩) hplain
  induction fuel generalizing s with
  | zero => exact within_fail
  | succ fuel ih =>
    refine .read_bind ?_
    cases s.mnet.tmPos with
    | none => exact within_pure none
    | some l =>
      cases l with
      | head => exact within_pure none
      | node id =>
        refine .derefClock_bind fun clock => .bind ((plain_derefNode id).moves hplain) fun snode _ _ =>
          .bind (hpos _) fun _ _ _ => .read_bind <| .ite (fun _ => ?_) fun _ => ?_
        · exact .bind ((plain_tmUpdate _).moves hplain) fun _ _ _ =>
            .bind (moves_channMsg False.elim (hA (.inr ⟨_, rfl⟩))) fun _ _ _ =>
              .ite (fun _ => within_pure _) fun _ => ih
        · exact .bind (hpos _) fun _ _ _ => within_pure _

/-- What the message loop consists of. -/
def loopDeeds : Set Deed := {d | d ∈ timerDeeds ∨ ∃ n, d ∈ recordDeeds n}

theorem moves_evtPass {fuel : Nat} : Within (Moves x loopDeeds) (evtPass x fuel) s := by
  have hplain : .plain ∈ loopDeeds := .inl (.inl rfl)
  refine .bind (moves_tmNext fun _ hd => .inl hd) fun tm _ _ => ?_
  cases tm with
  | some n => exact within_pure _
  | none =>
    refine .bind (plain_disNext.moves hplain) fun dis _ _ => ?_
    cases dis with
    | some n => exact within_pure _
    | none =>
      refine .bind (Within.moves (plain_modifyMnet fun _ => ⟨rfl, rfl, fun _ h => h, rfl⟩) hplain) fun _ _ _ =>
        .read_bind <| .ite (fun _ => within_pure _) fun _ => .read_bind ?_
      exact moves_evtDispatch fun n _ _ hd => .inr ⟨n, hd⟩

theorem moves_evtLoop {fuel rounds : Nat} : Within (Moves x loopDeeds) (evtLoop x fuel rounds) s := by
  induction rounds generalizing s with
  | zero => exact within_fail
  | succ rounds ih =>
    refine .bind moves_evtPass fun p _ _ => ?_
    cases p with
    | ret q => exact within_pure q
    | next => exact ih

/-! ## The whole library -/

def pollDeeds : Set Deed := {d | d = .plain ∨ ∃ n, d = .destroy n}

theorem moves_evtDelLoop {fuel : Nat} {p : Option ChannId} :
    Within (Moves x pollDeeds) (evtDelLoop fuel p) s := by
  induction fuel generalizing s p with
  | zero =>
    cases p with
    | none => exact within_pure ()
    | some n => exact within_fail
  | succ fuel ih =>
    cases p with
    | none => exact within_pure ()
    | some n =>
      exact .deref_bind fun _ _ => .bind (fun _ _ h => (Move.destroy h).moves (.inr ⟨n, rfl⟩))
        fun _ _ _ => ih

theorem moves_evtPoll : Within (Moves x pollDeeds) (evtPoll) s := by
  have hplain : .plain ∈ pollDeeds := .inl rfl
  have hmnet : ∀ {s : Sys ε} {f : Mnet → Mnet},
      (∀ ss, (f ss).channs = ss.channs ∧ (f ss).channCount = ss.channCount ∧
        (∀ ctype, ss.reserved ctype = true → (f ss).reserved ctype = true) ∧ (f ss).kq = ss.kq) →
        Within (Moves x pollDeeds) (modifyMnet f) s := fun hf => (plain_modifyMnet hf).moves hplain
  have hreap : ∀ s : Sys ε, Within (Moves x pollDeeds) (evtDelChanns) s := fun _ =>
    .read_bind <| .read_bind <| .bind moves_evtDelLoop fun _ _ _ => hmnet fun _ => ⟨rfl, rfl, fun _ h => h, rfl⟩
  refine .bind (hreap _) fun _ _ _ => .bind (plain_tmSchedule.moves hplain) fun _ _ _ =>
    .bind ((outside_sysEpollWait _).outside.moves hplain) fun recs _ _ => .read_bind ?_
  cases recs with
  | none =>
    exact .bind (hmnet fun _ => ⟨rfl, rfl, fun _ h => h, rfl⟩) fun _ _ _ => .ite (fun _ => within_pure _) fun _ =>
      within_read _
  | some evts => exact .bind (hmnet fun _ => ⟨rfl, rfl, fun _ h => h, rfl⟩) fun _ _ _ => within_read _

theorem moves_evtInit (hA : .queue ∈ A) : Within (Moves x A) (evtInit) s := by
  intro _ t h
  rw [evtInit, returns_modify] at h
  split at h
  · rw [h]
  · rw [h]
    exact Move.queue.moves hA

theorem moves_evtFini (hA : .queue ∈ A) : Within (Moves x A) (evtFini) s := by
  intro _ t h
  rw [evtFini, returns_modify] at h
  split at h
  · rw [h]
    exact Move.queue.moves hA
  · rw [h]

theorem moves_mnetInit : Within (Moves x {.plain, .queue}) (mnetInit) s :=
  .read_bind <| .ite (fun _ => within_pure _) fun _ => .bind (moves_evtInit (by simp)) fun _ _ _ =>
    .bind (outside_sysClock.outside.moves (by simp)) fun _ _ _ =>
      .bind (Within.moves (plain_modifyMnet fun _ => ⟨rfl, rfl, fun _ h => by simp [h], rfl⟩) (by simp))
        fun _ _ _ => within_pure _

def finiDeeds : Set Deed :=
  {d | d = .queue ∨ d = .wipe ∨ ∃ n, d = .disconnect n ∨ d = .close n ∨ d = .destroy n}

theorem moves_finiLoop {fuel : Nat} {p : Option ChannId}
    (hA : ∀ n, .disconnect n ∈ A ∧ .close n ∈ A ∧ .destroy n ∈ A) :
    Within (Moves x A) (finiLoop x fuel p) s := by
  induction fuel generalizing s p with
  | zero =>
    cases p with
    | none => exact within_pure ()
    | some n => exact within_fail
  | succ fuel ih =>
    cases p with
    | none => exact within_pure ()
    | some n =>
      obtain ⟨hdis, hclose, hdestroy⟩ := hA n
      exact .deref_bind fun _ _ => .bind (moves_disconnect hdis) fun _ _ hdown =>
        .bind (fun _ _ h => (Move.close (fun _ => channDisconnectSocket_down hdown) h).moves hclose)
          fun _ _ _ => .bind (fun _ _ h => (Move.destroy h).moves hdestroy) fun _ _ _ => ih

theorem moves_mnetFini : Within (Moves x finiDeeds) (mnetFini x) s := by
  refine .read_bind <| .ite (fun _ => ?_) fun _ => within_pure ()
  refine .read_bind <| .read_bind <| .bind (moves_finiLoop (by simp [finiDeeds])) fun _ _ _ =>
    .bind (moves_evtFini (.inl rfl)) fun _ _ _ _ t h => ?_
  rw [returns_modifyMnet] at h
  subst h
  exact Move.wipe.moves (.inr (.inl rfl))

def resetDeeds : Set Deed := {d | d = .queue ∨ ∃ n, d = .forget n ∨ d = .ctl n}

theorem moves_resetLoop {fuel : Nat} {p : Option ChannId} :
    Within (Moves x resetDeeds) (resetLoop fuel p) s := by
  induction fuel generalizing s p with
  | zero =>
    cases p with
    | none => exact within_pure ()
    | some n => exact within_fail
  | succ fuel ih =>
    cases p with
    | none => exact within_pure ()
    | some n =>
      refine .bind (fun _ t h => ?_) fun _ _ _ =>
        .bind (moves_evtAdd (.inr ⟨n, .inr rfl⟩)) fun _ _ _ => .deref_bind fun _ _ => ih
      obtain ⟨c, hc, rfl⟩ := returns_modifyChann.mp h
      exact (Move.forget hc).moves (.inr ⟨n, .inl rfl⟩)

theorem moves_mnetMultiResetEvent : Within (Moves x resetDeeds) (mnetMultiResetEvent) s :=
  .bind (moves_evtFini (.inl rfl)) fun _ _ _ => .bind (moves_evtInit (.inl rfl)) fun _ _ _ =>
    .read_bind <| .read_bind moves_resetLoop

theorem moves_mnetExtRegister {ctype : Nat} (hA : .plain ∈ A) :
    Within (Moves x A) (mnetExtRegister x ctype) s :=
  .ite (fun _ => within_pure _) fun _ => .read_bind <| .ite
    (fun _ => .bind (Within.moves (plain_modifyMnet fun _ => ⟨rfl, rfl, fun _ h => by
      simp [Function.update_apply, h], rfl⟩) hA) fun _ _ _ => within_pure _)
    fun _ => within_pure _

/-! ## Channels -/

theorem mnetChannOpen_cases {ctype : Nat} {q : Option ChannId} (h : Returns (mnetChannOpen x ctype) s q t) :
    (q = none ∧ t = s) ∨ ∃ n, q = some n ∧ Move x s (.opened n) t := by
  simp only [mnetChannOpen] at h
  rcases returns_ite.mp h with ⟨_, h⟩ | ⟨_, h⟩
  · exact .inl (returns_pure.mp h)
  simp only [returns_bind, returns_readMnet, and_assoc, exists_and_left, exists_eq_left] at h
  rcases returns_ite.mp h with ⟨_, h⟩ | ⟨hres, h⟩
  · exact .inl (returns_pure.mp h)
  simp only [returns_bind, returns_pure] at h
  obtain ⟨n, a, hnew, _, b, hcb, rfl, rfl⟩ := h
  exact .inr ⟨n, rfl, .opened (Bool.eq_true_of_not_eq_false hres) hnew hcb⟩

theorem moves_mnetChannOpen {ctype : Nat} :
    Within (Moves x {d | ∃ n, d = .opened n}) (mnetChannOpen x ctype) s := by
  intro q t h
  obtain ⟨_, rfl⟩ | ⟨n, _, ht⟩ := mnetChannOpen_cases h
  · exact .refl
  · exact ht.moves ⟨n, rfl⟩

theorem moves_mnetChannClose :
    Within (Moves x {.disconnect n, .close n}) (mnetChannClose x (some n)) s :=
  .deref_bind fun _ _ => .ite (fun _ => .bind (moves_disconnect (by simp)) fun _ _ hdis _ _ h =>
    (Move.close (fun _ => channDisconnectSocket_down hdis) h).moves (by simp)) fun _ => within_pure ()

def connectDeeds (n : ChannId) : Set Deed :=
  {d | d = .plain ∨ d = .bounce n ∨ d = .refuse n ∨ d = .attach n .connectCb}

/-- A connect that fails, one that is refused at once, or one that gets to its callback. -/
theorem mnetChannConnect_cases {host : Option Nat} {port r : Int}
    (h : Returns (mnetChannConnect x (some n) host port) s r t) :
    (r = 0 ∧ (Plain s t ∨ Move x s (.bounce n) t ∨ Move x s (.refuse n) t)) ∨
      (r = 1 ∧ Move x s (.attach n .connectCb) t) := by
  cases host with
  | none =>
    obtain ⟨rfl, rfl⟩ := returns_pure.mp h
    exact .inl ⟨rfl, .inl (.refl _)⟩
  | some host =>
    simp only [mnetChannConnect] at h
    rcases returns_ite.mp h with ⟨_, h⟩ | ⟨_, h⟩
    swap
    · obtain ⟨rfl, rfl⟩ := returns_pure.mp h
      exact .inl ⟨rfl, .inl (.refl _)⟩
    simp only [returns_bind] at h
    obtain ⟨fd, a, hopen, h⟩ := h
    obtain ⟨c, hc, ⟨hneg, ha⟩ | ⟨hneg, ha⟩ | ⟨hst, ha, addr, hheap⟩⟩ := channOpenSocket_cases hopen
    · rw [if_neg (by omega)] at h
      obtain ⟨rfl, rfl⟩ := returns_pure.mp h
      exact .inl ⟨rfl, .inl ha⟩
    · rw [if_neg (by omega)] at h
      obtain ⟨rfl, rfl⟩ := returns_pure.mp h
      exact .inl ⟨rfl, .inr (.inl ha)⟩
    rw [if_pos ha.pos] at h
    simp only [returns_bind, returns_modifyChann, returns_deref, and_assoc, exists_and_left,
      exists_eq_left] at h
    obtain ⟨_, _, ⟨c₁, hc₁, rfl⟩, c₂, hc₂, h⟩ := h
    rw [hheap, Function.update_self, Option.some.injEq] at hc₁
    subst hc₁
    simp only [Sys.setChann, Function.update_self, Option.some.injEq] at hc₂
    subst hc₂
    have hset : NewFd fd s (a.setChann n { c with addr := addr, fd := fd }) :=
      { ha with trace := ha.trace }
    -- what is left once the state is set
    have hfinish : ∀ {b d : Sys ε} {st : ChannState} {set : EvtSet} {q : Int} {u : Unit},
        Outside (a.setChann n { c with addr := addr, fd := fd }) b →
        Entered ((extConfig x c.ctype).typeFn c.ctype) .connectCb st set →
        Returns (evtAdd n set) (b.setChann n { c with addr := addr, fd := fd, state := st }) q d →
        Returns (callback .connectCb (extConfig x c.ctype).connectCb n) d u t →
        Move x s (.attach n .connectCb) t := by
      intro b d st set q u hb hent hadd hcb
      simp only [callback, returns_bind, returns_record] at hcb
      obtain ⟨_, _, rfl, hcb⟩ := hcb
      have hnew : NewFd fd s (b.setChann n { c with addr := addr, fd := fd, state := st }) :=
        { hset.outside hb with trace := (hset.outside hb).trace }
      have hset : (b.setChann n { c with addr := addr, fd := fd, state := st }).heap =
          Function.update s.heap n (some { c with fd := fd, addr := addr, state := st }) := by
        rw [Sys.setChann, hb.heap, Sys.setChann, hheap, Function.update_idem, Function.update_idem]
      exact .attach hc hst hnew hent hset hadd hcb
    rcases returns_ite.mp h with ⟨hraw, h⟩ | ⟨hraw, h⟩
    · simp only [readErrno, returns_bind, returns_read, and_assoc, exists_and_left,
        exists_eq_left] at h
      obtain ⟨q, e, hconn, h⟩ := h
      have he := outside_sysConnect _ _ _ _ hconn
      rcases returns_ite.mp h with ⟨_, h⟩ | ⟨hno, h⟩
      · simp only [returns_bind, returns_modifyChann, returns_pure] at h
        obtain ⟨_, _, ⟨c₃, hc₃, rfl⟩, _, g, hadd, _, i, hcb, rfl, rfl⟩ := h
        rw [he.heap] at hc₃
        simp only [Sys.setChann, Function.update_self, Option.some.injEq] at hc₃
        subst hc₃
        exact .inr ⟨rfl, hfinish he (.inl ⟨rfl, .inl ⟨hraw, rfl, rfl⟩⟩) hadd hcb⟩
      · obtain ⟨rfl, rfl⟩ := returns_pure.mp h
        have hkept : t.heap = Function.update s.heap n (some { c with fd := fd, addr := addr }) := by
          rw [he.heap, Sys.setChann, hheap, Function.update_idem]
        refine .inl ⟨rfl, .inr (.inr (.refuse hc hst (hset.outside he) hkept ?_))⟩
        obtain ⟨_, htrace⟩ := sysConnect_trace hconn
        refine ⟨.connect fd q t.kernel.errno, ?_, hno⟩
        rw [htrace]
        rfl
    · simp only [returns_bind, returns_modifyChann, returns_pure] at h
      obtain ⟨_, _, ⟨c₃, hc₃, rfl⟩, _, g, hadd, _, i, hcb, rfl, rfl⟩ := h
      simp only [Sys.setChann, Function.update_self, Option.some.injEq] at hc₃
      subst hc₃
      exact .inr ⟨rfl, hfinish (.refl _) (.inl ⟨rfl, .inr ⟨hraw, rfl, rfl⟩⟩) hadd hcb⟩

theorem moves_mnetChannConnect {host : Option Nat} {port : Int} :
    Within (Moves x (connectDeeds n)) (mnetChannConnect x (some n) host port) s := by
  intro r t h
  obtain ⟨_, ht | ht | ht⟩ | ⟨_, ht⟩ := mnetChannConnect_cases h
  · exact (Move.plain ht).moves (by simp [connectDeeds])
  · exact ht.moves (by simp [connectDeeds])
  · exact ht.moves (by simp [connectDeeds])
  · exact ht.moves (by simp [connectDeeds])

def listenDeeds (n : ChannId) : Set Deed :=
  {d | d = .plain ∨ d = .bounce n ∨ d = .attach n .listenCb}

theorem mnetChannListen_cases {host : Option Nat} {port r : Int} {backlog : BitVec 32}
    (h : Returns (mnetChannListen x (some n) host port backlog) s r t) :
    (r = 0 ∧ (Plain s t ∨ Move x s (.bounce n) t)) ∨
      (r = 1 ∧ Move x s (.attach n .listenCb) t) := by
  simp only [mnetChannListen] at h
  rcases returns_ite.mp h with ⟨_, h⟩ | ⟨_, h⟩
  swap
  · obtain ⟨rfl, rfl⟩ := returns_pure.mp h
    exact .inl ⟨rfl, .inl (.refl _)⟩
  simp only [returns_bind] at h
  obtain ⟨fd, a, hopen, h⟩ := h
  obtain ⟨c, hc, ⟨hneg, ha⟩ | ⟨hneg, ha⟩ | ⟨hst, ha, addr, hheap⟩⟩ := channOpenSocket_cases hopen
  · rw [if_neg (by omega)] at h
    obtain ⟨rfl, rfl⟩ := returns_pure.mp h
    exact .inl ⟨rfl, .inl ha⟩
  · rw [if_neg (by omega)] at h
    obtain ⟨rfl, rfl⟩ := returns_pure.mp h
    exact .inl ⟨rfl, .inr ha⟩
  rw [if_pos ha.pos] at h
  simp only [returns_bind, returns_modifyChann, returns_deref, returns_pure, and_assoc,
    exists_and_left, exists_eq_left] at h
  obtain ⟨_, _, ⟨c₁, hc₁, rfl⟩, _, _, ⟨c₂, hc₂, rfl⟩, q, b, hadd, d, hd, _, e, hcb, rfl, rfl⟩ := h
  simp only [callback, returns_bind, returns_record] at hcb
  obtain ⟨_, _, rfl, hcb⟩ := hcb
  rw [hheap, Function.update_self, Option.some.injEq] at hc₁
  subst hc₁
  simp only [Sys.setChann, Function.update_self, Option.some.injEq] at hc₂
  subst hc₂
  have hnew : NewFd fd s ((a.setChann n { c with addr := addr, fd := fd }).setChann n
      { c with addr := addr, fd := fd, state := .listening }) := { ha with trace := ha.trace }
  obtain ⟨_, _, hctl⟩ := evtAdd_cases hadd
  have hwas := hctl.was
  simp only [Sys.setChann, Function.update_self, Option.some.injEq] at hwas
  subst hwas
  rw [hctl.chann, Option.some.injEq] at hd
  subst hd
  have hset : ((a.setChann n { c with addr := addr, fd := fd }).setChann n
      { c with addr := addr, fd := fd, state := .listening }).heap =
      Function.update s.heap n (some { c with fd := fd, addr := addr, state := .listening }) := by
    rw [Sys.setChann, Sys.setChann, hheap, Function.update_idem, Function.update_idem]
  exact .inr ⟨rfl, .attach hc hst hnew (.inr ⟨rfl, rfl, rfl⟩) hset hadd hcb⟩

theorem moves_mnetChannListen {host : Option Nat} {port : Int} {backlog : BitVec 32} :
    Within (Moves x (listenDeeds n)) (mnetChannListen x (some n) host port backlog) s := by
  intro r t h
  obtain ⟨_, ht | ht⟩ | ⟨_, ht⟩ := mnetChannListen_cases h
  · exact (Move.plain ht).moves (by simp [listenDeeds])
  · exact ht.moves (by simp [listenDeeds])
  · exact ht.moves (by simp [listenDeeds])

/-- What `mnet_chann_active_event` consists of. -/
def activeDeeds (n : ChannId) : Set Deed := {.plain, .sendFlag n, .ctl n}

theorem moves_activeSend {value : Bool} : Within (Moves x (activeDeeds n)) (activeSend n value) s :=
  .bind (fun _ t h => by
    obtain ⟨c, hc, rfl⟩ := returns_modifyChann.mp h
    exact (Move.sendFlag hc).moves (.inr (.inl rfl))) fun _ _ _ => .ite
    (fun _ => .bind (moves_evtAdd (.inr (.inr rfl))) fun _ _ _ => within_pure _)
    fun _ => .deref_bind fun _ _ => .ite
      (fun _ => .bind (moves_evtDel (.inr (.inr rfl))) fun _ _ _ => within_pure _) fun _ => within_pure _

theorem plain_activeTimer {value : Int} : Within Plain (activeTimer n value) s :=
  .deref_bind fun _ _ => .ite
    (fun _ => .ite (fun _ => plain_tmUpdate _) fun _ => plain_tmActive _)
    fun _ => .ite (fun _ => plain_tmKill) fun _ => within_pure _

theorem moves_mnetChannActiveEvent {et : ChannEvent} {value : Int} :
    Within (Moves x (activeDeeds n)) (mnetChannActiveEvent x (some n) et value) s :=
  .read_bind <| .deref_bind fun _ _ => .ite (fun _ => moves_activeSend) fun _ => .ite
    (fun _ => plain_activeTimer.moves (.inl rfl)) fun _ => within_pure _

/-! ## Data -/

theorem channReady_same {ready : Bool} (h : Returns (channReady x n) s ready t) : t = s := by
  simp only [channReady, returns_bind, returns_read, returns_deref, returns_pure] at h
  obtain ⟨_, _, ⟨_, rfl⟩, _, _, ⟨_, rfl⟩, _, rfl⟩ := h
  rfl

theorem Lib.Exec.Within.channReady_bind {R : Sys ε → Sys ε → Prop} {α : Type} {f : Bool → M ε α}
    (h : ∀ ready, Within R (f ready) s) : Within R (channReady x n >>= f) s :=
  .bind_same fun ready _ hr => ⟨channReady_same hr, h ready⟩

def recvDeeds (n : ChannId) : Set Deed := {d | d ∈ failDeeds n ∨ d = .recv n}

theorem moves_mnetChannRecv {buf : Bool} {len : Int} (hA : recvDeeds n ⊆ A) :
    Within (Moves x A) (mnetChannRecv x (some n) buf len) s := by
  have hplain : .plain ∈ A := hA (.inl (.inl rfl))
  refine .require_bind fun m hm => ?_
  cases hm
  refine .channReady_bind fun ready => .ite (fun _ => .deref_bind fun c hc => ?_) fun _ => within_pure _
  -- the call of the type's `recv_fn` and the record of it are one move
  intro q v h
  obtain ⟨r, a, hrecv, h⟩ := returns_bind.mp h
  obtain ⟨_, b, hrec, h⟩ := returns_bind.mp h
  rw [returns_record] at hrec
  subst hrec
  refine ((Move.recv hc hrecv).moves (hA (.inr rfl))).trans (Within.bind
    (.when fun _ => moves_channFail fun _ hd => hA (.inl hd)) (fun _ _ _ => ?_) q v h)
  exact .bind (Within.moves (plain_modifyChann fun _ => rfl) hplain) fun _ _ _ => within_pure _

def sendDeeds (n : ChannId) : Set Deed := {d | d ∈ flushDeeds n ∨ d = .ctl n}

theorem moves_mnetChannSend {buf : Option (List UInt8)} (hA : sendDeeds n ⊆ A) :
    Within (Moves x A) (mnetChannSend x (some n) buf) s := by
  have hcache : .cache n ∈ A := hA (.inl (.inr (.inr rfl)))
  refine .require_bind fun m hm => ?_
  cases hm
  refine .channReady_bind fun ready => .ite (fun _ => .deref_bind fun c hc => .ite (fun _ => ?_) fun _ => ?_)
    fun _ => within_pure _
  · exact .bind (moves_cache hcache) fun _ _ _ => within_pure _
  · refine .bind (fun _ _ h => (Move.send h).moves (hA (.inl (.inr (.inl rfl))))) fun r _ _ =>
      .ite (fun _ => .bind (moves_channFail fun _ hd => hA (.inl (.inl hd))) fun _ _ _ => within_pure _)
        fun _ => .ite (fun _ => ?_) fun _ => within_pure _
    exact .bind (moves_cache hcache) fun _ _ _ => .bind (moves_evtAdd (hA (.inr rfl))) fun _ _ _ =>
      within_pure _

theorem moves_mnetDgramRecv {buf : Bool} {len : Int} :
    Within (Moves x (recvDeeds n)) (mnetDgramRecv x (some n) buf len) s := by
  refine .require_bind fun m hm => ?_
  cases hm
  exact .deref_bind fun _ _ => .ite (fun _ => .channReady_bind fun _ => .ite
    (fun _ => .bind (moves_mnetChannRecv fun _ hd => hd) fun _ _ _ => .deref_bind fun _ _ => within_pure _)
    fun _ => within_pure _) fun _ => within_pure _

def dgramDeeds (n : ChannId) : Set Deed :=
  {d | d ∈ connectDeeds n ∨ d ∈ sendDeeds n ∨ d = .address n}

theorem moves_dgramAim {host : Nat} {port : Int} :
    Within (Moves x (dgramDeeds n)) (dgramAim x n host port) s :=
  .channReady_bind fun _ => .ite (fun _ => moves_address (.inr (.inr rfl))) fun _ =>
    .bind (moves_mnetChannConnect.mono fun _ h => h.mono fun _ hd => .inl hd) fun _ _ _ => within_pure _

theorem moves_mnetDgramSend {addr : Option (Nat × Int)} {buf : Option (List UInt8)} :
    Within (Moves x (dgramDeeds n)) (mnetDgramSend x (some n) addr buf) s := by
  refine .require_bind fun m hm => ?_
  cases hm
  refine .deref_bind fun _ _ => ?_
  cases addr with
  | none => exact within_pure _
  | some addr =>
    exact .ite (fun _ => .bind moves_dgramAim fun _ _ _ => moves_mnetChannSend fun _ hd => .inr (.inl hd))
      fun _ => within_pure _

theorem plain_mnetChannSocketSetBufsize {size : Int} :
    Within Plain (mnetChannSocketSetBufsize (some n) size) s :=
  .ite (fun _ => .bind (plain_modifyChann fun _ => rfl) fun _ _ _ => .deref_bind fun _ _ =>
    .ite (fun _ => (outside_setBufsize _ _).outside) fun _ => within_pure _) fun _ => within_pure _

/-! ## Calls -/

/-- The moves a call may make. -/
def Call.deeds : Call → Set Deed
  | .mnetInit => {.plain, .queue}
  | .mnetFini => finiDeeds
  | .multiResetEvent => resetDeeds
  | .poll => pollDeeds
  | .resultNext _ => loopDeeds
  | .channOpen _ => {d | ∃ n, d = .opened n}
  | .channClose (some n) => {.disconnect n, .close n}
  | .channConnect (some n) _ _ => connectDeeds n
  | .channDisconnect (some n) => {.disconnect n}
  | .channListen (some n) _ _ _ => listenDeeds n
  | .channActiveEvent (some n) _ _ => activeDeeds n
  | .channRecv (some n) _ _ => recvDeeds n
  | .dgramRecv (some n) _ _ => recvDeeds n
  | .channSend (some n) _ => sendDeeds n
  | .dgramSend (some n) _ _ => dgramDeeds n
  | _ => {.plain}

/-- Only connecting, listening and addressed datagrams open a socket for a channel. -/
theorem Call.attach_deeds {c : Call} {op : ExtOp} (h : .attach n op ∈ c.deeds) :
    (∃ host port, c = .channConnect (some n) host port) ∨
      (∃ host port backlog, c = .channListen (some n) host port backlog) ∨
        ∃ addr buf, c = .dgramSend (some n) addr buf := by
  cases c with
  | channConnect m | channListen m | dgramSend m =>
    cases m <;> simp_all [Call.deeds, connectDeeds, listenDeeds, dgramDeeds, sendDeeds, flushDeeds,
      failDeeds]
  | channClose m | channDisconnect m | channActiveEvent m | channRecv m | dgramRecv m | channSend m =>
    cases m <;> simp [Call.deeds, activeDeeds, recvDeeds, sendDeeds, flushDeeds, failDeeds] at h
  | _ =>
    simp [Call.deeds, finiDeeds, resetDeeds, pollDeeds, loopDeeds, timerDeeds, recordDeeds, flushDeeds,
      failDeeds] at h

theorem Within.ret {R : Sys ε → Sys ε → Prop} [Std.Refl R] [IsTrans (Sys ε) R] {α : Type} {f : α → Ret}
    {m : M ε α} (h : Within R m s) : Within R (ret f m) s := h.bind fun _ _ _ => within_pure _

/-- Every call that returns is a sequence of moves that call may make. -/
theorem moves_apiCall (c : Call) : Within (Moves x c.deeds) (apiCall x c) s := by
  cases c with
  | mnetInit => exact Within.ret moves_mnetInit
  | mnetFini => exact Within.ret moves_mnetFini
  | multiAcceptBalancer on => exact Within.ret (Within.moves (plain_modifyMnet fun _ => ⟨rfl, rfl, fun _ h => h, rfl⟩) (by simp [Call.deeds]))
  | multiResetEvent => exact Within.ret moves_mnetMultiResetEvent
  | extRegister ctype => exact Within.ret (moves_mnetExtRegister (by simp [Call.deeds]))
  | poll => exact Within.ret moves_evtPoll
  | resultNext fuel => exact Within.ret moves_evtLoop
  | channOpen ctype => exact Within.ret moves_mnetChannOpen
  | channClose n =>
    cases n with
    | none => exact Within.ret (within_pure _)
    | some n => exact Within.ret moves_mnetChannClose
  | channConnect n host port =>
    cases n with
    | none => exact Within.ret (within_pure _)
    | some n => exact Within.ret moves_mnetChannConnect
  | channDisconnect n =>
    cases n with
    | none => exact Within.ret (within_pure _)
    | some n => exact Within.ret (.bind (moves_disconnect (by simp [Call.deeds])) fun _ _ _ => within_pure _)
  | channListen n host port backlog =>
    cases n with
    | none => exact Within.ret (within_pure _)
    | some n => exact Within.ret moves_mnetChannListen
  | channSetOpaque n p =>
    cases n with
    | none => exact Within.ret (within_pure _)
    | some n => exact Within.ret (Within.moves (plain_modifyChann fun _ => rfl) (by simp [Call.deeds]))
  | channActiveEvent n et value =>
    cases n with
    | none => exact Within.ret (within_pure _)
    | some n => exact Within.ret moves_mnetChannActiveEvent
  | channRecv n buf len =>
    cases n with
    | none => exact Within.ret (.require_bind fun _ h => by cases h)
    | some n => exact Within.ret (moves_mnetChannRecv fun _ hd => hd)
  | channSend n buf =>
    cases n with
    | none => exact Within.ret (.require_bind fun _ h => by cases h)
    | some n => exact Within.ret (moves_mnetChannSend fun _ hd => hd)
  | dgramRecv n buf len =>
    cases n with
    | none => exact Within.ret (.require_bind fun _ h => by cases h)
    | some n => exact Within.ret moves_mnetDgramRecv
  | dgramSend n addr buf =>
    cases n with
    | none => exact Within.ret (.require_bind fun _ h => by cases h)
    | some n => exact Within.ret moves_mnetDgramSend
  | socketSetBufsize n size =>
    cases n with
    | none => exact Within.ret (within_pure _)
    | some n => exact Within.ret (plain_mnetChannSocketSetBufsize.moves (by simp [Call.deeds]))

end MNet
