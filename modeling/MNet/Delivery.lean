import MNet.Queue

/-! # Where messages come from

`_evt_result_next` has three sources: the timer under the cursor when it is due, the head of
the queue, and the records of the batch, in this order. With built-in types, whose filter
passes everything, the source is known before the call. -/

namespace MNet
open MNet.Lib MNet.Lib.Exec

variable {ε : Type} {x : ExtTable ε} {s t : Sys ε} {n : ChannId}

/-- The cursor is on a timer of `n` that is due. -/
def Core.timerDue (k : Core) (n : ChannId) : Prop :=
  ∃ clock node, k.tmClock = some clock ∧ k.tmPos = some (.node node.id) ∧
    skiplistFind clock node.id = some node ∧ node.tm.time ≤ k.tmCurrent ∧ node.tm.chann = n

/-- Every channel has a built-in type. -/
def Core.builtin (k : Core) : Prop :=
  ∀ n c, k.heap n = some c → c.ctype ≤ CHANN_TYPE_BROADCAST

theorem CStep.builtin {k k' : Core} {a : Act} (hs : CStep k a k') (hb : Base k) (hk : k.builtin)
    (ha : ∀ n ctype, a = .create n ctype → ctype ≤ CHANN_TYPE_BROADCAST) : k'.builtin := by
  intro n d hd
  cases hn : k.heap n with
  | none =>
    obtain ⟨_, ⟨ctype, he, rfl⟩ | ⟨_, m, l, _, _, _, _, hm, rfl⟩⟩ := hs.appears hb hn hd
    · exact ha n ctype he
    · exact hk m l hm
  | some c =>
    by_cases hdes : a = .destroy n
    · subst hdes
      obtain ⟨_, _, hnone⟩ | ⟨c', _, ht⟩ := hs.at hb hn
      · rw [hnone] at hd
        cases hd
      · cases ht with
        | links h => exact absurd rfl h
        | interest h => simp at h
        | timer h => simp at h
    · obtain ⟨c', hc', hty⟩ := hs.same_type hb hdes hn
      rw [hd] at hc'
      cases hc'
      rw [hty]
      exact hk n c hn

/-! ## Timers -/

/-- With built-in types the timer under the cursor is delivered if it is due, and else none. -/
theorem tmNext_builtin (hx : Tame x) {fuel : Nat} {q : Option ChannId} (hb : Base s.core)
    (hty : s.core.builtin) (h : Returns (tmNext x fuel) s q t) :
    (∃ n k c, q = some n ∧ s.core.timerDue n ∧ CStep s.core (.fire n) k ∧ k.heap n = some c ∧
      ∃ msg : ChannMsg, msg.event = some .timer ∧ msg.n = some n ∧ msg.err = 0 ∧
        t.core = k.set n { c with msg := msg }) ∨
    (q = none ∧ (∀ n, ¬ s.core.timerDue n) ∧ (t.core = s.core ∨ CStep s.core .park t.core) ∧
      (∀ id, t.core.tmPos ≠ some (.node id))) := by
  cases fuel with
  | zero => exact absurd h returns_fail
  | succ fuel =>
    obtain ⟨rfl, rfl, hpos⟩ | ⟨clock, node, hc, hpos, hf, hcases⟩ := tmNext_cases h
    · have hno : ∀ id, t.core.tmPos ≠ some (.node id) := by
        intro id he
        obtain hpos | hpos := hpos <;> cases hpos.symm.trans he
      refine .inr ⟨rfl, ?_, .inl rfl, hno⟩
      rintro n ⟨clock, node, _, hpos, _⟩
      exact hno _ hpos
    · obtain ⟨rfl, hlate, rfl⟩ | ⟨hdue, a, pass, b, hupd, hmsg, hnext⟩ := hcases
      · refine .inr ⟨rfl, ?_, .inr .park, fun id he => by cases he⟩
        rintro n ⟨clock', node', hc', hpos', hf', hdue', _⟩
        obtain rfl := Option.some.inj (hc'.symm.trans hc)
        obtain hid := TmLink.node.inj (Option.some.inj (hpos'.symm.trans hpos))
        rw [hid, hf, Option.some.injEq] at hf'
        exact Int.not_le.mpr hlate (hf' ▸ hdue')
      · have hfire := fire_spec hb hc hpos hf hdue rfl hupd
        obtain ⟨c, hn, hpass, _⟩ := channMsg_spec hx (hb.step hfire) hmsg
        have hle : c.ctype ≤ CHANN_TYPE_BROADCAST :=
          hfire.builtin hb hty (by simp) _ c.core (core_heap_some hn)
        obtain ⟨rfl, rfl⟩ := hpass hle
        obtain ⟨_, rfl, rfl⟩ | ⟨hno, _⟩ := hnext
        · exact .inl ⟨_, a.core, c.core, rfl, ⟨clock, node, hc, hpos, hf, hdue, rfl⟩, hfire,
            core_heap_some hn, msgOf node.tm.chann c .timer none 0, rfl, rfl, rfl, core_setChann ..⟩
        · cases hno

/-! ## Records -/

theorem emit_ret {event : ChannEvent} {r q : Option ChannId} {err : Int}
    (h : Returns (emit x n event r err) s (.ret q) t) : q = some n := by
  simp only [emit, returns_bind, returns_pure] at h
  obtain ⟨pass, _, _, hp, _⟩ := h
  cases pass
  · cases hp
  · exact Pass.ret.inj hp

theorem evtListening_ret {raw : Nat} {q : Option ChannId}
    (h : Returns (evtListening x n raw) s (.ret q) t) : q = some n := by
  simp only [evtListening] at h
  rcases returns_ite.mp h with ⟨_, h⟩ | ⟨_, h⟩
  · simp only [returns_bind] at h
    obtain ⟨r, a, _, h⟩ := h
    cases r with
    | none => cases (returns_pure.mp h).1
    | some c =>
      simp only [returns_bind] at h
      obtain ⟨_, _, _, h⟩ := h
      exact emit_ret h
  · exact emit_ret h

theorem evtConnecting_ret {q : Option ChannId} (h : Returns (evtConnecting x n) s (.ret q) t) :
    q = some n := by
  simp only [evtConnecting, returns_bind] at h
  obtain ⟨_, _, _, _, _, _, h⟩ := h
  rcases returns_ite.mp h with ⟨_, h⟩ | ⟨_, h⟩
  · simp only [returns_bind] at h
    obtain ⟨_, _, _, _, _, _, _, _, _, h⟩ := h
    exact emit_ret h
  · simp only [returns_bind] at h
    obtain ⟨_, _, _, h⟩ := h
    exact emit_ret h

theorem evtConnected_ret {kev : Kev} {q : Option ChannId}
    (h : Returns (evtConnected x n kev) s (.ret q) t) : q = some n := by
  simp only [evtConnected] at h
  rcases returns_ite.mp h with ⟨_, h⟩ | ⟨_, h⟩
  · exact emit_ret h
  rcases returns_ite.mp h with ⟨_, h⟩ | ⟨_, h⟩
  swap
  · cases (returns_pure.mp h).1
  simp only [returns_bind] at h
  obtain ⟨_, _, _, h⟩ := h
  rcases returns_ite.mp h with ⟨_, h⟩ | ⟨_, h⟩
  swap
  · cases (returns_pure.mp h).1
  simp only [returns_bind] at h
  obtain ⟨_, _, _, h⟩ := h
  rcases returns_ite.mp h with ⟨_, h⟩ | ⟨_, h⟩
  · exact emit_ret h
  · simp only [returns_bind, returns_pure] at h
    obtain ⟨_, _, _, hp, _⟩ := h
    cases hp

/-- A record gives a message of the channel it points to, which is not closed. -/
theorem evtDispatch_ret {kev : Kev} {q : Option ChannId}
    (h : Returns (evtDispatch x kev) s (.ret q) t) :
    ∃ n c, kev.ptr = some n ∧ s.heap n = some c ∧ c.state ≠ .closed ∧ q = some n := by
  simp only [evtDispatch, returns_bind, returns_require, returns_deref, and_assoc, exists_and_left,
    exists_eq_left] at h
  obtain ⟨n, hn, c, hc, h⟩ := h
  refine ⟨n, c, hn, hc, ?_⟩
  rcases returns_ite.mp h with ⟨_, h⟩ | ⟨hopen, h⟩
  · cases (returns_pure.mp h).1
  refine ⟨fun hcl => hopen (.inl hcl), ?_⟩
  rcases returns_ite.mp h with ⟨_, h⟩ | ⟨_, h⟩
  · rcases returns_ite.mp h with ⟨_, h⟩ | ⟨_, h⟩
    · simp only [returns_bind] at h
      obtain ⟨_, _, _, _, _, _, h⟩ := h
      exact emit_ret h
    · simp only [returns_bind] at h
      obtain ⟨_, _, _, h⟩ := h
      exact emit_ret h
  · cases hst : c.state <;> rw [hst] at h
    · cases (returns_pure.mp h).1
    · cases (returns_pure.mp h).1
    · exact evtConnecting_ret h
    · exact evtConnected_ret h
    · exact evtListening_ret h

/-! ## The message loop -/

/-- What fetching and handling records consists of. -/
def batchActs : Set Act := {a | a = .park ∨ a = .consume ∨ ∃ n m, a ∈ recordActs n m}

/-- The next message is a timer of `n` that is due, or the queued report of `n`. -/
def Core.source (k : Core) (n : ChannId) : Prop :=
  k.timerDue n ∨ ((∀ m, ¬ k.timerDue m) ∧ k.disChanns = some n)

/-- What a call of `mnet_result_next` does, by where its message comes from. -/
inductive Delivers (k : Core) : Option ChannId → Core → Prop
  | timer {n : ChannId} {j : Core} {c : CChann} {msg : ChannMsg} : k.timerDue n →
    CStep k (.fire n) j → j.heap n = some c → msg.event = some .timer → msg.n = some n →
    Delivers k (some n) (j.set n { c with msg := msg })
  | queued {n : ChannId} {j k' : Core} : (∀ m, ¬ k.timerDue m) → k.disChanns = some n →
    (j = k ∨ CStep k .park j) → CStep j (.deliver n) k' → Delivers k (some n) k'
  | record {p : Option ChannId} {k' : Core} : (∀ m, ¬ k.timerDue m) → k.disChanns = none →
    k'.disChanns = none → Steps batchActs k k' →
    (∀ n, p = some n → k'.heap n ≠ none ∧ ¬ k'.closedAt n) → Delivers k p k'

/-- Handling records neither moves the cursor to a timer nor queues a channel. -/
theorem CStep.batch_calm {k k' : Core} {a : Act} (hs : CStep k a k') (ha : a ∈ batchActs) :
    k'.disChanns = k.disChanns ∧ (k'.tmPos = k.tmPos ∨ k'.tmPos = none) := by
  refine ⟨hs.disChanns_eq ?_ ?_ ?_, ?_⟩
  · rintro n rfl
    simp [batchActs, recordActs] at ha
  · rintro n rfl
    simp [batchActs, recordActs] at ha
  · rintro rfl
    simp [batchActs, recordActs] at ha
  · cases hs with
    | fire | schedule => simp [batchActs, recordActs] at ha
    | park | shutdown => exact .inr rfl
    | @write n c data i =>
      obtain ⟨w, hw⟩ := k.onWire_eq c (data.take i)
      rw [hw]
      exact .inl rfl
    | @flush n c i =>
      obtain ⟨w, hw⟩ := k.onWire_eq c ((rwbDrainParam c.rwbSend).take i)
      rw [hw]
      exact .inl rfl
    | _ => exact .inl rfl

/-- With the cursor on no timer and nothing queued, it stays so. -/
theorem Steps.batch_calm {k k' : Core} (h : Steps batchActs k k') (hdis : k.disChanns = none)
    (hpos : ∀ id, k.tmPos ≠ some (.node id)) :
    k'.disChanns = none ∧ ∀ id, k'.tmPos ≠ some (.node id) := by
  refine h.keeps (I := fun k => k.disChanns = none ∧ ∀ id, k.tmPos ≠ some (.node id)) ?_ ⟨hdis, hpos⟩
  intro a k k' ha hs ⟨hdis, hpos⟩
  obtain ⟨hd, hp⟩ := hs.batch_calm ha
  refine ⟨hd.trans hdis, fun id he => ?_⟩
  rcases hp with hp | hp
  · exact hpos id (hp ▸ he)
  · rw [hp] at he
    cases he

theorem Steps.builtin {A : Set Act} {k k' : Core} (h : Steps A k k') (hb : Base k) (hk : k.builtin)
    (hA : ∀ n ctype, .create n ctype ∈ A → ctype ≤ CHANN_TYPE_BROADCAST) : k'.builtin := by
  refine (h.keeps (I := fun k => Base k ∧ k.builtin) ?_ ⟨hb, hk⟩).2
  intro a k k' ha hs ⟨hb, hk⟩
  exact ⟨hb.step hs, hs.builtin hb hk fun n ctype he => hA n ctype (he ▸ ha)⟩

theorem parked_heap {k j : Core} (h : j = k ∨ CStep k .park j) : j.heap = k.heap := by
  obtain rfl | h := h
  · rfl
  · cases h
    rfl

theorem steps_parked {k j : Core} (h : j = k ∨ CStep k .park j) : Steps batchActs k j := by
  obtain h | h := h
  · exact .of_eq h
  · exact .single h (.inl rfl)

theorem not_timerDue {k : Core} (h : ∀ id, k.tmPos ≠ some (.node id)) (n : ChannId) :
    ¬ k.timerDue n := by
  intro ⟨_, node, _, hpos, _⟩
  exact h _ hpos

/-- A call of `_tm_next` without a message. -/
theorem tmNext_silent (hx : Tame x) {fuel : Nat} {a : Sys ε} (hb : Base s.core) (hty : s.core.builtin)
    (h : Returns (tmNext x fuel) s none a) : (∀ n, ¬ s.core.timerDue n) ∧
      (a.core = s.core ∨ CStep s.core .park a.core) ∧ (∀ id, a.core.tmPos ≠ some (.node id)) ∧
      a.core.disChanns = s.core.disChanns := by
  obtain ⟨_, _, _, hn, _⟩ | ⟨_, hno, ha, hpos⟩ := tmNext_builtin hx hb hty h
  · cases hn
  · refine ⟨hno, ha, hpos, ?_⟩
    obtain ha | ha := ha
    · rw [ha]
    · exact ha.disChanns_eq (by simp) (by simp) (by simp)

/-- No timer is due when a record is fetched, and nothing is queued. -/
theorem Fetches.idle (hx : Tame x) {fuel : Nat} {u : Sys ε} {kev : Kev} (hb : Base s.core) (hty : s.core.builtin)
    (h : Fetches x fuel s u kev) : (∀ n, ¬ s.core.timerDue n) ∧ s.core.disChanns = none ∧
      Steps batchActs s.core u.core ∧ u.core.disChanns = none ∧ ∀ id, u.core.tmPos ≠ some (.node id) := by
  obtain ⟨a, htm, hnone, rfl⟩ := h.quiet
  obtain ⟨hno, ha, hpos, hq⟩ := tmNext_silent hx hb hty htm
  exact ⟨hno, hq ▸ hnone, (steps_parked ha).trans (.single .consume (.inr (.inl rfl))), hnone, hpos⟩

theorem evtDispatch_batch (hx : Tame x) {kev : Kev} {p : Pass} (hb : Base s.core)
    (h : Returns (evtDispatch x kev) s p t) : Steps batchActs s.core t.core := by
  obtain ⟨n, _, hrec⟩ := evtDispatch_steps hx hb h
  exact hrec.mono fun a ha => .inr (.inr ⟨n, _, ha⟩)

/-- The channel of a message that a record gives is there, and not closed. -/
theorem evtDispatch_open (hx : Tame x) {kev : Kev} (hb : Base s.core)
    (h : Returns (evtDispatch x kev) s (.ret (some n)) t) : t.core.heap n ≠ none ∧ ¬ t.core.closedAt n := by
  obtain ⟨m, c, _, hc, hst, hn⟩ := evtDispatch_ret h
  cases hn
  obtain ⟨_, _, hrec⟩ := evtDispatch_steps hx hb h
  obtain ⟨d, hd, hdst, _⟩ := hrec.life hb (core_heap_some hc) (by
    intro a ha
    constructor <;>
    · rintro rfl
      simp [recordActs] at ha)
  refine ⟨by rw [hd]; simp, fun hgone => hst ?_⟩
  obtain ⟨d', hd', hcl⟩ := hgone
  rw [hd] at hd'
  cases hd'
  exact hdst.mp hcl

/-- Every way a call of `mnet_result_next` can go with built-in types. -/
theorem evtLoop_delivers (hx : Tame x) {fuel rounds : Nat} {q : Option ChannId} (hb : Base s.core)
    (hty : s.core.builtin) (h : Returns (evtLoop x fuel rounds) s q t) :
    Delivers s.core q t.core := by
  induction rounds generalizing s with
  | zero => exact absurd h returns_fail
  | succ rounds ih =>
    simp only [evtLoop, returns_bind] at h
    obtain ⟨p, b, hpass, h⟩ := h
    obtain ⟨n, rfl, htm⟩ | ⟨n, a, rfl, htm, hdis⟩ | ⟨a, rfl, htm, hnone, rfl, _⟩ | ⟨u, kev, hf, hdisp⟩ :=
      evtPass_cases hpass
    · obtain ⟨rfl, rfl⟩ := returns_pure.mp h
      obtain ⟨m, k, c, hn, hdue, hfire, hc, msg, hev, hmn, _, ht⟩ | ⟨hn, _⟩ :=
        tmNext_builtin hx hb hty htm
      · cases hn
        rw [ht]
        exact .timer hdue hfire hc hev hmn
      · cases hn
    · obtain ⟨rfl, rfl⟩ := returns_pure.mp h
      obtain ⟨hno, ha, _, hq⟩ := tmNext_silent hx hb hty htm
      obtain ⟨hn, _⟩ | ⟨m, hn, hdel⟩ := disNext_spec hdis
      · cases hn
      · cases hn
        have hhead : a.core.disChanns = some n := by
          generalize t.core = k at hdel
          cases hdel with
          | deliver hh => exact hh
        exact .queued hno (hq ▸ hhead) ha hdel
    · obtain ⟨rfl, rfl⟩ := returns_pure.mp h
      obtain ⟨hno, ha, _, hq⟩ := tmNext_silent hx hb hty htm
      have hcons : CStep a.core .consume { a.core with fdIndex := a.core.fdIndex + 1 } := .consume
      have hsa : Steps batchActs s.core a.core := steps_parked ha
      exact .record hno (hq ▸ hnone) hnone (hsa.trans (.single hcons (.inr (.inl rfl))))
        fun n hn => by cases hn
    · obtain ⟨hno, hnone, hsu, hunone, hupos⟩ := hf.idle hx hb hty
      have hbu := hsu.base hb
      have hub := evtDispatch_batch hx hbu hdisp
      obtain ⟨hbnone, hbpos⟩ := hub.batch_calm hunone hupos
      have hsb := hsu.trans hub
      cases p with
      | ret q' =>
        obtain ⟨rfl, rfl⟩ := returns_pure.mp h
        refine .record hno hnone hbnone hsb fun m hm => ?_
        rw [hm] at hdisp
        exact evtDispatch_open hx hbu hdisp
      | next =>
        have htyb := hsb.builtin hb hty (by simp [batchActs, recordActs])
        have hrest := ih (hsb.base hb) htyb h
        generalize t.core = k at hrest ⊢
        cases hrest with
        | timer hdue => exact absurd hdue (not_timerDue hbpos _)
        | queued _ hhead => rw [hbnone] at hhead; cases hhead
        | record _ _ hdis hsteps hp => exact .record hno hnone hdis (hsb.trans hsteps) hp

/-! ## Message slots -/

/-- Slots are empty or name their own channel, which those of queued channels do. -/
structure Core.slotsOk (k : Core) : Prop where
  own : ∀ n c, k.heap n = some c → c.msg.n = none ∨ c.msg.n = some n
  lt : ∀ n, Visits (disOf k.heap) k.disChanns n → n < k.nextChann
  queued : ∀ n c, Visits (disOf k.heap) k.disChanns n → k.heap n = some c → c.msg.n = some n

section Act

variable {k k' : Core} {a : Act} {c : CChann}

/-- What is in the queue after an act was there before, unless the act put it there. The queue
may be any shape. -/
theorem CStep.visits (hs : CStep k a k') (hb : Base k)
    (hv : Visits (disOf k'.heap) k'.disChanns n) :
    Visits (disOf k.heap) k.disChanns n ∨ a = .report n := by
  have hrest : (∀ m, a ≠ .report m) → k'.disChanns = k.disChanns ∨
      (∃ m, k.disChanns = some m ∧ k'.disChanns = disOf k.heap m) ∨ k'.disChanns = none →
      Visits (disOf k.heap) k.disChanns n := by
    intro hr hhead
    have hnext : ∀ i j, disOf k'.heap i = some j → disOf k.heap i = some j := by
      intro i j hij
      rw [disOf, Option.bind_eq_some_iff] at hij
      obtain ⟨d, hd, hj⟩ := hij
      cases hi : k.heap i with
      | none =>
        obtain ⟨_, ⟨_, _, rfl⟩ | ⟨_, _, _, _, _, _, _, _, rfl⟩⟩ := hs.appears hb hi hd <;> cases hj
      | some c =>
        by_cases hdes : a = .destroy i
        · subst hdes
          cases hs with
          | destroy =>
            rw [show (k.destroyed i _).heap i = none from Function.update_self ..] at hd
            cases hd
        · obtain ⟨c', hc', hdis, _⟩ := hs.queued hb hi hdes
          rw [hd] at hc'
          cases hc'
          rw [disOf, hi]
          exact (hdis (hr i)).symm.trans hj
    have hv' := hv.mono_next hnext
    rcases hhead with hhead | ⟨m, hm, hhead⟩ | hhead
    · exact hhead ▸ hv'
    · rw [hhead] at hv'
      rw [hm]
      exact .tail hv'
    · rw [hhead] at hv'
      exact absurd hv' not_visits_none
  by_cases hr : ∃ m, a = .report m
  · obtain ⟨m, rfl⟩ := hr
    cases hs with
    | @report _ c hm =>
      have hv' : Visits (disOf (Function.update k.heap m (some { c with disNext := k.disChanns })))
          (some m) n := hv
      rw [disOf_push] at hv'
      exact hv'.of_push.symm.imp_right fun e => by rw [e]
  · have hr' : ∀ m, a ≠ .report m := fun m e => hr ⟨m, e⟩
    refine .inl (hrest hr' ?_)
    by_cases hd : ∃ m, a = .deliver m
    · obtain ⟨m, rfl⟩ := hd
      cases hs with
      | @deliver _ c hh hm => exact .inr (.inl ⟨m, hh, by simp [disOf, hm]⟩)
    by_cases hdown : a = .shutdown
    · subst hdown
      cases hs
      exact .inr (.inr rfl)
    · exact .inl (hs.disChanns_eq hr' (fun m e => hd ⟨m, e⟩) hdown)

theorem CStep.slotsOk (hs : CStep k a k') (hb : Base k) (hty : k.builtin) (hk : k.slotsOk) :
    k'.slotsOk := by
  -- the slot of a channel that exists afterwards
  have hslot : ∀ n c', k'.heap n = some c' →
      (k.heap n = none ∧ n = k.nextChann ∧ c'.msg.n = none) ∨
      ∃ c, k.heap n = some c ∧ (c'.msg = c.msg ∨ c'.msg.n = some n) := by
    intro n c' hc'
    cases hn : k.heap n with
    | none =>
      obtain ⟨he, ⟨_, _, rfl⟩ | ⟨_, _, _, _, _, _, _, _, rfl⟩⟩ := hs.appears hb hn hc' <;>
        exact .inl ⟨rfl, he, rfl⟩
    | some c =>
      refine .inr ⟨c, rfl, ?_⟩
      obtain ⟨_, _, hnone⟩ | ⟨d, hd, ht⟩ := hs.at hb hn
      · rw [hnone] at hc'
        cases hc'
      · rw [hc'] at hd
        cases hd
        cases ht with
        | slot hmsg => exact .inr (hmsg (hty n c hn))
        | _ => exact .inl rfl
  refine ⟨fun n c' hc' => ?_, fun n hv => ?_, fun n c' hv hc' => ?_⟩
  · obtain ⟨_, _, hnone⟩ | ⟨c, hc, hm | hm⟩ := hslot n c' hc'
    · exact .inl hnone
    · rw [hm]
      exact hk.own n c hc
    · exact .inr hm
  · refine Nat.lt_of_lt_of_le ?_ hs.nextChann_le
    obtain hv | rfl := hs.visits hb hv
    · exact hk.lt n hv
    · cases hs with
      | report hm => exact hb.reg.lt n (by rw [hm]; simp)
  · obtain hv | rfl := hs.visits hb hv
    · obtain ⟨_, he, _⟩ | ⟨c, hc, hm | hm⟩ := hslot n c' hc'
      · exact absurd (hk.lt n hv) (by rw [he]; exact Nat.lt_irrefl _)
      · rw [hm]
        exact hk.queued n c hv hc
      · exact hm
    · cases hs with
      | @report _ c hm _ hmsg =>
        change Function.update k.heap n _ n = some c' at hc'
        rw [Function.update_self] at hc'
        cases hc'
        exact (hmsg (hty n c hm)).2

end Act

/-! ## Runs over built-in types -/

/-- The call opens no channel of a registered type. -/
def BuiltinOpen (_ : Sys ε) : Call → Prop
  | .channOpen ctype => ctype ≤ CHANN_TYPE_BROADCAST
  | _ => True

instance (s : Sys ε) (c : Call) : Decidable (BuiltinOpen s c) := by
  unfold BuiltinOpen
  split <;> infer_instance

theorem Call.create_acts {c : Call} {n : ChannId} {ctype : Nat} (h : .create n ctype ∈ c.acts) :
    c = .channOpen ctype := by
  cases c with
  | channOpen ctype' =>
    obtain ⟨_, he⟩ := h
    cases he
    rfl
  | channConnect m | channListen m | channClose m | channDisconnect m | channActiveEvent m
  | channSend m | dgramSend m | channRecv m | dgramRecv m =>
    cases m <;> simp [Call.acts, connectActs, listenActs, sendActs, activeActs, activeSendActs,
      activeTimerActs] at h
  | _ => simp [Call.acts, finiActs, reapActs, resetActs, loopActs, timerActs, recordActs] at h

theorem BuiltinOpen.create {c : Call} {n : ChannId} {ctype : Nat} (h : BuiltinOpen s c)
    (hc : .create n ctype ∈ c.acts) : ctype ≤ CHANN_TYPE_BROADCAST := by
  rw [Call.create_acts hc] at h
  exact h

theorem Step.builtin (hx : Tame x) {i : Call × Ret} (h : Step x s i t) (hp : BuiltinOpen s i.1)
    (hb : Base s.core) (hty : s.core.builtin) : t.core.builtin :=
  (apiCall_steps hx hb h).builtin hb hty fun _ _ ha => hp.create ha

theorem Step.slotsOk (hx : Tame x) {i : Call × Ret} (h : Step x s i t) (hp : BuiltinOpen s i.1)
    (hb : Base s.core) (hty : s.core.builtin) (hk : s.core.slotsOk) : t.core.slotsOk := by
  refine ((apiCall_steps hx hb h).keeps (I := fun k => Base k ∧ k.builtin ∧ k.slotsOk) ?_
    ⟨hb, hty, hk⟩).2.2
  intro a k k' ha hs ⟨hb, hty, hk⟩
  exact ⟨hb.step hs, hs.builtin hb hty fun _ _ he => hp.create (he ▸ ha),
    hs.slotsOk hb hty hk⟩

theorem RunWhere.builtin (hx : Tame x) {o : Oracle} {e : ε} {l : List (Call × Ret)}
    (h : RunWhere x BuiltinOpen (Sys.start o e) l s) : s.core.builtin ∧ s.core.slotsOk := by
  refine RunWhere.keeps (I := fun k => k.builtin ∧ k.slotsOk) hx h ⟨?_, ?_⟩ ?_
  · intro n c hc
    cases hc
  · refine ⟨fun n c hc => ?_, fun n hv => absurd hv not_visits_none, fun n c _ hc => ?_⟩ <;>
      cases hc
  · intro a i b hs hp hb ⟨hty, hk⟩
    exact ⟨hs.builtin hx hp hb hty, hs.slotsOk hx hp hb hty hk⟩

/-- The message `&p->msg` names a closed channel. -/
def ClosedMessage (t : Sys ε) (p : ChannId) : Prop :=
  ∃ c m, t.heap p = some c ∧ c.msg.n = some m ∧ t.Closed m

/-- A slot that names its own channel. -/
theorem closedMessage_iff {p : ChannId} {c : CChann} (hc : t.core.heap p = some c) (hcp : c.msg.n = some p) :
    ClosedMessage t p ↔ t.core.closedAt p := by
  rw [core_heap, Option.map_eq_some_iff] at hc
  obtain ⟨d, hd, rfl⟩ := hc
  constructor
  · intro hclosed
    obtain ⟨d', m, hd', hm, hcl⟩ := hclosed
    rw [hd] at hd'
    cases hd'
    have hmp : m = p := Option.some.inj (hm.symm.trans hcp)
    exact closedAt_core.mpr (hmp ▸ hcl)
  · intro hcl
    exact ⟨d, p, hd, hcp, closedAt_core.mp hcl⟩

theorem timerDue_unique {k : Core} {m : ChannId} (hm : k.timerDue m) (hn : k.timerDue n) : m = n := by
  obtain ⟨clock, node, hc, hpos, hf, _, rfl⟩ := hm
  obtain ⟨clock', node', hc', hpos', hf', _, rfl⟩ := hn
  obtain rfl := Option.some.inj (hc.symm.trans hc')
  have hid : node.id = node'.id := TmLink.node.inj (Option.some.inj (hpos.symm.trans hpos'))
  rw [← hid, hf, Option.some.injEq] at hf'
  rw [hf']

namespace Core.source

/-- A message has one source. -/
theorem unique {k : Core} {m : ChannId} (hm : k.source m) (hn : k.source n) : m = n := by
  obtain hm | ⟨hno, hm⟩ := hm
  · obtain hn | ⟨hno', _⟩ := hn
    · exact timerDue_unique hm hn
    · exact absurd hm (hno' m)
  · obtain hn | ⟨_, hn⟩ := hn
    · exact absurd hn (hno n)
    · exact Option.some.inj (hm.symm.trans hn)

theorem closed_iff (hn : s.core.source n) : (∃ m, s.core.source m ∧ s.Closed m) ↔ s.core.closedAt n := by
  constructor
  · intro hclosed
    obtain ⟨m, hm, hcl⟩ := hclosed
    exact closedAt_core.mpr (hm.unique hn ▸ hcl)
  · intro hcl
    exact ⟨n, hn, closedAt_core.mp hcl⟩

end Core.source

/-- The timer that is due is that of a channel. -/
theorem timerDue_alloc {k : Core} (hb : Base k) (h : k.timerDue n) : k.heap n ≠ none := by
  obtain ⟨clock, node, hc, _, hf, _, rfl⟩ := h
  obtain ⟨c, hn, _⟩ := hb.timed.chann node (by rw [hc]; exact (skiplistFind_some hf).1)
  rw [hn]
  simp

/-- The queue is not looked through for channels that are gone. -/
theorem freed_source_faults (hx : Tame x) {fuel : Nat} (hb : Base s.core) (hty : s.core.builtin)
    (hsource : s.core.source n) (hgone : s.heap n = none) : ¬ Terminates (apiCall x (.resultNext fuel)) s := by
  rintro ⟨r, t, h⟩
  have hnone : s.core.heap n = none := by
    rw [core_heap, hgone]
    rfl
  obtain hdue | ⟨hno, hhead⟩ := hsource
  · exact timerDue_alloc hb hdue hnone
  obtain ⟨q, _, hloop⟩ := returns_ret.mp h
  have hdel := evtLoop_delivers hx hb hty hloop
  generalize t.core = k at hdel
  cases hdel with
  | timer hdue => exact hno _ hdue
  | @queued m j _ _ hhead' hj hdel =>
    have hjs : j.heap = s.core.heap := parked_heap hj
    obtain rfl : n = m := Option.some.inj (hhead.symm.trans hhead')
    cases hdel with
    | deliver _ hc =>
      rw [hjs, hnone] at hc
      cases hc
  | record _ hempty =>
    rw [hempty] at hhead
    cases hhead

/-- A message names a closed channel exactly when its source is a due timer, or the queued
report, of a closed channel. When its source is a channel that was freed there is none. -/
theorem closed_message_iff (hx : Tame x) {o : Oracle} {e : ε} {l : List (Call × Ret)} {fuel : Nat}
    (h : RunWhere x BuiltinOpen (Sys.start o e) l s) :
    (∀ p t, Step x s (.resultNext fuel, .msg (some p)) t →
      (ClosedMessage t p ↔ ∃ n, s.core.source n ∧ s.Closed n)) ∧
    ((∃ n, s.core.source n ∧ s.Freed n) → ¬ Terminates (apiCall x (.resultNext fuel)) s) := by
  have hb : Base s.core := Reachable.base hx ⟨o, e, l, h.run⟩
  obtain ⟨hty, hk⟩ := h.builtin hx
  refine ⟨fun p t hn => ?_, fun hfreed => ?_⟩
  swap
  · obtain ⟨n, hsource, _, hgone⟩ := hfreed
    exact freed_source_faults hx hb hty hsource hgone
  have hown := (Step.slotsOk hx hn trivial hb hty hk).own
  obtain ⟨q, hq, hloop⟩ := returns_ret.mp hn
  obtain rfl : q = some p := (Ret.msg.inj hq).symm
  have hdel := evtLoop_delivers hx hb hty hloop
  generalize hkt : t.core = k at hdel
  cases hdel with
  | @timer _ j c msg hdue hfire hc hev hmn =>
    have hset : t.core.heap p = some { c with msg := msg } := by
      rw [hkt]
      exact Function.update_self ..
    rw [closedMessage_iff hset hmn, hkt, Core.source.closed_iff (.inl hdue),
      ← hfire.closedAt_iff (n := p) hb (by simp) (by simp)]
    have hslot : CStep j (.slot p) (j.set p { c with msg := msg }) := .slot msg hc fun _ => hmn
    exact hslot.closedAt_iff (hb.step hfire) (by simp) (by simp)
  | @queued _ j _ hno hhead hj hdel =>
    have hjs : j.heap = s.core.heap := parked_heap hj
    cases hdel with
    | @deliver _ c hh hc =>
      have hc' : s.core.heap p = some c := hjs ▸ hc
      have hmp := hk.queued p c (by rw [hhead]; exact .head) hc'
      have hcl : ∀ q, ({ j with disChanns := q } : Core).closedAt p ↔ s.core.closedAt p := by
        intro q
        unfold Core.closedAt
        rw [hjs]
      rw [closedMessage_iff (by rw [hkt]; exact hc) hmp, hkt, Core.source.closed_iff (.inr ⟨hno, hhead⟩)]
      exact hcl _
  | record hno hnone _ _ hp =>
    obtain ⟨halloc, hopen⟩ := hp p rfl
    rw [← hkt] at hopen
    constructor
    · intro hcl
      obtain ⟨d, m, hd, hdm, _⟩ := id hcl
      rcases hown p d.core (core_heap_some hd) with hm | hm
      · cases hdm.symm.trans hm
      · exact absurd ((closedMessage_iff (core_heap_some hd) hm).mp hcl) hopen
    · intro ⟨n, hn, _⟩
      rcases hn with hdue | ⟨_, hhead⟩
      · exact absurd hdue (hno n)
      · rw [hnone] at hhead
        cases hhead

/-- The timer of a channel closed after the poll is still delivered. -/
theorem closed_message_due : ∃ t : Sys Unit, ClosedMessage t 0 := by
  have hrun : AfterWhere noExt BuiltinOpen [.mnetInit, .channOpen 1,
      .channActiveEvent (some 0) .timer 1, .poll, .channClose (some 0)] (Sys.start lateOracle ())
      fun s => (s.mnet.tmClock = some [⟨0, 2000, ⟨1000, 2000, 0⟩⟩] ∧ s.mnet.tmPos = some (.node 0) ∧
        s.mnet.tmCurrent = 2000 ∧ (s.heap 0).map Chann.state = some .closed) ∧
          After noExt [.resultNext 5] s fun rs _ => rs = [.msg (some 0)] := by decide +kernel
  obtain ⟨_, s, h, ⟨hclock, hpos, hcur, hst⟩, hnext⟩ := hrun.run
  obtain ⟨r, t, hstep, hr⟩ := hnext.step
  obtain rfl : r = .msg (some 0) := by simpa using hr
  rw [Option.map_eq_some_iff] at hst
  have hdue : s.core.timerDue 0 :=
    ⟨_, ⟨0, 2000, ⟨1000, 2000, 0⟩⟩, hclock, hpos, rfl, Int.le_of_eq hcur.symm, rfl⟩
  exact ⟨t, ((closed_message_iff tame_noExt h).1 0 t hstep).mpr ⟨0, .inl hdue, hst⟩⟩

/-- The same run, which closes a channel before its timer is handled. -/
theorem not_closed_message_free : ∃ l s t, RunWhere noExt BuiltinOpen (Sys.start lateOracle ()) l s ∧
    Step noExt s (.resultNext 5, .msg (some 0)) t ∧ ClosedMessage t 0 := by
  have hrun : AfterWhere noExt BuiltinOpen [.mnetInit, .channOpen 1,
      .channActiveEvent (some 0) .timer 1, .poll, .channClose (some 0)] (Sys.start lateOracle ())
      fun s => After noExt [.resultNext 5] s fun rs t => rs = [.msg (some 0)] ∧
        (t.heap 0).map Chann.state = some .closed ∧
          (t.heap 0).bind (fun c => c.msg.n) = some 0 := by decide +kernel
  obtain ⟨l, s, h, hnext⟩ := hrun.run
  obtain ⟨r, t, hstep, hr, hst, hm⟩ := hnext.step
  obtain rfl : r = .msg (some 0) := by simpa using hr
  rw [Option.map_eq_some_iff] at hst
  rw [Option.bind_eq_some_iff] at hm
  obtain ⟨c, hc, hcm⟩ := hm
  exact ⟨l, s, t, h, hstep, c, 0, hc, hcm, hst⟩

end MNet
