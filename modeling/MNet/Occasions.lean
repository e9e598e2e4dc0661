import MNet.Lives
import MNet.Failures
import MNet.HangUp

/-! # When a message is given out

The event a message tells of and the stages of the channels it names belong together. From
this a run gives out every channel once, opened or accepted, and CONNECTED at most once for
each call that connects. -/

namespace MNet
open MNet.Lib MNet.Lib.Exec

variable {ε : Type} {x : ExtTable ε} {s t : Sys ε} {n : ChannId}

/-! ## Stages a call of `mnet_result_next` cannot enter -/

/-- Connecting is entered by a call that connects, and no channel becomes unborn. -/
theorem Stage.Turns.entered {a b : Stage} {e : Turn} (h : Stage.Turns a e b) :
    b ≠ .unborn ∧ (b = .alive .connecting → e = .attached .connecting) := by
  cases h <;> simp

theorem Lib.Via.from_unborn {B : Set Turn} {a b : Stage} (h : Via Stage.Turns B a b) (hb : b = .unborn) :
    a = .unborn := by
  by_contra ha
  exact h.keeps (I := fun u => u ≠ .unborn) (fun _ _ _ _ ht _ => ht.entered.1) ha hb

theorem Lib.Via.from_connecting {B : Set Turn} {a b : Stage} (h : Via Stage.Turns B a b)
    (hB : .attached .connecting ∉ B) (hb : b = .alive .connecting) : a = .alive .connecting := by
  by_contra ha
  refine h.keeps (I := fun u => u ≠ .alive .connecting) (fun _ e _ he ht _ hc => ?_) ha hb
  rw [ht.entered.2 hc] at he
  exact hB he

/-- Only a socket that is found connected, or attached so, takes a connecting channel on. -/
theorem Lib.Via.not_connected {B : Set Turn} {a b : Stage} (h : Via Stage.Turns B a b) (hB : .established ∉ B)
    (hB' : .attached .connected ∉ B) (ha : a = .alive .connecting) : b ≠ .alive .connected := by
  have hinv : b ≠ .unborn ∧ b ≠ .alive .connected := by
    refine h.keeps (I := fun u => u ≠ .unborn ∧ u ≠ .alive .connected) (fun u e v he ht hu => ?_) (by simp [ha])
    refine ⟨ht.entered.1, fun hv => ?_⟩
    rw [hv] at ht
    cases ht with
    | accepted => exact hu.1 rfl
    | attached => exact hB' he
    | established => exact hB he
  exact hinv.2

/-- While messages are looked for, nothing but a connecting channel becomes connected, bar a new one. -/
theorem Lib.Via.to_connected {a b : Stage} (h : Via Stage.Turns {.accepted, .established, .dropped} a b)
    (hb : b = .alive .connected) : a = .unborn ∨ a = .alive .connecting ∨ a = .alive .connected := by
  by_contra ha
  refine h.keeps (I := fun u => ¬ (u = .unborn ∨ u = .alive .connecting ∨ u = .alive .connected))
    (fun u e v he ht hu hv => ?_) ha (.inr (.inr hb))
  obtain rfl | rfl | rfl := hv
  · exact ht.entered.1 rfl
  · rw [ht.entered.2 rfl] at he
    simp at he
  · cases ht with
    | accepted => exact hu (.inl rfl)
    | attached => simp at he
    | established => exact hu (.inr (.inl rfl))

/-! ## What is in the queue -/

/-- The report of `n` waits in the queue, or a timer's message has taken its place. -/
def Core.noticed (k : Core) (n : ChannId) : Prop :=
  Visits (disOf k.heap) k.disChanns n → n < k.nextChann ∧ ∀ c, k.heap n = some c →
    c.msg.event = some .disconnect ∨ c.msg.event = some .timer

theorem Core.noticed_of_empty {k : Core} (h : k.disChanns = none) : k.noticed n := by
  intro hv
  rw [h] at hv
  exact absurd hv not_visits_none

section Act

variable {k k' : Core} {a : Act} {A : Set Act} {c : CChann} {m : ChannId}

/-- A channel stays as it is in the queue unless an act writes its slot. -/
theorem CStep.noticed (hs : CStep k a k') (hb : Base k) (hk : k.noticed n) (ha : a ≠ .slot n)
    (hr : a ≠ .report n) : k'.noticed n := by
  intro hv
  obtain hv | he := hs.visits hb hv
  swap
  · exact absurd he hr
  obtain ⟨hlt, hk⟩ := hk hv
  refine ⟨Nat.lt_of_lt_of_le hlt hs.nextChann_le, fun c' hc' => ?_⟩
  cases hn : k.heap n with
  | none =>
    -- a queued channel is not a new one
    obtain ⟨rfl, _⟩ := hs.appears hb hn hc'
    exact absurd hlt (Nat.lt_irrefl _)
  | some c =>
    by_cases hd : a = .destroy n
    · obtain ⟨_, _, hnone⟩ | ⟨d, _, ht⟩ := hs.at hb hn
      · rw [hnone] at hc'
        cases hc'
      · rw [hd] at ht
        cases ht with
        | links h => exact absurd rfl h
        | interest h => simp at h
        | timer h => simp at h
    · obtain ⟨d, hd, _, hmsg⟩ := hs.queued hb hn hd
      rw [hc', Option.some.injEq] at hd
      rw [hd, hmsg ha]
      exact hk c hn

theorem Steps.noticed (h : Steps A k k') (hb : Base k) (hk : k.noticed n)
    (hA : ∀ a ∈ A, a ≠ .slot n ∧ a ≠ .report n) : k'.noticed n := by
  refine (h.keeps (I := fun k => Base k ∧ k.noticed n) ?_ ⟨hb, hk⟩).2
  intro a k k' ha hs ⟨hb, hk⟩
  exact ⟨hb.step hs, hs.noticed hb hk (hA a ha).1 (hA a ha).2⟩

theorem Act.unqueued.unwritten {a : Act} (h : a.unqueued) : a ≠ .slot n ∧ a ≠ .report n := by
  cases a <;> first | exact h.elim | exact ⟨by simp, by simp⟩

/-- A failed transfer leaves its own report in the queue, and the others. -/
theorem Fails.noticed {r : Int} (h : Fails m k k' r) (hb : Base k) (hm : k.heap m = some c)
    (hty : c.ctype ≤ CHANN_TYPE_BROADCAST) (hk : k.noticed n) : k'.noticed n := by
  obtain ⟨j, d, hj, hr, hd, hev, _, _⟩ := h.builtin c hm hty
  have hbj := hj.base hb
  by_cases hn : n = m
  · subst hn
    intro _
    refine ⟨(hbj.step hr).reg.lt n ?_, fun c' hc' => ?_⟩
    · obtain ⟨d', hd', _⟩ := hr.queued hbj hd (by simp)
      simp [hd']
    · obtain ⟨d', hd', _, hmsg⟩ := hr.queued hbj hd (by simp)
      rw [hc', Option.some.injEq] at hd'
      rw [hd', hmsg (by simp)]
      exact .inl hev
  · have hnj : j.noticed n := hj.noticed hb hk (by
      rintro _ (rfl | rfl)
      · exact ⟨fun e => hn (Act.slot.inj e).symm, by simp⟩
      · exact ⟨by simp, by simp⟩)
    exact hr.noticed hbj hnj (by simp) fun e => hn (Act.report.inj e).symm

/-- Steps that find no socket connected. -/
theorem Steps.not_established {A : Set Act} {k k' : Core} (h : Steps A k k') (hb : Base k)
    (hA : ∀ a ∈ A, a ≠ .established m ∧ ∀ fd, a ≠ .attach m fd .connected)
    (hm : k.stage m = .alive .connecting) : k'.stage m ≠ .alive .connected := by
  refine (h.lives (B := {e | e ≠ .established ∧ e ≠ .attached .connected}) hb fun a ha e he => ?_).not_connected
    (fun hno => hno.1 rfl) (fun hno => hno.2 rfl) hm
  constructor
  · rintro rfl
    cases a with
    | established i => exact (hA _ ha).1 (by rw [he.1])
    | create | accept | attach | disconnect | close | destroy => simp [Act.turns] at he
    | _ => exact he.elim
  · rintro rfl
    cases a with
    | attach i fd st =>
      obtain ⟨rfl, hst⟩ := he
      cases hst
      exact (hA _ ha).2 fd rfl
    | create | accept | established | disconnect | close | destroy => simp [Act.turns] at he
    | _ => exact he.elim

/-- So does a call of `mnet_result_next`, wherever its message comes from. -/
theorem Delivers.noticed {p : Option ChannId} (h : Delivers k p k') (hb : Base k) (hk : k.noticed n) :
    k'.noticed n := by
  cases h with
  | @timer m j c msg _ hfire hm hev hmn =>
    have hslot : CStep j (.slot m) (j.set m { c with msg := msg }) := .slot msg hm fun _ => hmn
    have hbj := hb.step hfire
    have hnj := hfire.noticed hb hk (by simp) (by simp)
    by_cases hn : n = m
    · subst hn
      intro hv
      obtain hv | he := hslot.visits hbj hv
      swap
      · cases he
      refine ⟨Nat.lt_of_lt_of_le (hnj hv).1 hslot.nextChann_le, fun c' hc' => ?_⟩
      rw [Core.set_heap, Function.update_self, Option.some.injEq] at hc'
      rw [← hc']
      exact .inr hev
    · exact hslot.noticed hbj hnj (fun e => hn (Act.slot.inj e).symm) (by simp)
  | queued _ _ hj hdel =>
    have hdel' := fun hbj hnj => hdel.noticed (n := n) hbj hnj (by simp) (by simp)
    rcases hj with rfl | hj
    · exact hdel' hb hk
    · exact hdel' (hb.step hj) (hj.noticed hb hk (by simp) (by simp))
  | record _ _ hnone => exact Core.noticed_of_empty hnone

end Act

/-- What waits in the queue are reports, in every state of a run. -/
theorem Step.noticed (hx : Tame x) {i : Call × Ret} (h : Step x s i t) (hb : Base s.core)
    (hty : s.core.builtin) (hk : s.core.noticed n) : t.core.noticed n := by
  obtain ⟨c, r⟩ := i
  by_cases hpoll : c = .poll
  · subst hpoll
    obtain ⟨_, _, h⟩ := returns_ret.mp h
    obtain ⟨k, k', k'', hdel, hreap, hsched, hbatch⟩ := evtPoll_spec hb h
    have hbk := hdel.base hb
    have hk1 := hdel.noticed hb hk (by rintro _ ⟨m, rfl | rfl⟩ <;> simp)
    have hk2 := hreap.noticed hbk hk1 (by simp) (by simp)
    have hk3 := hsched.noticed (hbk.step hreap) hk2 (by simp) (by simp)
    exact hbatch.noticed ((hbk.step hreap).step hsched) hk3 (by simp) (by simp)
  by_cases hfini : c = .mnetFini
  · subst hfini
    obtain ⟨_, _, h⟩ := returns_ret.mp h
    obtain ⟨_, ht⟩ | ⟨_, k, _, hdown⟩ := mnetFini_spec hx hb h
    · rw [ht]
      exact hk
    · generalize t.core = k' at hdown
      cases hdown
      exact Core.noticed_of_empty rfl
  by_cases hnext : ∃ fuel, c = .resultNext fuel
  · obtain ⟨fuel, rfl⟩ := hnext
    obtain ⟨_, _, h⟩ := returns_ret.mp h
    exact (evtLoop_delivers hx hb hty h).noticed hb hk
  obtain hs | ⟨m, k, hf, hs, hfails⟩ := h.fails hx hb hpoll hfini fun fuel e => hnext ⟨fuel, e⟩
  · exact hs.noticed hb hk fun a ha => ha.unwritten
  · obtain ⟨d, hd⟩ := hf.alloc
    have hdes : .destroy m ∉ {a : Act | a.unqueued} := id
    obtain ⟨c, hc, hct⟩ := hs.same_type hb hdes (core_heap_some hd)
    exact hfails.noticed (hs.base hb) hc (hct ▸ hty m _ (core_heap_some hd))
      (hs.noticed hb hk fun a ha => ha.unwritten)

/-! ## Records -/

/-- What is so when the message in the slot of `n` is given out by a call that leads from `k`
to `k'`. -/
inductive Occasion (k k' : Core) (n : ChannId) (msg : ChannMsg) : Prop
  | notice : msg.event = some .disconnect ∨ msg.event = some .timer → Occasion k k' n msg
  | recv : msg.event = some .recv → k'.stage n = .alive .connected ∨ k'.stage n = .alive .listening →
    Occasion k k' n msg
  | send : msg.event = some .send → k'.stage n = .alive .connected →
    (∀ c, k'.heap n = some c → c.rwbSend = []) → Occasion k k' n msg
  | connected : msg.event = some .connected → k.stage n = .alive .connecting →
    k'.stage n = .alive .connected → Occasion k k' n msg
  | accept {r : ChannId} : msg.event = some .accept → msg.r = some r →
    k'.stage n = .alive .listening → k.stage r = .unborn → k'.stage r = .alive .connected →
    Occasion k k' n msg

theorem emit_builtin (hx : Tame x) (hb : Base s.core) (hty : s.core.builtin) {event : ChannEvent}
    {q : Option ChannId} {err : Int} {p : Pass} (h : Returns (emit x n event q err) s p t) :
    ∃ c, s.heap n = some c ∧ p = .ret (some n) ∧
      t = s.setChann n { c with msg := msgOf n c event q err } := by
  obtain ⟨c, hc, _, _, hbuiltin⟩ := emit_spec hx hb h
  obtain ⟨hp, ht⟩ := hbuiltin (hty n _ (core_heap_some hc))
  exact ⟨c, hc, hp, ht⟩

/-- A write that keeps the state moves no channel to another stage. -/
theorem Core.stage_set {k : Core} {c c' : CChann} (hn : k.heap n = some c) (hst : c'.state = c.state)
    (m : ChannId) : (k.set n c').stage m = k.stage m := by
  by_cases hm : m = n
  · subst hm
    have hn' : (k.set m c').heap m = some c' := by rw [Core.set_heap, Function.update_self]
    rw [Core.stage_some hn, Core.stage_some hn', hst]
  · simp only [Core.stage, Core.set_heap, Function.update_of_ne hm]
    rfl

theorem stage_slot {c : Chann} {msg : ChannMsg} (hc : s.heap n = some c) (m : ChannId) :
    (s.setChann n { c with msg := msg }).core.stage m = s.core.stage m := by
  rw [core_setChann]
  refine Core.stage_set (core_heap_some hc) ?_ m
  rfl

/-- With a built-in type nothing comes between a channel being accepted and its announcement. -/
theorem channAccept_builtin (hb : Base s.core) {l : Chann} {m : ChannId} (hl : s.heap n = some l)
    (hty : l.ctype ≤ CHANN_TYPE_BROADCAST) (h : Returns (channAccept x n) s (some m) t) :
    m = s.core.nextChann ∧ t.core.stage m = .alive .connected ∧ ∃ fd, CStep s.core (.accept m fd) t.core := by
  simp only [channAccept, returns_bind, returns_deref, and_assoc, exists_and_left,
    exists_eq_left] at h
  obtain ⟨l', hl', p, a, hac, h⟩ := h
  rw [hl, Option.some.injEq] at hl'
  subst hl'
  rcases returns_ite.mp h with ⟨hfd, h⟩ | ⟨_, h⟩
  swap
  · cases (returns_pure.mp h).1
  obtain ⟨hp, _⟩ | ⟨hpos, hnone, ha, tr, htr⟩ := acFn_spec hac
  · exact absurd hp (by omega)
  simp only [returns_bind] at h
  obtain ⟨nb, b, hnb, h⟩ := h
  obtain ⟨_, hge⟩ := (setNonblocking_spec hnb).2.2 _ _ htr
  rcases returns_ite.mp h with ⟨hnb0, h⟩ | ⟨_, h⟩
  swap
  · cases (returns_pure.mp h).1
  have hbcore := (hge hnb0).trans ha
  simp only [returns_bind, returns_pure, Option.some.injEq] at h
  obtain ⟨m', d, hnew, _, e, hmod, _, f, hcb, rfl, rfl⟩ := h
  obtain ⟨rfl, _, hd⟩ := channCreate_spec hnew
  obtain ⟨c, hc, _, _, _, he⟩ := core_modifyChann hmod
  have hbb : Base b.core := hbcore ▸ hb.openFd hnone
  -- the new channel with its descriptor stored is what the act pushes
  have hc' := core_heap_some hc
  rw [hd, Core.push_heap hbb, Option.some.injEq] at hc'
  have hpush : e.core = (s.core.openFd p.1).push
      { fd := p.1, state := .connected, ctype := l.core.ctype } := by
    have hfd : ({ c with fd := p.1, addr := p.2 } : Chann).core = { c.core with fd := p.1 } := rfl
    rw [he, hfd, ← hc', hd, ← hbcore]
    exact Core.push_set hbb rfl rfl
  have hstep := CStep.accept (core_heap_some hl) hpos hnone
  rw [← hpush] at hstep
  have hnext : b.core.nextChann = s.core.nextChann := by rw [hbcore]; rfl
  -- the callback of a built-in type does nothing
  rw [extConfig_builtin x hty] at hcb
  simp only [callback, internalExt, extOpCb, returns_bind, returns_pure] at hcb
  obtain ⟨_, g, hrec, _, rfl⟩ := hcb
  rw [core_record hrec trivial, hnext]
  refine ⟨rfl, ?_, p.1, hstep⟩
  rw [hpush]
  exact Core.stage_some (Core.push_heap (hb.openFd hnone))

/-- A listening socket gives a message for what it accepts, or for a datagram. -/
theorem evtListening_occasion (hx : Tame x) (hb : Base s.core) (hty : s.core.builtin) {c : Chann}
    (hc : s.heap n = some c) (hst : c.state = .listening) {raw : Nat} {q : Option ChannId}
    (h : Returns (evtListening x n raw) s (.ret q) t) :
    ∃ d, t.heap n = some d ∧ Occasion s.core t.core n d.msg := by
  have hstage : s.core.stage n = .alive .listening := by
    rw [Core.stage_some (core_heap_some hc)]
    exact congrArg _ hst
  simp only [evtListening] at h
  rcases returns_ite.mp h with ⟨_, h⟩ | ⟨_, h⟩
  · simp only [returns_bind] at h
    obtain ⟨r, a, hacc, h⟩ := h
    cases r with
    | none => cases (returns_pure.mp h).1
    | some m =>
      simp only [returns_bind] at h
      obtain ⟨_, b, hadd, hemit⟩ := h
      obtain ⟨rfl, hnew, fd, hstep⟩ := channAccept_builtin hb hc (hty n _ (core_heap_some hc)) hacc
      have hfresh : s.core.heap s.core.nextChann = none := hb.heap_fresh
      have hne : s.core.nextChann ≠ n := by
        rintro rfl
        rw [core_heap_some hc] at hfresh
        cases hfresh
      have hba := hb.step hstep
      have hna : a.core.stage n = s.core.stage n :=
        (hstep.turns hb n).of_empty fun _ he => hne he.1
      -- asking for interest is no turn of any channel
      obtain ⟨d, hd, hact⟩ : ∃ d, a.core.heap s.core.nextChann = some d ∧ d.state.active := by
        cases hd : a.core.heap s.core.nextChann with
        | none =>
          rw [Core.stage_none hd] at hnew
          split at hnew <;> cases hnew
        | some d =>
          rw [Core.stage_some hd, Stage.alive.injEq] at hnew
          exact ⟨d, rfl, by rw [hnew]; trivial⟩
      have hab := evtAdd_steps (by simp) hd hact hadd
      have hsame : ∀ i, b.core.stage i = a.core.stage i := fun i =>
        (hab.lives (B := ∅) hba (by rintro _ rfl e he; exact he)).of_empty fun _ he => he
      have htyb := hab.builtin hba (hstep.builtin hb hty (by simp)) (by simp)
      obtain ⟨c', hc', _, rfl⟩ := emit_builtin hx (hab.base hba) htyb hemit
      refine ⟨_, Function.update_self .., .accept rfl rfl ?_ ?_ ?_⟩
      · rw [stage_slot hc', hsame, hna, hstage]
      · rw [Core.stage_none hfresh, if_neg (Nat.lt_irrefl _)]
      · rw [stage_slot hc', hsame, hnew]
  · obtain ⟨c', hc', _, rfl⟩ := emit_builtin hx hb hty h
    refine ⟨_, Function.update_self .., .recv rfl (.inr ?_)⟩
    rw [stage_slot hc', hstage]

/-- A socket that connects gives CONNECTED as its channel becomes so, or DISCONNECT. -/
theorem evtConnecting_tells (hx : Tame x) (hb : Base s.core) (hty : s.core.builtin) {c : Chann} {p : Pass}
    (hc : s.heap n = some c) (hst : c.state = .connecting) (h : Returns (evtConnecting x n) s p t) :
    p = .ret (some n) ∧ ∃ d, t.heap n = some d ∧
      ((d.msg.event = some .connected ∧ t.core.stage n = .alive .connected) ∨
        (d.msg.event = some .disconnect ∧ t.core.stage n ≠ .alive .connected)) := by
  have hstage : s.core.stage n = .alive .connecting := by
    rw [Core.stage_some (core_heap_some hc)]
    exact congrArg _ hst
  simp only [evtConnecting, returns_bind, returns_deref, and_assoc, exists_and_left,
    exists_eq_left] at h
  obtain ⟨_, _, opt, a, hopt, h⟩ := h
  have hna := core_heap_some hc
  have ha := core_sysSockError hopt
  rw [← ha] at hb hty hstage hna
  rcases returns_ite.mp h with ⟨_, h⟩ | ⟨_, h⟩
  · simp only [returns_bind] at h
    obtain ⟨_, b, hdel, _, d, hadd, _, e, hmod, hemit⟩ := h
    have hact : c.core.state.active := by rw [show c.core.state = .connecting from hst]; trivial
    have hab := evtDel_steps hna hact (.inl hst) hdel
    obtain ⟨c₁, hc₁, hst₁, _⟩ := hab.keeps_channel (by rintro _ rfl; exact .inr rfl) hna
    have hbd := evtAdd_steps (by simp) hc₁ (by rw [hst₁]; exact hact) hadd
    obtain ⟨c₂, hc₂, hst₂, _⟩ := hbd.keeps_channel (by rintro _ rfl; exact .inl rfl) hc₁
    obtain ⟨c₃, hc₃, he₃, _, _, he⟩ := core_modifyChann hmod
    rw [core_heap_some hc₃, Option.some.injEq] at hc₂
    have hest : CStep d.core (.established n) e.core := by
      rw [he]
      refine CStep.established (core_heap_some hc₃) ?_
      rw [hc₂, hst₂, hst₁]
      exact hst
    have hbb := hbd.base (hab.base hb)
    have htye := hest.builtin hbb (hbd.builtin (hab.base hb) (hab.builtin hb hty (by simp)) (by simp))
      (by simp)
    obtain ⟨c', hc', hp, rfl⟩ := emit_builtin hx (hbb.step hest) htye hemit
    refine ⟨hp, _, Function.update_self .., .inl ⟨rfl, ?_⟩⟩
    rw [stage_slot hc', Core.stage_some (core_heap_some he₃)]
    rfl
  · simp only [returns_bind] at h
    obtain ⟨_, b, hdis, hemit⟩ := h
    have hab := channDisconnectSocket_steps hx.ops hb hdis
    obtain ⟨c', hc', hp, rfl⟩ := emit_builtin hx (hab.base hb) (hab.builtin hb hty (by simp)) hemit
    refine ⟨hp, _, Function.update_self .., .inr ⟨rfl, ?_⟩⟩
    rw [stage_slot hc']
    exact hab.not_established hb (by rintro _ rfl; simp) hstage

/-- A record that finds a channel connected gives the message that says so. -/
theorem evtDispatch_established {m : ChannId} (hx : Tame x) (hb : Base s.core) (hty : s.core.builtin) {kev : Kev} {p : Pass}
    (h : Returns (evtDispatch x kev) s p t) (hm : s.core.stage m = .alive .connecting)
    (ht : t.core.stage m = .alive .connected) :
    p = .ret (some m) ∧ ∃ d, t.heap m = some d ∧ d.msg.event = some .connected := by
  obtain ⟨n, c, _, hc, ⟨_, _, rfl⟩ | ⟨_, _, _, a, b, r, err, ha, hdis, hemit, _⟩ |
    ⟨_, _, _, ⟨_, h⟩ | ⟨hst, h⟩ | ⟨hst, h⟩ | ⟨_, _, rfl⟩⟩⟩ := evtDispatch_cases h
  · exact absurd (hm.symm.trans ht) (by simp)
  · have hs := evtDown_steps hx hb ha hdis hemit
    exact absurd ht (hs.not_established hb (by rintro _ (rfl | rfl) <;> simp) hm)
  · have hs := evtListening_spec hx hb h
    refine absurd ht (hs.not_established hb ?_ hm)
    rintro _ (rfl | rfl | ⟨fd, rfl⟩ | ⟨fd, rfl⟩ | rfl | rfl) <;> simp
  · by_cases hn : m = n
    · subst hn
      obtain ⟨hp, d, hd, ⟨hev, _⟩ | ⟨_, hno⟩⟩ := evtConnecting_tells hx hb hty hc hst h
      · exact ⟨hp, d, hd, hev⟩
      · exact absurd ht hno
    · have hs := evtConnecting_steps hx hb (core_heap_some hc) hst h
      refine absurd ht (hs.not_established hb ?_ hm)
      rintro _ (rfl | rfl | rfl | rfl | rfl | ⟨_, rfl⟩ | ⟨_, rfl⟩ | ⟨_, rfl⟩ | rfl | rfl) <;> simp [Ne.symm hn]
  · have hn : m ≠ n := by
      rintro rfl
      rw [Core.stage_some (core_heap_some hc), Stage.alive.injEq] at hm
      exact absurd (hm.symm.trans hst) (by simp)
    have hs := evtConnected_steps hx hb (core_heap_some hc) hst h
    refine absurd ht (hs.not_established hb ?_ hm)
    rintro _ (rfl | rfl | rfl | rfl | rfl | ⟨_, rfl⟩ | ⟨_, rfl⟩ | ⟨_, rfl⟩ | rfl | rfl) <;> simp [Ne.symm hn]
  · exact absurd (hm.symm.trans ht) (by simp)

/-- A connected socket gives RECV, or SEND once nothing is cached. -/
theorem evtConnected_occasion (hx : Tame x) (hb : Base s.core) (hty : s.core.builtin) {c : Chann}
    {kev : Kev} (hc : s.heap n = some c) (hst : c.state = .connected) {q : Option ChannId}
    (h : Returns (evtConnected x n kev) s (.ret q) t) :
    ∃ d, t.heap n = some d ∧ Occasion s.core t.core n d.msg := by
  simp only [evtConnected] at h
  rcases returns_ite.mp h with ⟨_, h⟩ | ⟨_, h⟩
  · obtain ⟨c', hc', _, rfl⟩ := emit_builtin hx hb hty h
    refine ⟨_, Function.update_self .., .recv rfl (.inl ?_)⟩
    rw [stage_slot hc', Core.stage_some (core_heap_some hc)]
    exact congrArg _ hst
  rcases returns_ite.mp h with ⟨_, h⟩ | ⟨_, h⟩
  swap
  · cases (returns_pure.mp h).1
  simp only [returns_bind] at h
  obtain ⟨sent, a, hflush, h⟩ := h
  obtain ⟨⟨hfl, d, hd, hdst⟩, hempty⟩ := channSendedRwb_spec hx hb (core_heap_some hc) hst hflush
  have hba := hfl.base hb
  rcases returns_ite.mp h with ⟨hsent, h⟩ | ⟨_, h⟩
  swap
  · cases (returns_pure.mp h).1
  simp only [returns_bind, returns_deref, and_assoc, exists_and_left, exists_eq_left] at h
  obtain ⟨e, he, h⟩ := h
  rcases returns_ite.mp h with ⟨_, h⟩ | ⟨_, h⟩
  · obtain ⟨c', hc', _, rfl⟩ := emit_builtin hx hba (hfl.builtin hb hty (by simp)) h
    refine ⟨_, Function.update_self .., .send rfl ?_ fun g hg => ?_⟩
    · rw [stage_slot hc', Core.stage_some hd, hdst]
    · rw [core_setChann, Core.set_heap, Function.update_self, Option.some.injEq] at hg
      rw [← hg]
      exact hempty hsent c'.core (core_heap_some hc')
  · simp only [returns_bind, returns_pure] at h
    obtain ⟨_, _, _, hno, _⟩ := h
    cases hno

/-- The message a record gives, and its occasion. -/
theorem evtDispatch_occasion (hx : Tame x) (hb : Base s.core) (hty : s.core.builtin) {kev : Kev}
    (h : Returns (evtDispatch x kev) s (.ret (some n)) t) :
    ∃ d, t.heap n = some d ∧ Occasion s.core t.core n d.msg := by
  obtain ⟨m, _, hm, _, _, hq⟩ := evtDispatch_ret h
  obtain rfl : n = m := Option.some.inj hq
  obtain ⟨m', c, hm', hc, ⟨_, hp, _⟩ | ⟨_, _, _, a, b, r, err, ha, hdis, hemit, _⟩ |
    ⟨_, _, _, ⟨hst, h⟩ | ⟨hst, h⟩ | ⟨hst, h⟩ | ⟨_, hp, _⟩⟩⟩ := evtDispatch_cases h
  all_goals
    rw [hm, Option.some.injEq] at hm'
    subst hm'
  · cases hp
  · have hba : Base a.core := ha ▸ hb
    have htya : a.core.builtin := ha ▸ hty
    have hab := channDisconnectSocket_steps hx.ops hba hdis
    obtain ⟨c', hc', _, rfl⟩ := emit_builtin hx (hab.base hba) (hab.builtin hba htya (by simp)) hemit
    exact ⟨_, Function.update_self .., .notice (.inl rfl)⟩
  · exact evtListening_occasion hx hb hty hc hst h
  · obtain ⟨_, d, hd, ⟨hev, hst'⟩ | ⟨hev, _⟩⟩ := evtConnecting_tells hx hb hty hc hst h
    · refine ⟨d, hd, .connected hev ?_ hst'⟩
      rw [Core.stage_some (core_heap_some hc)]
      exact congrArg _ hst
    · exact ⟨d, hd, .notice (.inl hev)⟩
  · exact evtConnected_occasion hx hb hty hc hst h
  · cases hp

/-! ## The message loop -/

theorem batchActs_subset : batchActs ⊆ loopActs := by
  rintro a (rfl | rfl | hr)
  · exact .inl (.inl rfl)
  · exact .inr (.inr (.inl rfl))
  · exact .inr (.inr (.inr hr))

/-- The occasion of a message does not depend on what the call did before it. -/
theorem Occasion.earlier {k j k' : Core} {msg : ChannMsg} (h : Occasion j k' n msg)
    (hs : Steps batchActs k j) (hb : Base k) : Occasion k k' n msg := by
  have hlives : ∀ i, Via Stage.Turns {.accepted, .established, .dropped} (k.stage i) (j.stage i) :=
    fun i => hs.lives hb fun a ha => loopActs_turns a (batchActs_subset ha)
  cases h with
  | notice h => exact .notice h
  | recv h hst => exact .recv h hst
  | send h hst hempty => exact .send h hst hempty
  | connected h hst hst' => exact .connected h ((hlives n).from_connecting (by simp) hst) hst'
  | accept h hr hst hr' hr'' => exact .accept h hr hst ((hlives _).from_unborn hr') hr''

/-- Every message `mnet_result_next` gives has an occasion. -/
theorem evtLoop_occasion (hx : Tame x) {fuel rounds : Nat} (hb : Base s.core)
    (hty : s.core.builtin) (hk : s.core.noticed n)
    (h : Returns (evtLoop x fuel rounds) s (some n) t) :
    ∃ d, t.core.heap n = some d ∧ Occasion s.core t.core n d.msg := by
  induction rounds generalizing s with
  | zero => exact absurd h returns_fail
  | succ rounds ih =>
    simp only [evtLoop, returns_bind] at h
    obtain ⟨p, b, hpass, h⟩ := h
    obtain ⟨m, rfl, htm⟩ | ⟨m, a, rfl, htm, hdis⟩ | ⟨a, rfl, htm, hnone, rfl, _⟩ | ⟨u, kev, hf, hdisp⟩ :=
      evtPass_cases hpass
    · obtain ⟨hm, rfl⟩ := returns_pure.mp h
      obtain rfl := Option.some.inj hm
      obtain ⟨i, k, c, hi, _, _, hc, msg, hev, _, _, ht⟩ | ⟨hno, _⟩ := tmNext_builtin hx hb hty htm
      swap
      · cases hno
      obtain rfl := Option.some.inj hi
      refine ⟨{ c with msg := msg }, ?_, .notice (.inr hev)⟩
      rw [ht, Core.set_heap, Function.update_self]
    · obtain ⟨hm, rfl⟩ := returns_pure.mp h
      obtain rfl := Option.some.inj hm
      obtain ⟨_, ha, _⟩ := tmNext_silent hx hb hty htm
      have hka : a.core.noticed n := by
        rcases ha with ha | ha
        · rw [ha]
          exact hk
        · exact ha.noticed hb hk (by simp) (by simp)
      obtain ⟨hno, _⟩ | ⟨i, hi, hdel⟩ := disNext_spec hdis
      · cases hno
      obtain rfl := Option.some.inj hi
      generalize t.core = k at hdel ⊢
      cases hdel with
      | @deliver _ c hhead hc =>
        refine ⟨c, hc, .notice ((hka ?_).2 c hc)⟩
        rw [hhead]
        exact .head
    · obtain ⟨hno, _⟩ := returns_pure.mp h
      cases hno
    · obtain ⟨_, _, hsu, hunone, hupos⟩ := hf.idle hx hb hty
      have hbu := hsu.base hb
      have htyu := hsu.builtin hb hty (by simp [batchActs, recordActs])
      have hub := evtDispatch_batch hx hbu hdisp
      cases p with
      | ret q =>
        obtain ⟨rfl, rfl⟩ := returns_pure.mp h
        obtain ⟨d, hd, ho⟩ := evtDispatch_occasion hx hbu htyu hdisp
        exact ⟨d.core, core_heap_some hd, ho.earlier hsu hb⟩
      | next =>
        have hsb := hsu.trans hub
        obtain ⟨d, hd, ho⟩ := ih (hub.base hbu) (hub.builtin hbu htyu (by simp [batchActs, recordActs]))
          (Core.noticed_of_empty (hub.batch_calm hunone hupos).1) h
        exact ⟨d, hd, ho.earlier hsb hb⟩

/-- A call that takes a channel from connecting to connected gives the message that says so. -/
theorem evtLoop_established (hx : Tame x) {fuel rounds : Nat} {q : Option ChannId} {m : ChannId} (hb : Base s.core)
    (hty : s.core.builtin) (h : Returns (evtLoop x fuel rounds) s q t) (hm : s.core.stage m = .alive .connecting)
    (ht : t.core.stage m = .alive .connected) :
    q = some m ∧ ∃ d, t.heap m = some d ∧ d.msg.event = some .connected := by
  induction rounds generalizing s with
  | zero => exact absurd h returns_fail
  | succ rounds ih =>
    simp only [evtLoop, returns_bind] at h
    obtain ⟨p, b, hpass, h⟩ := h
    -- what is not a record finds no socket connected
    have hquiet : ∀ {k : Core}, Steps idleActs s.core k →
        k.stage m ≠ .alive .connected := by
      intro k hk
      refine hk.not_established hb ?_ hm
      rintro _ ((rfl | ⟨i, rfl | rfl | rfl⟩) | ⟨i, rfl⟩ | rfl) <;> simp
    obtain ⟨⟨_, rfl⟩, hs⟩ | ⟨u, kev, hf, hdisp⟩ := evtPass_split hx hb hpass
    · obtain ⟨_, rfl⟩ := returns_pure.mp h
      exact absurd ht (hquiet hs)
    · have hfetch := hf.idle_steps hx hb
      have hsu := hfetch.mono idleActs_subset
      have hbu := hsu.base hb
      have htyu := hsu.builtin hb hty (by simp [loopActs, timerActs, recordActs])
      have hub := evtDispatch_loop hx hbu hdisp
      have hbb := hub.base hbu
      have hend : Via Stage.Turns {.accepted, .established, .dropped} (b.core.stage m) (t.core.stage m) := by
        cases p with
        | ret => exact .of_eq (by rw [(returns_pure.mp h).2])
        | next => exact (evtLoop_steps hx hbb h).lives hbb loopActs_turns
      have hborn : s.core.stage m ≠ .unborn := by simp [hm]
      have hmu : u.core.stage m = .alive .connecting := by
        obtain hu | hu | hu := ((hub.lives hbu loopActs_turns).trans hend).to_connected ht
        · exact absurd ((hsu.lives hb loopActs_turns).from_unborn hu) hborn
        · exact hu
        · exact absurd hu (hquiet hfetch)
      obtain hmb | hmb | hmb := hend.to_connected ht
      · exact absurd (((hsu.trans hub).lives hb loopActs_turns).from_unborn hmb) hborn
      · cases p with
        | ret =>
          rw [(returns_pure.mp h).2, hmb] at ht
          cases ht
        | next => exact ih hbb (hub.builtin hbu htyu (by simp [loopActs, timerActs, recordActs])) h hmb
      · obtain ⟨rfl, hd⟩ := evtDispatch_established hx hbu htyu hdisp hmu hmb
        obtain ⟨rfl, rfl⟩ := returns_pure.mp h
        exact ⟨rfl, hd⟩

/-! ## Runs -/

/-- What a call gives the application: the slot behind the pointer it returns. -/
def Sys.handed (t : Sys ε) : Ret → Option (ChannId × ChannMsg)
  | .msg (some p) => (t.heap p).map fun c => (p, c.msg)
  | _ => none

/-- A call, what it returns, and the message it gives. -/
abbrev Given := (Call × Ret) × Option (ChannId × ChannMsg)

/-- A step of an application that opens channels of built-in types, with the message it gets. -/
def Gives (x : ExtTable ε) (s : Sys ε) (i : Given) (t : Sys ε) : Prop :=
  Step x s i.1 t ∧ BuiltinOpen s i.1.1 ∧ i.2 = t.handed i.1.2

/-- The call tells the application that `n` is connected. -/
def Given.connected (n : ChannId) (i : Given) : Bool :=
  i.2.any fun p => p.1 = n ∧ p.2.event = some .connected

/-- The call hands the channel `n` to the application, opened or accepted. -/
def Given.hands (n : ChannId) (i : Given) : Bool :=
  i.1.2 = .chann (some n) ∨ i.2.any fun p => p.2.event = some .accept ∧ p.2.r = some n

/-- The call asks for `n` to be connected. -/
def Given.connects (n : ChannId) (i : Given) : Bool :=
  match i.1.1 with
  | .channConnect m _ _ | .dgramSend m _ _ => m = some n
  | _ => false

theorem Sys.handed_some {r : Ret} {p : ChannId} {msg : ChannMsg} (h : t.handed r = some (p, msg)) :
    r = .msg (some p) ∧ ∃ c, t.heap p = some c ∧ c.msg = msg := by
  unfold Sys.handed at h
  split at h
  · rw [Option.map_eq_some_iff] at h
    obtain ⟨c, hc, he⟩ := h
    obtain ⟨rfl, rfl⟩ := Prod.mk.inj he
    exact ⟨rfl, c, hc, rfl⟩
  · cases h

/-- What the occasions of the messages rest on. -/
structure Told (s : Sys ε) : Prop where
  base : Base s.core
  builtin : s.core.builtin
  noticed : ∀ n, s.core.noticed n

theorem told_start (o : Oracle) (e : ε) : Told (Sys.start o e) where
  base := base_start o e
  builtin _ _ hc := by cases hc
  noticed _ := Core.noticed_of_empty rfl

theorem Gives.keeps (hx : Tame x) {i : Given} (h : Gives x s i t) (hs : Told s) : Told t where
  base := h.1.base hx hs.base
  builtin := h.1.builtin hx h.2.1 hs.base hs.builtin
  noticed n := h.1.noticed hx hs.base hs.builtin (hs.noticed n)

/-- A message that is given has an occasion. -/
theorem Gives.occasion (hx : Tame x) {c : Call} {r : Ret} {p : ChannId} {msg : ChannMsg}
    (h : Gives x s ((c, r), some (p, msg)) t) (hs : Told s) : Occasion s.core t.core p msg := by
  obtain ⟨hb, hty, hk⟩ := hs
  obtain ⟨hstep, _, hg⟩ := h
  obtain ⟨rfl, d, hd, rfl⟩ := Sys.handed_some hg.symm
  cases c with
  | resultNext fuel =>
    obtain ⟨q, hq, hloop⟩ := returns_ret.mp hstep
    obtain rfl := Ret.msg.inj hq
    obtain ⟨e, he, ho⟩ := evtLoop_occasion hx hb hty (hk p) hloop
    rw [core_heap_some hd, Option.some.injEq] at he
    rw [← he] at ho
    exact ho
  | _ =>
    obtain ⟨_, hq, _⟩ := returns_ret.mp hstep
    cases hq

theorem Gives.connected_paid (hx : Tame x) {i : Given} (h : Gives x s i t) (hs : Told s) :
    (i.connected n).toNat + (if t.core.stage n = .alive .connecting then 1 else 0) ≤
      (i.connects n).toNat + (if s.core.stage n = .alive .connecting then 1 else 0) := by
  obtain ⟨⟨c, r⟩, g⟩ := i
  have hlives := apiCall_lives (n := n) hx hs.base h.1
  by_cases hcon : Given.connected n ((c, r), g) = true
  · simp only [Given.connected, Option.any_eq_true, decide_eq_true_eq] at hcon
    obtain ⟨⟨p, msg⟩, rfl, rfl, hev⟩ := hcon
    cases h.occasion hx hs with
    | connected _ hst hst' =>
      rw [if_neg (by rw [hst']; simp), if_pos hst]
      exact Nat.le_trans (Bool.toNat_le _) (Nat.le_add_left 1 _)
    | notice h => rcases h with h | h <;> exact absurd (h.symm.trans hev) (by simp)
    | recv h | send h | accept h => exact absurd (h.symm.trans hev) (by simp)
  · rw [Bool.not_eq_true] at hcon
    rw [hcon]
    by_cases hst : t.core.stage n = .alive .connecting
    · rw [if_pos hst]
      by_cases ht : .attached .connecting ∈ c.turns n
      · have hasks : Given.connects n ((c, r), g) = true := by
          cases c with
          | channConnect m | dgramSend m => simpa [Given.connects] using ht.1
          | _ => simp [Call.turns] at ht
        rw [hasks]
        simp
      · rw [if_pos (hlives.from_connecting ht hst)]
        simp
    · rw [if_neg hst]
      simp

theorem Gives.hands_once (hx : Tame x) {i : Given} (h : Gives x s i t) (hs : Told s) :
    (i.hands n).toNat + (if t.core.stage n = .unborn then 1 else 0) ≤
      (if s.core.stage n = .unborn then 1 else 0) := by
  obtain ⟨⟨c, r⟩, g⟩ := i
  by_cases hh : Given.hands n ((c, r), g) = true
  · have hstages : s.core.stage n = .unborn ∧ t.core.stage n ≠ .unborn := by
      simp only [Given.hands, Option.any_eq_true, decide_eq_true_eq] at hh
      obtain rfl | ⟨⟨p, msg⟩, rfl, hev, hmr⟩ := hh
      · cases c with
        | channOpen ctype =>
          obtain ⟨m, hm, hopen⟩ := returns_ret.mp h.1
          obtain rfl := Ret.chann.inj hm
          obtain ⟨hst, hst'⟩ := mnetChannOpen_opens hx hs.base hopen
          exact ⟨hst, by rw [hst']; simp⟩
        | _ =>
          obtain ⟨_, hq, _⟩ := returns_ret.mp h.1
          cases hq
      · cases h.occasion hx hs with
        | accept _ hr _ hst hst' =>
          obtain rfl := Option.some.inj (hr.symm.trans hmr)
          exact ⟨hst, by rw [hst']; simp⟩
        | notice h => rcases h with h | h <;> exact absurd (h.symm.trans hev) (by simp)
        | recv h | send h | connected h => exact absurd (h.symm.trans hev) (by simp)
    rw [if_neg hstages.2, if_pos hstages.1]
    exact Bool.toNat_le _
  · rw [Bool.not_eq_true] at hh
    rw [hh]
    by_cases hst : t.core.stage n = .unborn
    · rw [if_pos hst, if_pos ((apiCall_lives (n := n) hx hs.base h.1).from_unborn hst)]
      simp
    · rw [if_neg hst]
      simp

/-- What a call tells the application. -/
structure Tells (s : Sys ε) (i : Given) (t : Sys ε) : Prop where
  occasion : ∀ p msg, i.2 = some (p, msg) → Occasion s.core t.core p msg
  /-- No connection goes untold. -/
  connected : ∀ fuel n, i.1.1 = .resultNext fuel → s.core.stage n = .alive .connecting →
    t.core.stage n = .alive .connected → ∃ msg, i.2 = some (n, msg) ∧ msg.event = some .connected

/-- The message an application over the built-in types gets tells of what has just become of the
channels it names, and it gets the message of every channel that becomes connected. -/
theorem message_occasion (hx : Tame x) {o : Oracle} {e : ε} {l : List Given} {i : Given}
    (h : Path (Gives x) (Sys.start o e) l s) (hs : Gives x s i t) : Tells s i t := by
  have hk := h.keeps (I := Told) (fun _ _ _ hr hk => hr.keeps hx hk) (told_start o e)
  obtain ⟨⟨c, r⟩, g⟩ := i
  refine ⟨fun p msg hg => ?_, fun fuel n hc hst ht => ?_⟩
  · obtain rfl : g = some (p, msg) := hg
    exact hs.occasion hx hk
  · obtain rfl : c = .resultNext fuel := hc
    obtain ⟨hstep, _, hg⟩ := hs
    obtain ⟨q, rfl, hloop⟩ := returns_ret.mp hstep
    obtain ⟨rfl, d, hd, hev⟩ := evtLoop_established hx hk.base hk.builtin hloop hst ht
    refine ⟨d.msg, hg.trans ?_, hev⟩
    simp only [Sys.handed, hd, Option.map_some]

/-- An application over the built-in types is told at most once for each call that connects a
channel that it is connected, and gets every channel once, from `mnet_chann_open` or with an
ACCEPT. -/
theorem given_once (hx : Tame x) {o : Oracle} {e : ε} {l : List Given}
    (h : Path (Gives x) (Sys.start o e) l s) (n : ChannId) :
    l.countP (Given.connected n) ≤ l.countP (Given.connects n) ∧ l.countP (Given.hands n) ≤ 1 := by
  have hstart := told_start o e
  have hunborn : (Sys.start o e).core.stage n = .unborn := rfl
  constructor
  · have hcount := h.count_le (I := Told) (p := Given.connected n) (q := Given.connects n)
      (φ := fun s => if s.core.stage n = .alive .connecting then 1 else 0) hstart
      fun _ _ _ hr hk => ⟨hr.keeps hx hk, hr.connected_paid hx hk⟩
    simp only [hunborn] at hcount
    exact Nat.le_trans (Nat.le_add_right _ _) hcount
  · have hcount := h.count_le (I := Told) (p := Given.hands n) (q := fun _ => false)
      (φ := fun s => if s.core.stage n = .unborn then 1 else 0) hstart
      fun _ _ _ hr hk => ⟨hr.keeps hx hk, by
        rw [Bool.toNat_false, Nat.zero_add]
        exact hr.hands_once hx hk⟩
    simp only [hunborn, List.countP_false] at hcount
    exact Nat.le_trans (Nat.le_add_right _ _) hcount

/-- The calls one after another, with the messages they give. -/
def givenCalls (x : ExtTable ε) : List Call → M ε (List Given)
  | [] => pure []
  | c :: cs => do
    let r ← apiCall x c
    let g ← Exec.read fun s => s.handed r
    let gs ← givenCalls x cs
    return ((c, r), g) :: gs

theorem path_of_givenCalls {cs : List Call} {gs : List Given} (hc : ∀ c ∈ cs, ∀ s : Sys ε, BuiltinOpen s c)
    (h : Returns (givenCalls x cs) s gs t) : Path (Gives x) s gs t := by
  induction cs generalizing s gs with
  | nil =>
    obtain ⟨rfl, rfl⟩ := returns_pure.mp h
    exact .nil
  | cons c cs ih =>
    simp only [givenCalls, returns_bind, returns_read, returns_pure, and_assoc, exists_and_left,
      exists_eq_left] at h
    obtain ⟨r, u, hcall, gs', v, hrest, rfl, rfl⟩ := h
    exact .cons ⟨hcall, hc c (by simp) s, rfl⟩ (ih (fun c hm => hc c (by simp [hm])) hrest)

/-- The calls that open a channel and connect it, up to the poll that finds it connected. -/
def connectCalls : List Call := [.mnetInit, .channOpen 1, .channConnect (some 0) (some 0) 80, .poll]

theorem connectCalls_builtin : ∀ c ∈ connectCalls, ∀ s : Sys Unit, BuiltinOpen s c := by
  simp [connectCalls, BuiltinOpen, CHANN_TYPE_BROADCAST]

/-- A CONNECTED, given as the channel stops connecting. -/
theorem message_occasion_connected : ∃ (s t : Sys Unit) (i : Given), Tells s i t ∧
    s.core.stage 0 = .alive .connecting ∧ t.core.stage 0 = .alive .connected ∧ Given.connected 0 i = true := by
  have hrun : Ends (givenCalls noExt connectCalls) (Sys.start hangUpOracle ()) fun _ s =>
      s.core.stage 0 = .alive .connecting ∧ Ends (givenCalls noExt [.resultNext 5]) s fun gs t =>
        t.core.stage 0 = .alive .connected ∧ gs.all (Given.connected 0) = true := by
    decide +kernel
  obtain ⟨l, s, h, hst, gs, t, hlast, ht, hgs⟩ := hrun
  simp only [givenCalls, returns_bind, returns_read, returns_pure, and_assoc, exists_and_left,
    exists_eq_left] at hlast
  obtain ⟨r, u, hcall, rfl, rfl⟩ := hlast
  have htells := message_occasion (i := ((.resultNext 5, r), t.handed r)) tame_noExt
    (path_of_givenCalls connectCalls_builtin h) ⟨hcall, trivial, rfl⟩
  exact ⟨s, t, _, htells, hst, ht, by simpa using hgs⟩

/-- The channel that was opened is told to be connected once, and was asked to be. -/
theorem given_once_connected : ∃ l : List Given, l.countP (Given.connected 0) = 1 ∧
    l.countP (Given.hands 0) = 1 ∧
    l.countP (Given.connected 0) ≤ l.countP (Given.connects 0) ∧ l.countP (Given.hands 0) ≤ 1 := by
  have hrun : Ends (givenCalls noExt (connectCalls ++ [.resultNext 5])) (Sys.start hangUpOracle ())
      fun gs _ => gs.countP (Given.connected 0) = 1 ∧ gs.countP (Given.hands 0) = 1 := by
    decide +kernel
  obtain ⟨gs, s, h, hcon, hhands⟩ := hrun
  refine ⟨gs, hcon, hhands, given_once tame_noExt (path_of_givenCalls ?_ h) 0⟩
  simp [connectCalls, BuiltinOpen, CHANN_TYPE_BROADCAST]

end MNet
