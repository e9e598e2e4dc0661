import MNet.Discreet
import MNet.Protocol.Model

/-! # Messages

A message is a slot in its channel, filled when an event is found and read when it is given out.
The filter of the channel's type may rewrite it in between. -/

namespace MNet
open MNet.Lib MNet.Lib.Exec

variable {ε : Type} {x : ExtTable ε} {s t : Sys ε} {n : ChannId} {c : Chann} {event : ChannEvent} {N : Set ChannId}

/-! ## Filters -/

/-- What a channel shows beside its message. -/
def Chann.tag (c : Chann) : Nat × Option ChannId := (c.opaquePtr, c.disNext)

/-- No message is different but that of `n`. -/
structure Reworded (n : ChannId) (s t : Sys ε) : Prop where
  others : ∀ m < s.nextChann, m ≠ n → (t.heap m).map Chann.shown = (s.heap m).map Chann.shown
  own : n < s.nextChann → (t.heap n).map Chann.tag = (s.heap n).map Chann.tag
  nextChann : s.nextChann ≤ t.nextChann
  fresh : Fresh s → Fresh t
  disChanns : t.mnet.disChanns = s.mnet.disChanns
  trace : s.kernel.trace <:+ t.kernel.trace

theorem Discreet.reworded (h : Discreet False s t) : Reworded n s t where
  others m hm _ := (h.shown m hm).resolve_right fun hg => hg.1
  own hn := by
    have hshown := congrArg (Option.map (·.2)) ((h.shown n hn).resolve_right fun hg => hg.1)
    rwa [Option.map_map, Option.map_map] at hshown
  nextChann := h.nextChann
  fresh := h.fresh
  disChanns := h.disChanns
  trace := h.trace

namespace Reworded

theorem trans {a : Sys ε} (h : Reworded n s a) (h' : Reworded n a t) : Reworded n s t where
  others m hm hne := (h'.others m (Nat.lt_of_lt_of_le hm h.nextChann) hne).trans (h.others m hm hne)
  own hn := (h'.own (Nat.lt_of_lt_of_le hn h.nextChann)).trans (h.own hn)
  nextChann := Nat.le_trans h.nextChann h'.nextChann
  fresh := h'.fresh ∘ h.fresh
  disChanns := h'.disChanns.trans h.disChanns
  trace := h.trace.trans h'.trace

theorem set (hc : s.heap n = some c) (msg : ChannMsg) : Reworded n s (s.setChann n { c with msg := msg }) where
  others m _ hne := congrArg _ (Function.update_of_ne hne ..)
  own _ := by
    rw [hc, setChann_self]
    rfl
  nextChann := Nat.le_refl _
  fresh hs := hs.set hc _
  disChanns := rfl
  trace := List.suffix_refl _

/-- No channel is freed. -/
theorem stays (h : Reworded n s t) (hs : Fresh s) (hc : s.heap n = some c) : ∃ d, t.heap n = some d ∧ d.tag = c.tag := by
  have htag := h.own (hs.lt hc)
  rw [hc, Option.map_some] at htag
  exact Option.map_eq_some_iff.mp htag

end Reworded

/-- The filter is asked about a message of `n` that has just been made. -/
structure Asked (s : Sys ε) (n : ChannId) (c : Chann) (event : ChannEvent) : Prop where
  heap : s.heap n = some c
  event : c.msg.event = some event
  n : c.msg.n = some n

/-- A tactful type is polite if its filter rewrites the message it is asked about and no other, lets
that of a timer pass as it is, and makes none of a timer. -/
structure Polite (x : ExtTable ε) : Prop extends Tactful x where
  filterFn : ∀ {s n c event}, Asked s n c event → Within (Reworded n) ((extConfig x c.ctype).filterFn n) s
  passes : ∀ {s n c pass t}, Asked s n c .timer → Returns ((extConfig x c.ctype).filterFn n) s pass t →
    pass = true ∧ ∃ e, t = { s with ext := e }
  others : ∀ {s n c event pass t d}, Fresh s → Asked s n c event → event ≠ .timer →
    Returns ((extConfig x c.ctype).filterFn n) s pass t → t.heap n = some d → d.msg.event ≠ some .timer

/-! ## Producing a message -/

/-- The slot is written, and the filter asked. -/
theorem channMsg_asked {q : Option ChannId} {err : Int} {pass : Bool} (h : Returns (channMsg x n event q err) s pass t) :
    ∃ c, s.heap n = some c ∧ ∃ d, d = { c with msg := msgOf n c event q err } ∧ Asked (s.setChann n d) n d event ∧
      Returns ((extConfig x d.ctype).filterFn n) (s.setChann n d) pass t := by
  obtain ⟨c, hc, h⟩ := channMsg_cases h
  exact ⟨c, hc, _, rfl, ⟨Function.update_self .., rfl, rfl⟩, h⟩

section

variable (hp : Polite x)
include hp

theorem Polite.rewords {q : Option ChannId} {err : Int} : Within (Reworded n) (channMsg x n event q err) s := by
  intro pass t h
  obtain ⟨c, hc, _, rfl, hasked, hfil⟩ := channMsg_asked h
  exact (Reworded.set hc _).trans (hp.filterFn hasked _ _ hfil)

theorem Polite.timerMsg {q : Option ChannId} {err : Int} {pass : Bool} (h : Returns (channMsg x n .timer q err) s pass t) :
    pass = true ∧ ∃ c e, s.heap n = some c ∧
      t = { s.setChann n { c with msg := msgOf n c .timer q err } with ext := e } := by
  obtain ⟨c, hc, _, rfl, hasked, hfil⟩ := channMsg_asked h
  obtain ⟨hpass, e, ht⟩ := hp.passes hasked hfil
  exact ⟨hpass, c, e, hc, ht⟩

/-- What is written to a slot is of a timer only if that was asked for. -/
theorem Polite.otherMsg {q : Option ChannId} {err : Int} {pass : Bool} (hev : event ≠ .timer) (hs : Fresh s)
    (h : Returns (channMsg x n event q err) s pass t) : ∀ d, t.heap n = some d → d.msg.event ≠ some .timer := by
  obtain ⟨c, hc, _, rfl, hasked, hfil⟩ := channMsg_asked h
  exact fun d => hp.others (hs.set hc _) hasked hev hfil

/-- A failed transfer is reported through the queue, if the filter lets it pass. -/
theorem Polite.failed {u : Unit} (h : Returns (channFail x n) s u t) : ∃ a err pass b, Discreet False s a ∧
    Returns (channMsg x n .disconnect none err) a pass b ∧
      ((pass = true ∧ Returns (pushDis n) b () t) ∨ (pass = false ∧ t = b)) := by
  simp only [channFail, returns_bind] at h
  obtain ⟨_, a, hdis, err, b, herr, pass, d, hmsg, hpush⟩ := h
  have hb : b = a := (returns_read.mp herr).2
  rw [hb] at hmsg
  refine ⟨a, err, pass, d, hp.channDisconnectSocket _ _ hdis, hmsg, ?_⟩
  obtain ⟨hpass, hpush⟩ | ⟨hpass, rfl⟩ := returns_when.mp hpush
  · exact .inl ⟨hpass, hpush⟩
  · exact .inr ⟨by simpa using hpass, rfl⟩

end

/-! ## A round of the loop -/

/-- Nothing is given out: only failed transfers of channels of `N` are reported, in the queue. -/
abbrev Faults (x : ExtTable ε) (N : Set ChannId) : Sys ε → Sys ε → Prop :=
  Relation.ReflTransGen fun a b => Discreet False a b ∨ ∃ n ∈ N, ∃ u, Returns (channFail x n) a u b

theorem Discreet.faults (h : Discreet False s t) : Faults x N s t := .single (.inl h)

theorem Lib.Exec.Within.faults {α : Type} {m : M ε α} (h : Within (Discreet False) m s) : Within (Faults x N) m s :=
  h.mono fun _ => Discreet.faults

theorem faults_channFail (hn : n ∈ N) : Within (Faults x N) (channFail x n) s := fun u _ h => .single (.inr ⟨n, hn, u, h⟩)

/-- Without channels there are no failures. -/
theorem Faults.discreet (h : Faults x N s t) (hN : ∀ n, n ∉ N) : Discreet False s t := by
  induction h with
  | refl => exact .refl _
  | tail _ hstep ih =>
    obtain hd | ⟨n, hn, _⟩ := hstep
    · exact ih.trans hd
    · exact absurd hn (hN n)

/-- The channel of the record, if anything waits in its cache. -/
def Kev.flushed (kev : Kev) (s : Sys ε) : Set ChannId :=
  {n | kev.ptr = some n ∧ ∃ c, s.heap n = some c ∧ c.rwbSend ≠ []}

/-- A channel that receives, or has just been connected, is as it was but for its state and its mask. -/
structure Still (n : ChannId) (c : Chann) (s t : Sys ε) : Prop where
  discreet : Discreet False s t
  nextChann : t.nextChann = s.nextChann
  ext : t.ext = s.ext
  mnet : t.mnet = s.mnet
  others : ∀ m, m ≠ n → t.heap m = s.heap m
  was : s.heap n = some c ∧ c.state ≠ .closed
  chann : ∃ d, t.heap n = some d ∧ d.ctype = c.ctype ∧ d.extUd = c.extUd ∧ d.state.active

theorem Still.refl (hc : s.heap n = some c) (hact : c.state.active) : Still n c s s where
  discreet := .refl _
  nextChann := rfl
  ext := rfl
  mnet := rfl
  others _ _ := rfl
  was := by
    refine ⟨hc, fun hno => ?_⟩
    rw [hno] at hact
    exact hact
  chann := ⟨c, hc, rfl, rfl, hact⟩

section

variable (hp : Polite x)
include hp

theorem Polite.faults_channSendedLoop {fuel : Nat} (hn : n ∈ N) : Within (Faults x N) (channSendedLoop x n fuel) s := by
  induction fuel generalizing s with
  | zero => exact within_fail
  | succ fuel ih =>
    exact .deref_bind fun _ _ => (hp.channSend _).faults.bind fun _ _ _ => .ite
      (fun _ => .bind (Within.faults (discreet_modifyChann fun _ => rfl)) fun _ _ _ => .deref_bind fun _ _ =>
        .ite (fun _ => ih) fun _ => within_pure ())
      fun _ => .ite (fun _ => faults_channFail hn) fun _ => within_pure ()

theorem Polite.faults_channSendedRwb (hN : ∀ c, s.heap n = some c → c.rwbSend ≠ [] → n ∈ N) :
    Within (Faults x N) (channSendedRwb x n) s :=
  .deref_bind fun c hc => .ite (fun _ => within_pure true) fun hlen =>
    have hn : n ∈ N := hN c hc fun hnil => hlen (by simp [hnil, rwbCount])
    .bind (hp.faults_channSendedLoop hn) fun _ _ _ => .deref_bind fun _ _ => within_pure _

/-- What is done with a record comes to at most one message, of the record's channel. Only a flush
of its cache may do more before it. -/
theorem Polite.evtDispatch_makes {R : Sys ε → Sys ε → Prop} [IsTrans (Sys ε) R] {kev : Kev} {p : Pass}
    (hR : ∀ a b, Discreet False a b → R a b)
    (hflush : ∀ n c sent a, kev.ptr = some n → s.heap n = some c → c.state = .connected → 0 ≤ c.fd →
      Returns (channSendedRwb x n) s sent a → R s a) (h : Returns (evtDispatch x kev) s p t) :
    (p = .next ∧ R s t) ∨ ∃ n c v event q err, kev.ptr = some n ∧ s.heap n = some c ∧ R s v ∧
      Returns (emit x n event q err) v p t ∧ event ≠ .timer ∧ (event = .send ∨ Discreet False s v) ∧
        (event = .connected ∨ event = .recv → Still n c s v) := by
  have hdown : ∀ {n : ChannId} {a b : Sys ε} {r : Int}, Returns (channDisconnectSocket (opsOf x) n) a r b →
      Discreet False a b := fun h => hp.channDisconnectSocket _ _ h
  obtain ⟨n, c, hn, hc, ⟨_, rfl, rfl⟩ | ⟨_, _, _, a, b, r, err, _, hdis, hemit, ha⟩ |
    ⟨_, hfd, _, ⟨hst, h⟩ | ⟨hst, h⟩ | ⟨hst, h⟩ | ⟨_, rfl, rfl⟩⟩⟩ := evtDispatch_cases h
  · exact .inl ⟨rfl, hR _ _ (.refl _)⟩
  · -- an error or a hang-up
    have ha : Discreet False s a := by
      obtain rfl | ⟨_, hq⟩ := ha
      · exact .refl _
      · exact (outside_sysSockError _ _ _ hq).discreet
    have hb := ha.trans (hdown hdis)
    exact .inr ⟨n, c, b, _, _, _, hn, hc, hR _ _ hb, hemit, by simp, .inr hb, by simp⟩
  · rcases returns_ite.mp h with ⟨_, h⟩ | ⟨_, h⟩
    · obtain ⟨q, a, hacc, h⟩ := returns_bind.mp h
      have ha : Discreet False s a := hp.channAccept _ _ hacc
      cases q with
      | none =>
        obtain ⟨rfl, rfl⟩ := returns_pure.mp h
        exact .inl ⟨rfl, hR _ _ ha⟩
      | some m =>
        obtain ⟨_, b, hadd, hemit⟩ := returns_bind.mp h
        have hb := ha.trans ((bland_evtAdd _).discreet _ _ hadd)
        exact .inr ⟨n, c, b, _, _, _, hn, hc, hR _ _ hb, hemit, by simp, .inr hb, by simp⟩
    · exact .inr ⟨n, c, s, _, _, _, hn, hc, hR _ _ (.refl _), h, by simp, .inr (.refl _), fun _ => .refl hc (by rw [hst]; trivial)⟩
  · simp only [evtConnecting, returns_bind, returns_deref, and_assoc, exists_and_left, exists_eq_left] at h
    obtain ⟨_, _, q, a, hq, h⟩ := h
    have ha := outside_sysSockError _ _ _ hq
    rcases returns_ite.mp h with ⟨_, h⟩ | ⟨_, h⟩
    · simp only [returns_bind, returns_modifyChann] at h
      obtain ⟨_, b, hdel, _, e, hadd, _, _, ⟨d, hd, rfl⟩, hemit⟩ := h
      obtain ⟨_, _, hb⟩ := evtDel_cases hdel
      obtain ⟨_, _, he⟩ := evtAdd_cases hadd
      have hset : Discreet False e (e.setChann n { d with state := .connected }) := by
        refine .of_update hd ?_ rfl rfl rfl (List.suffix_refl _)
        rfl
      have hall := ha.discreet.trans (hb.discreet.trans (he.discreet.trans hset))
      -- only the mask and the state of the channel are different
      have hwas := hb.was
      rw [ha.heap, hc, Option.some.injEq] at hwas
      have hwas' := he.was
      rw [hb.chann, Option.some.injEq] at hwas'
      have hd' := hd
      rw [he.chann, Option.some.injEq] at hd'
      have hstill : Still n c s (e.setChann n { d with state := .connected }) := by
        refine ⟨hall, ?_, he.ext.trans (hb.ext.trans ha.ext), he.mnet.trans (hb.mnet.trans ha.mnet), fun m hm => ?_,
          ⟨hc, by rw [hst]; simp⟩, _, Function.update_self .., ?_, ?_, trivial⟩
        · exact he.nextChann.trans (hb.nextChann.trans ha.nextChann)
        · show Function.update e.heap n _ m = s.heap m
          rw [Function.update_of_ne hm, he.heap, Function.update_of_ne hm, hb.heap, Function.update_of_ne hm, ha.heap]
        · rw [← hd', ← hwas', ← hwas]
        · rw [← hd', ← hwas', ← hwas]
      exact .inr ⟨n, c, _, _, _, _, hn, hc, hR _ _ hall, hemit, by simp, .inr hall, fun _ => hstill⟩
    · obtain ⟨_, b, hdis, hemit⟩ := returns_bind.mp h
      have hb := ha.discreet.trans (hdown hdis)
      exact .inr ⟨n, c, b, _, _, _, hn, hc, hR _ _ hb, hemit, by simp, .inr hb, by simp⟩
  · rcases returns_ite.mp h with ⟨_, h⟩ | ⟨_, h⟩
    · exact .inr ⟨n, c, s, _, _, _, hn, hc, hR _ _ (.refl _), h, by simp, .inr (.refl _), fun _ => .refl hc (by rw [hst]; trivial)⟩
    rcases returns_ite.mp h with ⟨_, h⟩ | ⟨_, h⟩
    swap
    · obtain ⟨rfl, rfl⟩ := returns_pure.mp h
      exact .inl ⟨rfl, hR _ _ (.refl _)⟩
    obtain ⟨sent, a, hsent, h⟩ := returns_bind.mp h
    have ha : R s a := hflush n c sent a hn hc hst hfd hsent
    rcases returns_ite.mp h with ⟨_, h⟩ | ⟨_, h⟩
    swap
    · obtain ⟨rfl, rfl⟩ := returns_pure.mp h
      exact .inl ⟨rfl, ha⟩
    simp only [returns_bind, returns_deref, and_assoc, exists_and_left, exists_eq_left] at h
    obtain ⟨_, _, h⟩ := h
    rcases returns_ite.mp h with ⟨_, h⟩ | ⟨_, h⟩
    · exact .inr ⟨n, c, a, _, _, _, hn, hc, ha, h, by simp, .inl rfl, by simp⟩
    · simp only [returns_bind, returns_pure] at h
      obtain ⟨_, b, hdel, rfl, rfl⟩ := h
      exact .inl ⟨rfl, IsTrans.trans _ _ _ ha (hR _ _ ((bland_evtDel _).discreet _ _ hdel))⟩
  · exact .inl ⟨rfl, hR _ _ (.refl _)⟩

/-- A flush files reports if it fails. -/
theorem Polite.evtDispatch_emits {kev : Kev} {p : Pass} (h : Returns (evtDispatch x kev) s p t) :
    (p = .next ∧ Faults x (kev.flushed s) s t) ∨ ∃ n c v event q err, kev.ptr = some n ∧ s.heap n = some c ∧
      Faults x (kev.flushed s) s v ∧
      Returns (emit x n event q err) v p t ∧ event ≠ .timer ∧ (event = .send ∨ Discreet False s v) ∧
        (event = .connected ∨ event = .recv → Still n c s v) :=
  hp.evtDispatch_makes (R := Faults x (kev.flushed s)) (fun _ _ => Discreet.faults) (fun _ _ _ _ hn _ _ _ hsent =>
    hp.faults_channSendedRwb (N := kev.flushed s) (fun d hd hne => ⟨hn, d, hd, hne⟩) _ _ hsent) h

/-- A timer is reported at once. -/
theorem Polite.tmNext_emits {fuel : Nat} {q : Option ChannId} (h : Returns (tmNext x fuel) s q t) :
    (q = none ∧ Discreet False s t) ∨ ∃ n v, q = some n ∧ Discreet False s v ∧
      Returns (channMsg x n .timer none 0) v true t := by
  cases fuel with
  | zero => exact absurd h returns_fail
  | succ fuel =>
    obtain ⟨rfl, rfl, _⟩ | ⟨clock, node, _, _, _, hcases⟩ := tmNext_cases h
    · exact .inl ⟨rfl, .refl _⟩
    · obtain ⟨rfl, _, rfl⟩ | ⟨_, a, pass, b, hup, hmsg, hnext⟩ := hcases
      · exact .inl ⟨rfl, .of_heap rfl rfl rfl (List.suffix_refl _)⟩
      · have hset : Discreet False s { s with mnet := { s.mnet with
            tmPos := some (skiplistNext clock node.id) } } := .of_heap rfl rfl rfl (List.suffix_refl _)
        have ha : Discreet False s a := hset.trans (discreet_tmUpdate _ _ _ hup)
        obtain ⟨rfl, _⟩ := hp.timerMsg hmsg
        obtain ⟨_, rfl, rfl⟩ | ⟨hno, _⟩ := hnext
        · exact .inr ⟨_, a, rfl, ha, hmsg⟩
        · cases hno

/-! ## What is given out -/

omit hp in
theorem Ordered.fresh (h : Ordered s) : Fresh s := by
  obtain ⟨w, hw⟩ := h
  intro n hn
  by_contra hne
  have hlt := hw.obeys.reg.lt n (by rw [core_heap, ne_eq, Option.map_eq_none_iff]; exact hne)
  exact absurd hlt (Nat.not_lt_of_le hn)

theorem Polite.channMsg_stays {q : Option ChannId} {err : Int} {pass : Bool} (hs : Fresh s)
    (h : Returns (channMsg x n event q err) s pass t) : Fresh t ∧ ∃ c, t.heap n = some c := by
  have ht := hp.rewords _ _ h
  obtain ⟨c, hc, _⟩ := channMsg_asked h
  obtain ⟨d, hd, _⟩ := ht.stays hs hc
  exact ⟨ht.fresh hs, d, hd⟩

theorem Polite.channFail_fresh {u : Unit} (hs : Fresh s) (h : Returns (channFail x n) s u t) : Fresh t := by
  obtain ⟨a, err, pass, b, ha, hmsg, ⟨_, hpush⟩ | ⟨_, rfl⟩⟩ := hp.failed h
  · have hb := (hp.rewords _ _ hmsg).fresh (ha.fresh hs)
    obtain ⟨d, hd, hheap, hnext, _⟩ := pushDis_cases hpush
    exact hb.update hd hheap hnext
  · exact (hp.rewords _ _ hmsg).fresh (ha.fresh hs)

theorem Polite.faults_fresh (h : Faults x N s t) (hs : Fresh s) : Fresh t := by
  induction h with
  | refl => exact hs
  | tail _ hstep ih =>
    rcases hstep with hd | ⟨n, _, u, hfail⟩
    · exact hd.fresh ih
    · exact hp.channFail_fresh ih hfail

/-- A round gives out the slot of a channel, if it gives out anything. -/
theorem Polite.evtPass_stays {fuel : Nat} {p : Pass} (hs : Fresh s) (h : Returns (evtPass x fuel) s p t) :
    Fresh t ∧ ∀ q, p = .ret (some q) → ∃ c, t.heap q = some c := by
  have hquiet : ∀ {a : Sys ε}, Returns (tmNext x fuel) s none a → Fresh a := by
    intro a htm
    obtain ⟨_, ha⟩ | ⟨_, _, hno, _⟩ := hp.tmNext_emits htm
    · exact ha.fresh hs
    · cases hno
  obtain ⟨n, rfl, htm⟩ | ⟨n, a, rfl, htm, hdis⟩ | ⟨a, rfl, htm, _, rfl, _⟩ | ⟨u, kev, hfetch, hdisp⟩ :=
    evtPass_cases h
  · obtain ⟨hno, _⟩ | ⟨m, v, hq, hv, hmsg⟩ := hp.tmNext_emits htm
    · cases hno
    cases hq
    obtain ⟨hfresh, hc⟩ := hp.channMsg_stays (hv.fresh hs) hmsg
    refine ⟨hfresh, fun q hq => ?_⟩
    cases hq
    exact hc
  · simp only [disNext, returns_bind, returns_readMnet, and_assoc, exists_and_left, exists_eq_left] at hdis
    cases hd : a.mnet.disChanns with
    | none =>
      rw [hd] at hdis
      cases (returns_pure.mp hdis).1
    | some m =>
      rw [hd] at hdis
      simp only [returns_bind, returns_deref, returns_modifyMnet, returns_pure, and_assoc,
        exists_and_left, exists_eq_left] at hdis
      obtain ⟨c, hc, hm, _, rfl⟩ := hdis
      refine ⟨hquiet (a := a) htm, fun q hq => ?_⟩
      cases hq
      cases hm
      exact ⟨c, hc⟩
  · exact ⟨hquiet (a := a) htm, fun q hq => by cases hq⟩
  obtain ⟨a, htm, _, rfl⟩ := hfetch.quiet
  obtain ⟨rfl, hfaults⟩ | ⟨n, c, v, event, q, err, hn, hc, hfaults, hemit, _, _⟩ := hp.evtDispatch_emits hdisp
  · exact ⟨hp.faults_fresh hfaults (hquiet (a := a) htm), fun q hq => by cases hq⟩
  obtain ⟨pass, b, hmsg, hret⟩ := returns_bind.mp hemit
  obtain ⟨hr, rfl⟩ := returns_pure.mp hret
  obtain ⟨hfresh, hc⟩ := hp.channMsg_stays (hp.faults_fresh hfaults (hquiet (a := a) htm)) hmsg
  refine ⟨hfresh, fun q hq => ?_⟩
  rw [hr] at hq
  cases pass with
  | true =>
    cases hq
    exact hc
  | false => cases hq

theorem Polite.evtLoop_stays {fuel rounds : Nat} {q : Option ChannId} (hs : Fresh s)
    (h : Returns (evtLoop x fuel rounds) s q t) : Fresh t ∧ ∀ p, q = some p → ∃ c, t.heap p = some c := by
  obtain ⟨a, ha, hret⟩ := evtLoop_rounds h
  have hfa : Fresh a := ha.keeps hs fun b c hb hpass => (hp.evtPass_stays hb hpass).1
  obtain ⟨ht, hc⟩ := hp.evtPass_stays hfa hret
  exact ⟨ht, fun p hq => hc p (by rw [hq])⟩

end

end MNet
