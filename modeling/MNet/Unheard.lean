import MNet.Backed

/-! # Channels the application has not heard of

An accepted TLS channel is made known by the ACCEPT that its handshake ends with. A message that names
it before takes the application by surprise. -/

namespace MNet
open MNet.Lib MNet.Lib.Exec

variable {s t : Sys Tls} {n m : ChannId} {c d : Chann} {K K' : Set ChannId}

/-! ## What the application has heard of -/

/-- The channels `mnet_chann_open` returned, and those an ACCEPT named. -/
structure Heard where
  opened : List ChannId := []
  announced : List ChannId := []

def Heard.all (k : Heard) : Set ChannId := {n | n ∈ k.opened ++ k.announced}

/-- The channel that an ACCEPT in the slot of `p` names. -/
def Sys.announces (s : Sys Tls) (p : ChannId) : List ChannId :=
  match s.heap p with
  | some c => if c.msg.event = some .accept then c.msg.r.toList else []
  | none => []

theorem mem_announces {p : ChannId} (hc : s.heap p = some c) (hev : c.msg.event = some .accept) (hr : c.msg.r = some n) :
    n ∈ s.announces p := by
  simp [Sys.announces, hc, hev, hr]

/-- What is heard from a result. -/
def Heard.after (k : Heard) (t : Sys Tls) : Ret → Heard
  | .chann (some n) => { k with opened := n :: k.opened }
  | .msg (some p) => { k with announced := t.announces p ++ k.announced }
  | _ => k

/-- A call on a channel the application has heard of, if on any, and what it hears from the result. -/
def Hears (p : Sys Tls × Heard) (i : Call × Ret) (q : Sys Tls × Heard) : Prop :=
  Step tlsTable p.1 i q.1 ∧ (∀ n, i.1.names = some n → n ∈ p.2.all) ∧ q.2 = p.2.after q.1 i.2

theorem Heard.mem_all (k : Heard) : n ∈ k.all ↔ n ∈ k.opened ∨ n ∈ k.announced := List.mem_append

theorem Heard.subset_after (k : Heard) (t : Sys Tls) (r : Ret) : k.all ⊆ (k.after t r).all := by
  intro n hn
  rw [mem_all] at hn ⊢
  unfold Heard.after
  split
  · exact hn.imp (List.mem_cons_of_mem _) id
  · exact hn.imp id (List.mem_append_right _)
  · exact hn

/-! ## Records that are kept quiet -/

/-- The handshake of an accepted channel is under way. -/
def Shaking (s : Sys Tls) (c : Chann) : Prop :=
  c.ctype = CHANN_TYPE_TLS ∧ s.mnet.reserved c.ctype = true ∧ c.extUd ≠ 0 ∧
    (s.ext.uds c.extUd).map TlsUd.state = some .listening

/-- The record has no error, and its input is for the handshake. -/
def Muted (s : Sys Tls) (kev : Kev) (c : Chann) : Prop :=
  kev.events &&& (EPOLLERR ||| (EPOLLRDHUP ||| EPOLLHUP)) = 0 ∧ (kev.events &&& EPOLLIN ≠ 0 → Shaking s c)

/-- The record is of a channel of `K`, of one without a socket, or quiet. -/
def MutedOutside (K : Set ChannId) (s : Sys Tls) (kev : Kev) : Prop :=
  ∀ n ∈ kev.ptr, n ∉ K → ∀ c ∈ s.heap n, 0 ≤ c.fd → Muted s kev c

/-- The records the call may come to. -/
def KeepsMuted (K : Set ChannId) (s : Sys Tls) : Call → Prop
  | .resultNext fuel => ∀ a u kev, Rounds tlsTable fuel s a → Fetches tlsTable fuel a u kev → MutedOutside K u kev
  | _ => True

/-! ## A round of the loop -/

/-- Channels outside `K` are as they were accepted, or hung up. -/
abbrev Dormant : Set ChannId → Sys Tls → Prop := Poised fun st => st = .connected ∨ st = .disconnect

theorem Poised.except {S : ChannState → Prop} (hq : Poised S K s) (he : Ebb {n} s t) (hK : K ⊆ K')
    (hn : n ∈ K' ∨ ∀ d, t.heap n = some d → S d.state ∧ d.idle) : Poised S K' t := by
  intro m d hd hm
  by_cases hmn : m = n
  · subst hmn
    exact (hn.resolve_left hm) d hd
  · obtain ⟨c, hc, _, _, hkeep⟩ := he.chann m d hd
    obtain ⟨hst, hrwb, hon⟩ := hkeep hmn
    rw [Chann.idle, hst, hrwb, hon]
    exact hq m c hc fun hmK => hm (hK hmK)

/-- A handshake of an accepted channel is told when it is done, and keeps quiet otherwise. -/
theorem tlsAdvance_shaking {pass : Bool} (hc : s.heap n = some c) (hsh : Shaking s c)
    (h : Returns (tlsAdvance n (some n)) s pass t) : ∃ e, t.heap n = some e ∧
      ((pass = true ∧ e.msg.event = some .accept ∧ e.msg.r = c.msg.n) ∨ (pass = false ∧ (c.settled → e.settled))) := by
  obtain ⟨_, hres, hne, hud⟩ := hsh
  obtain ⟨d, hd, hst⟩ := Option.map_eq_some_iff.mp hud
  have hget : Returns (mnetExtChannGetUd (some n)) s c.extUd s := returns_getUd.mpr ⟨rfl, c, hc, (if_pos hres).symm⟩
  rw [tlsAdvance, hget.bind_iff, if_neg hne] at h
  simp only [returns_bind, returns_derefUd, and_assoc, exists_eq_left] at h
  obtain ⟨d', hd', h⟩ := h
  rw [hd, Option.some.injEq] at hd'
  subst hd'
  rw [if_neg (by simp [hst])] at h
  obtain ⟨hs, a, hhs, h⟩ := returns_bind.mp h
  obtain ⟨_, _, _, _, _, _, _, _, _, hheap, _⟩ := tlsHandshake_cases hhs
  have hca : a.heap n = some c := by rw [hheap, hc]
  cases hs with
  | done =>
    rw [tlsReport, if_pos hst] at h
    simp only [modifyMsg, returns_bind, returns_modifyChann, returns_modifyUd] at h
    obtain ⟨_, _, ⟨c', hc', rfl⟩, _, _, ⟨e, _, rfl⟩, h⟩ := h
    obtain rfl := Option.some.inj (hca.symm.trans hc')
    obtain ⟨rfl, rfl⟩ := returns_pure.mp h
    exact ⟨_, setChann_self .., .inl ⟨rfl, rfl, rfl⟩⟩
  | again =>
    obtain ⟨rfl, rfl⟩ := returns_pure.mp h
    exact ⟨c, hca, .inr ⟨rfl, id⟩⟩
  | failed =>
    rw [tlsReport, if_pos hst] at h
    obtain ⟨_, b, hdown, h⟩ := returns_bind.mp h
    obtain ⟨rfl, rfl⟩ := returns_pure.mp h
    obtain ⟨e, he, hkept⟩ := tlsDisconnect_settled hca (returns_forSome_some.mp hdown)
    exact ⟨e, he, .inr ⟨rfl, hkept⟩⟩

theorem channMsg_shaking {pass : Bool} (hc : s.heap n = some c) (hsh : Shaking s c)
    (h : Returns (channMsg tlsTable n .recv none 0) s pass t) : ∃ e, t.heap n = some e ∧ e.ctype = CHANN_TYPE_TLS ∧
      ((pass = true ∧ e.msg.event = some .accept ∧ e.msg.r = some n) ∨ (pass = false ∧ (c.settled → e.settled))) := by
  have hebb : Ebb {n} s t := ebb_channMsg (by simp) (fun _ => Set.mem_singleton n) _ _ h
  obtain ⟨c', hc', h⟩ := channMsg_cases h
  obtain rfl := Option.some.inj (hc.symm.trans hc')
  obtain ⟨hty, hshakes⟩ := hsh
  have hext : extConfig tlsTable c.ctype = tlsExt := hty ▸ extConfig_tls
  rw [hext] at h
  have h : Returns (tlsFilterFn n) _ pass t := h
  simp only [tlsFilterFn, returns_bind, returns_deref, and_assoc, exists_and_left, exists_eq_left] at h
  obtain ⟨d', hd', h⟩ := h
  obtain rfl := Option.some.inj ((setChann_self ..).symm.trans hd')
  -- the slot is no part of what the handshake is read from
  have hself : (s.setChann n { c with msg := msgOf n c .recv none 0 }).heap n =
      some { c with msg := msgOf n c .recv none 0 } := setChann_self ..
  obtain ⟨e, he, hcases⟩ := tlsAdvance_shaking hself ⟨hty, hshakes⟩ h
  obtain ⟨f, hf, hsame, _⟩ := hebb.chann n e he
  obtain rfl := Option.some.inj (hc.symm.trans hf)
  exact ⟨e, he, hsame.trans hty, hcases⟩

/-- The channel `n` was left as it may be left, or announced. -/
def Announced (n : ChannId) (p : Pass) (t : Sys Tls) : Prop :=
  (p = .next ∧ ∀ e, t.heap n = some e → e.settled) ∨
    (p = .ret (some n) ∧ ∃ e, t.heap n = some e ∧ e.ctype = CHANN_TYPE_TLS ∧ e.msg.event = some .accept ∧ e.msg.r = some n)

theorem evtConnected_muted {kev : Kev} {p : Pass} (hc : s.heap n = some c) (hset : c.settled) (hmuted : Muted s kev c)
    (h : Returns (evtConnected tlsTable n kev) s p t) : Ebb {n} s t ∧ Announced n p t := by
  have hsame : ∀ {e}, s.heap n = some e → e.settled := fun he => Option.some.inj (hc.symm.trans he) ▸ hset
  rcases returns_ite.mp h with ⟨hin, h⟩ | ⟨hin, h⟩
  · obtain ⟨pass, a, hmsg, h⟩ := returns_bind.mp h
    obtain ⟨rfl, rfl⟩ := returns_pure.mp h
    refine ⟨ebb_channMsg (by simp) (fun _ => Set.mem_singleton n) _ _ hmsg, ?_⟩
    obtain ⟨e, he, hty, ⟨rfl, hev, hr⟩ | ⟨rfl, hkept⟩⟩ := channMsg_shaking hc (hmuted.2 hin) hmsg
    · exact .inr ⟨rfl, e, he, hty, hev, hr⟩
    · refine .inl ⟨rfl, fun f hf => ?_⟩
      exact Option.some.inj (he.symm.trans hf) ▸ hkept hset
  rcases returns_ite.mp h with ⟨hout, h⟩ | ⟨_, h⟩
  swap
  · obtain ⟨rfl, rfl⟩ := returns_pure.mp h
    exact ⟨.refl _, .inl ⟨rfl, fun e => hsame⟩⟩
  -- nothing waits, and nothing is told of it
  obtain ⟨sent, a, hsent, hrest⟩ := returns_bind.mp h
  rw [channSendedRwb, (returns_deref.mpr ⟨hc, rfl⟩).bind_iff, hset.2.1] at hsent
  obtain ⟨rfl, rfl⟩ := returns_pure.mp hsent
  rw [if_pos rfl, (returns_deref.mpr ⟨hc, rfl⟩).bind_iff, hset.2.2] at hrest
  simp only [Bool.false_eq_true, if_false, returns_bind, returns_pure] at hrest
  obtain ⟨_, b, hdel, rfl, rfl⟩ := hrest
  have hebb : Ebb ∅ a t := ebb_evtDel _ _ hdel
  refine ⟨hebb.mono (Set.empty_subset _), .inl ⟨rfl, fun e he => ?_⟩⟩
  obtain ⟨f, hf, _, _, hkeep⟩ := hebb.chann n e he
  obtain ⟨hst, hrwb, hon⟩ := hkeep (Set.notMem_empty n)
  rw [Chann.settled, Chann.idle, hst, hrwb, hon]
  exact hsame hf

/-- Nothing is said of a channel outside `K` until it is announced. -/
theorem evtDispatch_muted {kev : Kev} {p : Pass} (hq : Dormant K s) (hm : MutedOutside K s kev) (hn : kev.ptr = some n)
    (hno : n ∉ K) (h : Returns (evtDispatch tlsTable kev) s p t) : Ebb {n} s t ∧ Announced n p t := by
  obtain ⟨m, c, hm', hc, hcases⟩ := evtDispatch_cases h
  obtain rfl := Option.some.inj (hn.symm.trans hm')
  have hset : c.settled := hq n c hc hno
  have hkept : s = t → p = .next → Ebb {n} s t ∧ Announced n p t := by
    rintro rfl rfl
    refine ⟨.refl _, .inl ⟨rfl, fun e he => ?_⟩⟩
    exact Option.some.inj (hc.symm.trans he) ▸ hset
  obtain ⟨_, rfl, rfl⟩ | ⟨_, hfd, herr, _⟩ | ⟨_, hfd, _, ⟨hst, _⟩ | ⟨hst, _⟩ | ⟨_, h⟩ | ⟨_, rfl, rfl⟩⟩ := hcases
  · exact hkept rfl rfl
  · exact absurd (hm n hn hno c hc hfd).1 herr
  · obtain ⟨hno | hno, _⟩ := hset <;> rw [hst] at hno <;> cases hno
  · obtain ⟨hno | hno, _⟩ := hset <;> rw [hst] at hno <;> cases hno
  · exact evtConnected_muted hc hset (hm n hn hno c hc hfd) h
  · exact hkept rfl rfl

/-- The channels a round announces. -/
def Sys.airs (s : Sys Tls) : Pass → Set ChannId
  | .ret (some p) => {n | n ∈ s.announces p}
  | _ => ∅

theorem evtDispatch_dormant {kev : Kev} {p : Pass} (hq : Dormant K s) (hm : MutedOutside K s kev)
    (h : Returns (evtDispatch tlsTable kev) s p t) : Dormant (K ∪ t.airs p) t := by
  by_cases hno : ∃ n, kev.ptr = some n ∧ n ∉ K
  · obtain ⟨n, hn, hno⟩ := hno
    obtain ⟨he, ⟨rfl, hset⟩ | ⟨rfl, e, hheap, _, hev, hr⟩⟩ := evtDispatch_muted hq hm hn hno h
    · exact hq.except he Set.subset_union_left (.inr hset)
    · exact hq.except he Set.subset_union_left (.inl (.inr (mem_announces hheap hev hr)))
  have hK : ∀ n, kev.ptr = some n → n ∈ K := fun n hn => by_contra fun hnK => hno ⟨n, hn, hnK⟩
  obtain he | ⟨n, c, m, a, b, r, pass, hn, hc, hst, hmove, hadd, hmsg, rfl⟩ := evtDispatch_ebb hK h
  · exact (hq.ebb he).mono Set.subset_union_left
  obtain ⟨lc, _, hborn⟩ := hmove.admitted
  obtain ⟨d, hd, _, hset, _⟩ := hborn.new
  have ha : Dormant K a := hq.born hborn.toBorn (.inr fun e he => Option.some.inj (hd.symm.trans he) ▸ hset)
  have hb : Dormant K b := ha.ebb (ebb_evtAdd _ _ hadd)
  obtain ⟨g, v, hg, rfl, hcases⟩ := channMsg_accept hmsg
  have hv : Dormant K (b.setChann n { g with msg := msgOf n g .accept (some m) 0 }) := hb.ebb (.of_set hg rfl)
  refine Poised.mono ?_ Set.subset_union_left
  obtain ⟨_, _, rfl⟩ | ⟨_, _, _, ⟨_, rfl⟩ | ⟨_, _, _, rfl⟩⟩ := hcases
  all_goals exact hv

/-- A message that is given out names a channel of `K`, if it names one and is of no timer. -/
def Pass.known (K : Set ChannId) (p : Pass) (t : Sys Tls) : Prop :=
  ∀ m c q, p = .ret (some m) → t.heap m = some c → c.msg.event ≠ some .timer → c.msg.n = some q → q ∈ K

theorem evtDispatch_known {kev : Kev} {p : Pass} (hs : Fresh s) (hq : Dormant K s)
    (hnamed : ∀ k l, Handshakes s k (some l) → l ∈ K) (hm : MutedOutside K s kev)
    (h : Returns (evtDispatch tlsTable kev) s p t) : p.known K t := by
  rintro m c q rfl hc _ hq'
  obtain ⟨hn, hown⟩ | ⟨_, _, hhand, _⟩ := evtDispatch_names hs h hc
  · by_contra hno
    obtain rfl : q = m := Option.some.inj (hq'.symm.trans hn)
    have hptr : kev.ptr = some q := by
      obtain ⟨hno, _⟩ | ⟨k, _, _, _, _, _, hk, _, _, hemit, _⟩ := polite_tlsTable.evtDispatch_emits h
      · cases hno
      obtain ⟨pass, _, _, hret⟩ := returns_bind.mp hemit
      cases pass with
      | true =>
        cases (returns_pure.mp hret).1
        exact hk
      | false => cases (returns_pure.mp hret).1
    obtain ⟨_, ⟨hno, _⟩ | ⟨_, e, he, hty, hev, _⟩⟩ := evtDispatch_muted hq hm hptr hno h
    · cases hno
    · obtain rfl := Option.some.inj (hc.symm.trans he)
      exact hown hty hev
  · rw [hq'] at hhand
    exact hnamed m q hhand

/-- A report of a channel of `K` names it. -/
def Named (K : Set ChannId) (n : ChannId) (msg : ChannMsg) (_ : Nat) : Prop := n ∈ K ∧ msg.n = some n

theorem saysOf_named {event : ChannEvent} (hev : event = .disconnect ∨ event = .timer ∨ event = .send) (hn : n ∈ K) :
    SaysOf tlsTable (Named K) n event := by
  refine saysOf_tlsTable hev fun _ _ _ => ⟨hn, ?_⟩
  rfl

theorem Filed.known (h : Filed (Named K) s) (hK : K ⊆ K') : Filed (Named K') s := by
  refine h.of fun n hn c hc => ?_
  obtain ⟨hmem, hmsg⟩ := (h.waiting n hn).2 c hc
  exact ⟨hK hmem, hmsg⟩

/-- The application hears of a channel outside `K` only by its ACCEPT. -/
structure Unheard (K : Set ChannId) (s : Sys Tls) : Prop where
  dormant : Dormant K s
  named : ∀ n l, Handshakes s n (some l) → l ∈ K
  backed : Backed s
  queued : Filed (Named K) s

theorem Unheard.mono (h : Unheard K s) (hK : K ⊆ K') : Unheard K' s where
  dormant := h.dormant.mono hK
  named n l hn := hK (h.named n l hn)
  backed := h.backed
  queued := h.queued.known hK

theorem evtPass_queued {fuel : Nat} {p : Pass} (hu : Unheard K s) (h : Returns (evtPass tlsTable fuel) s p t) : Filed (Named K) t := by
  refine evtPass_files polite_tlsTable (fun u kev hfetch n hmem => ?_) (fun n a htm hw d hd => ?_) hu.queued h
  · obtain ⟨_, c, hc, hne⟩ := hmem
    have hset : Dormant K u := hu.dormant.ebb (hfetch.ebb.mono (Set.empty_subset _))
    have hn : n ∈ K := by
      by_contra hno
      exact hne (hset n c hc hno).2.1
    exact ⟨saysOf_named (.inl rfl) hn, saysOf_named (.inr (.inr rfl)) hn⟩
  · obtain ⟨hno, _⟩ | ⟨m, v, hm, hv, hmsg⟩ := polite_tlsTable.tmNext_emits htm
    · cases hno
    obtain rfl := Option.some.inj hm
    have hebb : Ebb ∅ s a := ebb_tmNext _ _ htm
    obtain ⟨c, hc, _⟩ := hebb.chann n d hd
    have hn : n ∈ K := ((hu.queued.waiting n hw).2 c hc).1
    exact saysOf_named (.inr (.inl rfl)) hn (hv.fresh hu.queued.fresh) hmsg d hd

theorem Unheard.ebb (hu : Unheard K s) (he : Ebb K s t) (hq : Filed (Named K) t) : Unheard K t where
  dormant := hu.dormant.ebb he
  named n l hn := hu.named n l (he.handshakes hn)
  backed := hu.backed.ebb he
  queued := hq

theorem evtPass_unheard {fuel : Nat} {p : Pass} (hu : Unheard K s)
    (hm : ∀ u kev, Fetches tlsTable fuel s u kev → MutedOutside K u kev) (h : Returns (evtPass tlsTable fuel) s p t) :
    Unheard (K ∪ t.airs p) t ∧ p.known K t := by
  have hqueued : Filed (Named K) t := evtPass_queued hu h
  have hkept : Ebb K s t → Unheard (K ∪ t.airs p) t := fun he => (hu.ebb he hqueued).mono Set.subset_union_left
  obtain ⟨n, rfl, htm⟩ | ⟨n, a, rfl, htm, hpop⟩ | ⟨a, rfl, htm, _, rfl, _⟩ | ⟨u, kev, hfetch, hdisp⟩ := evtPass_cases h
  · refine ⟨hkept (ebb_tmNext _ _ htm), fun m c q hm hc hev _ => absurd ?_ hev⟩
    obtain ⟨hno, _⟩ | ⟨k, v, hk, _, hmsg⟩ := polite_tlsTable.tmNext_emits htm
    · cases hno
    obtain ⟨e, d, _, rfl, _, _, hplain⟩ := channMsg_filtered hmsg
    obtain ⟨_, rfl⟩ := hplain (by simp) (by simp) (by simp)
    cases hm
    cases hk
    obtain rfl := Option.some.inj ((setChann_self ..).symm.trans hc)
    rfl
  · refine ⟨hkept ((ebb_tmNext _ _ htm).trans (plain_disNext _ _ hpop).ebb), fun m c q hm hc _ hq => ?_⟩
    cases hm
    obtain ⟨d, hd, hn, hmsg⟩ := ((hu.queued.quiet polite_tlsTable htm).pop hpop).2 n rfl
    obtain rfl := Option.some.inj (hc.symm.trans hd)
    rwa [← Option.some.inj (hmsg.symm.trans hq)]
  · have ha : Ebb K s a := ebb_tmNext _ _ htm
    refine ⟨hkept (ha.trans (.of_heap rfl (.refl _))), fun m c q hm => ?_⟩
    cases hm
  · have hsu : Ebb K s u := hfetch.ebb.mono (Set.empty_subset _)
    have hfu := hu.queued.fetched polite_tlsTable hfetch
    have hw : Unheard K u := hu.ebb hsu hfu
    refine ⟨⟨evtDispatch_dormant hw.dormant (hm u kev hfetch) hdisp, fun n l hn => .inl ?_,
      (evtDispatch_backed hw.backed hdisp).1, hqueued.known Set.subset_union_left⟩,
      evtDispatch_known hfu.fresh hw.dormant hw.named (hm u kev hfetch) hdisp⟩
    obtain hold | ⟨l', c, hl, hc, hst⟩ := evtDispatch_handshakes hw.backed hdisp hn
    · exact hw.named n l hold
    -- a channel that listens is no channel that was only accepted
    obtain rfl := Option.some.inj hl
    by_contra hno
    obtain ⟨hset | hset, _⟩ := hw.dormant l c hc hno <;> rw [hst] at hset <;> cases hset

theorem evtLoop_unheard {fuel rounds : Nat} {q : Option ChannId} (hu : Unheard K s) (hm : KeepsMuted K s (.resultNext fuel))
    (h : Returns (evtLoop tlsTable fuel rounds) s q t) : Unheard (K ∪ t.airs (.ret q)) t ∧ (Pass.ret q).known K t := by
  obtain ⟨a, ha, hret⟩ := evtLoop_rounds h
  have hua : Unheard K a ∧ Rounds tlsTable fuel s a := by
    refine ha.keeps (I := fun a => Unheard K a ∧ Rounds tlsTable fuel s a) ⟨hu, .refl⟩ fun b c ⟨hb, hsb⟩ hpass => ?_
    obtain ⟨hc, _⟩ := evtPass_unheard hb (fun u kev => hm b u kev hsb) hpass
    exact ⟨hc.mono (by simp [Sys.airs]), hsb.tail hpass⟩
  exact evtPass_unheard hua.1 (fun u kev => hm a u kev hua.2) hret

/-! ## Calls -/

theorem Call.names_of_transfers {i : Call} (h : i.transfers = some n) : i.names = some n := by
  cases i with
  | channRecv | channSend | dgramRecv | dgramSend => exact h
  | _ => cases h

/-- A report that waits goes on to name its channel, whatever becomes of the user pointer. -/
theorem Filed.suits (h : Filed (Named K) s) (i : Call) : SuitsReports (Named K) s i := by
  unfold SuitsReports
  split
  · exact fun hw c hc => (h.waiting _ hw).2 c hc
  · exact fun hw c hc _ => (h.waiting _ hw).2 c hc
  · trivial

theorem Hears.unheard {i : Call × Ret} {k k' : Heard} (h : Hears (s, k) i (t, k')) (hm : KeepsMuted k.all s i.1)
    (ho : Ordered s) (hu : Unheard k.all s) : Unheard k'.all t := by
  obtain ⟨i, r⟩ := i
  have hstep : Step tlsTable s (i, r) t := h.1
  have hnames : ∀ n, i.names = some n → n ∈ k.all := h.2.1
  obtain rfl : k' = k.after t r := h.2.2
  have hsub : k.all ⊆ (k.after t r).all := k.subset_after t r
  by_cases hloop : ∃ fuel, i = .resultNext fuel
  · obtain ⟨fuel, rfl⟩ := hloop
    obtain ⟨q, rfl, hr⟩ := returns_ret.mp hstep
    refine (evtLoop_unheard hu hm hr).1.mono (Set.union_subset hsub ?_)
    cases q with
    | none => exact Set.empty_subset _
    | some p => exact fun n hn => (Heard.mem_all _).mpr (.inr (List.mem_append_left _ hn))
  have hno : ∀ fuel, i ≠ .resultNext fuel := fun fuel he => hloop ⟨fuel, he⟩
  refine ⟨hu.dormant.call hstep ho hno hnames hsub fun n hr => ?_,
    fun n l hn => hsub (hu.named n l (hstep.handshakes ho hu.backed hno hn)), (hstep.backed ho hu.backed).1,
    (Step.files polite_tlsTable obedient_tlsTable (fun n hn => ?_) hstep (fun fuel he => absurd he (hno fuel))
      (hu.queued.suits i) ho hu.queued).known hsub⟩
  · obtain rfl : r = .chann (some n) := hr
    exact (Heard.mem_all _).mpr (.inl List.mem_cons_self)
  · exact saysOf_named (.inl rfl) (hnames n (Call.names_of_transfers hn))

/-! ## Runs -/

theorem unheard_start (o : Oracle) : Unheard ∅ (Sys.start o {}) where
  dormant _ _ hc := by cases hc
  named n l hn := by
    obtain ⟨c, _, hc, _⟩ := hn
    cases hc
  backed := (backed_start o).1
  queued := filed_start o _

/-- The steps of a run whose records keep quiet about channels the application has not heard of. -/
def Discloses (p : Sys Tls × Heard) (i : Call × Ret) (q : Sys Tls × Heard) : Prop :=
  Hears p i q ∧ KeepsMuted p.2.all p.1 i.1

/-- A message names a channel that the application opened, or that an ACCEPT named before. Timer messages
apart, this holds if a record of a channel that no ACCEPT has named carries no error, and input only for the
handshake. -/
theorem announced_first {o : Oracle} {l : List (Call × Ret)} {k : Heard} {q : Sys Tls × Heard} {fuel : Nat} {p : ChannId}
    (h : Path Discloses (Sys.start o {}, {}) l (s, k)) (hlast : Discloses (s, k) (.resultNext fuel, .msg (some p)) q)
    (hc : q.1.heap p = some c) (hev : c.msg.event ≠ some .timer) (hn : c.msg.n = some n) :
    n ∈ k.opened ∨ n ∈ k.announced := by
  obtain ⟨_, hu⟩ : Ordered s ∧ Unheard k.all s := by
    refine h.keeps (I := fun p => Ordered p.1 ∧ Unheard p.2.all p.1) ?_ ⟨ordered_start o _, ?_⟩
    · intro p i q ⟨hstep, hm⟩ ⟨ho, hu⟩
      exact ⟨hstep.1.ordered obedient_tlsTable ho, hstep.unheard hm ho hu⟩
    · exact (unheard_start o).mono (Set.empty_subset _)
  obtain ⟨r, hr, hloop⟩ := returns_ret.mp hlast.1.1
  cases hr
  exact k.mem_all.mp ((evtLoop_unheard hu hlast.2 hloop).2 p c n rfl hc hev hn)

/-- Each record the loop comes to in so many rounds is as `P` says. -/
def EachRecord (P : Sys Tls → Kev → Prop) (fuel : Nat) : Nat → Sys Tls → Prop
  | 0, _ => False
  | rounds + 1, s =>
    Ends (tmNext tlsTable fuel) s (fun q a => q = none → a.mnet.disChanns = none → a.mnet.fdIndex + 1 < a.mnet.fdCount →
      P { a with mnet := { a.mnet with fdIndex := a.mnet.fdIndex + 1 } }
        (a.mnet.evtArray.getD (a.mnet.fdIndex + 1).toNat {})) ∧
    Ends (evtPass tlsTable fuel) s fun p t => p = .next → EachRecord P fuel rounds t

instance EachRecord.decidable {P : Sys Tls → Kev → Prop} {fuel : Nat} [∀ s kev, Decidable (P s kev)] :
    (rounds : Nat) → (s : Sys Tls) → Decidable (EachRecord P fuel rounds s)
  | 0, _ => instDecidableFalse
  | rounds + 1, _ =>
    have : ∀ s, Decidable (EachRecord P fuel rounds s) := EachRecord.decidable rounds
    inferInstanceAs (Decidable (_ ∧ _))

theorem EachRecord.all {P : Sys Tls → Kev → Prop} {fuel rounds : Nat} {a u : Sys Tls} {kev : Kev}
    (h : EachRecord P fuel rounds s) (ha : Rounds tlsTable fuel s a) (hf : Fetches tlsTable fuel a u kev) : P u kev := by
  induction ha using Relation.ReflTransGen.head_induction_on generalizing rounds with
  | refl =>
    cases rounds with
    | zero => exact h.elim
    | succ rounds =>
      obtain ⟨_, _, htm, hp⟩ := h.1
      obtain ⟨_, htm', hdis, rfl⟩ := hf.quiet
      obtain ⟨rfl, rfl⟩ := htm.det htm'
      rw [hf.record]
      exact hp rfl hdis hf.lt
  | head hpass _ ih =>
    cases rounds with
    | zero => exact h.elim
    | succ rounds =>
      obtain ⟨_, _, hpass', hp⟩ := h.2
      obtain ⟨rfl, rfl⟩ := hpass.det hpass'
      exact ih (hp rfl)

/-- The calls all return, each made on what has been heard of and as `P` says, and what they leave is as `Q` says. -/
def AfterHeard (P : Sys Tls × Heard → Call → Prop) : List Call → Sys Tls × Heard → (Sys Tls × Heard → Prop) → Prop
  | [], p, Q => Q p
  | i :: is, p, Q => (∀ n ∈ i.names, n ∈ p.2.opened ++ p.2.announced) ∧ P p i ∧
    Ends (apiCall tlsTable i) p.1 fun r t => AfterHeard P is (t, p.2.after t r) Q

instance AfterHeard.decidable {P : Sys Tls × Heard → Call → Prop} {Q : Sys Tls × Heard → Prop} [∀ p i, Decidable (P p i)]
    [DecidablePred Q] : (is : List Call) → (p : Sys Tls × Heard) → Decidable (AfterHeard P is p Q)
  | [], p => inferInstanceAs (Decidable (Q p))
  | _ :: is, _ =>
    have := AfterHeard.decidable (P := P) (Q := Q) is
    inferInstanceAs (Decidable (_ ∧ _ ∧ _))

theorem AfterHeard.path {P : Sys Tls × Heard → Call → Prop} {is : List Call} {p : Sys Tls × Heard}
    {Q : Sys Tls × Heard → Prop} (h : AfterHeard P is p Q) :
    ∃ l q, Path (fun p i q => Hears p i q ∧ P p i.1) p l q ∧ Q q := by
  induction is generalizing p with
  | nil => exact ⟨[], p, .nil, h⟩
  | cons i is ih =>
    obtain ⟨hnames, hp, r, t, hr, h⟩ := h
    obtain ⟨l, q, hl, hq⟩ := ih h
    exact ⟨(i, r) :: l, q, .cons (t := (t, p.2.after t r)) ⟨⟨hr, hnames, rfl⟩, hp⟩ hl, hq⟩

instance (s : Sys Tls) (c : Chann) : Decidable (Shaking s c) := inferInstanceAs (Decidable (_ ∧ _ ∧ _ ∧ _))

instance (s : Sys Tls) (kev : Kev) (c : Chann) : Decidable (Muted s kev c) := inferInstanceAs (Decidable (_ ∧ _))

instance (k : Heard) (s : Sys Tls) (kev : Kev) : Decidable (MutedOutside k.all s kev) :=
  inferInstanceAs (Decidable (∀ n ∈ kev.ptr, ¬ n ∈ k.opened ++ k.announced → ∀ c ∈ s.heap n, 0 ≤ c.fd → Muted s kev c))

/-- The loop ends in five rounds, and comes to quiet records only. -/
def MutedRounds (p : Sys Tls × Heard) : Call → Prop
  | .resultNext fuel => EachRecord (MutedOutside p.2.all) fuel 5 p.1
  | _ => True

instance (p : Sys Tls × Heard) : (i : Call) → Decidable (MutedRounds p i)
  | .resultNext fuel => inferInstanceAs (Decidable (EachRecord (MutedOutside p.2.all) fuel 5 p.1))
  | .mnetInit | .mnetFini | .multiAcceptBalancer .. | .multiResetEvent | .extRegister .. | .poll | .channOpen .. |
    .channClose .. | .channDisconnect .. | .channListen .. | .channConnect .. | .channSetOpaque .. |
    .channActiveEvent .. | .channRecv .. | .channSend .. | .dgramRecv .. | .dgramSend .. |
    .socketSetBufsize .. => instDecidableTrue

theorem MutedRounds.muted {p : Sys Tls × Heard} {i : Call} (h : MutedRounds p i) : KeepsMuted p.2.all p.1 i := by
  cases i with
  | resultNext fuel => exact fun _ _ _ ha hf => h.all ha hf
  | _ => trivial

/-- A RECV in the slot of channel 1, which it names. -/
def Receives1 (t : Sys Tls) : Prop := (t.heap 1).map (fun c => (c.msg.event, c.msg.n)) = some (some .recv, some 1)

instance (t : Sys Tls) : Decidable (Receives1 t) := inferInstanceAs (Decidable (_ = _))

theorem Receives1.slot (h : Receives1 t) : ∃ c, t.heap 1 = some c ∧ c.msg.event = some .recv ∧ c.msg.n = some 1 := by
  obtain ⟨c, hc, hmsg⟩ := Option.map_eq_some_iff.mp h
  exact ⟨c, hc, congrArg (·.1) hmsg, congrArg (·.2) hmsg⟩

/-- A client whose handshake takes two calls is announced, and then heard. -/
theorem announced_first_recv : ∃ (t : Sys Tls) (k : Heard), Receives1 t ∧ k.opened = [0] ∧ 1 ∈ k.announced := by
  have hrun : AfterHeard MutedRounds (listenCalls ++ [.poll, .resultNext 5, .poll]) (Sys.start slowClientOracle {}, {}) fun p =>
      p.2.opened = [0] ∧ MutedRounds p (.resultNext 5) ∧
        After tlsTable [.resultNext 5] p.1 fun rs t => rs = [.msg (some 1)] ∧ Receives1 t := by
    decide +kernel
  obtain ⟨l, ⟨s, k⟩, hpath, hopened, hmuted, hnext⟩ := hrun.path
  obtain ⟨r, t, hstep, hr, hrecv⟩ := hnext.step
  obtain rfl : r = .msg (some 1) := List.singleton_injective hr
  obtain ⟨c, hc, hev, hn⟩ := hrecv.slot
  have hlast : Discloses (s, k) (.resultNext 5, .msg (some 1)) (t, k.after t (.msg (some 1))) :=
    ⟨⟨hstep, by simp [Call.names], rfl⟩, hmuted.muted⟩
  have hheard := announced_first (hpath.mono fun _ _ _ hs => ⟨hs.1, hs.2.muted⟩) hlast hc (by rw [hev]; simp) hn
  have hopened : k.opened = [0] := hopened
  refine ⟨t, k, hrecv, hopened, hheard.resolve_left ?_⟩
  rw [hopened]
  decide

/-- An environment in which the first `SSL_accept` for the client succeeds. -/
def promptClientOracle : Oracle :=
  { slowClientOracle with ret := fun tick => if tick < 13 then tick + 3 else 1 }

/-- A client whose first `SSL_accept` succeeds is heard, and never announced. -/
theorem not_announced_first : ¬ ∀ (o : Oracle) (l : List (Call × Ret)) (s : Sys Tls) (k : Heard) (q : Sys Tls × Heard)
    (fuel : Nat) (p n : ChannId) (c : Chann), Path Hears (Sys.start o {}, {}) l (s, k) →
      Hears (s, k) (.resultNext fuel, .msg (some p)) q → q.1.heap p = some c → c.msg.event ≠ some .timer →
        c.msg.n = some n → n ∈ k.opened ∨ n ∈ k.announced := by
  have hrun : AfterHeard (fun _ _ => True) (listenCalls ++ [.poll]) (Sys.start promptClientOracle {}, {}) fun p =>
      p.2.opened = [0] ∧ p.2.announced = [] ∧
        After tlsTable [.resultNext 5] p.1 fun rs t => rs = [.msg (some 1)] ∧ Receives1 t := by
    decide +kernel
  obtain ⟨l, ⟨s, k⟩, hpath, hopened, hnone, hnext⟩ := hrun.path
  obtain ⟨r, t, hstep, hr, hrecv⟩ := hnext.step
  obtain rfl : r = .msg (some 1) := List.singleton_injective hr
  obtain ⟨c, hc, hev, hn⟩ := hrecv.slot
  intro hall
  have hheard := hall _ l s k (t, k.after t (.msg (some 1))) 5 1 1 c (hpath.mono fun _ _ _ hs => hs.1)
    ⟨hstep, by simp [Call.names], rfl⟩ hc (by rw [hev]; simp) hn
  have hopened : k.opened = [0] := hopened
  have hnone : k.announced = [] := hnone
  rw [hopened, hnone] at hheard
  revert hheard
  decide

end MNet
