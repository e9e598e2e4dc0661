import MNet.Ringing
import MNet.Tls.Ebb
import MNet.Tls.Filter

/-! # Channels the application has never been given

An accepted TLS channel is announced when its handshake is done. Until then the application cannot
name it, and nobody frees it if the handshake fails. -/

namespace MNet
open MNet.Lib MNet.Lib.Exec

variable {s t : Sys Tls} {n m : ChannId} {c d : Chann} {u : Unit} {K K' : Set ChannId}

/-! ## What the application knows -/

/-- The channels the message of a channel refers to. -/
def Sys.carried (s : Sys Tls) (p : ChannId) : Set ChannId :=
  {n | ∃ c, s.heap p = some c ∧ (c.msg.n = some n ∨ c.msg.r = some n)}

/-- The channels a result refers to. -/
def Sys.given (s : Sys Tls) : Ret → Set ChannId
  | .chann (some n) => {n}
  | .msg (some p) => s.carried p
  | _ => ∅

/-- A call on a channel the application has been given, if on any; it gives it the channels of its result. -/
def Informed (p : Sys Tls × Set ChannId) (i : Call × Ret) (q : Sys Tls × Set ChannId) : Prop :=
  Step tlsTable p.1 i q.1 ∧ (∀ n, i.1.names = some n → n ∈ p.2) ∧ q.2 = p.2 ∪ q.1.given i.2

/-! ## Channels nobody knows -/

/-- Channels outside `K` are in states of a kind, nothing waits in their caches, and no SEND event is asked for. -/
def Poised (S : ChannState → Prop) (K : Set ChannId) (s : Sys Tls) : Prop :=
  ∀ n c, s.heap n = some c → n ∉ K → S c.state ∧ c.idle

/-- They are connected. -/
abbrev Quiescent : Set ChannId → Sys Tls → Prop := Poised (· = .connected)

namespace Poised

variable {S : ChannState → Prop}

theorem mono (h : Poised S K s) (hK : K ⊆ K') : Poised S K' s := fun n c hc hn => h n c hc fun hm => hn (hK hm)

theorem ebb (h : Poised S K s) (he : Ebb K s t) : Poised S K t := by
  intro n d hd hn
  obtain ⟨c, hc, _, _, hkeep⟩ := he.chann n d hd
  obtain ⟨hst, hrwb, hon⟩ := hkeep hn
  rw [Chann.idle, hst, hrwb, hon]
  exact h n c hc hn

theorem born (h : Poised S K s) (hb : Born m s t)
    (hm : m ∈ K ∨ ∀ d, t.heap m = some d → S d.state ∧ d.idle) : Poised S K t := by
  intro n d hd hn
  by_cases hnm : n = m
  · subst hnm
    exact (hm.resolve_left hn) d hd
  · obtain ⟨c, hc, _, _, hst, hrwb, hon⟩ := hb.chann n d hnm hd
    rw [Chann.idle, hst, hrwb, hon]
    exact h n c hc hn

theorem close {q : Option ChannId} (hq : Poised S K s) (hn : ∀ n, q = some n → n ∈ K)
    (h : Returns (mnetChannClose tlsTable q) s u t) : Poised S K t := by
  cases q with
  | none =>
    rw [(returns_pure.mp h).2]
    exact hq
  | some n =>
    simp only [mnetChannClose, returns_bind, returns_deref, and_assoc, exists_and_left, exists_eq_left] at h
    obtain ⟨c, _, h⟩ := h
    rcases returns_ite.mp h with ⟨_, h⟩ | ⟨_, h⟩
    swap
    · rw [(returns_pure.mp h).2]
      exact hq
    obtain ⟨_, a, hdis, hclose⟩ := returns_bind.mp h
    have ha : Poised S K a := hq.ebb (ebb_disconnectSocket (hn n rfl) _ _ hdis)
    obtain rfl | ⟨b, d, hab, hd, rfl⟩ := close_ebb hclose
    · exact ha
    intro m e he hm
    have hne : m ≠ n := fun heq => hm (heq ▸ hn n rfl)
    rw [show Sys.heap _ m = b.heap m from Function.update_of_ne hne ..] at he
    exact (ha.ebb (hab.mono (Set.empty_subset _))) m e he hm

/-- A call on a channel of `K` leaves the others alone, the message loop apart. -/
theorem call {i : Call × Ret} (hq : Poised S K s) (h : Step tlsTable s i t) (ho : Ordered s)
    (hloop : ∀ fuel, i.1 ≠ .resultNext fuel) (hnames : ∀ n, i.1.names = some n → n ∈ K) (hK : K ⊆ K')
    (hopened : ∀ n, i.2 = .chann (some n) → n ∈ K') : Poised S K' t := by
  obtain ⟨i, r⟩ := i
  by_cases hopen : ∃ ctype, i = .channOpen ctype
  · obtain ⟨ctype, rfl⟩ := hopen
    obtain ⟨q, rfl, hr⟩ := returns_ret.mp h
    obtain ⟨rfl, rfl⟩ | ⟨n, rfl, hmove⟩ := mnetChannOpen_cases hr
    · exact hq.mono hK
    · exact (hq.mono hK).born hmove.born.1 (.inl (hopened n rfl))
  by_cases hclose : ∃ n, i = .channClose n
  · obtain ⟨n, rfl⟩ := hclose
    obtain ⟨_, _, hr⟩ := returns_ret.mp h
    exact (hq.close (fun m hm => hnames m hm) hr).mono hK
  by_cases hfini : i = .mnetFini
  · subst hfini
    obtain ⟨_, _, hr⟩ := returns_ret.mp h
    obtain ⟨hinit, _⟩ | rfl := mnetFini_wipes hr
    · intro n c hc
      rw [(mnetFini_ordered obedient_tlsTable hr ho).2 hinit n] at hc
      cases hc
    · exact hq.mono hK
  refine (hq.ebb (Moves.ebb (moves_apiCall i _ _ h) ?_)).mono hK
  exact Call.deeds_mild hnames hloop (fun c he => hopen ⟨c, he⟩) (fun n he => hclose ⟨n, he⟩) hfini

end Poised

/-! ## Messages -/

/-- A message that is reported carries its channel. -/
theorem channMsg_carries {event : ChannEvent} {q : Option ChannId} {err : Int} {pass : Bool} (hs : Fresh s)
    (h : Returns (channMsg tlsTable n event q err) s pass t) : n ∈ t.carried n := by
  obtain ⟨c, d, hc, rfl, hfil, _⟩ := channMsg_filtered h
  have hfresh := hs.set hc { c with msg := msgOf n c event q err }
  have hself : (s.setChann n { c with msg := msgOf n c event q err }).heap n =
      some { c with msg := msgOf n c event q err } := setChann_self ..
  cases hfil with
  | left h =>
    obtain ⟨e, he, hshown⟩ := h.stays (hfresh.lt hself) hself
    have hmsg : e.msg = msgOf n c event q err := congrArg (·.1) hshown
    exact ⟨e, he, .inl (by rw [hmsg]; rfl)⟩
  | @renamed a event' _ ha hca h =>
    have hset := (ha.fresh hfresh).set hca
      { c with msg := { msgOf n c event q err with event := some event' } }
    obtain ⟨e, he, hshown⟩ := h.stays (hset.lt (setChann_self ..)) (setChann_self ..)
    have hmsg : e.msg = { msgOf n c event q err with event := some event' } := congrArg (·.1) hshown
    exact ⟨e, he, .inl (by rw [hmsg]; rfl)⟩
  | announced _ _ _ _ _ _ _ _ _ ht =>
    rw [ht]
    exact ⟨_, setChann_self .., .inr rfl⟩

/-- A message that is kept back changes nothing, unless an `SSL_accept` failed. -/
theorem channMsg_blocked {event : ChannEvent} {q : Option ChannId} {err : Int} (hev : event ≠ .accept)
    (h : Returns (channMsg tlsTable n event q err) s false t) (hclean : t.ext.Clean) : Ebb K s t := by
  obtain ⟨c, hc, h⟩ := channMsg_cases h
  have hset : Ebb K s (s.setChann n { c with msg := msgOf n c event q err }) := .of_set hc rfl
  obtain ⟨_, he⟩ | ⟨_, he⟩ := extConfig_cases c.ctype
  swap
  · rw [he] at h
    cases (returns_pure.mp h).1
  rw [he] at h
  have h : Returns (tlsFilterFn n) _ false t := h
  simp only [tlsFilterFn, returns_bind, returns_deref, and_assoc, exists_and_left, exists_eq_left] at h
  obtain ⟨d, hd, h⟩ := h
  rw [setChann_self, Option.some.injEq] at hd
  subst hd
  have hadvance : Returns (tlsAdvance n (some n)) (s.setChann n { c with msg := msgOf n c event q err }) false t →
      Ebb K s t := by
    intro h
    simp only [tlsAdvance, returns_bind, returns_getUd] at h
    obtain ⟨tu, _, ⟨rfl, _⟩, h⟩ := h
    rcases returns_ite.mp h with ⟨_, h⟩ | ⟨_, h⟩
    · cases (returns_pure.mp h).1
    simp only [returns_bind, returns_derefUd, and_assoc, exists_eq_left] at h
    obtain ⟨d, _, h⟩ := h
    rcases returns_ite.mp h with ⟨_, h⟩ | ⟨_, h⟩
    · cases (returns_pure.mp h).1
    obtain ⟨hs, a, hhs, h⟩ := returns_bind.mp h
    have ha : Ebb K s a := hset.trans (ebb_tlsHandshake _ _ hhs)
    cases hs with
    | again =>
      rw [(returns_pure.mp h).2]
      exact ha
    | done =>
      exfalso
      rcases returns_ite.mp h with ⟨_, h⟩ | ⟨_, h⟩
      · simp only [returns_bind] at h
        obtain ⟨_, _, _, _, _, _, h⟩ := h
        cases (returns_pure.mp h).1
      · simp only [returns_bind] at h
        obtain ⟨_, _, _, h⟩ := h
        cases (returns_pure.mp h).1
    | failed =>
      rcases returns_ite.mp h with ⟨hst, h⟩ | ⟨_, h⟩
      · obtain ⟨_, b, hdown, h⟩ := returns_bind.mp h
        have hlog : a.ext.log <:+ b.ext.log := (ebb_tlsDisconnect (Set.mem_univ n) _ _ hdown).ext.log
        obtain ⟨_, i, obj, ret, err, _, _, _, _, _, ⟨hno, _⟩ | ⟨hno, _⟩ | ⟨_, hret, hagain, hext⟩⟩ := tlsHandshake_cases hhs
        · cases hno
        · cases hno
        rw [(returns_pure.mp h).2] at hclean
        refine absurd ⟨hret, hagain⟩ (hclean.before hlog (.handshake i .accept ret err) ?_)
        rw [hext, if_pos hst]
        exact List.mem_cons_self
      · simp only [returns_bind] at h
        obtain ⟨_, _, _, _, _, _, h⟩ := h
        cases (returns_pure.mp h).1
  cases event with
  | accept => exact absurd rfl hev
  | connected | recv => exact hadvance h
  | send | disconnect | timer => cases (returns_pure.mp h).1

/-! ## A round of the loop -/

/-- The channels of the message a round gives out. -/
def Sys.told (s : Sys Tls) : Pass → Set ChannId
  | .ret (some p) => s.carried p
  | _ => ∅

theorem emit_quiescent {event : ChannEvent} {q : Option ChannId} {err : Int} {p : Pass} (hev : event ≠ .accept)
    (hs : Fresh s) (hq : Quiescent (K ∪ {n}) s) (hkept : event = .connected ∨ event = .recv → Quiescent K s)
    (h : Returns (emit tlsTable n event q err) s p t) (hclean : t.ext.Clean) : Quiescent (K ∪ t.told p) t := by
  obtain ⟨pass, a, hmsg, h⟩ := returns_bind.mp h
  obtain ⟨rfl, rfl⟩ := returns_pure.mp h
  cases pass with
  | true =>
    have hcarries : n ∈ t.carried n := channMsg_carries hs hmsg
    have ht : Ebb (K ∪ {n}) s t := ebb_channMsg hev (fun _ => .inr rfl) _ _ hmsg
    refine (hq.ebb ht).mono (Set.union_subset_union_right K ?_)
    exact Set.singleton_subset_iff.mpr hcarries
  | false =>
    have hkept : Quiescent K s := by
      obtain ⟨_, _, _, _, _, _, hplain⟩ := channMsg_filtered hmsg
      by_contra hno
      have hpass := (hplain hev (fun he => hno (hkept (.inl he))) fun he => hno (hkept (.inr he))).1
      cases hpass
    exact (hkept.ebb (channMsg_blocked hev hmsg hclean)).mono Set.subset_union_left

/-- An accepted channel is connected, or carried by the message of its listener. -/
theorem evtListening_quiescent {raw : Nat} {p : Pass} (hs : Fresh s) (hq : Quiescent K s)
    (h : Returns (evtListening tlsTable n raw) s p t) (hclean : t.ext.Clean) : Quiescent (K ∪ t.told p) t := by
  rcases returns_ite.mp h with ⟨_, h⟩ | ⟨_, h⟩
  swap
  · exact emit_quiescent (by simp) hs (hq.mono Set.subset_union_left) (fun _ => hq) h hclean
  obtain ⟨q, a, hacc, h⟩ := returns_bind.mp h
  obtain ⟨rfl, hplain⟩ | ⟨m, rfl, hmove⟩ := channAccept_cases hacc
  · obtain ⟨rfl, rfl⟩ := returns_pure.mp h
    have ha : Ebb K s t := by
      obtain hplain | hleak := hplain
      · exact hplain.ebb
      · exact hleak.ebb trivial
    exact (hq.ebb ha).mono Set.subset_union_left
  simp only [emit, returns_bind, returns_pure] at h
  obtain ⟨_, b, hadd, pass, e, hmsg, rfl, rfl⟩ := h
  obtain ⟨lc, _, hborn⟩ := hmove.admitted
  obtain ⟨d, hd, _, hset', hst, _⟩ := hborn.new
  have hab : Ebb ∅ a b := ebb_evtAdd _ _ hadd
  obtain ⟨c, v, hc, rfl, hcases⟩ := channMsg_accept hmsg
  -- neither the registration nor the message changes the state of a channel
  have hset : ∀ (K' : Set ChannId), Ebb K' b (b.setChann n { c with msg := msgOf n c .accept (some m) 0 }) :=
    fun _ => .of_set hc rfl
  obtain ⟨rfl, _, rfl⟩ | ⟨rfl, tu, _, ⟨_, rfl⟩ | ⟨_, d', _, rfl⟩⟩ := hcases
  · have hm : m ∈ (b.setChann n { c with msg := msgOf n c .accept (some m) 0 }).carried n := ⟨_, setChann_self .., .inr rfl⟩
    have ha : Quiescent (K ∪ {m}) a := (hq.mono Set.subset_union_left).born hborn.toBorn (.inl (.inr rfl))
    refine ((ha.ebb (hab.mono (Set.empty_subset _))).ebb (hset _)).mono (Set.union_subset_union_right K ?_)
    exact Set.singleton_subset_iff.mpr hm
  all_goals
    have hca : a.ext.Clean := hclean.before hab.ext.log
    have ha : Quiescent K a := hq.born hborn.toBorn (.inr fun e he => by
      rw [hd, Option.some.injEq] at he
      exact he ▸ ⟨hst hca, hset'.2⟩)
    exact ((ha.ebb (hab.mono (Set.empty_subset _))).ebb (hset _)).mono Set.subset_union_left

/-- A connection that was waited for belongs to a channel the application knows. -/
theorem evtConnecting_quiescent {p : Pass} (hs : Fresh s) (hq : Quiescent K s) (hn : n ∈ K)
    (h : Returns (evtConnecting tlsTable n) s p t) (hclean : t.ext.Clean) : Quiescent (K ∪ t.told p) t := by
  simp only [evtConnecting, returns_bind, returns_deref, and_assoc, exists_and_left, exists_eq_left] at h
  obtain ⟨c, hc, q, a, hq', h⟩ := h
  have ha : Ebb K s a := (outside_sysSockError _ _ _ hq').plain.ebb
  have hd : Discreet False s a := (outside_sysSockError _ _ _ hq').discreet
  have hfa : Fresh a := hd.fresh hs
  rcases returns_ite.mp h with ⟨_, h⟩ | ⟨_, h⟩
  · simp only [returns_bind, returns_modifyChann] at h
    obtain ⟨_, b, hdel, _, e, hadd, _, _, ⟨d, hd, rfl⟩, hemit⟩ := h
    have he : Ebb K s e := ha.trans ((ebb_evtDel _ _ hdel).trans (ebb_evtAdd _ _ hadd))
    have hfe : Fresh e := ((bland_evtDel _ _ _ hdel).trans (bland_evtAdd _ _ _ hadd)).fresh hfa
    have hset : Ebb K e (e.setChann n { d with state := .connected }) :=
      .of_update hd rfl (.refl _) rfl (.inl rfl) (fun hno => absurd hn hno) fun _ => ChannState.noConfusion
    have hkept : Quiescent K (e.setChann n { d with state := .connected }) := (hq.ebb he).ebb hset
    exact emit_quiescent (by simp) (hfe.set hd _) (hkept.mono Set.subset_union_left) (fun _ => hkept) hemit hclean
  · obtain ⟨_, b, hdis, hemit⟩ := returns_bind.mp h
    have hkept : Quiescent K b := (hq.ebb ha).ebb (ebb_disconnectSocket hn _ _ hdis)
    have hdb : Discreet False a b := tactful_tlsTable.channDisconnectSocket _ _ hdis
    exact emit_quiescent (by simp) (hdb.fresh hfa) (hkept.mono Set.subset_union_left) (fun _ => hkept) hemit hclean

/-- Only a channel the application knows has a cache to be flushed. -/
theorem evtConnected_quiescent {kev : Kev} {p : Pass} (hs : Fresh s) (hq : Quiescent K s) (hc : s.heap n = some c)
    (h : Returns (evtConnected tlsTable n kev) s p t) (hclean : t.ext.Clean) : Quiescent (K ∪ t.told p) t := by
  rcases returns_ite.mp h with ⟨_, h⟩ | ⟨_, h⟩
  · exact emit_quiescent (by simp) hs (hq.mono Set.subset_union_left) (fun _ => hq) h hclean
  rcases returns_ite.mp h with ⟨_, h⟩ | ⟨_, h⟩
  swap
  · rw [(returns_pure.mp h).2]
    exact hq.mono Set.subset_union_left
  obtain ⟨sent, a, hsent, h⟩ := returns_bind.mp h
  have ha : Quiescent K a ∧ Fresh a := by
    refine ⟨?_, polite_tlsTable.faults_fresh (polite_tlsTable.faults_channSendedRwb (fun _ _ _ => Set.mem_singleton n) _ _ hsent) hs⟩
    by_cases hn : n ∈ K
    · exact hq.ebb (ebb_channSendedRwb hn _ _ hsent)
    · rw [channSendedRwb, (returns_deref.mpr ⟨hc, rfl⟩).bind_iff, (hq n c hc hn).2.1] at hsent
      rw [(returns_pure.mp hsent).2]
      exact hq
  rcases returns_ite.mp h with ⟨_, h⟩ | ⟨_, h⟩
  swap
  · rw [(returns_pure.mp h).2]
    exact ha.1.mono Set.subset_union_left
  simp only [returns_bind, returns_deref, and_assoc, exists_and_left, exists_eq_left] at h
  obtain ⟨_, _, h⟩ := h
  rcases returns_ite.mp h with ⟨_, h⟩ | ⟨_, h⟩
  · exact emit_quiescent (by simp) ha.2 (ha.1.mono Set.subset_union_left) (fun _ => ha.1) h hclean
  · simp only [returns_bind, returns_pure] at h
    obtain ⟨_, b, hdel, _, rfl⟩ := h
    exact (ha.1.ebb (ebb_evtDel _ _ hdel)).mono Set.subset_union_left

theorem evtDispatch_quiescent {kev : Kev} {p : Pass} (hs : Fresh s) (hq : Quiescent K s)
    (h : Returns (evtDispatch tlsTable kev) s p t) (hclean : t.ext.Clean) : Quiescent (K ∪ t.told p) t := by
  obtain ⟨n, c, _, hc, ⟨_, _, rfl⟩ | ⟨_, _, _, a, b, r, err, _, hdis, hemit, ha⟩ |
    ⟨_, _, _, ⟨_, h⟩ | ⟨hst, h⟩ | ⟨_, h⟩ | ⟨_, _, rfl⟩⟩⟩ := evtDispatch_cases h
  · exact hq.mono Set.subset_union_left
  · have ha : Quiescent (K ∪ {n}) a ∧ Fresh a := by
      obtain rfl | ⟨_, hsock⟩ := ha
      · exact ⟨hq.mono Set.subset_union_left, hs⟩
      · have hout := outside_sysSockError _ _ _ hsock
        have hd : Discreet False s a := hout.discreet
        exact ⟨(hq.mono Set.subset_union_left).ebb hout.plain.ebb, hd.fresh hs⟩
    have hb : Quiescent (K ∪ {n}) b := ha.1.ebb (ebb_disconnectSocket (.inr rfl) _ _ hdis)
    have hdb : Discreet False a b := tactful_tlsTable.channDisconnectSocket _ _ hdis
    exact emit_quiescent (by simp) (hdb.fresh ha.2) hb (by simp) hemit hclean
  · exact evtListening_quiescent hs hq h hclean
  · refine evtConnecting_quiescent hs hq ?_ h hclean
    by_contra hn
    have hconn := (hq n c hc hn).1
    rw [hst] at hconn
    cases hconn
  · exact evtConnected_quiescent hs hq hc h hclean
  · exact hq.mono Set.subset_union_left

theorem evtPass_quiescent {fuel : Nat} {p : Pass} (hs : Fresh s) (hq : Quiescent K s)
    (h : Returns (evtPass tlsTable fuel) s p t) (hclean : t.ext.Clean) : Quiescent (K ∪ t.told p) t := by
  obtain ⟨n, rfl, htm⟩ | ⟨n, a, rfl, htm, hpop⟩ | ⟨a, rfl, htm, _, rfl, _⟩ | ⟨u, kev, hfetch, hdisp⟩ :=
    evtPass_cases h
  · exact (hq.ebb (ebb_tmNext _ _ htm)).mono Set.subset_union_left
  · exact (hq.ebb ((ebb_tmNext _ _ htm).trans (plain_disNext _ _ hpop).ebb)).mono Set.subset_union_left
  · have ha : Quiescent K a := hq.ebb (ebb_tmNext _ _ htm)
    exact ha.mono Set.subset_union_left
  · obtain ⟨a, htm, _, hu⟩ := hfetch.quiet
    have ha : Quiescent K u := by
      rw [hu]
      exact (hq.ebb (ebb_tmNext _ _ htm)).ebb (.of_heap rfl (.refl _))
    have hfu : Fresh u := by
      rw [hu]
      obtain ⟨_, hd⟩ | ⟨_, _, hno, _⟩ := polite_tlsTable.tmNext_emits htm
      · exact hd.fresh hs
      · cases hno
    exact evtDispatch_quiescent hfu ha hdisp hclean

theorem evtLoop_quiescent {fuel rounds : Nat} {q : Option ChannId} (hs : Fresh s) (hq : Quiescent K s)
    (h : Returns (evtLoop tlsTable fuel rounds) s q t) (hclean : t.ext.Clean) : Quiescent (K ∪ t.given (.msg q)) t := by
  induction rounds generalizing s with
  | zero => exact absurd h returns_fail
  | succ rounds ih =>
    obtain ⟨p, a, hpass, h⟩ := returns_bind.mp h
    cases p with
    | ret q' =>
      obtain ⟨rfl, rfl⟩ := returns_pure.mp h
      have ht := evtPass_quiescent hs hq hpass hclean
      cases q with
      | none => exact ht
      | some p => exact ht
    | next =>
      have hlog : a.ext.log <:+ t.ext.log := (moves_evtLoop _ _ h).log
      have ha := evtPass_quiescent hs hq hpass (hclean.before hlog)
      exact ih (polite_tlsTable.evtPass_stays hs hpass).1 (ha.mono (by simp [Sys.told])) h

/-! ## Calls -/

/-- A step leaves no channel hung up that the application has not been given. -/
theorem Informed.quiescent {i : Call × Ret} (h : Informed (s, K) i (t, K')) (ho : Ordered s) (hq : Quiescent K s)
    (hclean : t.ext.Clean) : Quiescent K' t := by
  obtain ⟨i, r⟩ := i
  have hstep : Step tlsTable s (i, r) t := h.1
  have hnames : ∀ n, i.names = some n → n ∈ K := h.2.1
  obtain rfl : K' = K ∪ t.given r := h.2.2
  by_cases hloop : ∃ fuel, i = .resultNext fuel
  · obtain ⟨fuel, rfl⟩ := hloop
    obtain ⟨q, rfl, hr⟩ := returns_ret.mp hstep
    exact evtLoop_quiescent ho.fresh hq hr hclean
  refine hq.call hstep ho (fun fuel he => hloop ⟨fuel, he⟩) hnames Set.subset_union_left fun n hr => ?_
  obtain rfl : r = .chann (some n) := hr
  exact .inr rfl

/-! ## Runs -/

/-- An `SSL_accept` call of an object that was made for `n` failed for good. -/
def Tls.AcceptFails (e : Tls) (n : ChannId) : Prop :=
  ∃ i ret err, .new n i ∈ e.log ∧ .handshake i .accept ret err ∈ e.log ∧ ret ≠ 1 ∧ ¬ Again err

/-- A channel whose handshake failed is closed, or the application has been given it, and so it has every
channel that is hung up. -/
structure Unleaked (K : Set ChannId) (s : Sys Tls) : Prop where
  failed : ∀ n, s.ext.AcceptFails n → n ∈ K ∨ ∀ c, s.heap n = some c → c.state = .closed
  hungUp : ∀ n c, s.heap n = some c → c.state = .disconnect → n ∈ K

theorem Quiescent.unleaked (h : Quiescent K s) (hclean : s.ext.Clean) : Unleaked K s where
  failed n hfails := by
    obtain ⟨i, ret, err, _, hlog, hfatal⟩ := hfails
    exact absurd hfatal (hclean _ hlog)
  hungUp n c hc hst := by
    by_contra hn
    have hconn := (h n c hc hn).1
    rw [hst] at hconn
    cases hconn

/-- In a run whose `SSL_accept` calls do not fail for good the application has been given every channel that
is hung up. -/
theorem accepted_unleaked {o : Oracle} {l : List (Call × Ret)} (h : Path Informed (Sys.start o {}, ∅) l (s, K))
    (hclean : s.ext.Clean) : Unleaked K s := by
  have hall : Ordered s ∧ (s.ext.Clean → Quiescent K s) := by
    refine h.keeps (I := fun p => Ordered p.1 ∧ (p.1.ext.Clean → Quiescent p.2 p.1)) ?_ ⟨ordered_start o _, ?_⟩
    · intro p i q hstep hp
      have hlog : p.1.ext.log <:+ q.1.ext.log := (moves_apiCall i.1 _ _ hstep.1).log
      exact ⟨hstep.1.ordered obedient_tlsTable hp.1, fun hq => hstep.quiescent hp.1 (hp.2 (hq.before hlog)) hq⟩
    · intro _ n c hc
      cases hc
  exact (hall.2 hclean).unleaked hclean

/-- Calls on known channels that give nothing. -/
theorem Lib.Path.informed {l : List (Call × Ret)} (h : Run tlsTable s l t)
    (hl : ∀ i ∈ l, (∀ n, i.1.names = some n → n ∈ K) ∧ ∀ u : Sys Tls, u.given i.2 = ∅) :
    Path Informed (s, K) l (t, K) := by
  induction h with
  | nil => exact .nil
  | @cons s a t i l hstep _ ih =>
    obtain ⟨hnames, hgiven⟩ := hl i List.mem_cons_self
    refine .cons (t := (a, K)) ⟨hstep, hnames, ?_⟩ (ih fun j hj => hl j (List.mem_cons_of_mem _ hj))
    rw [hgiven, Set.union_empty]

/-- A listener, and a round of its loop. -/
def listenCalls : List Call :=
  [.mnetInit, .extRegister 4, .channOpen 4, .channListen (some 0) none 80 5, .poll, .resultNext 5]

theorem informed_listenCalls {o : Oracle}
    (h : Run tlsTable (Sys.start o {}) (listenCalls.zip [.int 1, .int 1, .chann (some 0), .int 1, .int 1, .msg none]) s) :
    ∃ l, Path Informed (Sys.start o {}, ∅) l (s, {0}) := by
  cases h with
  | @cons _ a _ _ _ hinit h =>
  cases h with
  | @cons _ b _ _ _ hreg h =>
  cases h with
  | @cons _ d _ _ _ hopen h =>
  have ha : Informed (Sys.start o {}, ∅) (.mnetInit, .int 1) (a, ∅) := ⟨hinit, by simp [Call.names], by simp [Sys.given]⟩
  have hb : Informed (a, ∅) (.extRegister 4, .int 1) (b, ∅) := ⟨hreg, by simp [Call.names], by simp [Sys.given]⟩
  have hd : Informed (b, ∅) (.channOpen 4, .chann (some 0)) (d, {0}) := ⟨hopen, by simp [Call.names], by simp [Sys.given]⟩
  exact ⟨_, .cons ha (.cons hb (.cons hd (Lib.Path.informed h (by simp [Call.names, Sys.given]))))⟩

/-- An environment in which a client connects to the listener, and the SSL library reports `err`. -/
def clientOracle (err : Int) : Oracle :=
  { quietOracle with events := fun _ => [(4, EPOLLIN)], val := fun _ => err }

/-- A handshake that waits for its client. -/
theorem accepted_unleaked_once : ∃ (s : Sys Tls) (c : Chann), .new 1 0 ∈ s.ext.log ∧ s.heap 1 = some c ∧
    c.state = .connected ∧ Unleaked {0} s := by
  have hrun : After tlsTable listenCalls (Sys.start (clientOracle SSL_ERROR_WANT_READ) {}) fun rs s =>
      rs = [.int 1, .int 1, .chann (some 0), .int 1, .int 1, .msg none] ∧ .new 1 0 ∈ s.ext.log ∧
        (s.heap 1).map Chann.state = some .connected ∧ s.ext.Clean := by
    decide +kernel
  obtain ⟨_, s, h, rfl, hnew, hst, hclean⟩ := hrun.run
  obtain ⟨c, hc, hst⟩ := Option.map_eq_some_iff.mp hst
  obtain ⟨l, hpath⟩ := informed_listenCalls h
  exact ⟨s, c, hnew, hc, hst, accepted_unleaked hpath hclean⟩

/-- A client whose handshake fails in `accept_cb` leaves a channel nobody knows. -/
theorem not_accepted_unleaked : ¬ ∀ (o : Oracle) (l : List (Call × Ret)) (s : Sys Tls) (K : Set ChannId),
    Path Informed (Sys.start o {}, ∅) l (s, K) → Unleaked K s := by
  have hrun : After tlsTable listenCalls (Sys.start (clientOracle 1) {}) fun rs s =>
      rs = [.int 1, .int 1, .chann (some 0), .int 1, .int 1, .msg none] ∧
        (s.heap 1).map Chann.state = some .disconnect := by
    decide +kernel
  obtain ⟨_, s, h, rfl, hst⟩ := hrun.run
  obtain ⟨c, hc, hst⟩ := Option.map_eq_some_iff.mp hst
  obtain ⟨l, hpath⟩ := informed_listenCalls h
  intro hall
  have hone := (hall _ l s {0} hpath).hungUp 1 c hc hst
  cases hone

end MNet
