import MNet.Orphans

/-! # Listeners of channels in their handshake

The user data of an accepted channel refers to its listener until the handshake is done. The ACCEPT
that is reported then is as good as this reference. -/

namespace MNet
open MNet.Lib MNet.Lib.Exec

variable {s t : Sys Tls} {n m : ChannId} {c d : Chann} {u : Unit} {K : Set ChannId}

/-- The channel is there and not closed. -/
def Standing (s : Sys Tls) (l : ChannId) : Prop := ∃ c, s.heap l = some c ∧ c.state ≠ .closed

/-- The channel `n` is in its handshake, and its user data refers to the listener `ln`. -/
def Handshakes (s : Sys Tls) (n : ChannId) (ln : Option ChannId) : Prop :=
  ∃ c d, s.heap n = some c ∧ c.extUd ≠ 0 ∧ s.ext.uds c.extUd = some d ∧ d.state = .listening ∧ d.ln = ln

/-- A channel in its handshake was accepted by the listener `l`. -/
def Pending (s : Sys Tls) (l : ChannId) : Prop := ∃ n, Handshakes s n (some l)

/-- The listeners of channels in their handshake are there. -/
def Attended (s : Sys Tls) : Prop := ∀ l, Pending s l → Standing s l

/-- A channel in its handshake refers to a listener. -/
structure Backed (s : Sys Tls) : Prop where
  pos : 0 < s.ext.nextUd
  low : ∀ tu d, s.ext.uds tu = some d → d.state = .listening → tu < s.ext.nextUd
  held : ∀ n c, s.heap n = some c → c.extUd < s.ext.nextUd
  noted : ∀ n, ¬ Handshakes s n none

theorem Attended.transfer (h : Attended s) (hh : ∀ n l, Handshakes t n (some l) → Handshakes s n (some l))
    (hs : ∀ l, Standing s l → Standing t l) : Attended t := by
  intro l ⟨n, hn⟩
  exact hs l (h l ⟨n, hh n l hn⟩)

theorem Ebb.standing (he : Ebb K s t) (h : Standing s n) : Standing t n := by
  obtain ⟨c, hc, hst⟩ := h
  exact he.opened n c hc hst

theorem Ebb.handshakes {ln : Option ChannId} (he : Ebb K s t) (h : Handshakes t n ln) : Handshakes s n ln := by
  obtain ⟨d, e, hd, hne, he', hst, hln⟩ := h
  obtain ⟨c, hc, _, hud | hud, _⟩ := he.chann n d hd
  · obtain ⟨e', hold, hst', hsame⟩ := he.ext.uds d.extUd e he' hst
    rw [hud] at hold hne
    exact ⟨c, e', hc, hne, hold, hst', hsame.symm.trans hln⟩
  · exact absurd hud hne

theorem Attended.ebb (h : Attended s) (he : Ebb K s t) : Attended t :=
  h.transfer (fun _ _ => he.handshakes) fun _ => he.standing

namespace Backed

theorem ebb (h : Backed s) (he : Ebb K s t) : Backed t where
  pos := Nat.lt_of_lt_of_le h.pos he.ext.nextUd
  low tu d hd hst := by
    obtain ⟨d', hd', hst', _⟩ := he.ext.uds tu d hd hst
    exact Nat.lt_of_lt_of_le (h.low tu d' hd' hst') he.ext.nextUd
  held n d hd := by
    obtain ⟨c, hc, _, hud | hud, _⟩ := he.chann n d hd
    · rw [hud]
      exact Nat.lt_of_lt_of_le (h.held n c hc) he.ext.nextUd
    · rw [hud]
      exact Nat.lt_of_lt_of_le h.pos he.ext.nextUd
  noted n hn := h.noted n (he.handshakes hn)

/-- What loses handshakes only keeps both. -/
theorem ebbs (h : Backed s) (he : Ebb K s t) : Backed t ∧ (Attended s → Attended t) :=
  ⟨h.ebb he, fun ha => ha.ebb he⟩

theorem opened_low (h : Backed s) (hm : Move tlsTable s (.opened n) t) :
    ∀ tu d, t.ext.uds tu = some d → d.state = .listening → tu < s.ext.nextUd := by
  intro tu d hd hst
  obtain ⟨_, hebbs, _⟩ := hm.born
  obtain ⟨d', hd', hst', _⟩ := hebbs.uds tu d hd hst
  exact h.low tu d' hd' hst'

/-- The user data of a channel that is opened is in no handshake. -/
theorem opened_handshakes {ln : Option ChannId} (h : Backed s) (hm : Move tlsTable s (.opened n) t)
    (hs : Handshakes t m ln) : Handshakes s m ln := by
  obtain ⟨e, d, he, hne, hd, hst, hln⟩ := hs
  obtain ⟨hborn, hebbs, c, hc, hud⟩ := hm.born
  by_cases hmn : m = n
  · subst hmn
    rw [hc, Option.some.injEq] at he
    subst he
    obtain hz | ⟨hnum, _⟩ := hud
    · exact absurd hz hne
    · have hlt := h.opened_low hm _ d hd hst
      rw [hnum] at hlt
      exact absurd hlt (Nat.lt_irrefl _)
  · obtain ⟨f, hf, _, hud | hud, _⟩ := hborn.chann m e hmn he
    · obtain ⟨d', hold, hst', hsame⟩ := hebbs.uds e.extUd d hd hst
      rw [hud] at hold hne
      exact ⟨f, d', hf, hne, hold, hst', hsame.symm.trans hln⟩
    · exact absurd hud hne

theorem opened (h : Backed s) (hm : Move tlsTable s (.opened n) t) : Backed t ∧ (Attended s → Attended t) := by
  obtain ⟨hborn, hebbs, c, hc, hud⟩ := hm.born
  refine ⟨⟨Nat.lt_of_lt_of_le h.pos hebbs.nextUd,
    fun tu d hd hst => Nat.lt_of_lt_of_le (h.opened_low hm tu d hd hst) hebbs.nextUd,
    fun m e he => ?_, fun m hk => h.noted m (h.opened_handshakes hm hk)⟩, fun ha => ?_⟩
  · by_cases hmn : m = n
    · subst hmn
      rw [hc, Option.some.injEq] at he
      subst he
      obtain hz | ⟨hnum, hlt⟩ := hud
      · rw [hz]
        exact Nat.lt_of_lt_of_le h.pos hebbs.nextUd
      · rw [hnum]
        exact hlt
    · obtain ⟨f, hf, _, hud | hud, _⟩ := hborn.chann m e hmn he
      · rw [hud]
        exact Nat.lt_of_lt_of_le (h.held m f hf) hebbs.nextUd
      · rw [hud]
        exact Nat.lt_of_lt_of_le h.pos hebbs.nextUd
  · refine ha.transfer (fun m l => h.opened_handshakes hm) fun l ⟨g, hg, hgst⟩ => ?_
    exact hborn.opened l g hg hgst

end Backed

/-- The channel `n` is closed, and keeps its user data. -/
structure Shut (n : ChannId) (s t : Sys Tls) : Prop where
  ext : t.ext = s.ext
  others : ∀ m, m ≠ n → t.heap m = s.heap m
  own : ∀ d, t.heap n = some d → ∃ c, s.heap n = some c ∧ d.extUd = c.extUd

theorem Shut.chann (h : Shut n s t) (hd : t.heap m = some d) : ∃ c, s.heap m = some c ∧ d.extUd = c.extUd := by
  by_cases hm : m = n
  · subst hm
    exact h.own d hd
  · rw [h.others m hm] at hd
    exact ⟨d, hd, rfl⟩

theorem Shut.handshakes {ln : Option ChannId} (h : Shut n s t) (hs : Handshakes t m ln) : Handshakes s m ln := by
  obtain ⟨f, d, hf, hne, hd, hst, hln⟩ := hs
  obtain ⟨g, hg, hud⟩ := h.chann hf
  rw [hud, h.ext] at hd
  exact ⟨g, d, hg, hud ▸ hne, hd, hst, hln⟩

/-- What a close does after it has hung the channel up. -/
theorem mnetChannClose_shut {q : Option ChannId} (hr : Returns (mnetChannClose tlsTable q) s u t) :
    Ebb Set.univ s t ∨ ∃ n b, q = some n ∧ Ebb Set.univ s b ∧ Shut n b t := by
  cases q with
  | none =>
    rw [(returns_pure.mp hr).2]
    exact .inl (.refl _)
  | some n =>
    simp only [mnetChannClose, returns_bind, returns_deref, and_assoc, exists_and_left, exists_eq_left] at hr
    obtain ⟨c, _, hr⟩ := hr
    rcases returns_ite.mp hr with ⟨_, hr⟩ | ⟨_, hr⟩
    swap
    · rw [(returns_pure.mp hr).2]
      exact .inl (.refl _)
    obtain ⟨_, a, hdis, hclose⟩ := returns_bind.mp hr
    have hsa : Ebb Set.univ s a := ebb_disconnectSocket (Set.mem_univ n) _ _ hdis
    obtain rfl | ⟨b, e, hab, he, rfl⟩ := close_ebb hclose
    · exact .inl hsa
    refine .inr ⟨n, b, rfl, hsa.trans (hab.mono (Set.empty_subset _)), rfl, fun m hm => Function.update_of_ne hm .., fun d hd => ?_⟩
    obtain rfl := Option.some.inj ((setChann_self ..).symm.trans hd)
    exact ⟨e, he, rfl⟩

theorem mnetChannClose_handshakes {q : Option ChannId} {ln : Option ChannId}
    (hr : Returns (mnetChannClose tlsTable q) s u t) (hs : Handshakes t m ln) : Handshakes s m ln := by
  obtain he | ⟨n, b, _, he, hshut⟩ := mnetChannClose_shut hr
  · exact he.handshakes hs
  · exact he.handshakes (hshut.handshakes hs)

/-- A close leaves the user data as they are, and only one channel closed. -/
theorem Backed.close {q : Option ChannId} (h : Backed s) (hr : Returns (mnetChannClose tlsTable q) s u t) :
    Backed t ∧ ((∀ n, q = some n → ¬ Pending s n) → Attended s → Attended t) := by
  obtain he | ⟨n, b, rfl, he, hshut⟩ := mnetChannClose_shut hr
  · exact ⟨h.ebb he, fun _ ha => ha.ebb he⟩
  have hb := h.ebb he
  refine ⟨⟨hshut.ext ▸ hb.pos, ?_, fun m f hf => ?_, fun m hm => hb.noted m (hshut.handshakes hm)⟩, fun hn ha l hl => ?_⟩
  · rw [hshut.ext]
    exact hb.low
  · obtain ⟨g, hg, hud⟩ := hshut.chann hf
    rw [hud, hshut.ext]
    exact hb.held m g hg
  · obtain ⟨m, hm⟩ := hl
    have hpend : Pending s l := ⟨m, he.handshakes (hshut.handshakes hm)⟩
    obtain ⟨g, hg, hst⟩ := he.standing (ha l hpend)
    have hln : l ≠ n := by
      intro heq
      exact hn n rfl (heq ▸ hpend)
    exact ⟨g, (hshut.others l hln).trans hg, hst⟩

/-! ## The message loop -/

/-- The ACCEPT of a TLS listener notes it in the user data of the new channel. -/
theorem channMsg_notes {err : Int} {pass : Bool} (h : Returns (channMsg tlsTable n .accept (some m) err) s pass t) :
    ∃ c, s.heap n = some c ∧ t.heap = Function.update s.heap n (some { c with msg := msgOf n c .accept (some m) err }) ∧
      t.ext.nextUd = s.ext.nextUd ∧ ∀ tu d, t.ext.uds tu = some d → d.state = .listening →
        ∃ d', s.ext.uds tu = some d' ∧ d'.state = .listening ∧ (d.ln = some n ∨ (d.ln = d'.ln ∧
          ∀ e, t.heap m = some e → c.ctype = CHANN_TYPE_TLS → s.mnet.reserved e.ctype = true → e.extUd ≠ 0 → tu ≠ e.extUd)) := by
  obtain ⟨c, v, hc, rfl, ⟨_, hty, rfl⟩ | ⟨_, tv, hud, hcases⟩⟩ := channMsg_accept h
  · exact ⟨c, hc, rfl, rfl, fun tu d hd hst => ⟨d, hd, hst, .inr ⟨rfl, fun _ _ htls => absurd htls hty⟩⟩⟩
  obtain ⟨_, f, hf, htv⟩ := returns_getUd.mp hud
  obtain ⟨hz, rfl⟩ | ⟨_, d', hd', rfl⟩ := hcases
  · refine ⟨c, hc, rfl, rfl, fun tu d hd hst => ⟨d, hd, hst, .inr ⟨rfl, fun e he _ hres hne => ?_⟩⟩⟩
    rw [hf, Option.some.injEq] at he
    subst he
    exact absurd ((hz.symm.trans htv).trans (if_pos hres)).symm hne
  · refine ⟨c, hc, rfl, rfl, fun tu d hd hst => ?_⟩
    have hd : Function.update s.ext.uds tv (some { d' with ln := some n }) tu = some d := hd
    by_cases htu : tu = tv
    · subst htu
      rw [Function.update_self, Option.some.injEq] at hd
      subst hd
      exact ⟨d', hd', hst, .inl rfl⟩
    · rw [Function.update_of_ne htu] at hd
      refine ⟨d, hd, hst, .inr ⟨rfl, fun e he _ hres _ heq => htu ?_⟩⟩
      have he : (s.setChann n { c with msg := msgOf n c .accept (some m) err }).heap m = some e := he
      rw [hf, Option.some.injEq] at he
      subst he
      exact (heq.trans (if_pos hres).symm).trans htv.symm

section Accepted

variable {a b : Sys Tls} {r err : Int} {pass : Bool} (hmove : Move tlsTable s (.accept n m) a)
  (hadd : Returns (evtAdd m .read) a r b) (hmsg : Returns (channMsg tlsTable n .accept (some m) err) b pass t)

include hadd hmsg in
theorem accepted_chann {k : ChannId} {e : Chann} (he : t.heap k = some e) :
    ∃ f, a.heap k = some f ∧ e.ctype = f.ctype ∧ (e.extUd = f.extUd ∨ e.extUd = 0) := by
  obtain ⟨_, _, hctl⟩ := evtAdd_cases hadd
  obtain ⟨g, hg, hheap, _⟩ := channMsg_notes hmsg
  -- the slot of the listener is written
  have hb : ∃ f, b.heap k = some f ∧ e.ctype = f.ctype ∧ e.extUd = f.extUd := by
    rw [hheap] at he
    by_cases hk : k = n
    · subst hk
      rw [Function.update_self, Option.some.injEq] at he
      exact ⟨g, hg, he ▸ ⟨rfl, rfl⟩⟩
    · rw [Function.update_of_ne hk] at he
      exact ⟨e, he, rfl, rfl⟩
  obtain ⟨f, hf, hty, hud⟩ := hb
  obtain ⟨f', hf', hty', hud', _⟩ := (hctl.ebb (K := ∅)).chann k f hf
  exact ⟨f', hf', hty.trans hty', hud ▸ hud'⟩

include hmove hadd hmsg

theorem accepted_nextUd : s.ext.nextUd ≤ t.ext.nextUd := by
  obtain ⟨_, _, hborn⟩ := hmove.admitted
  obtain ⟨_, _, hctl⟩ := evtAdd_cases hadd
  obtain ⟨_, _, _, hnext, _⟩ := channMsg_notes hmsg
  exact hnext ▸ Nat.le_trans hborn.nextUd (hctl.ebb (K := ∅)).ext.nextUd

theorem accepted_standing {l : ChannId} (h : Standing s l) : Standing t l := by
  obtain ⟨e, he, hst⟩ := h
  obtain ⟨_, _, hborn⟩ := hmove.admitted
  obtain ⟨_, _, hctl⟩ := evtAdd_cases hadd
  obtain ⟨g, hg, hheap, _⟩ := channMsg_notes hmsg
  obtain ⟨f, hf, hst⟩ := hborn.opened l e he hst
  obtain ⟨f', hf', hst⟩ := (hctl.ebb (K := ∅)).opened l f hf hst
  by_cases hl : l = n
  · subst hl
    rw [hg, Option.some.injEq] at hf'
    exact ⟨_, hheap ▸ Function.update_self .., hf' ▸ hst⟩
  · exact ⟨f', by rw [hheap, Function.update_of_ne hl, hf'], hst⟩

omit hmsg in
/-- The new channel has the type of its listener. -/
theorem accepted_ctype {nc g : Chann} (hnc : a.heap m = some nc) (hg : b.heap n = some g) : g.ctype = nc.ctype := by
  obtain ⟨lc, hlc, hborn⟩ := hmove.admitted
  obtain ⟨nc', hnc', hnty, _⟩ := hborn.new
  rw [hnc, Option.some.injEq] at hnc'
  subst hnc'
  obtain ⟨_, _, hctl⟩ := evtAdd_cases hadd
  obtain ⟨f, hf, hty, _⟩ := (hctl.ebb (K := ∅)).chann n g hg
  by_cases hnm : n = m
  · subst hnm
    rw [hnc, Option.some.injEq] at hf
    exact hf ▸ hty
  · obtain ⟨f', hf', hty', _⟩ := hborn.chann n f hnm hf
    rw [hlc, Option.some.injEq] at hf'
    rw [hty, hty', ← hf', hnty]

/-- Of the user data that refer to a listener, only those of the new channel are new. -/
theorem accepted_handshakes {k : ChannId} {ln : Option ChannId} (hb : Backed s) (h : Handshakes t k ln) :
    ln = some n ∨ Handshakes s k ln := by
  obtain ⟨e, d, he, hne, hd, hst, hln⟩ := h
  obtain ⟨_, _, hborn⟩ := hmove.admitted
  obtain ⟨nc, hnc, _, _, _, hnud⟩ := hborn.new
  obtain ⟨_, _, hctl⟩ := evtAdd_cases hadd
  obtain ⟨g, hg, _, _, hnoted⟩ := channMsg_notes hmsg
  obtain ⟨d', hd', hst', hnew | ⟨hsame, hno⟩⟩ := hnoted _ d hd hst
  · exact .inl (hln.symm.trans hnew)
  obtain ⟨d'', hd'', hst'', hsame'⟩ := (hctl.ebb (K := ∅)).ext.uds _ d' hd' hst'
  obtain ⟨f, hf, hty, hud | hud⟩ := accepted_chann hadd hmsg he
  swap
  · exact absurd hud hne
  by_cases hk : k = m
  · -- the user data of the new channel is the one that was noted
    subst hk
    rw [hnc, Option.some.injEq] at hf
    subst hf
    obtain hz | ⟨htls, hnum, _, hres⟩ := hnud
    · exact absurd (hud.trans hz) hne
    · have hgtls := (accepted_ctype hmove hadd hnc hg).trans htls
      exact absurd rfl (hno e he hgtls (hty ▸ hctl.mnet ▸ hres) hne)
  · obtain ⟨f', hf', _, hud' | hud', _⟩ := hborn.chann k f hk hf
    swap
    · exact absurd (hud.trans hud') hne
    obtain ⟨d₀, hd₀, hst₀, hsame₀⟩ | ⟨hnum, _⟩ := hborn.uds _ d'' hd'' hst''
    · rw [hud, hud'] at hd₀ hne
      refine .inr ⟨f', d₀, hf', hne, hd₀, hst₀, ?_⟩
      rw [← hln, hsame, hsame', hsame₀]
    · have hlt := hb.held k f' hf'
      rw [← hud', ← hud, hnum] at hlt
      exact absurd hlt (Nat.lt_irrefl _)

/-- A channel that is accepted refers to its listener as soon as the listener's ACCEPT is filtered. -/
theorem accepted_backed (hb : Backed s) (hc : Standing s n) : Backed t ∧ (Attended s → Attended t) := by
  have hle : s.ext.nextUd ≤ t.ext.nextUd := accepted_nextUd hmove hadd hmsg
  obtain ⟨_, _, hborn⟩ := hmove.admitted
  obtain ⟨nc, hnc, _, _, _, hnud⟩ := hborn.new
  obtain ⟨_, _, hctl⟩ := evtAdd_cases hadd
  have hab : Ebb ∅ a b := hctl.ebb
  obtain ⟨_, _, _, hnext, hnoted⟩ := channMsg_notes hmsg
  refine ⟨⟨Nat.lt_of_lt_of_le hb.pos hle, fun tu d hd hst => ?_, fun k e he => ?_, fun k hk => ?_⟩, fun ha l hl => ?_⟩
  · obtain ⟨d', hd', hst', _⟩ := hnoted tu d hd hst
    obtain ⟨d'', hd'', hst'', _⟩ := hab.ext.uds tu d' hd' hst'
    obtain ⟨f, hf, hfst, _⟩ | ⟨_, hlt⟩ := hborn.uds tu d'' hd'' hst''
    · exact Nat.lt_of_lt_of_le (hb.low tu f hf hfst) hle
    · exact hnext ▸ Nat.lt_of_lt_of_le hlt hab.ext.nextUd
  · obtain ⟨f, hf, _, hud | hud⟩ := accepted_chann hadd hmsg he
    swap
    · rw [hud]
      exact Nat.lt_of_lt_of_le hb.pos hle
    rw [hud]
    by_cases hk : k = m
    · rw [hk, hnc, Option.some.injEq] at hf
      subst hf
      obtain hz | ⟨_, hnum, hlt, _⟩ := hnud
      · rw [hz]
        exact Nat.lt_of_lt_of_le hb.pos hle
      · rw [hnum]
        exact hnext ▸ Nat.lt_of_lt_of_le hlt hab.ext.nextUd
    · obtain ⟨f', hf', _, hud' | hud', _⟩ := hborn.chann k f hk hf
      · rw [hud']
        exact Nat.lt_of_lt_of_le (hb.held k f' hf') hle
      · rw [hud']
        exact Nat.lt_of_lt_of_le hb.pos hle
  · obtain hno | hk := accepted_handshakes hmove hadd hmsg hb hk
    · cases hno
    · exact hb.noted k hk
  · obtain ⟨k, hk⟩ := hl
    obtain hl | hk := accepted_handshakes hmove hadd hmsg hb hk
    · rw [Option.some.inj hl]
      exact accepted_standing hmove hadd hmsg hc
    · exact accepted_standing hmove hadd hmsg (ha l ⟨k, hk⟩)

end Accepted

/-- Only a channel that is accepted starts a handshake. -/
theorem evtDispatch_ebb {kev : Kev} {p : Pass} (hK : ∀ n, kev.ptr = some n → n ∈ K)
    (h : Returns (evtDispatch tlsTable kev) s p t) :
    Ebb K s t ∨ ∃ n c m a b r pass, kev.ptr = some n ∧ s.heap n = some c ∧ c.state = .listening ∧
      Move tlsTable s (.accept n m) a ∧ Returns (evtAdd m .read) a r b ∧
        Returns (channMsg tlsTable n .accept (some m) 0) b pass t ∧ p = if pass then .ret (some n) else .next := by
  obtain ⟨n, c, hn, hc, ⟨_, _, rfl⟩ | ⟨_, _, _, a, b, r, err, _, hdis, hemit, ha⟩ |
    ⟨_, _, _, ⟨hst, h⟩ | ⟨_, h⟩ | ⟨_, h⟩ | ⟨_, _, rfl⟩⟩⟩ := evtDispatch_cases h
  · exact .inl (.refl _)
  · have hsa : Ebb K s a := by
      obtain rfl | ⟨_, hsock⟩ := ha
      · exact .refl _
      · exact (outside_sysSockError _ _ _ hsock).plain.ebb
    exact .inl ((hsa.trans (ebb_disconnectSocket (hK n hn) _ _ hdis)).trans
      (ebb_emit (hK n hn) (by simp) _ _ hemit))
  · rcases returns_ite.mp h with ⟨_, h⟩ | ⟨_, h⟩
    swap
    · exact .inl (ebb_emit (hK n hn) (by simp) _ _ h)
    obtain ⟨q, a, hacc, h⟩ := returns_bind.mp h
    obtain ⟨rfl, hplain⟩ | ⟨m, rfl, hmove⟩ := channAccept_cases hacc
    · rw [(returns_pure.mp h).2]
      obtain hplain | hleak := hplain
      · exact .inl hplain.ebb
      · exact .inl (hleak.ebb trivial)
    simp only [emit, returns_bind, returns_pure] at h
    obtain ⟨_, b, hadd, pass, e, hmsg, hp, rfl⟩ := h
    exact .inr ⟨n, c, m, a, b, _, pass, hn, hc, hst, hmove, hadd, hmsg, hp⟩
  · exact .inl (ebb_evtConnecting (hK n hn) _ _ h)
  · exact .inl (ebb_evtConnected (hK n hn) _ _ h)
  · exact .inl (.refl _)

theorem evtDispatch_backed {kev : Kev} {p : Pass} (hb : Backed s) (h : Returns (evtDispatch tlsTable kev) s p t) :
    Backed t ∧ (Attended s → Attended t) := by
  obtain he | ⟨n, c, m, a, b, r, pass, _, hc, hst, hmove, hadd, hmsg, _⟩ :=
    evtDispatch_ebb (fun n _ => Set.mem_univ n) h
  · exact hb.ebbs he
  · exact accepted_backed hmove hadd hmsg hb ⟨c, hc, by rw [hst]; simp⟩

/-- A handshake that starts refers to the listener of the record. -/
theorem evtDispatch_handshakes {kev : Kev} {p : Pass} {ln : Option ChannId} (hb : Backed s)
    (h : Returns (evtDispatch tlsTable kev) s p t) (hs : Handshakes t m ln) :
    Handshakes s m ln ∨ ∃ l c, ln = some l ∧ s.heap l = some c ∧ c.state = .listening := by
  obtain he | ⟨n, c, k, a, b, r, pass, _, hc, hst, hmove, hadd, hmsg, _⟩ :=
    evtDispatch_ebb (fun n _ => Set.mem_univ n) h
  · exact .inl (he.handshakes hs)
  · obtain hln | hold := accepted_handshakes hmove hadd hmsg hb hs
    · exact .inr ⟨n, c, hln, hc, hst⟩
    · exact .inl hold

/-! ## Announcements -/

theorem Steady.standing (h : Steady s t) (hn : Standing s n) : Standing t n := by
  obtain ⟨c, hc, hst⟩ := hn
  have hholder := h.holder n
  rw [hc, Option.map_some] at hholder
  obtain ⟨d, hd, heq⟩ := Option.map_eq_some_iff.mp hholder
  have hcl : decide (d.state = .closed) = decide (c.state = .closed) := congrArg (·.2.2) heq
  exact ⟨d, hd, by simpa [hst] using hcl⟩

/-- What is announced is the channel itself, and its listener is there. -/
def Announces (s : Sys Tls) (n : ChannId) (c : Chann) : Prop :=
  c.msg.r = some n ∧ c.state.active ∧ ∃ l, c.msg.n = some l ∧ Standing s l

/-- A message names the channel of the record, or announces it for the listener it refers to. -/
theorem evtDispatch_names {kev : Kev} (hs : Fresh s) (h : Returns (evtDispatch tlsTable kev) s (.ret (some n)) t)
    (hc : t.heap n = some c) : (c.msg.n = some n ∧ (c.ctype = CHANN_TYPE_TLS → c.msg.event ≠ some .accept)) ∨
      (c.msg.r = some n ∧ c.state.active ∧ Handshakes s n c.msg.n ∧ ∀ l, Standing s l → Standing t l) := by
  obtain ⟨hno, _⟩ | ⟨m, b, v, event, q, err, _, hb', hfaults, hemit, _, _, hstill⟩ := polite_tlsTable.evtDispatch_emits h
  · cases hno
  obtain ⟨pass, a, hmsg, hret⟩ := returns_bind.mp hemit
  obtain ⟨hp, rfl⟩ := returns_pure.mp hret
  cases pass with
  | false => cases hp
  | true =>
  obtain rfl : n = m := by
    cases hp
    rfl
  obtain ⟨e, d, he, rfl, hfil, _, hplain⟩ := channMsg_filtered hmsg
  have hfresh := (polite_tlsTable.faults_fresh hfaults hs).set he { e with msg := msgOf n e event q err }
  have hadvance : event = .connected ∨ event = .recv → (c.msg.n = some n ∧ c.msg.event ≠ some .accept) ∨
      (c.msg.r = some n ∧ c.state.active ∧ Handshakes s n c.msg.n ∧ ∀ l, Standing s l → Standing t l) := by
    intro hevent
    have hst := hstill hevent
    have hno : event ≠ .accept := by
      obtain rfl | rfl := hevent
      · simp
      · simp
    cases hfil with
    | left h =>
      have hmsg : c.msg = msgOf n e event q err := h.message hfresh (setChann_self ..) hc
      rw [hmsg]
      exact .inl ⟨rfl, fun hev => hno (Option.some.inj hev)⟩
    | @renamed a event' hevent' ha hca h =>
      have hset := (ha.fresh hfresh).set hca { e with msg := { msgOf n e event q err with event := some event' } }
      have hmsg : c.msg = { msgOf n e event q err with event := some event' } := h.message hset (setChann_self ..) hc
      rw [hmsg]
      refine .inl ⟨rfl, fun hev => ?_⟩
      obtain rfl | rfl := hevent'
      · cases hev
      · cases hev
    | @announced _ ud _ _ _ _ _ _ _ _ hne hd hdst _ ht =>
      have hvt : Ebb Set.univ v t := ebb_channMsg hno (fun _ => Set.mem_univ n) _ _ hmsg
      obtain ⟨f, hf, _, hfud, hact⟩ := hst.chann
      rw [he, Option.some.injEq] at hf
      subst hf
      have hd : s.ext.uds b.extUd = some ud := by
        rw [← hst.ext, ← hfud]
        exact hd
      rw [ht] at hc
      have hc : some _ = some c := (setChann_self ..).symm.trans hc
      obtain rfl := Option.some.inj hc
      exact .inr ⟨rfl, hact, ⟨b, ud, hb', hfud ▸ hne, hd, hdst, rfl⟩, fun l hl => hvt.standing (hst.steady.standing hl)⟩
  cases event with
  | accept =>
    obtain ⟨f, w, hf, rfl, ⟨_, hfty, rfl⟩ | ⟨hno, _⟩⟩ := channMsg_accept hmsg
    · rw [setChann_self, Option.some.injEq] at hc
      subst hc
      exact .inl ⟨rfl, fun hty => absurd hty hfty⟩
    · cases hno
  | connected => exact (hadvance (.inl rfl)).imp_left fun hown => ⟨hown.1, fun _ => hown.2⟩
  | recv => exact (hadvance (.inr rfl)).imp_left fun hown => ⟨hown.1, fun _ => hown.2⟩
  | send | disconnect | timer =>
    obtain ⟨_, rfl⟩ := hplain (by simp) (by simp) (by simp)
    rw [setChann_self, Option.some.injEq] at hc
    subst hc
    refine .inl ⟨rfl, fun _ hev => ?_⟩
    cases hev

theorem evtDispatch_announces {kev : Kev} (hs : Fresh s) (hb : Backed s) (ha : Attended s)
    (h : Returns (evtDispatch tlsTable kev) s (.ret (some n)) t) (hc : t.heap n = some c) (hty : c.ctype = CHANN_TYPE_TLS)
    (hev : c.msg.event = some .accept) : Announces t n c := by
  obtain ⟨_, hno⟩ | ⟨hr, hact, hhand, hkeep⟩ := evtDispatch_names hs h hc
  · exact absurd hev (hno hty)
  obtain ⟨l, hl⟩ : ∃ l, c.msg.n = some l := by
    refine Option.ne_none_iff_exists'.mp fun hnone => hb.noted n ?_
    rw [hnone] at hhand
    exact hhand
  rw [hl] at hhand
  exact ⟨hr, hact, l, hl, hkeep l (ha l ⟨n, hhand⟩)⟩

/-- No announcement waits in the queue. -/
abbrev Unannounced : Sys Tls → Prop := Filed fun _ msg _ => msg.event ≠ some .accept

theorem fits_unannounced : Fits tlsTable fun _ msg _ => msg.event ≠ some .accept := by
  refine fits_tlsTable fun n c event q err hplain hev => ?_
  obtain rfl | rfl | rfl := hplain
  · cases hev
  · cases hev
  · cases hev

theorem Fetches.ebb {fuel : Nat} {kev : Kev} (h : Fetches tlsTable fuel s t kev) : Ebb ∅ s t := by
  obtain ⟨a, htm, _, ht⟩ := h.quiet
  have hat : Ebb ∅ a t := by
    rw [ht]
    exact .of_heap rfl (.refl _)
  exact (ebb_tmNext _ _ htm).trans hat

theorem evtPass_backed {fuel : Nat} {p : Pass} (hb : Backed s) (h : Returns (evtPass tlsTable fuel) s p t) :
    Backed t ∧ (Attended s → Attended t) := by
  obtain ⟨n, rfl, htm⟩ | ⟨n, a, rfl, htm, hpop⟩ | ⟨a, rfl, htm, _, rfl, _⟩ | ⟨u, kev, hfetch, hdisp⟩ :=
    evtPass_cases h
  · exact hb.ebbs (K := ∅) (ebb_tmNext _ _ htm)
  · exact hb.ebbs (K := ∅) ((ebb_tmNext _ _ htm).trans (plain_disNext _ _ hpop).ebb)
  · exact hb.ebbs (K := ∅) ((ebb_tmNext _ _ htm).trans (.of_heap rfl (.refl _)))
  · obtain ⟨hu, hau⟩ := hb.ebbs hfetch.ebb
    obtain ⟨ht, hat⟩ := evtDispatch_backed hu hdisp
    exact ⟨ht, fun ha => hat (hau ha)⟩

theorem evtPass_announces {fuel : Nat} (hf : Unannounced s) (hb : Backed s) (ha : Attended s)
    (h : Returns (evtPass tlsTable fuel) s (.ret (some n)) t) (hc : t.heap n = some c) (hty : c.ctype = CHANN_TYPE_TLS)
    (hev : c.msg.event = some .accept) : Announces t n c := by
  obtain ⟨m, hm, htm⟩ | ⟨m, a, hm, htm, hpop⟩ | ⟨a, hm, _⟩ | ⟨u, kev, hfetch, hdisp⟩ := evtPass_cases h
  · cases hm
    obtain ⟨hno, _⟩ | ⟨m, v, hm, _, hmsg⟩ := polite_tlsTable.tmNext_emits htm
    · cases hno
    obtain rfl := Option.some.inj hm
    obtain ⟨e, d, _, rfl, _, _, hplain⟩ := channMsg_filtered hmsg
    obtain ⟨_, rfl⟩ := hplain (by simp) (by simp) (by simp)
    rw [setChann_self, Option.some.injEq] at hc
    subst hc
    cases hev
  · cases hm
    obtain ⟨d, hd, hno⟩ := ((hf.quiet polite_tlsTable htm).pop hpop).2 n rfl
    rw [hc, Option.some.injEq] at hd
    subst hd
    exact absurd hev hno
  · cases hm
  · exact evtDispatch_announces (hf.fetched polite_tlsTable hfetch).fresh (hb.ebb hfetch.ebb) (ha.ebb hfetch.ebb) hdisp hc hty hev

theorem evtLoop_backed {fuel rounds : Nat} {q : Option ChannId} (hb : Backed s)
    (h : Returns (evtLoop tlsTable fuel rounds) s q t) : Backed t ∧ (Attended s → Attended t) := by
  refine evtLoop_keeps (I := fun a => Backed a ∧ (Attended s → Attended a)) ⟨hb, fun ha => ha⟩ ?_ h
  intro a p b ⟨hba, hsa⟩ hpass
  obtain ⟨hbb, hab⟩ := evtPass_backed hba hpass
  exact ⟨hbb, fun ha => hab (hsa ha)⟩

/-- The listeners stay there until the round that announces a channel. -/
theorem evtLoop_announces {fuel rounds : Nat} (hf : Unannounced s) (hb : Backed s) (ha : Attended s)
    (h : Returns (evtLoop tlsTable fuel rounds) s (some n) t) (hc : t.heap n = some c) (hty : c.ctype = CHANN_TYPE_TLS)
    (hev : c.msg.event = some .accept) : Announces t n c := by
  obtain ⟨a, hrounds, hret⟩ := evtLoop_rounds h
  obtain ⟨hfa, hba, haa⟩ : Unannounced a ∧ Backed a ∧ Attended a := by
    refine hrounds.keeps (I := fun a => Unannounced a ∧ Backed a ∧ Attended a) ⟨hf, hb, ha⟩ fun b c ⟨hfb, hbb, hab⟩ hpass => ?_
    obtain ⟨hbc, hac⟩ := evtPass_backed hbb hpass
    exact ⟨evtPass_filed polite_tlsTable fits_unannounced hfb hpass, hbc, hac hab⟩
  exact evtPass_announces hfa hba haa hret hc hty hev

/-! ## Calls -/

theorem mnetFini_backed (hb : Backed s) (ho : Ordered s) (h : Returns (mnetFini tlsTable) s u t) :
    Backed t ∧ (Attended s → Attended t) := by
  obtain ⟨hinit, _⟩ | rfl := mnetFini_wipes h
  swap
  · exact ⟨hb, fun ha => ha⟩
  have hgone := (mnetFini_ordered obedient_tlsTable h ho).2 hinit
  have hebbs : s.ext.Ebbs t.ext := by
    refine Moves.keeps (I := fun a => s.ext.Ebbs a.ext) (moves_mnetFini _ _ h) (fun d a b hd hm hs => ?_) (.refl _)
    refine hs.trans (hm.ebbs (fun l m he => ?_) fun n he => ?_)
    · subst he
      obtain hno | hno | ⟨_, hno | hno | hno⟩ := hd
      all_goals cases hno
    · subst he
      obtain hno | hno | ⟨_, hno | hno | hno⟩ := hd
      all_goals cases hno
  have hhand : ∀ n ln, ¬ Handshakes t n ln := by
    intro n ln ⟨c, _, hc, _⟩
    rw [hgone n] at hc
    cases hc
  refine ⟨⟨Nat.lt_of_lt_of_le hb.pos hebbs.nextUd, fun tu d hd hst => ?_, fun n c hc => ?_, fun n => hhand n none⟩,
    fun _ l ⟨n, hn⟩ => absurd hn (hhand n (some l))⟩
  · obtain ⟨d', hd', hst', _⟩ := hebbs.uds tu d hd hst
    exact Nat.lt_of_lt_of_le (hb.low tu d' hd' hst') hebbs.nextUd
  · rw [hgone n] at hc
    cases hc

/-- The call closes no listener of a channel in its handshake. -/
def SparesListener (s : Sys Tls) : Call → Prop
  | .channClose (some n) => ¬ Pending s n
  | _ => True

theorem Step.backed {i : Call × Ret} (h : Step tlsTable s i t) (ho : Ordered s) (hb : Backed s) :
    Backed t ∧ (SparesListener s i.1 → Attended s → Attended t) := by
  obtain ⟨i, r⟩ := i
  by_cases hloop : ∃ fuel, i = .resultNext fuel
  · obtain ⟨fuel, rfl⟩ := hloop
    obtain ⟨q, _, hr⟩ := returns_ret.mp h
    exact (evtLoop_backed hb hr).imp_right fun ha _ => ha
  by_cases hopen : ∃ ctype, i = .channOpen ctype
  · obtain ⟨ctype, rfl⟩ := hopen
    obtain ⟨q, _, hr⟩ := returns_ret.mp h
    obtain ⟨_, rfl⟩ | ⟨n, _, hmove⟩ := mnetChannOpen_cases hr
    · exact ⟨hb, fun _ ha => ha⟩
    · exact (hb.opened hmove).imp_right fun ha _ => ha
  by_cases hclose : ∃ n, i = .channClose n
  · obtain ⟨n, rfl⟩ := hclose
    obtain ⟨_, _, hr⟩ := returns_ret.mp h
    refine (hb.close hr).imp_right fun ha hspare => ha fun m hm => ?_
    subst hm
    exact hspare
  by_cases hfini : i = .mnetFini
  · subst hfini
    obtain ⟨_, _, hr⟩ := returns_ret.mp h
    exact (mnetFini_backed hb ho hr).imp_right fun ha _ => ha
  have he : Ebb Set.univ s t := by
    refine Moves.ebb (moves_apiCall i _ _ h) ?_
    exact Call.deeds_mild (fun n _ => Set.mem_univ n) (fun f he => hloop ⟨f, he⟩) (fun c he => hopen ⟨c, he⟩)
      (fun n he => hclose ⟨n, he⟩) hfini
  exact ⟨hb.ebb he, fun _ ha => ha.ebb he⟩

/-- No call starts a handshake, the message loop apart. -/
theorem Step.handshakes {i : Call × Ret} {ln : Option ChannId} (h : Step tlsTable s i t) (ho : Ordered s) (hb : Backed s)
    (hloop : ∀ fuel, i.1 ≠ .resultNext fuel) (hs : Handshakes t n ln) : Handshakes s n ln := by
  obtain ⟨i, r⟩ := i
  by_cases hopen : ∃ ctype, i = .channOpen ctype
  · obtain ⟨ctype, rfl⟩ := hopen
    obtain ⟨q, _, hr⟩ := returns_ret.mp h
    obtain ⟨_, rfl⟩ | ⟨m, _, hmove⟩ := mnetChannOpen_cases hr
    · exact hs
    · exact hb.opened_handshakes hmove hs
  by_cases hclose : ∃ n, i = .channClose n
  · obtain ⟨q, rfl⟩ := hclose
    obtain ⟨_, _, hr⟩ := returns_ret.mp h
    exact mnetChannClose_handshakes hr hs
  by_cases hfini : i = .mnetFini
  · subst hfini
    obtain ⟨_, _, hr⟩ := returns_ret.mp h
    obtain ⟨hinit, _⟩ | rfl := mnetFini_wipes hr
    · obtain ⟨c, _, hc, _⟩ := hs
      rw [(mnetFini_ordered obedient_tlsTable hr ho).2 hinit n] at hc
      cases hc
    · exact hs
  refine Ebb.handshakes (K := Set.univ) (Moves.ebb (moves_apiCall i _ _ h) ?_) hs
  exact Call.deeds_mild (fun n _ => Set.mem_univ n) hloop (fun c he => hopen ⟨c, he⟩) (fun n he => hclose ⟨n, he⟩) hfini

theorem Step.unannounced {i : Call × Ret} (h : Step tlsTable s i t) (ho : Ordered s) (hf : Unannounced s) : Unannounced t := by
  refine h.files polite_tlsTable obedient_tlsTable (fun n _ => fits_unannounced.disconnect n) (fun fuel hi => ?_) ?_ ho hf
  · obtain ⟨i, r⟩ := i
    subst hi
    obtain ⟨q, _, hr⟩ := returns_ret.mp h
    exact evtLoop_filed polite_tlsTable fits_unannounced hf hr
  · unfold SuitsReports
    split
    · exact fun hw c hc => (hf.waiting _ hw).2 c hc
    · exact fun hw c hc _ => (hf.waiting _ hw).2 c hc
    · trivial

/-! ## Runs -/

/-- What an ACCEPT refers to: a listener that is there and not closed, and a channel with an open socket. -/
def AcceptSound (s : Sys Tls) (msg : ChannMsg) : Prop :=
  (∃ l c, msg.n = some l ∧ s.heap l = some c ∧ c.state ≠ .closed) ∧
    ∃ r c, msg.r = some r ∧ s.heap r = some c ∧ c.state ≠ .closed ∧ 0 < c.fd ∧ s.kernel.socks c.fd ≠ none

theorem backed_start (o : Oracle) : Backed (Sys.start o {} : Sys Tls) ∧ Attended (Sys.start o {} : Sys Tls) := by
  have hhand : ∀ n ln, ¬ Handshakes (Sys.start o {}) n ln := by
    intro n ln ⟨c, _, hc, _⟩
    cases hc
  refine ⟨⟨Nat.one_pos, fun _ _ hd => ?_, fun _ _ hc => ?_, fun n => hhand n none⟩,
    fun l ⟨n, hn⟩ => absurd hn (hhand n (some l))⟩
  · cases hd
  · cases hc

/-- A run that closes no listener of a channel in its handshake keeps them all. -/
theorem RunWhere.attended {o : Oracle} {l : List (Call × Ret)} (h : RunWhere tlsTable SparesListener (Sys.start o {}) l s) :
    Attended s := by
  obtain ⟨hb, ha⟩ := backed_start o
  refine (Path.keeps (I := fun a => Ordered a ∧ Backed a ∧ Attended a) h ?_ ⟨ordered_start o _, hb, ha⟩).2.2
  intro a i b ⟨hs, hspare⟩ ⟨ho, hb, ha⟩
  obtain ⟨hbb, hab⟩ := hs.backed ho hb
  exact ⟨hs.ordered obedient_tlsTable ho, hbb, hab hspare ha⟩

/-- While the listeners of the channels in their handshake are there, an ACCEPT of TLS names a listener that is
there and a channel that has its socket. -/
theorem accept_names_listener {o : Oracle} {l : List (Call × Ret)} {fuel : Nat} {p : ChannId}
    (h : Run tlsTable (Sys.start o {}) l s) (ha : Attended s) (hstep : Step tlsTable s (.resultNext fuel, .msg (some p)) t)
    (hc : t.heap p = some c) (hty : c.ctype = CHANN_TYPE_TLS) (hev : c.msg.event = some .accept) : AcceptSound t c.msg := by
  obtain ⟨ho, hf, hb⟩ : Ordered s ∧ Unannounced s ∧ Backed s := by
    refine Path.keeps (I := fun a => Ordered a ∧ Unannounced a ∧ Backed a) h ?_ ⟨ordered_start o _, ?_, (backed_start o).1⟩
    · intro a i b hs ⟨ho, hf, hb⟩
      exact ⟨hs.ordered obedient_tlsTable ho, hs.unannounced ho hf, (hs.backed ho hb).1⟩
    · exact .of_empty (ordered_start o _).fresh rfl
  obtain ⟨w, hw⟩ := hstep.ordered obedient_tlsTable ho
  obtain ⟨q, hq, hr⟩ := returns_ret.mp hstep
  cases hq
  obtain ⟨hr, hact, lid, hn, e, he, hst⟩ := evtLoop_announces hf hb ha hr hc hty hev
  obtain ⟨hpos, hopen⟩ := hw.obeys.fds p c hc hact
  refine ⟨⟨lid, e, hn, he, hst⟩, p, c, hr, hc, ?_, hpos, hopen⟩
  intro hcl
  rw [hcl] at hact
  exact hact

/-- The call closes a channel. -/
def Call.closes : Call → Bool
  | .channClose _ => true
  | _ => false

theorem SparesListener.of_closes {i : Call} (h : i.closes = false) : SparesListener s i := by
  unfold SparesListener
  split
  · cases h
  · trivial

/-- An environment in which the client of the listener needs two calls of `SSL_accept`. -/
def slowClientOracle : Oracle :=
  { clientOracle SSL_ERROR_WANT_READ with
    ret := fun tick => if tick < 17 then tick + 3 else 1
    events := fun tick => if tick < 17 then [(4, EPOLLIN)] else [(15, EPOLLIN)] }

/-- The slot of channel 1 announces it, for the listener 0. -/
def Announced01 (s : Sys Tls) : Prop :=
  (s.heap 1).map (fun c => (c.ctype, c.msg.event, c.msg.n)) = some (CHANN_TYPE_TLS, some .accept, some 0)

instance : Decidable (Announced01 s) := inferInstanceAs (Decidable (_ = _))

/-- A client whose listener stays open. -/
theorem accept_names_listener_once : ∃ (t : Sys Tls) (c : Chann), t.heap 1 = some c ∧ c.msg.n = some 0 ∧ AcceptSound t c.msg := by
  have hrun : AfterWhere tlsTable (fun _ i => i.closes = false) (listenCalls ++ [.poll]) (Sys.start slowClientOracle {}) fun s =>
      After tlsTable [.resultNext 5] s fun rs t => rs = [.msg (some 1)] ∧ Announced01 t := by
    decide +kernel
  obtain ⟨l, s, h, hnext⟩ := hrun.run
  obtain ⟨r, t, hstep, hr, ht⟩ := hnext.step
  obtain ⟨c, hc, hmsg⟩ := Option.map_eq_some_iff.mp ht
  obtain rfl : r = .msg (some 1) := List.singleton_injective hr
  have hty : c.ctype = CHANN_TYPE_TLS := congrArg (·.1) hmsg
  have hev : c.msg.event = some .accept := congrArg (·.2.1) hmsg
  have hn : c.msg.n = some 0 := congrArg (·.2.2) hmsg
  have hattended : Attended s := RunWhere.attended (h.mono fun _ _ _ hs => ⟨hs.1, .of_closes hs.2⟩)
  exact ⟨t, c, hc, hn, accept_names_listener (h.mono fun _ _ _ hs => hs.1) hattended hstep hc hty hev⟩

/-- A listener that is closed while its client is in the handshake is named by the ACCEPT all the same. -/
theorem not_accept_names_listener : ¬ ∀ (o : Oracle) (l : List (Call × Ret)) (s t : Sys Tls) (fuel : Nat) (p : ChannId) (c : Chann),
    Run tlsTable (Sys.start o {}) l s → Step tlsTable s (.resultNext fuel, .msg (some p)) t → t.heap p = some c →
      c.ctype = CHANN_TYPE_TLS → c.msg.event = some .accept → AcceptSound t c.msg := by
  have hrun : After tlsTable (listenCalls ++ [.channClose (some 0), .poll]) (Sys.start slowClientOracle {}) fun _ s =>
      After tlsTable [.resultNext 5] s fun rs t => rs = [.msg (some 1)] ∧ Announced01 t ∧ t.heap 0 = none := by
    decide +kernel
  obtain ⟨_, s, h, hnext⟩ := hrun.run
  obtain ⟨r, t, hstep, hr, ht, hgone⟩ := hnext.step
  obtain ⟨c, hc, hmsg⟩ := Option.map_eq_some_iff.mp ht
  obtain rfl : r = .msg (some 1) := List.singleton_injective hr
  have hty : c.ctype = CHANN_TYPE_TLS := congrArg (·.1) hmsg
  have hev : c.msg.event = some .accept := congrArg (·.2.1) hmsg
  have hn : c.msg.n = some 0 := congrArg (·.2.2) hmsg
  intro hall
  obtain ⟨⟨l, d, hl, hd, _⟩, _⟩ := hall _ _ _ _ _ _ _ h hstep hc hty hev
  rw [hn, Option.some.injEq] at hl
  rw [← hl, hgone] at hd
  cases hd

end MNet
