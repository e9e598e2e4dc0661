import MNet.Blocked

/-! # Connections of TLS

The user data of a TLS channel has a state of its own. It is in a handshake, or past it, if and only
if the channel is connected or about to be. -/

namespace MNet
open MNet.Lib MNet.Lib.Exec

variable {s t a : Sys Tls} {n m p : ChannId} {c d : Chann} {u : Unit} {A : Set Deed}

/-- What TLS makes of the connection of the channel is what the library does, and with a connection
comes an object. -/
def Attuned (n : ChannId) (s : Sys Tls) : Prop :=
  ∀ c d, s.heap n = some c → c.extUd ≠ 0 → s.ext.uds c.extUd = some d →
    (d.state.active ↔ c.state.active) ∧ (d.state.active → d.ssl ≠ none)

/-- The type of the channel is registered, and it is TLS if there is user data. -/
def Typed (n : ChannId) (s : Sys Tls) : Prop :=
  ∀ c, s.heap n = some c → s.mnet.reserved c.ctype = true ∧ (c.extUd ≠ 0 → c.ctype = CHANN_TYPE_TLS)

theorem Owned.channTyped (hb : Owned s) (n : ChannId) : Typed n s := fun c hc =>
  ⟨hb.typed n c hc, fun hne => (hb.ud n c hc hne).1⟩

theorem Typed.kept (h : Typed n s) (hk : Kept s t) (hheap : t.heap = s.heap) : Typed n t := fun c hc => by
  rw [hk.mnet]
  exact h c (hheap ▸ hc)

theorem Typed.withExt (h : Typed n s) (e : Tls) : Typed n (s.withExt e) := h

namespace Attuned

/-- The channel is as far as it was, and so is its user data. -/
theorem of_chann (h : Attuned n s)
    (hchann : ∀ d, t.heap n = some d → ∃ c, s.heap n = some c ∧ d.extUd = c.extUd ∧ (d.state.active ↔ c.state.active))
    (hext : ∀ c, s.heap n = some c → c.extUd ≠ 0 → (t.ext.uds c.extUd).map TlsUd.face = (s.ext.uds c.extUd).map TlsUd.face) :
    Attuned n t := by
  intro d f hd hne hf
  obtain ⟨c, hc, hud, hact⟩ := hchann d hd
  rw [hud] at hne hf
  have huds := hext c hc hne
  rw [hf] at huds
  obtain ⟨g, hg, hface⟩ := Option.map_eq_some_iff.mp huds.symm
  have hst : f.state = g.state := congrArg Prod.fst hface.symm
  have hssl : f.ssl = g.ssl := congrArg Prod.snd hface.symm
  rw [hact, hst, hssl]
  exact h c g hc hne hg

theorem bypasses (h : Attuned n s) (hb : Bypasses n s t) : Attuned n t :=
  h.of_chann (fun _ hd => by
    obtain ⟨c, hc, hg⟩ := hb.chann' hd
    have hst : _ = c.state := congrArg (·.2.1) hg
    exact ⟨c, hc, congrArg (·.2.2.1) hg, by rw [← hst]; rfl⟩) fun c hc hne => (hb.ext c hc hne).ud

/-- The heap is written to at the channel. -/
theorem write (h : Attuned n s) (hc : s.heap n = some c) (hheap : t.heap = Function.update s.heap n (some d))
    (hext : t.ext = s.ext) (hud : d.extUd = c.extUd) (hact : d.state.active ↔ c.state.active) : Attuned n t :=
  h.of_chann (fun e he => by
    rw [hheap, Function.update_self, Option.some.injEq] at he
    exact he ▸ ⟨c, hc, hud, hact⟩) fun _ _ _ => by rw [hext]

/-- Neither the channel nor its user data is in a connection. -/
theorem of_down (hc : t.heap n = some c) (hact : ¬ c.state.active)
    (hud : ∀ d, c.extUd ≠ 0 → t.ext.uds c.extUd = some d → ¬ d.state.active) : Attuned n t := by
  intro e d he hne hd
  obtain rfl := Option.some.inj (hc.symm.trans he)
  exact ⟨iff_of_false (hud d hne hd) hact, fun hno => absurd hno (hud d hne hd)⟩

/-- The channel and its user data are in a connection. -/
theorem of_up {f : TlsUd} (hc : t.heap n = some c) (hact : c.state.active) (hf : t.ext.uds c.extUd = some f)
    (hup : f.state.active) (hssl : f.ssl ≠ none) : Attuned n t := by
  intro e d he _ hd
  obtain rfl := Option.some.inj (hc.symm.trans he)
  obtain rfl := Option.some.inj (hf.symm.trans hd)
  exact ⟨iff_of_true hup hact, fun _ => hssl⟩

theorem of_none (hc : t.heap n = some c) (hz : c.extUd = 0) : Attuned n t := by
  intro e d he hne _
  obtain rfl := Option.some.inj (hc.symm.trans he)
  exact absurd hz hne

theorem of_gone (hc : t.heap n = none) : Attuned n t := by
  intro e d he
  rw [hc] at he
  cases he

end Attuned

/-! ## Hanging up -/

/-- The channel is down afterwards if it was up on a socket, and as it was otherwise. -/
theorem disconnect_attuned {r : Int} (hty : Typed n s) (h : Attuned n s)
    (hr : Returns (channDisconnectSocket (opsOf tlsTable) n) s r t) : Attuned n t := by
  obtain ⟨c, hc, ⟨_, _, rfl⟩ | ⟨_, _, _, a, d, _, hcb, hrel⟩⟩ := channDisconnectSocket_cases hr
  · exact h
  rw [opsConfig_opsOf] at hcb
  obtain ⟨hres, htls⟩ := hty c hc
  have ht : t.heap n = some { d with rwbSend := [], fd := -1, state := .disconnect, epollEvents := 0 } := by
    rw [hrel.heap, Function.update_self]
  refine .of_down ht (by exact id) fun f hne hf => ?_
  rw [hrel.ext] at hf
  obtain ⟨_, he⟩ | ⟨hother, he⟩ := extConfig_cases c.ctype
  · rw [he] at hcb
    obtain ⟨_, hheap, hcases⟩ := tlsDisconnectCb_cases hcb
    obtain rfl : d = c := Option.some.inj (hrel.was.symm.trans (hheap ▸ hc))
    obtain ⟨hext, hdown⟩ | ⟨e, g, i, obj, he', _, _, hext⟩ := hcases
    · rw [hext] at hf
      exact hdown d f hc hres hne hf
    · obtain rfl := Option.some.inj (hc.symm.trans he')
      have hset : a.ext.uds d.extUd = some { g with state := .disconnect } := by
        rw [hext]
        exact Function.update_self ..
      obtain rfl := Option.some.inj (hset.symm.trans hf)
      exact id
  · rw [he] at hcb
    obtain rfl := (returns_pure.mp hcb).2
    obtain rfl : d = c := Option.some.inj (hrel.was.symm.trans hc)
    exact absurd (htls hne) hother

theorem tlsDisconnect_attuned (hty : Typed n s) (h : Attuned n s) (hr : Returns (tlsDisconnect n) s u t) : Attuned n t := by
  rw [tlsDisconnect, ← opsOf_tlsTable] at hr
  obtain ⟨_, _, hr, hpure⟩ := returns_bind.mp hr
  rw [(returns_pure.mp hpure).2]
  exact disconnect_attuned hty h hr

/-! ## Handshakes -/

/-- A handshake that is begun is that of a channel with a connection. -/
theorem tlsBegin_attuned {f : TlsUd} {op : SslOp} (hty : Typed n s) (hc : s.heap n = some c) (hact : c.state.active)
    (hf : s.ext.uds c.extUd = some f) (hup : f.state.active) (h : Returns (tlsBegin n c.extUd op) s u t) : Attuned n t := by
  obtain ⟨e, g, ret, err, a, he, hg, hk, hheap, hext, hcases⟩ := tlsBegin_cases h
  obtain rfl := Option.some.inj (hf.symm.trans hg)
  have ha : Attuned n a := by
    refine .of_up (hheap ▸ hc) hact (by rw [hext]; exact Function.update_self ..) ?_ (Option.some_ne_none _)
    by_cases hret : ret = 1
    · rw [if_pos hret]
      trivial
    · rw [if_neg hret]
      exact hup
  obtain ⟨_, rfl⟩ | ⟨_, _, hdown⟩ := hcases
  · exact ha
  · exact tlsDisconnect_attuned (hty.kept hk hheap) ha hdown

theorem modifyMsg_attuned {f : ChannMsg → ChannMsg} (hty : Typed n s) (h : Attuned n s) (hr : Returns (modifyMsg n f) s u t) :
    Typed n t ∧ Attuned n t := by
  obtain ⟨c, hc, rfl⟩ := returns_modifyChann.mp hr
  refine ⟨fun d hd => ?_, h.write hc rfl rfl rfl Iff.rfl⟩
  rw [setChann_self, Option.some.injEq] at hd
  exact hd ▸ hty c hc

/-- A step of the handshake of a channel with a connection. -/
theorem tlsAdvance_attuned {pass : Bool} (hty : Typed n s) (hc : s.heap n = some c) (hact : c.state.active) (h : Attuned n s)
    (hr : Returns (tlsAdvance n (some n)) s pass t) : Attuned n t := by
  obtain ⟨rfl, _⟩ | ⟨f, i, obj, op, ret, err, a, hs, hne, hf, hi, hk, hheap, hext, hreport⟩ := tlsAdvance_cases hc hr
  · exact h
  obtain ⟨hiff, hssl⟩ := h c f hc hne hf
  have hfup : f.state.active := hiff.mpr hact
  have hca : a.heap n = some c := hheap ▸ hc
  have hta : Typed n a := hty.kept hk hheap
  have ha : Attuned n a := by
    obtain hext | hext := hext
    · exact .of_up hca hact (by rw [hext]; exact hf) hfup (hssl hfup)
    · exact .of_up (f := { f with state := .connected }) hca hact (by rw [hext]; exact Function.update_self ..) trivial
        (hssl hfup)
  cases hs with
  | done =>
    rcases returns_ite.mp hreport with ⟨_, h⟩ | ⟨_, h⟩
    · simp only [returns_bind, returns_modifyUd, returns_pure] at h
      obtain ⟨_, b, hm, _, _, ⟨e, he, rfl⟩, _, rfl⟩ := h
      have hb := (modifyMsg_attuned hta ha hm).2
      exact hb.bypasses ⟨rfl, fun _ _ _ => .reface he rfl, rfl, fun _ _ _ => rfl⟩
    · simp only [returns_bind, returns_pure] at h
      obtain ⟨_, b, hm, _, rfl⟩ := h
      exact (modifyMsg_attuned hta ha hm).2
  | again =>
    obtain rfl := (returns_pure.mp hreport).2
    exact ha
  | failed =>
    simp only [tlsReport, Exec.forSome] at hreport
    rcases returns_ite.mp hreport with ⟨_, h⟩ | ⟨_, h⟩
    · simp only [returns_bind, returns_pure] at h
      obtain ⟨_, _, hdown, _, rfl⟩ := h
      exact tlsDisconnect_attuned hta ha hdown
    · simp only [returns_bind, returns_pure] at h
      obtain ⟨_, b, hm, _, _, hdown, _, rfl⟩ := h
      obtain ⟨htb, hb⟩ := modifyMsg_attuned hta ha hm
      exact tlsDisconnect_attuned htb hb hdown

theorem channMsg_attuned {event : ChannEvent} {q : Option ChannId} {err : Int} {pass : Bool} (hty : Typed n s)
    (hup : event.drives → ∃ c, s.heap n = some c ∧ c.state.active) (h : Attuned n s)
    (hr : Returns (channMsg tlsTable n event q err) s pass t) : Attuned n t := by
  obtain ⟨c, hc, ⟨_, hall⟩ | ⟨hev, _, hadv⟩⟩ := channMsg_drives hr
  · exact h.bypasses (hall n)
  obtain ⟨e, he, hact⟩ := hup hev
  obtain rfl := Option.some.inj (hc.symm.trans he)
  have hn : (s.setChann n { c with msg := msgOf n c event q err }).heap n = some { c with msg := msgOf n c event q err } :=
    setChann_self ..
  refine tlsAdvance_attuned (fun d hd => ?_) hn hact (h.write hc rfl rfl rfl Iff.rfl) hadv
  rw [hn, Option.some.injEq] at hd
  exact hd ▸ hty c hc

/-! ## Moves -/

theorem opened_attuned {ctype : Nat} (hb : Owned s) (hres : s.mnet.reserved ctype = true)
    (hnew : Returns (channCreate ctype .disconnect) s n a)
    (hcb : Returns (callback .openCb (extConfig tlsTable ctype).openCb n) a u t) : Attuned n t := by
  have hcr := channCreate_created hnew
  obtain ⟨_, _, rfl, hcb⟩ := returns_callback.mp hcb
  obtain ⟨q, hq⟩ := hcr.chann
  have hown : Owned (a.recorded (.extOp .openCb n)) := (hb.created hcr hres).steady steady_recorded
  obtain ⟨_, he⟩ | ⟨_, he⟩ := extConfig_cases ctype
  · rw [he] at hcb
    have hcb : Returns (tlsOpenCb n) _ _ t := hcb
    have ht := tlsOpenCb_cases (s := a.recorded _) hq (hown.typed n _ hq) hcb
    subst ht
    refine .of_down (setChann_self ..) (by exact id) fun d _ hd => ?_
    have hset : (a.ext.alloc .disconnect).uds a.ext.nextUd = some { state := .disconnect } := Function.update_self ..
    obtain rfl := Option.some.inj (hset.symm.trans hd)
    exact id
  · rw [he] at hcb
    obtain rfl := (returns_pure.mp hcb).2
    exact .of_none hq rfl

theorem accept_attuned {b : Sys Tls} {l : ChannId} {lc : Chann} {fd : Int} {addr : SockAddr} (hb : Owned s)
    (hl : s.heap l = some lc) (hnew : NewFd fd s a) (hheap : a.heap = s.heap)
    (hcreate : Returns (channCreate lc.ctype .connected) a n b) (hc : b.heap n = some c)
    (hcb : Returns ((extConfig tlsTable c.ctype).acceptCb n)
      ((b.setChann n { c with fd := fd, addr := addr }).recorded (.extOp .acceptCb n)) u t) : Attuned n t := by
  obtain ⟨ha, hcr, hla, _, hud, hset⟩ := accept_created addr hl hnew hheap hcreate hc
  have hown := ((hb.steady ha).created hcr ((hb.steady ha).typed l lc hla)).steady hset
  have hn : ((b.setChann n { c with fd := fd, addr := addr }).recorded (.extOp .acceptCb n)).heap n =
      some { c with fd := fd, addr := addr } := setChann_self ..
  have hst : c.state = .connected := by
    obtain ⟨p, hp⟩ := hcr.chann
    rw [hc, Option.some.injEq] at hp
    rw [hp]
  obtain ⟨hty, he⟩ | ⟨_, he⟩ := extConfig_cases c.ctype
  swap
  · rw [he] at hcb
    obtain rfl := (returns_pure.mp hcb).2
    exact .of_none hn hud
  rw [he] at hcb
  have hres := hown.typed n _ hn
  have hbegin := tlsAcceptCb_cases hn hres hcb
  obtain ⟨w, hwn, hreg, hext, hbegin⟩ : ∃ w : Sys Tls, w.heap n = some { c with fd := fd, addr := addr, extUd := b.ext.nextUd } ∧
      w.mnet = b.mnet ∧ w.ext = b.ext.alloc .listening ∧ Returns (tlsBegin n b.ext.nextUd .accept) w u t :=
    ⟨_, by exact setChann_self .., by rfl, by rfl, hbegin⟩
  refine tlsBegin_attuned (f := { state := .listening }) (fun e he => ?_) hwn (hst ▸ trivial) (by rw [hext]; exact Function.update_self ..) trivial hbegin
  obtain rfl := Option.some.inj (hwn.symm.trans he)
  rw [hreg]
  exact ⟨hres, fun _ => hty⟩

/-- A channel that gets a socket is up, unless its handshake fails at once. -/
theorem attach_attuned {b : Sys Tls} {fd r : Int} {addr : SockAddr} {raw : Nat} {st : ChannState} {op : ExtOp} {set : EvtSet}
    (hb : Owned s) (hc : s.heap n = some c) (hst : c.state = .disconnect) (hnew : NewFd fd s a)
    (hent : Entered raw op st set)
    (hheap : a.heap = Function.update s.heap n (some { c with fd := fd, addr := addr, state := st }))
    (hadd : Returns (evtAdd n set) a r b)
    (hcb : Returns ((extConfig tlsTable c.ctype).cb op n) (b.recorded (.extOp op n)) u t) : Attuned n t := by
  have hown := hb.steady (attach_steady hc hst hnew hent hheap hadd)
  obtain ⟨d, _, hctl⟩ := evtAdd_cases hadd
  obtain ⟨hact, _⟩ := hent.active
  obtain rfl : { c with fd := fd, addr := addr, state := st } = d := by
    have hwas := hctl.was
    rwa [hheap, Function.update_self, Option.some.injEq] at hwas
  have hbn := hctl.chann
  obtain ⟨hty, hext⟩ | ⟨hother, hext⟩ := extConfig_cases c.ctype
  swap
  · rw [hext, internalExt_cb] at hcb
    rw [(returns_pure.mp hcb).2]
    refine .of_none hbn ?_
    by_contra hne
    exact hother (hb.ud n c hc hne).1
  rw [hext] at hcb
  have hres := hown.typed n _ hbn
  obtain ⟨rfl, _⟩ | ⟨rfl, _⟩ := hent
  · obtain ⟨hz, rfl⟩ | ⟨hne, f, hf, hbegin⟩ := tlsConnectCb_cases (s := b.recorded _) hbn hres hcb
    · exact .of_none hbn hz
    · have hset : (b.ext.setUd c.extUd { f with state := .connecting }).uds c.extUd = some { f with state := .connecting } :=
        Function.update_self ..
      exact tlsBegin_attuned (Typed.withExt (hown.channTyped n) _) hbn hact hset trivial hbegin
  · obtain ⟨hz, rfl⟩ | ⟨_, rfl⟩ := tlsListenCb_cases (s := b.recorded _) hbn hres hcb
    · exact .of_none hbn hz
    · exact .of_none (setChann_self ..) rfl

theorem Move.attuned {d : Deed} (h : Move tlsTable s d t) (hb : Owned s) (hk : Berthed s) (hw : d ≠ .wipe)
    (hn : Attuned n s) : Attuned n t := by
  by_cases hm : d.meets n
  swap
  · exact hn.bypasses (h.aloof hb hk hm)
  -- on the channel itself
  cases h with
  | plain | forget | sendFlag | cache | address | bounce | leak | send | recv => exact hm.elim
  | wipe => exact absurd rfl hw
  | established hc hst =>
    obtain rfl := hm
    exact hn.write hc rfl rfl rfl (by simp [hst, ChannState.active])
  | ctl h =>
    obtain rfl := hm
    obtain ⟨_, _, hctl, _⟩ := evtCtl_cases h
    exact hn.write hctl.was hctl.heap hctl.ext rfl Iff.rfl
  | queue => exact hn.of_chann (fun d hd => ⟨d, hd, rfl, Iff.rfl⟩) fun _ _ _ => rfl
  | opened hres hnew hcb =>
    obtain rfl := hm
    exact opened_attuned hb hres hnew hcb
  | accept hl hnew hheap hcreate hc hcb =>
    obtain rfl := hm
    exact accept_attuned hb hl hnew hheap hcreate hc hcb
  | attach hc hdis hnew hent hheap hadd hcb =>
    obtain rfl := hm
    exact attach_attuned hb hc hdis hnew hent hheap hadd hcb
  | refuse hc _ hnew hheap _ =>
    obtain rfl := hm
    exact hn.write hc hheap hnew.ext rfl Iff.rfl
  | message hup h =>
    obtain rfl := hm
    exact channMsg_attuned (hb.channTyped _) hup hn h
  | disconnect h =>
    obtain rfl := hm
    exact disconnect_attuned (hb.channTyped _) hn h
  | close _ h =>
    obtain rfl := hm
    obtain rfl | ⟨_, d, _, hd, _, _, hz⟩ := close_unheld hb h
    · exact hn
    · exact .of_none hd hz
  | destroy h =>
    obtain rfl := hm
    obtain ⟨c, _, ⟨_, rfl⟩ | hdes⟩ := channDestroy_cases h
    · exact hn
    · exact .of_gone hdes.gone

theorem Moves.attuned (h : Moves tlsTable A s t) (hb : Owned s) (hk : Berthed s) (hw : .wipe ∉ A) (hn : Attuned n s) :
    Attuned n t := by
  refine (h.keeps (I := fun s => Owned s ∧ Berthed s ∧ Attuned n s) ?_ ⟨hb, hk, hn⟩).2.2
  intro d s t hd hm ⟨hb, hk, hn⟩
  have hne : d ≠ .wipe := fun he => hw (he ▸ hd)
  exact ⟨hm.owned hb hne, hm.berthed obedient_tlsTable hk, hm.attuned hb hk hne hn⟩

/-- One call. -/
theorem Step.attuned {i : Call × Ret} (h : Step tlsTable s i t) (ho : Ordered s) (hb : Owned s) (hk : Berthed s)
    (hn : Attuned n s) : Attuned n t := by
  obtain ⟨c, r⟩ := i
  by_cases hc : c = .mnetFini
  · subst hc
    obtain ⟨_, _, h⟩ := returns_ret.mp h
    obtain rfl | ⟨b, _, rfl, hnone⟩ := mnetFini_moves ho h
    · exact hn
    · exact .of_gone (hnone n)
  · exact (moves_apiCall c r t h).attuned hb hk (Call.spares hc) hn

theorem attuned_start (o : Oracle) : Attuned n (Sys.start o {}) := fun _ _ hc => by cases hc

end MNet
