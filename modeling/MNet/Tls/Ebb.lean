import MNet.Tls.Steady

/-! # Handshakes of accepted channels

The user data of an accepted channel is LISTENING until its handshake ends. Only `accept_cb` makes
such user data, and only the filter names its listener, so between these moves handshakes end and
none starts. -/

namespace MNet
open MNet.Lib MNet.Lib.Exec

variable {s t : Sys Tls} {n : ChannId} {c d : Chann} {tu : Nat} {ssl : Option SslId} {u : Unit} {K : Set ChannId}

/-! ## User data -/

/-- What is LISTENING was so before, for the same listener, and the log has only grown. -/
structure Tls.Ebbs (e e' : Tls) : Prop where
  log : e.log <:+ e'.log
  nextUd : e.nextUd ≤ e'.nextUd
  uds : ∀ tu d, e'.uds tu = some d → d.state = .listening →
    ∃ d', e.uds tu = some d' ∧ d'.state = .listening ∧ d.ln = d'.ln

namespace Tls.Ebbs

variable {e e' e'' : Tls}

theorem of_uds (huds : e'.uds = e.uds) (hnext : e'.nextUd = e.nextUd) (hlog : e.log <:+ e'.log) : e.Ebbs e' where
  log := hlog
  nextUd := Nat.le_of_eq hnext.symm
  uds _ d hd hst := ⟨d, huds ▸ hd, hst, rfl⟩

theorem refl (e : Tls) : e.Ebbs e := of_uds rfl rfl (List.suffix_refl _)

theorem trans (h : e.Ebbs e') (h' : e'.Ebbs e'') : e.Ebbs e'' where
  log := h.log.trans h'.log
  nextUd := Nat.le_trans h.nextUd h'.nextUd
  uds tu d hd hst := by
    obtain ⟨d', hd', hst', hln⟩ := h'.uds tu d hd hst
    obtain ⟨d'', hd'', hst'', hln'⟩ := h.uds tu d' hd' hst'
    exact ⟨d'', hd'', hst'', hln.trans hln'⟩

/-- One block of user data is written or freed. -/
theorem of_update {o : Option TlsUd} (huds : e'.uds = Function.update e.uds tu o) (hnext : e.nextUd ≤ e'.nextUd)
    (hlog : e.log <:+ e'.log)
    (ho : ∀ d, o = some d → d.state = .listening → ∃ d', e.uds tu = some d' ∧ d'.state = .listening ∧ d.ln = d'.ln) :
    e.Ebbs e' where
  log := hlog
  nextUd := hnext
  uds v d hd hst := by
    rw [huds] at hd
    by_cases hv : v = tu
    · subst hv
      rw [Function.update_self] at hd
      exact ho d hd hst
    · rw [Function.update_of_ne hv] at hd
      exact ⟨d, hd, hst, rfl⟩

theorem shaken (e : Tls) (i : SslId) (obj : Ssl) (op : SslOp) (ret err : Int) :
    e.Ebbs (e.shaken i obj op ret err) := of_uds rfl rfl (List.suffix_cons _ _)

theorem setUd {d : TlsUd} (hst : d.state = .listening → ∃ d', e.uds tu = some d' ∧ d'.state = .listening ∧ d.ln = d'.ln) :
    e.Ebbs (e.setUd tu d) :=
  of_update rfl (Nat.le_refl _) (List.suffix_refl _) fun _ hd hl => by
    obtain rfl := Option.some.inj hd
    exact hst hl

end Tls.Ebbs

/-! ## Channels -/

/-- What the handshakes have to do with a channel. -/
def Chann.stance (c : Chann) : Nat × Nat × ChannState × RwbHead × Bool :=
  (c.extUd, c.ctype, c.state, c.rwbSend, c.activeSendEvent)

/-- No handshake of an accepted channel starts, no channel is made, and those outside `K` stay in the
state they are in, with the same cache and the same SEND flag. -/
structure Ebb (K : Set ChannId) (s t : Sys Tls) : Prop where
  ext : s.ext.Ebbs t.ext
  chann : ∀ n d, t.heap n = some d → ∃ c, s.heap n = some c ∧ d.ctype = c.ctype ∧ (d.extUd = c.extUd ∨ d.extUd = 0) ∧
    (n ∉ K → d.state = c.state ∧ d.rwbSend = c.rwbSend ∧ d.activeSendEvent = c.activeSendEvent)
  opened : ∀ n c, s.heap n = some c → c.state ≠ .closed → ∃ d, t.heap n = some d ∧ d.state ≠ .closed

namespace Ebb

theorem of_stance (h : ∀ m, (t.heap m).map Chann.stance = (s.heap m).map Chann.stance) (hext : s.ext.Ebbs t.ext) :
    Ebb K s t where
  ext := hext
  chann n d hd := by
    have hn := h n
    rw [hd, Option.map_some] at hn
    obtain ⟨c, hc, he⟩ := Option.map_eq_some_iff.mp hn.symm
    exact ⟨c, hc, congrArg (·.2.1) he.symm, .inl (congrArg (·.1) he.symm), fun _ =>
      ⟨congrArg (·.2.2.1) he.symm, congrArg (·.2.2.2.1) he.symm, congrArg (·.2.2.2.2) he.symm⟩⟩
  opened n c hc hst := by
    have hn := h n
    rw [hc, Option.map_some] at hn
    obtain ⟨d, hd, he⟩ := Option.map_eq_some_iff.mp hn
    have hsame : d.state = c.state := congrArg (·.2.2.1) he
    exact ⟨d, hd, hsame ▸ hst⟩

theorem of_map (f : Chann → Chann) (hf : ∀ c, (f c).stance = c.stance)
    (h : ∀ m, (t.heap m).map f = (s.heap m).map f) (hext : t.ext = s.ext) : Ebb K s t := by
  refine of_stance (fun m => ?_) (hext ▸ .refl _)
  have hm := congrArg (Option.map Chann.stance) (h m)
  rwa [Option.map_map, Option.map_map, show Chann.stance ∘ f = Chann.stance from funext hf] at hm

theorem of_heap (hheap : t.heap = s.heap) (hext : s.ext.Ebbs t.ext) : Ebb K s t :=
  of_stance (fun m => by rw [hheap]) hext

theorem refl (s : Sys Tls) : Ebb K s s := of_heap rfl (.refl _)

theorem trans {a : Sys Tls} (h : Ebb K s a) (h' : Ebb K a t) : Ebb K s t where
  ext := h.ext.trans h'.ext
  chann n d hd := by
    obtain ⟨b, hb, hty, hud, hkeep⟩ := h'.chann n d hd
    obtain ⟨c, hc, hty', hud', hkeep'⟩ := h.chann n b hb
    refine ⟨c, hc, hty.trans hty', ?_, fun hn => ?_⟩
    · rcases hud with hud | hud
      · rw [hud]
        exact hud'
      · exact .inr hud
    · obtain ⟨hst, hrwb, hon⟩ := hkeep hn
      obtain ⟨hst', hrwb', hon'⟩ := hkeep' hn
      exact ⟨hst.trans hst', hrwb.trans hrwb', hon.trans hon'⟩
  opened n c hc hst := by
    obtain ⟨b, hb, hst⟩ := h.opened n c hc hst
    exact h'.opened n b hb hst

theorem mono {K' : Set ChannId} (h : Ebb K s t) (hK : K ⊆ K') : Ebb K' s t where
  ext := h.ext
  chann n d hd := by
    obtain ⟨c, hc, hty, hud, hkeep⟩ := h.chann n d hd
    exact ⟨c, hc, hty, hud, fun hn => hkeep fun hm => hn (hK hm)⟩
  opened := h.opened

/-- One channel is written to. -/
theorem of_update (hc : s.heap n = some c) (hheap : t.heap = Function.update s.heap n (some d)) (hext : s.ext.Ebbs t.ext)
    (hty : d.ctype = c.ctype) (hud : d.extUd = c.extUd ∨ d.extUd = 0) (hkeep : n ∉ K → d.state = c.state ∧ d.rwbSend = c.rwbSend ∧ d.activeSendEvent = c.activeSendEvent)
    (hopen : c.state ≠ .closed → d.state ≠ .closed) : Ebb K s t where
  ext := hext
  chann m e he := by
    rw [hheap] at he
    by_cases hm : m = n
    · subst hm
      rw [Function.update_self, Option.some.injEq] at he
      exact he ▸ ⟨c, hc, hty, hud, hkeep⟩
    · rw [Function.update_of_ne hm] at he
      exact ⟨e, he, rfl, .inl rfl, fun _ => ⟨rfl, rfl, rfl⟩⟩
  opened m e he hst := by
    rw [hheap]
    by_cases hm : m = n
    · subst hm
      rw [hc, Option.some.injEq] at he
      exact ⟨d, Function.update_self .., hopen (he ▸ hst)⟩
    · exact ⟨e, by rw [Function.update_of_ne hm, he], hst⟩

theorem of_set (hc : s.heap n = some c) (hd : d.stance = c.stance) : Ebb K s (s.setChann n d) := by
  have hst : d.state = c.state := congrArg (·.2.2.1) hd
  exact of_update hc rfl (.refl _) (congrArg (·.2.1) hd) (.inl (congrArg (·.1) hd))
    (fun _ => ⟨hst, congrArg (·.2.2.2.1) hd, congrArg (·.2.2.2.2) hd⟩) fun h => hst ▸ h

theorem recorded (s : Sys Tls) (e : SysEvent) : Ebb K s (s.recorded e) := of_heap rfl (.refl _)

end Ebb

instance : Std.Refl (Ebb K) := ⟨Ebb.refl⟩

instance : IsTrans (Sys Tls) (Ebb K) := ⟨fun _ _ _ => Ebb.trans⟩

theorem Plain.ebb (h : Plain s t) : Ebb K s t := .of_map Chann.face (fun _ => rfl) h.face h.ext

theorem Wired.ebb (h : Wired s t) : Ebb K s t :=
  .of_map (fun c => { c with addr := {} }) (fun _ => rfl) h.heap h.ext

theorem Controlled.ebb {ev : BitVec 32} (h : Controlled n c ev s t) : Ebb K s t :=
  .of_update h.was h.heap (h.ext ▸ .refl _) rfl (.inl rfl) (fun _ => ⟨rfl, rfl, rfl⟩) id

/-! ## The SSL library and user data -/

theorem ebb_modifyTls {f : Tls → Tls} (hf : ∀ e : Tls, e.Ebbs (f e)) : Within (Ebb K) (modifyTls f) s := by
  intro _ t h
  rw [modifyTls, returns_modify] at h
  subst h
  exact .of_heap rfl (hf s.ext)

theorem ebb_modifyChann {f : Chann → Chann} (hf : ∀ c, (f c).stance = c.stance) :
    Within (Ebb K) (modifyChann n f) s := by
  intro _ t h
  obtain ⟨c, hc, rfl⟩ := returns_modifyChann.mp h
  exact .of_set hc (hf c)

theorem ebb_modifyUd {f : TlsUd → TlsUd}
    (hf : ∀ d, s.ext.uds tu = some d → (f d).state = .listening → d.state = .listening ∧ (f d).ln = d.ln) :
    Within (Ebb K) (modifyUd tu f) s := by
  intro _ t h
  obtain ⟨d, hd, rfl⟩ := returns_modifyUd.mp h
  exact .of_heap rfl (.setUd fun hst => ⟨d, hd, hf d hd hst⟩)

theorem ebb_dropUd : Within (Ebb K) (mnetExtChannSetUd (some n) 0 : TlsM Unit) s :=
  .deref_bind fun c hc => .read_bind <| .ite (fun _ => fun _ t h => by
    obtain ⟨c, hc, rfl⟩ := returns_modifyChann.mp h
    exact .of_update hc rfl (.refl _) rfl (.inr rfl) (fun _ => ⟨rfl, rfl, rfl⟩) id) fun _ => within_pure ()

theorem ebb_freeUd : Within (Ebb K) (freeUd tu) s :=
  ebb_modifyTls fun _ => .of_update rfl (Nat.le_refl _) (List.suffix_refl _) fun _ hd => by cases hd

theorem ebb_sslFree : Within (Ebb K) (sslFree ssl) s :=
  .derefSsl_bind fun _ _ _ _ => ebb_modifyTls fun _ => .of_uds rfl rfl (List.suffix_cons _ _)

theorem ebb_sysRet : Within (Ebb K) (sysRet : TlsM Int) s := by
  intro r t h
  obtain ⟨_, rfl⟩ := sysRet_spec h
  exact .of_heap rfl (.refl _)

theorem ebb_sslReset : Within (Ebb K) (sslReset ssl) s :=
  .derefSsl_bind fun _ _ _ _ => .bind ebb_sysRet fun _ _ _ => ebb_modifyTls fun _ => .of_uds rfl rfl (List.suffix_refl _)

theorem ebb_tlsHandshake {op : SslOp} : Within (Ebb K) (tlsHandshake tu op) s := by
  intro h t hr
  obtain ⟨d, i, obj, ret, err, hd, _, _, _, hheap, hcases⟩ := tlsHandshake_cases hr
  refine .of_heap hheap ?_
  obtain ⟨_, _, hext⟩ | ⟨_, _, _, hext⟩ | ⟨_, _, _, hext⟩ := hcases
  · rw [hext]
    refine (Tls.Ebbs.shaken ..).trans (.setUd fun hst => ?_)
    cases hst
  · rw [hext]
    exact .shaken ..
  · rw [hext]
    exact .shaken ..

/-! ## Callbacks -/

theorem ebb_tlsDisconnectCb : Within (Ebb K) (tlsDisconnectCb n) s :=
  .getUd_bind fun _ => .ite (fun _ => .derefUd_bind fun _ _ => .ite
    (fun _ => (ebb_modifyUd fun _ _ hst => by cases hst).bind fun _ _ _ => ebb_sslReset) fun _ => within_pure ())
    fun _ => within_pure ()

theorem ebb_disconnectCb {ctype : Nat} : Within (Ebb K) ((opsConfig (opsOf tlsTable) ctype).disconnectCb n) s := by
  rw [opsConfig_opsOf]
  obtain ⟨_, he⟩ | ⟨_, he⟩ := extConfig_cases ctype
  · rw [he]
    exact ebb_tlsDisconnectCb
  · rw [he]
    exact within_pure ()

theorem ebb_disconnectSocket (hn : n ∈ K) : Within (Ebb K) (channDisconnectSocket (opsOf tlsTable) n) s := by
  intro r t h
  obtain ⟨c, hc, ⟨_, _, rfl⟩ | ⟨_, _, _, a, d, u, hcb, hrel⟩⟩ := channDisconnectSocket_cases h
  · exact .refl _
  have ha : Ebb K s a := (Ebb.recorded s _).trans (ebb_disconnectCb _ _ hcb)
  exact ha.trans (.of_update hrel.was hrel.heap (hrel.ext ▸ .refl _) rfl (.inl rfl) (fun hno => absurd hn hno) fun _ => by simp)

theorem ebb_tlsDisconnect (hn : n ∈ K) : Within (Ebb K) (tlsDisconnect n) s := by
  rw [tlsDisconnect, ← opsOf_tlsTable]
  exact .bind (ebb_disconnectSocket hn) fun _ _ _ => within_pure ()

theorem ebb_tlsBegin {op : SslOp} (hn : n ∈ K) : Within (Ebb K) (tlsBegin n tu op) s := by
  intro u t h
  obtain ⟨c, d, ret, err, a, _, hd, _, hheap, hext, hcases⟩ := tlsBegin_cases h
  have ha : Ebb K s a := by
    refine .of_heap hheap ?_
    rw [hext]
    refine .of_update rfl (Nat.le_refl _) ⟨[_, _], rfl⟩ fun d' hd' hst => ?_
    obtain rfl := Option.some.inj hd'
    refine ⟨d, hd, ?_, rfl⟩
    by_cases hret : ret = 1
    · simp [hret] at hst
    · simpa [hret] using hst
  obtain ⟨_, rfl⟩ | ⟨_, _, hdown⟩ := hcases
  · exact ha
  · exact ha.trans (ebb_tlsDisconnect hn _ _ hdown)

theorem ebb_tlsConnectCb (hn : n ∈ K) : Within (Ebb K) (tlsConnectCb n) s :=
  .getUd_bind fun _ => .ite (fun _ => (ebb_modifyUd fun _ _ hst => by cases hst).bind fun _ _ _ => ebb_tlsBegin hn)
    fun _ => within_pure ()

theorem ebb_tlsListenCb : Within (Ebb K) (tlsListenCb n) s :=
  .getUd_bind fun _ => .ite (fun _ => ebb_dropUd.bind fun _ _ _ => ebb_freeUd) fun _ => within_pure ()

theorem ebb_tlsCloseCb : Within (Ebb K) (tlsCloseCb n) s :=
  .getUd_bind fun _ => .ite (fun _ => .derefUd_bind fun _ _ => .ite
    (fun _ => (ebb_modifyUd fun _ _ hst => by cases hst).bind fun _ _ _ => .bind (.when fun _ => ebb_sslFree)
      fun _ _ _ => ebb_freeUd.bind fun _ _ _ => ebb_dropUd) fun _ => within_pure ()) fun _ => within_pure ()

theorem ebb_tlsTransferFn {len : Nat} : Within (Ebb K) (tlsTransferFn n len) s := by
  intro r t h
  obtain ⟨hheap, hext | ⟨i, obj, obj', _, hext⟩⟩ := tlsTransferFn_cases h
  · exact .of_heap hheap (hext ▸ .refl _)
  · exact .of_heap hheap (hext ▸ .of_uds rfl rfl (List.suffix_refl _))

/-! ## The filter -/

theorem ebb_modifyMsg (f : ChannMsg → ChannMsg) : Within (Ebb K) (modifyMsg n f) s := ebb_modifyChann fun _ => rfl

/-- What follows the handshake of a message, which hangs up the channel `p`. -/
theorem ebb_tlsReport {d : TlsUd} {p : Option ChannId} {h : Handshake} (hp : ∀ m, p = some m → m ∈ K)
    (hdone : h = .done → ∀ e, s.ext.uds tu = some e → e.state ≠ .listening) :
    Within (Ebb K) (tlsReport n tu d p h) s := by
  have hdown : ∀ s, Within (Ebb K) (Exec.forSome p tlsDisconnect) s := fun _ => .forSome fun m hm => ebb_tlsDisconnect (hp m hm)
  cases h with
  | done =>
    refine .ite (fun _ => ?_) fun _ => (ebb_modifyMsg _).bind fun _ _ _ => within_pure _
    refine (ebb_modifyMsg _).bind fun _ a ha => (ebb_modifyUd fun e he hst => ?_).bind fun _ _ _ => within_pure _
    obtain ⟨c, _, rfl⟩ := returns_modifyChann.mp ha
    exact absurd hst (hdone rfl e he)
  | again => exact within_pure _
  | failed =>
    refine .ite (fun _ => ?_) fun _ => ?_
    · exact (hdown _).bind fun _ _ _ => within_pure _
    · exact (ebb_modifyMsg _).bind fun _ _ _ => (hdown _).bind fun _ _ _ => within_pure _

theorem ebb_tlsAdvance {p : Option ChannId} (hp : ∀ m, p = some m → m ∈ K) : Within (Ebb K) (tlsAdvance n p) s := by
  refine .getUd_bind fun tu => .ite (fun _ => within_pure _) fun _ => .derefUd_bind fun d hd => .ite
    (fun _ => within_pure _) fun _ => .bind ebb_tlsHandshake fun h a ha => ebb_tlsReport hp fun hdone e he => ?_
  obtain ⟨d', i, obj, ret, err, _, _, _, _, _, ⟨_, _, hext⟩ | ⟨hno, _⟩ | ⟨hno, _⟩⟩ := tlsHandshake_cases ha
  · have hset : a.ext.uds tu = some { d' with state := .connected } := by
      rw [hext]
      exact Function.update_self ..
    rw [hset, Option.some.injEq] at he
    rw [← he]
    exact ChannState.noConfusion
  · rw [hno] at hdone
    cases hdone
  · rw [hno] at hdone
    cases hdone

/-- A message of `n` may end a handshake, or hang up `n`. -/
theorem ebb_channMsg {event : ChannEvent} {q : Option ChannId} {err : Int} (hev : event ≠ .accept)
    (hn : event = .connected ∨ event = .recv → n ∈ K) : Within (Ebb K) (channMsg tlsTable n event q err) s := by
  intro pass t h
  obtain ⟨c, hc, h⟩ := channMsg_cases h
  have hset : Ebb K s (s.setChann n { c with msg := msgOf n c event q err }) := .of_set hc rfl
  obtain ⟨_, he⟩ | ⟨_, he⟩ := extConfig_cases c.ctype
  swap
  · rw [he] at h
    rw [(returns_pure.mp h).2]
    exact hset
  rw [he] at h
  have h : Returns (tlsFilterFn n) _ pass t := h
  simp only [tlsFilterFn, returns_bind, returns_deref, and_assoc, exists_and_left, exists_eq_left] at h
  obtain ⟨d, hd, h⟩ := h
  rw [setChann_self, Option.some.injEq] at hd
  subst hd
  have hadvance : event = .connected ∨ event = .recv → Within (Ebb K) (tlsAdvance n (some n))
      (s.setChann n { c with msg := msgOf n c event q err }) := fun hev => ebb_tlsAdvance fun m hm => by
    obtain rfl := Option.some.inj hm
    exact hn hev
  cases event with
  | accept => exact absurd rfl hev
  | connected => exact hset.trans (hadvance (.inl rfl) _ _ h)
  | recv => exact hset.trans (hadvance (.inr rfl) _ _ h)
  | send | disconnect | timer =>
    rw [(returns_pure.mp h).2]
    exact hset

/-! ## Moves -/

theorem ebb_channSend {data : List UInt8} : Within (Ebb K) (channSend tlsTable n data) s := by
  intro r t h
  obtain ⟨c, a, _, hsend, ht⟩ := channSend_cases h
  have ha : Ebb K s a := by
    obtain ⟨_, he⟩ | ⟨_, he⟩ := extConfig_cases c.ctype
    · rw [he] at hsend
      exact ebb_tlsTransferFn _ _ hsend
    · rw [he] at hsend
      exact (wired_internal_sendFn _ _ _ _ hsend).ebb
  have hrec : Ebb K s (a.recorded (.sendFn n data r)) := ha.trans (.recorded a _)
  obtain ⟨_, rfl⟩ | ⟨_, d, hd, rfl⟩ := ht
  · exact hrec
  · exact hrec.trans (.of_set hd rfl)

theorem Destroyed.ebb (h : Destroyed n c s t) : Ebb K s t where
  ext := h.ext ▸ .refl _
  chann m d hd := by
    by_cases hm : m = n
    · rw [hm, h.gone] at hd
      cases hd
    have hbare := h.bare m hm
    rw [hd, Option.map_some] at hbare
    obtain ⟨e, he, heq⟩ := Option.map_eq_some_iff.mp hbare.symm
    have hst : e.bare.stance = d.bare.stance := congrArg Chann.stance heq
    exact ⟨e, he, congrArg (·.2.1) hst.symm, .inl (congrArg (·.1) hst.symm), fun _ =>
      ⟨congrArg (·.2.2.1) hst.symm, congrArg (·.2.2.2.1) hst.symm, congrArg (·.2.2.2.2) hst.symm⟩⟩
  opened m e he hst := by
    have hm : m ≠ n := by
      rintro rfl
      rw [h.was, Option.some.injEq] at he
      exact hst (he ▸ h.closed)
    have hbare := h.bare m hm
    rw [he, Option.map_some] at hbare
    obtain ⟨d, hd, heq⟩ := Option.map_eq_some_iff.mp hbare
    have hsame : d.state = e.state := congrArg (·.bare.state) heq
    exact ⟨d, hd, hsame ▸ hst⟩

/-- A channel that has no socket gets one, and its callback runs. -/
theorem attach_ebb {a b : Sys Tls} {fd r : Int} {addr : SockAddr} {raw : Nat} {st : ChannState} {op : ExtOp} {set : EvtSet}
    (hn : n ∈ K) (hc : s.heap n = some c) (hnew : NewFd fd s a) (hent : Entered raw op st set)
    (hheap : a.heap = Function.update s.heap n (some { c with fd := fd, addr := addr, state := st }))
    (hadd : Returns (evtAdd n set) a r b)
    (hcb : Returns ((extConfig tlsTable c.ctype).cb op n) (b.recorded (.extOp op n)) u t) : Ebb K s t := by
  obtain ⟨hact, _⟩ := hent.active
  have hopen : st ≠ .closed := by
    rintro rfl
    exact hact
  have ha : Ebb K s a :=
    .of_update hc hheap (hnew.ext ▸ .refl _) rfl (.inl rfl) (fun hno => absurd hn hno) fun _ => hopen
  obtain ⟨_, _, hctl⟩ := evtAdd_cases hadd
  have hb : Ebb K s (b.recorded (.extOp op n)) := ha.trans (hctl.ebb.trans (.recorded b _))
  obtain ⟨_, he⟩ | ⟨_, he⟩ := extConfig_cases c.ctype
  swap
  · rw [he, internalExt_cb] at hcb
    rw [(returns_pure.mp hcb).2]
    exact hb
  rw [he] at hcb
  obtain ⟨rfl, _⟩ | ⟨rfl, _⟩ := hent
  · exact hb.trans (ebb_tlsConnectCb hn _ _ hcb)
  · exact hb.trans (ebb_tlsListenCb _ _ hcb)

/-- The moves that make and close no channel and name no listener, and that only change the state, the
cache and the SEND flag of a channel of `K`. -/
def Deed.mild (K : Set ChannId) : Deed → Prop
  | .opened _ | .accept .. | .close _ | .message _ .accept => False
  | .cache n | .sendFlag n | .established n | .attach n _ | .disconnect n | .message n .connected | .message n .recv => n ∈ K
  | _ => True

theorem Move.ebb {d : Deed} (h : Move tlsTable s d t) (hd : d.mild K) : Ebb K s t := by
  cases h with
  | plain h => exact h.ebb
  | forget hc | address hc => exact .of_set hc rfl
  | cache hc | sendFlag hc => exact .of_update hc rfl (.refl _) rfl (.inl rfl) (fun hno => absurd hd hno) id
  | established hc hst =>
    exact .of_update hc rfl (.refl _) rfl (.inl rfl) (fun hno => absurd hd hno) fun _ => ChannState.noConfusion
  | ctl h =>
    obtain ⟨_, _, hctl, _⟩ := evtCtl_cases h
    exact hctl.ebb
  | queue | wipe => exact .of_heap rfl (.refl _)
  | attach hc _ hnew hent hheap hadd hcb => exact attach_ebb hd hc hnew hent hheap hadd hcb
  | refuse hc _ hnew hheap _ => exact .of_update hc hheap (hnew.ext ▸ .refl _) rfl (.inl rfl) (fun _ => ⟨rfl, rfl, rfl⟩) id
  | bounce hc _ hnew hheap hclose =>
    obtain ⟨hth, _, _, hext, _⟩ := sysClose_cases hclose
    have ha := Ebb.of_update (K := K) hc hheap (hnew.ext ▸ .refl _) rfl (.inl rfl) (fun _ => ⟨rfl, rfl, rfl⟩) id
    exact ha.trans (.of_heap hth (hext ▸ .refl _))
  | leak hnew hheap _ => exact .of_heap hheap (hnew.ext ▸ .refl _)
  | @message _ n event _ _ _ _ h =>
    refine ebb_channMsg ?_ ?_ _ _ h
    · rintro rfl
      exact hd
    · rintro (rfl | rfl)
      · exact hd
      · exact hd
  | send h => exact ebb_channSend _ _ h
  | @recv b _ c _ _ _ h =>
    refine Ebb.trans (a := b) ?_ (.recorded b _)
    obtain ⟨_, he⟩ | ⟨_, he⟩ := extConfig_cases c.ctype
    · rw [he] at h
      exact ebb_tlsTransferFn _ _ h
    · rw [he] at h
      exact (wired_internal_recvFn _ _ _ _ h).ebb
  | disconnect h => exact ebb_disconnectSocket hd _ _ h
  | destroy h =>
    obtain ⟨c, _, ⟨_, rfl⟩ | hdes⟩ := channDestroy_cases h
    · exact .refl _
    · exact hdes.ebb
  | opened | accept | close => exact hd.elim

theorem Moves.ebb {A : Set Deed} (h : Moves tlsTable A s t) (hA : ∀ d ∈ A, d.mild K) : Ebb K s t :=
  h.keeps (I := Ebb K s) (fun d _ _ hd hm hs => hs.trans (hm.ebb (hA d hd))) (.refl s)

/-! ## Calls -/

/-- The channel a call is made on. -/
def Call.names : Call → Option ChannId
  | .channClose n | .channConnect n _ _ | .channDisconnect n | .channListen n _ _ _ | .channSetOpaque n _
  | .channActiveEvent n _ _ | .channRecv n _ _ | .channSend n _ | .dgramRecv n _ _ | .dgramSend n _ _
  | .socketSetBufsize n _ => n
  | _ => none

/-- A call on a channel of `K` makes, closes and accepts none, unless it says so. -/
theorem Call.deeds_mild {i : Call} (hnames : ∀ n, i.names = some n → n ∈ K) (hloop : ∀ fuel, i ≠ .resultNext fuel)
    (hopen : ∀ ctype, i ≠ .channOpen ctype) (hclose : ∀ n, i ≠ .channClose n) (hfini : i ≠ .mnetFini) :
    ∀ d ∈ i.deeds, d.mild K := by
  have hfail : ∀ n, i.names = some n → ∀ d ∈ failDeeds n, d.mild K := by
    rintro n hn d (rfl | rfl | rfl)
    · trivial
    · exact hnames n hn
    · trivial
  have hsend : ∀ n, i.names = some n → ∀ d ∈ sendDeeds n, d.mild K := by
    rintro n hn d ((hd | rfl | rfl) | rfl)
    · exact hfail n hn d hd
    · trivial
    · exact hnames n hn
    · trivial
  have hconnect : ∀ n, i.names = some n → ∀ d ∈ connectDeeds n, d.mild K := by
    rintro n hn d (rfl | rfl | rfl | rfl)
    · trivial
    · trivial
    · trivial
    · exact hnames n hn
  have hrecv : ∀ n, i.names = some n → ∀ d ∈ recvDeeds n, d.mild K := by
    rintro n hn d (hd | rfl)
    · exact hfail n hn d hd
    · trivial
  intro d hd
  cases i with
  | resultNext fuel => exact absurd rfl (hloop fuel)
  | channOpen ctype => exact absurd rfl (hopen ctype)
  | channClose n => exact absurd rfl (hclose n)
  | mnetFini => exact absurd rfl hfini
  | mnetInit =>
    obtain rfl | rfl := hd
    all_goals trivial
  | multiResetEvent =>
    obtain rfl | ⟨n, rfl | rfl⟩ := hd
    all_goals trivial
  | poll =>
    obtain rfl | ⟨n, rfl⟩ := hd
    all_goals trivial
  | channConnect n =>
    cases n with
    | none =>
      obtain rfl := hd
      trivial
    | some n => exact hconnect n rfl d hd
  | channDisconnect n =>
    cases n with
    | none =>
      obtain rfl := hd
      trivial
    | some n =>
      obtain rfl := hd
      exact hnames n rfl
  | channListen n =>
    cases n with
    | none =>
      obtain rfl := hd
      trivial
    | some n =>
      obtain rfl | rfl | rfl := hd
      · trivial
      · trivial
      · exact hnames n rfl
  | channActiveEvent n =>
    cases n with
    | none =>
      obtain rfl := hd
      trivial
    | some n =>
      obtain rfl | rfl | rfl := hd
      · trivial
      · exact hnames n rfl
      · trivial
  | channRecv n | dgramRecv n =>
    cases n with
    | none =>
      obtain rfl := hd
      trivial
    | some n => exact hrecv n rfl d hd
  | channSend n =>
    cases n with
    | none =>
      obtain rfl := hd
      trivial
    | some n => exact hsend n rfl d hd
  | dgramSend n =>
    cases n with
    | none =>
      obtain rfl := hd
      trivial
    | some n =>
      obtain hd | hd | rfl := hd
      · exact hconnect n rfl d hd
      · exact hsend n rfl d hd
      · trivial
  | _ =>
    obtain rfl := hd
    trivial

/-! ## Records -/

theorem ebb_evtAdd {set : EvtSet} : Within (Ebb K) (evtAdd n set : TlsM Int) s := by
  intro r t h
  obtain ⟨_, _, hctl⟩ := evtAdd_cases h
  exact hctl.ebb

theorem ebb_evtDel {set : EvtSet} : Within (Ebb K) (evtDel n set : TlsM Int) s := by
  intro r t h
  obtain ⟨_, _, hctl⟩ := evtDel_cases h
  exact hctl.ebb

theorem ebb_tmNext {fuel : Nat} : Within (Ebb K) (tmNext tlsTable fuel) s := fun q t h =>
  Moves.ebb (moves_tmNext (fun _ hd => hd) q t h) fun d hd => by
    obtain rfl | ⟨_, rfl⟩ := hd
    · trivial
    · trivial

theorem ebb_channSendedRwb (hn : n ∈ K) : Within (Ebb K) (channSendedRwb tlsTable n) s := fun r t h =>
  Moves.ebb (moves_channSendedRwb (fun _ hd => hd) r t h) fun d hd => by
    obtain (rfl | rfl | rfl) | rfl | rfl := hd
    · trivial
    · exact hn
    · trivial
    · trivial
    · exact hn

theorem ebb_emit {event : ChannEvent} {q : Option ChannId} {err : Int} (hn : n ∈ K) (hev : event ≠ .accept) :
    Within (Ebb K) (emit tlsTable n event q err) s :=
  (ebb_channMsg hev fun _ => hn).bind fun _ _ _ => within_pure _

theorem ebb_evtConnecting (hn : n ∈ K) : Within (Ebb K) (evtConnecting tlsTable n) s :=
  .deref_bind fun c _ => .bind (fun _ _ h => (outside_sysSockError _ _ _ h).plain.ebb) fun _ _ _ => .ite
    (fun _ => .bind ebb_evtDel fun _ _ _ => .bind ebb_evtAdd fun _ _ _ => .bind (fun _ _ h => by
        obtain ⟨d, hd, rfl⟩ := returns_modifyChann.mp h
        exact .of_update hd rfl (.refl _) rfl (.inl rfl) (fun hno => absurd hn hno) fun _ => ChannState.noConfusion)
      fun _ _ _ => ebb_emit hn (by simp))
    fun _ => .bind (ebb_disconnectSocket hn) fun _ _ _ => ebb_emit hn (by simp)

theorem ebb_evtConnected {kev : Kev} (hn : n ∈ K) : Within (Ebb K) (evtConnected tlsTable n kev) s :=
  .ite (fun _ => ebb_emit hn (by simp)) fun _ => .ite (fun _ => .bind (ebb_channSendedRwb hn) fun _ _ _ => .ite
    (fun _ => .deref_bind fun _ _ => .ite (fun _ => ebb_emit hn (by simp)) fun _ =>
      .bind ebb_evtDel fun _ _ _ => within_pure _) fun _ => within_pure _) fun _ => within_pure _

/-! ## A channel that is accepted -/

/-- A call of `SSL_accept` that failed for good. -/
def SslEvent.fatal : SslEvent → Prop
  | .handshake _ .accept ret err => ret ≠ 1 ∧ ¬ Again err
  | _ => False

instance : DecidablePred SslEvent.fatal
  | .handshake _ .accept ret err => inferInstanceAs (Decidable (ret ≠ 1 ∧ ¬ Again err))
  | .handshake _ .connect _ _ | .new .. | .free _ => instDecidableFalse

/-- No `SSL_accept` has failed. -/
def Tls.Clean (e : Tls) : Prop := ∀ ev ∈ e.log, ¬ ev.fatal

instance {e : Tls} : Decidable e.Clean := inferInstanceAs (Decidable (∀ ev ∈ e.log, ¬ ev.fatal))

theorem Tls.Clean.before {e e' : Tls} (h : e'.Clean) (hlog : e.log <:+ e'.log) : e.Clean :=
  fun ev hev => h ev (hlog.subset hev)

/-- Nothing waits in the cache of the channel, and no SEND event is asked for. -/
def Chann.idle (c : Chann) : Prop := c.rwbSend = [] ∧ c.activeSendEvent = false

/-- A channel that was accepted, and that no call has been made on, is connected or has been hung up. -/
def Chann.settled (c : Chann) : Prop := (c.state = .connected ∨ c.state = .disconnect) ∧ c.idle

/-- The channel `m` may be new. The others stay in the state they are in, with the same cache and the same SEND flag. -/
structure Born (m : ChannId) (s t : Sys Tls) : Prop where
  chann : ∀ n d, n ≠ m → t.heap n = some d → ∃ c, s.heap n = some c ∧ d.ctype = c.ctype ∧ (d.extUd = c.extUd ∨ d.extUd = 0) ∧
    d.state = c.state ∧ d.rwbSend = c.rwbSend ∧ d.activeSendEvent = c.activeSendEvent
  opened : ∀ n c, s.heap n = some c → c.state ≠ .closed → ∃ d, t.heap n = some d ∧ d.state ≠ .closed

/-- The channel `m` is new, of the type of its listener and CONNECTED, unless the first call of its handshake
failed; its user data has the next number. -/
structure Admitted (lc : Chann) (m : ChannId) (s t : Sys Tls) : Prop extends Born m s t where
  log : s.ext.log <:+ t.ext.log
  nextUd : s.ext.nextUd ≤ t.ext.nextUd
  uds : ∀ tu d, t.ext.uds tu = some d → d.state = .listening →
    (∃ d', s.ext.uds tu = some d' ∧ d'.state = .listening ∧ d.ln = d'.ln) ∨ (tu = s.ext.nextUd ∧ tu < t.ext.nextUd)
  new : ∃ c, t.heap m = some c ∧ c.ctype = lc.ctype ∧ c.settled ∧ (t.ext.Clean → c.state = .connected) ∧
    (c.extUd = 0 ∨ (c.ctype = CHANN_TYPE_TLS ∧ c.extUd = s.ext.nextUd ∧ s.ext.nextUd < t.ext.nextUd ∧
      t.mnet.reserved c.ctype = true))

theorem Created.stance {ctype : Nat} {st : ChannState} (h : Created n ctype st s t) {m : ChannId} (hm : m ≠ n) :
    (t.heap m).map Chann.stance = (s.heap m).map Chann.stance := by
  rw [h.others m hm, Option.map_map]
  congr 1
  funext c
  dsimp only [Function.comp]
  split <;> rfl

/-- A disconnect hangs the channel up, or leaves it as it is. -/
theorem tlsDisconnect_settled (hc : s.heap n = some c) (h : Returns (tlsDisconnect n) s u t) :
    ∃ d, t.heap n = some d ∧ (c.settled → d.settled) := by
  rw [tlsDisconnect, ← opsOf_tlsTable] at h
  obtain ⟨_, b, hdis, hb⟩ := returns_bind.mp h
  rw [(returns_pure.mp hb).2]
  obtain ⟨f, hf, ⟨_, _, rfl⟩ | ⟨_, _, _, v, g, _, hcb, hrel⟩⟩ := channDisconnectSocket_cases hdis
  · exact ⟨c, hc, id⟩
  have hv : Ebb ∅ s v := (Ebb.recorded s _).trans (ebb_disconnectCb _ _ hcb)
  obtain ⟨c', hc', _, _, hkeep⟩ := hv.chann n g hrel.was
  obtain rfl := Option.some.inj (hc.symm.trans hc')
  obtain ⟨_, _, hon⟩ := hkeep (Set.notMem_empty n)
  rw [hrel.heap]
  exact ⟨_, Function.update_self .., fun hset => ⟨.inr rfl, rfl, hon.trans hset.2.2⟩⟩

/-- The first call of the handshake leaves the channel as it is unless it fails for good. -/
theorem tlsBegin_new (hc : s.heap n = some c) (h : Returns (tlsBegin n tu .accept) s u t) :
    ∃ d, t.heap n = some d ∧ d.extUd = c.extUd ∧ d.ctype = c.ctype ∧ (c.settled → d.settled) ∧
      (t.ext.Clean → d.state = c.state) ∧ (c.state ≠ .closed → d.state ≠ .closed) ∧
        ∀ ctype, s.mnet.reserved ctype = true → t.mnet.reserved ctype = true := by
  obtain ⟨c', d, ret, err, a, _, _, hk, hheap, hext, ⟨_, rfl⟩ | ⟨hret, hagain, hdown⟩⟩ := tlsBegin_cases h
  · exact ⟨c, hheap ▸ hc, rfl, rfl, id, fun _ => rfl, id, fun _ hres => hk.mnet ▸ hres⟩
  have hsteady := steady_tlsDisconnect _ _ hdown
  have hca : a.heap n = some c := hheap ▸ hc
  have hn := hsteady.holder n
  rw [hca, Option.map_some] at hn
  obtain ⟨e, he, heq⟩ := Option.map_eq_some_iff.mp hn
  have hcl : decide (e.state = .closed) = decide (c.state = .closed) := congrArg (·.2.2) heq
  refine ⟨e, he, congrArg (·.1) heq, congrArg (·.2.1) heq, fun hset => ?_, fun hclean => ?_,
    fun hst => by simpa [hst] using hcl, fun ctype hres => hsteady.reserved ctype (hk.mnet ▸ hres)⟩
  · obtain ⟨f, hf, hkept⟩ := tlsDisconnect_settled hca hdown
    obtain rfl := Option.some.inj (he.symm.trans hf)
    exact hkept hset
  · have hlog : a.ext.log <:+ t.ext.log := (ebb_tlsDisconnect (Set.mem_univ n) _ _ hdown).ext.log
    refine absurd ⟨hret, hagain⟩ (hclean.before hlog (.handshake s.ext.nextSsl .accept ret err) ?_)
    rw [hext]
    exact List.mem_cons_self

/-- What a callback on the new channel leaves, which the others do not notice. -/
theorem Ebb.admitted {v w : Sys Tls} {lc : Chann} {m : ChannId} (hold : ∀ n, n ≠ m → (v.heap n).map Chann.stance = (s.heap n).map Chann.stance)
    (hsame : ∀ n, n ≠ m → w.heap n = v.heap n) (hlog : s.ext.log <:+ w.ext.log) (hnext : s.ext.nextUd ≤ w.ext.nextUd)
    (huds : ∀ tu, w.ext.uds tu = s.ext.uds tu ∨ (tu = s.ext.nextUd ∧ tu < w.ext.nextUd)) (h : Ebb {m} w t)
    (hd : t.heap m = some d) (hty : d.ctype = lc.ctype) (hset : d.settled) (hst : t.ext.Clean → d.state = .connected) (hopen : d.state ≠ .closed)
    (hud : d.extUd = 0 ∨ (d.ctype = CHANN_TYPE_TLS ∧ d.extUd = s.ext.nextUd ∧ s.ext.nextUd < t.ext.nextUd ∧
      t.mnet.reserved d.ctype = true)) : Admitted lc m s t where
  chann n e hn he := by
    obtain ⟨f, hf, hty, hud, hkeep⟩ := h.chann n e he
    have hn' := hold n hn
    rw [← hsame n hn, hf, Option.map_some] at hn'
    obtain ⟨g, hg, heq⟩ := Option.map_eq_some_iff.mp hn'.symm
    have hgud : g.extUd = f.extUd := congrArg (·.1) heq
    have hgty : g.ctype = f.ctype := congrArg (·.2.1) heq
    have hgst : g.state = f.state := congrArg (·.2.2.1) heq
    have hgrwb : g.rwbSend = f.rwbSend := congrArg (·.2.2.2.1) heq
    have hgon : g.activeSendEvent = f.activeSendEvent := congrArg (·.2.2.2.2) heq
    refine ⟨g, hg, ?_⟩
    rw [hgud, hgty, hgst, hgrwb, hgon]
    exact ⟨hty, hud, hkeep hn⟩
  opened n e he hst := by
    by_cases hn : n = m
    · exact ⟨d, hn ▸ hd, hopen⟩
    have hn' := hold n hn
    rw [← hsame n hn, he, Option.map_some] at hn'
    obtain ⟨f, hf, heq⟩ := Option.map_eq_some_iff.mp hn'
    have hfst : f.state = e.state := congrArg (·.2.2.1) heq
    exact h.opened n f hf (hfst ▸ hst)
  log := hlog.trans h.ext.log
  nextUd := Nat.le_trans hnext h.ext.nextUd
  uds tu e he hst := by
    obtain ⟨e', he', hst', hln⟩ := h.ext.uds tu e he hst
    obtain hsame | ⟨htu, hlt⟩ := huds tu
    · exact .inl ⟨e', hsame ▸ he', hst', hln⟩
    · exact .inr ⟨htu, Nat.lt_of_lt_of_le hlt h.ext.nextUd⟩
  new := ⟨d, hd, hty, hset, hst, hud⟩

theorem accept_admitted {a b : Sys Tls} {lc : Chann} {fd : Int} {addr : SockAddr}
    (hnew : NewFd fd s a) (hheap : a.heap = s.heap) (hcreate : Returns (channCreate lc.ctype .connected) a n b)
    (hc : b.heap n = some c) (hcb : Returns ((extConfig tlsTable c.ctype).acceptCb n)
      ((b.setChann n { c with fd := fd, addr := addr }).recorded (.extOp .acceptCb n)) u t) : Admitted lc n s t := by
  have hcr := channCreate_created hcreate
  obtain ⟨p, hp⟩ := hcr.chann
  rw [hc, Option.some.injEq] at hp
  have hst : c.state = .connected := by rw [hp]
  have hud : c.extUd = 0 := by rw [hp]
  have hidle : c.idle := by
    rw [hp]
    exact ⟨rfl, rfl⟩
  have hlty : c.ctype = lc.ctype := by rw [hp]
  generalize hv : (b.setChann n { c with fd := fd, addr := addr }).recorded (.extOp .acceptCb n) = v at hcb
  have hvn : v.heap n = some { c with fd := fd, addr := addr } := hv ▸ setChann_self ..
  have hext : v.ext = s.ext := by
    rw [← hv]
    exact hcr.ext.trans hnew.ext
  have hold : ∀ m, m ≠ n → (v.heap m).map Chann.stance = (s.heap m).map Chann.stance := fun m hm => by
    rw [← hv, show ((b.setChann n _).recorded _).heap m = b.heap m from Function.update_of_ne hm .., hcr.stance hm, hheap]
  obtain ⟨htls, he⟩ | ⟨_, he⟩ := extConfig_cases c.ctype
  swap
  · rw [he] at hcb
    rw [(returns_pure.mp hcb).2]
    exact (Ebb.refl v).admitted hold (fun _ _ => rfl) (hext ▸ List.suffix_refl _) (hext ▸ Nat.le_refl _)
      (fun _ => .inl (hext ▸ rfl)) hvn hlty ⟨.inl hst, hidle⟩ (fun _ => hst) (by simp [hst]) (.inl hud)
  rw [he] at hcb
  have hcb : Returns (tlsAcceptCb n) v u t := hcb
  simp only [tlsAcceptCb, returns_bind, returns_callocUd] at hcb
  obtain ⟨_, _, ⟨rfl, rfl⟩, _, w, hset, hbegin⟩ := hcb
  -- the user data is new, and the channel gets it if its type is registered
  have hw : w.ext = v.ext.alloc .listening ∧ w.mnet = v.mnet ∧ (∀ m, m ≠ n → w.heap m = v.heap m) ∧
      ∃ e, w.heap n = some e ∧ e.ctype = c.ctype ∧ e.state = c.state ∧ (c.idle → e.idle) ∧
        (e.extUd = 0 ∨ (e.extUd = v.ext.nextUd ∧ v.mnet.reserved e.ctype = true)) := by
    simp only [mnetExtChannSetUd, returns_bind, returns_deref, returns_readMnet, and_assoc, exists_and_left,
      exists_eq_left] at hset
    obtain ⟨e, he, hset⟩ := hset
    rw [Sys.withExt_heap, hvn, Option.some.injEq] at he
    rcases returns_ite.mp hset with ⟨hres, hset⟩ | ⟨_, hset⟩
    · obtain ⟨e', he', rfl⟩ := returns_modifyChann.mp hset
      rw [Sys.withExt_heap, hvn, Option.some.injEq] at he'
      subst he' he
      exact ⟨rfl, rfl, fun m hm => Function.update_of_ne hm .., _, setChann_self .., rfl, rfl, id, .inr ⟨rfl, hres⟩⟩
    · rw [(returns_pure.mp hset).2]
      exact ⟨rfl, rfl, fun _ _ => rfl, _, hvn, rfl, rfl, id, .inl hud⟩
  obtain ⟨hwext, hwmnet, hwsame, e, he, hety, hest, heidle, heud⟩ := hw
  have heset : e.settled := ⟨.inl (hest.trans hst), heidle hidle⟩
  obtain ⟨d, hd, hdud, hdty, hdset, hdst, hdopen, hres⟩ := tlsBegin_new he hbegin
  refine (ebb_tlsBegin (Set.mem_singleton n) _ _ hbegin).admitted hold hwsame ?_ ?_ (fun tu => ?_) hd
    (hdty.trans (hety.trans hlty)) (hdset heset) (fun hclean => (hdst hclean).trans (hest.trans hst)) (hdopen ?_) ?_
  · rw [hwext, hext]
    exact List.suffix_refl _
  · rw [hwext, hext]
    exact Nat.le_succ _
  · rw [hwext, hext]
    by_cases htu : tu = s.ext.nextUd
    · exact .inr ⟨htu, htu ▸ Nat.lt_succ_self _⟩
    · exact .inl (Function.update_of_ne htu ..)
  · rw [hest, hst]
    exact ChannState.noConfusion
  · rw [hdud, hdty]
    rcases heud with hz | ⟨hnum, hreg⟩
    · exact .inl hz
    · refine .inr ⟨hety.trans htls, by rw [hnum, hext], Nat.lt_of_lt_of_le ?_ (ebb_tlsBegin (Set.mem_singleton n) _ _ hbegin).ext.nextUd, hres _ (hwmnet ▸ hreg)⟩
      rw [hwext, hext]
      exact Nat.lt_succ_self _

theorem Move.admitted {l m : ChannId} (h : Move tlsTable s (.accept l m) t) :
    ∃ lc, s.heap l = some lc ∧ Admitted lc m s t := by
  cases h with
  | accept hl hnew hheap hcreate hc hcb => exact ⟨_, hl, accept_admitted hnew hheap hcreate hc hcb⟩

/-- A channel that is opened has user data that is in no handshake. -/
theorem Move.born (h : Move tlsTable s (.opened n) t) : Born n s t ∧ s.ext.Ebbs t.ext ∧
    ∃ c, t.heap n = some c ∧ (c.extUd = 0 ∨ (c.extUd = s.ext.nextUd ∧ s.ext.nextUd < t.ext.nextUd)) := by
  cases h with
  | @opened a _ _ ctype u hres hnew hcb =>
    have hcr := channCreate_created hnew
    obtain ⟨p, hp⟩ := hcr.chann
    have hborn : ∀ d : Chann, d.state ≠ .closed → t.heap n = some d → (∀ m, m ≠ n → t.heap m = a.heap m) → Born n s t := by
      intro d hopen hd hsame
      refine ⟨fun m e hm he => ?_, fun m e he hst => ?_⟩
      · have hn := hcr.stance hm
        rw [← hsame m hm, he, Option.map_some] at hn
        obtain ⟨f, hf, heq⟩ := Option.map_eq_some_iff.mp hn.symm
        have hud : e.extUd = f.extUd := congrArg (·.1) heq.symm
        exact ⟨f, hf, congrArg (·.2.1) heq.symm, .inl hud, congrArg (·.2.2.1) heq.symm, congrArg (·.2.2.2.1) heq.symm,
          congrArg (·.2.2.2.2) heq.symm⟩
      · by_cases hm : m = n
        · exact ⟨d, hm ▸ hd, hopen⟩
        have hn := hcr.stance hm
        rw [he, Option.map_some] at hn
        obtain ⟨f, hf, heq⟩ := Option.map_eq_some_iff.mp hn
        have hfst : f.state = e.state := congrArg (·.2.2.1) heq
        exact ⟨f, (hsame m hm).trans hf, hfst ▸ hst⟩
    obtain ⟨_, _, rfl, hcb⟩ := returns_callback.mp hcb
    obtain ⟨hty, he⟩ | ⟨_, he⟩ := extConfig_cases ctype
    · rw [he] at hcb
      have hcb : Returns (tlsOpenCb n) (a.recorded (.extOp .openCb n)) _ t := hcb
      have hreg : (a.recorded (.extOp .openCb n)).mnet.reserved ctype = true := by
        rw [show (a.recorded _).mnet = a.mnet from rfl, hcr.mnet]
        exact hres
      have ht := tlsOpenCb_cases (s := a.recorded (.extOp .openCb n)) hp hreg hcb
      have hext : a.ext = s.ext := hcr.ext
      subst ht
      refine ⟨hborn _ ChannState.noConfusion (setChann_self ..) fun m hm => Function.update_of_ne hm .., ?_, _,
        setChann_self .., .inr ⟨congrArg Tls.nextUd hext, ?_⟩⟩
      · show s.ext.Ebbs (a.ext.alloc .disconnect)
        rw [hext]
        refine .of_update rfl (Nat.le_succ _) (List.suffix_refl _) fun d hd hst => ?_
        obtain rfl := Option.some.inj hd
        cases hst
      · show s.ext.nextUd < (a.ext.alloc .disconnect).nextUd
        rw [hext]
        exact Nat.lt_succ_self _
    · rw [he] at hcb
      obtain rfl := (returns_pure.mp hcb).2
      exact ⟨hborn _ ChannState.noConfusion hp fun _ _ => rfl, hcr.ext ▸ .refl _, _, hp, .inl rfl⟩

/-- The close of a channel takes away its user data first. -/
theorem close_ebb (h : Returns (channCloseSocket (opsOf tlsTable) n) s u t) : t = s ∨ ∃ a d, Ebb ∅ s a ∧ a.heap n = some d ∧
    t = { a.setChann n { d with delNext := a.mnet.delChanns, state := .closed, opaquePtr := 0 } with
      mnet := { a.mnet with delChanns := some n } } := by
  obtain ⟨c, hc, ⟨_, rfl⟩ | ⟨_, a, d, v, hcb, hd, rfl⟩⟩ := channCloseSocket_cases h
  · exact .inl rfl
  rw [opsConfig_opsOf] at hcb
  refine .inr ⟨a, d, (Ebb.recorded s (.extOp .closeCb n)).trans ?_, hd, rfl⟩
  obtain ⟨_, he⟩ | ⟨_, he⟩ := extConfig_cases c.ctype
  · rw [he] at hcb
    exact ebb_tlsCloseCb _ _ hcb
  · rw [he] at hcb
    rw [(returns_pure.mp hcb).2]
    exact .refl _

/-- A listener's ACCEPT is reported, or kept back while the listener is noted for the handshake. -/
theorem channMsg_accept {q : Option ChannId} {err : Int} {pass : Bool}
    (h : Returns (channMsg tlsTable n .accept q err) s pass t) : ∃ c v, s.heap n = some c ∧
      v = s.setChann n { c with msg := msgOf n c .accept q err } ∧ ((pass = true ∧ c.ctype ≠ CHANN_TYPE_TLS ∧ t = v) ∨
        (pass = false ∧ ∃ tu, Returns (mnetExtChannGetUd q : TlsM Nat) v tu v ∧ ((tu = 0 ∧ t = v) ∨
          (tu ≠ 0 ∧ ∃ d, s.ext.uds tu = some d ∧ t = v.withExt (s.ext.setUd tu { d with ln := some n }))))) := by
  obtain ⟨c, hc, h⟩ := channMsg_cases h
  refine ⟨c, _, hc, rfl, ?_⟩
  obtain ⟨_, he⟩ | ⟨hty, he⟩ := extConfig_cases c.ctype
  swap
  · rw [he] at h
    obtain ⟨rfl, rfl⟩ := returns_pure.mp h
    exact .inl ⟨rfl, hty, rfl⟩
  rw [he] at h
  have h : Returns (tlsFilterFn n) _ pass t := h
  simp only [tlsFilterFn, returns_bind, returns_deref, and_assoc, exists_and_left, exists_eq_left] at h
  obtain ⟨d, hd, h⟩ := h
  rw [setChann_self, Option.some.injEq] at hd
  subst hd
  obtain ⟨tu, w, hud, h⟩ := returns_bind.mp h
  have hw : w = s.setChann n { c with msg := msgOf n c .accept q err } := by
    cases q with
    | none => exact (returns_pure.mp hud).2
    | some m => exact (returns_getUd.mp hud).1
  subst hw
  rcases returns_ite.mp h with ⟨hne, h⟩ | ⟨hz, h⟩
  · simp only [returns_bind, returns_modifyUd, returns_pure] at h
    obtain ⟨_, _, ⟨d, hd, rfl⟩, rfl, rfl⟩ := h
    exact .inr ⟨rfl, tu, hud, .inr ⟨hne, d, hd, rfl⟩⟩
  · obtain ⟨rfl, rfl⟩ := returns_pure.mp h
    exact .inr ⟨rfl, tu, hud, .inl ⟨not_not.mp hz, rfl⟩⟩

/-- Only a channel that is accepted gets user data that is LISTENING. -/
theorem Move.ebbs {d : Deed} (h : Move tlsTable s d t) (hacc : ∀ l m, d ≠ .accept l m) (hmsg : ∀ n, d ≠ .message n .accept) :
    s.ext.Ebbs t.ext := by
  by_cases hd : d.mild Set.univ
  · exact (h.ebb hd).ext
  cases h with
  | opened hres hnew hcb => exact (Move.born (.opened hres hnew hcb)).2.1
  | accept => exact absurd rfl (hacc _ _)
  | close _ h =>
    obtain rfl | ⟨a, d, ha, _, rfl⟩ := close_ebb h
    · exact .refl _
    · exact ha.ext
  | @message _ n event _ _ _ _ h =>
    cases event with
    | accept => exact absurd rfl (hmsg n)
    | _ => exact absurd trivial hd
  | _ => exact absurd trivial hd

/-- Nothing that was logged is forgotten. -/
theorem Move.log {d : Deed} (h : Move tlsTable s d t) : s.ext.log <:+ t.ext.log := by
  by_cases hacc : ∃ l m, d = .accept l m
  · obtain ⟨l, m, rfl⟩ := hacc
    obtain ⟨_, _, hborn⟩ := h.admitted
    exact hborn.log
  by_cases hmsg : ∃ n, d = .message n .accept
  · obtain ⟨n, rfl⟩ := hmsg
    cases h with
    | message _ h =>
      obtain ⟨c, v, _, rfl, ⟨_, _, rfl⟩ | ⟨_, tu, _, ⟨_, rfl⟩ | ⟨_, d, _, rfl⟩⟩⟩ := channMsg_accept h
      all_goals exact List.suffix_refl _
  exact (h.ebbs (fun l m he => hacc ⟨l, m, he⟩) fun n he => hmsg ⟨n, he⟩).log

theorem Moves.log {A : Set Deed} (h : Moves tlsTable A s t) : s.ext.log <:+ t.ext.log :=
  h.keeps (I := fun a => s.ext.log <:+ a.ext.log) (fun _ _ _ _ hm hs => hs.trans hm.log) (List.suffix_refl _)

end MNet
