import MNet.Protocol
import MNet.Tls.Model

/-! # The TLS callbacks

What the callbacks leave alone, whatever the SSL library answers, and what one call of a
handshake comes to. -/

namespace MNet
open MNet.Lib MNet.Lib.Exec

variable {s t : Sys Tls} {n : ChannId} {c : Chann} {tu : Nat} {ssl : Option SslId} {op : SslOp}

/-! ## What a callback leaves alone -/

/-- A channel less its user data and its message. -/
def Chann.shell (c : Chann) : Chann := { c with extUd := 0, msg := {} }

/-- Only the extension's own state, user data and messages are different. -/
structure Kept (s t : Sys Tls) : Prop where
  shell : ∀ m, (t.heap m).map Chann.shell = (s.heap m).map Chann.shell
  nextChann : t.nextChann = s.nextChann
  mnet : t.mnet = s.mnet
  socks : t.kernel.socks = s.kernel.socks
  nextSock : t.kernel.nextSock = s.kernel.nextSock
  epoll : t.kernel.epoll = s.kernel.epoll
  oracle : t.kernel.oracle = s.kernel.oracle
  trace : t.kernel.trace = s.kernel.trace

theorem Kept.refl (s : Sys Tls) : Kept s s := ⟨fun _ => rfl, rfl, rfl, rfl, rfl, rfl, rfl, rfl⟩

theorem Kept.trans {a : Sys Tls} (h : Kept s a) (h' : Kept a t) : Kept s t where
  shell m := (h'.shell m).trans (h.shell m)
  nextChann := h'.nextChann.trans h.nextChann
  mnet := h'.mnet.trans h.mnet
  socks := h'.socks.trans h.socks
  nextSock := h'.nextSock.trans h.nextSock
  epoll := h'.epoll.trans h.epoll
  oracle := h'.oracle.trans h.oracle
  trace := h'.trace.trans h.trace

instance : Std.Refl Kept := ⟨Kept.refl⟩

instance : IsTrans (Sys Tls) Kept := ⟨fun _ _ _ => Kept.trans⟩

theorem Kept.aside (h : Kept s t) : Aside s t where
  bones m := by
    have hm := congrArg (Option.map Chann.bones) (h.shell m)
    rw [Option.map_map, Option.map_map] at hm
    exact hm
  nextChann := h.nextChann
  channs := by rw [h.mnet]
  channCount := by rw [h.mnet]
  socks := h.socks
  trace := adds_of_eq h.trace

theorem kept_modifyTls (f : Tls → Tls) : Within Kept (modifyTls f) s := by
  intro _ t h
  rw [modifyTls, returns_modify] at h
  subst h
  exact { Kept.refl s with }

theorem kept_modifyChann {f : Chann → Chann} (hf : ∀ c, (f c).shell = c.shell) :
    Within Kept (modifyChann n f) s := by
  intro _ t h
  obtain ⟨c, hc, rfl⟩ := returns_modifyChann.mp h
  refine { Kept.refl s with shell := fun m => ?_ }
  by_cases hm : m = n
  · rw [hm, hc]
    simp [Sys.setChann, hf]
  · simp [Sys.setChann, Function.update_of_ne hm]

theorem kept_sysRet : Within Kept (sysRet) s := by
  intro r t h
  obtain ⟨_, rfl⟩ := sysRet_spec h
  exact { Kept.refl s with }

section

variable {R : Sys Tls → Sys Tls → Prop} {α : Type}

theorem Lib.Exec.Within.derefSsl_bind {f : SslId × Ssl → TlsM α}
    (h : ∀ i obj, ssl = some i → s.ext.ssls i = some obj → Within R (f (i, obj)) s) :
    Within R (derefSsl ssl >>= f) s :=
  .bind_same fun p t hp => by
    simp only [derefSsl, returns_bind, returns_require, returns_read, returns_pure] at hp
    obtain ⟨i, _, ⟨hi, rfl⟩, _, _, ⟨rfl, rfl⟩, obj, _, ⟨hobj, rfl⟩, rfl, rfl⟩ := hp
    exact ⟨rfl, h i obj hi hobj⟩

theorem Lib.Exec.Within.derefUd_bind {f : TlsUd → TlsM α}
    (h : ∀ d, s.ext.uds tu = some d → Within R (f d) s) : Within R (derefUd tu >>= f) s :=
  .bind_same fun d t hd => by
    simp only [derefUd, returns_bind, returns_require, returns_read] at hd
    obtain ⟨_, _, ⟨rfl, rfl⟩, hd, rfl⟩ := hd
    exact ⟨rfl, h d hd⟩

/-- `mnet_ext_chann_get_ud` gives the user data of a channel whose type is registered. -/
theorem returns_getUd : Returns (mnetExtChannGetUd (some n) : TlsM Nat) s tu t ↔
    t = s ∧ ∃ c, s.heap n = some c ∧ tu = if s.mnet.reserved c.ctype then c.extUd else 0 := by
  simp only [mnetExtChannGetUd, returns_bind, returns_deref, returns_readMnet, returns_pure,
    and_assoc, exists_and_left, exists_eq_left]
  constructor
  · rintro ⟨c, hc, htu, ht⟩
    exact ⟨ht, c, hc, htu⟩
  · rintro ⟨ht, c, hc, htu⟩
    exact ⟨c, hc, htu, ht⟩

theorem Lib.Exec.Within.getUd_bind {p : Option ChannId} {f : Nat → TlsM α}
    (h : ∀ tu, Within R (f tu) s) : Within R (mnetExtChannGetUd p >>= f) s :=
  .bind_same fun tu t ht => by
    cases p with
    | none => exact ⟨(returns_pure.mp ht).2, h tu⟩
    | some n => exact ⟨(returns_getUd.mp ht).1, h tu⟩

end

theorem kept_modifyUd (f : TlsUd → TlsUd) : Within Kept (modifyUd tu f) s :=
  .derefUd_bind fun _ _ => kept_modifyTls _

theorem kept_setUd (p : Option ChannId) (tu : Nat) : Within Kept (mnetExtChannSetUd p tu) s := by
  cases p with
  | none => exact within_pure ()
  | some n =>
    exact .deref_bind fun _ _ => .read_bind <| .ite
      (fun _ => kept_modifyChann fun _ => rfl) fun _ => within_pure ()

theorem kept_callocUd (state : ChannState) : Within Kept (callocUd state) s :=
  .read_bind <| (kept_modifyTls _).bind fun _ _ _ => within_pure _

theorem kept_sslAnswer : Within Kept (sslAnswer) s :=
  .read_bind <| .bind kept_sysRet fun _ _ _ => within_pure _

theorem kept_sslReset : Within Kept (sslReset ssl) s :=
  .derefSsl_bind fun _ _ _ _ => .bind kept_sysRet fun _ _ _ => kept_modifyTls _

theorem kept_sslHandshake : Within Kept (sslHandshake op ssl) s :=
  .derefSsl_bind fun _ _ _ _ => .bind kept_sslAnswer fun _ _ _ => (kept_modifyTls _).bind
    fun _ _ _ => within_pure _

theorem kept_sslTransfer (len : Nat) : Within Kept (sslTransfer ssl len) s :=
  .derefSsl_bind fun _ _ _ _ => .bind kept_sslAnswer fun _ _ _ => (kept_modifyTls _).bind
    fun _ _ _ => within_pure _

theorem kept_sslIsRw : Within Kept (sslIsRw ssl) s := .derefSsl_bind fun _ _ _ _ => within_pure _

theorem kept_tlsHandshake : Within Kept (tlsHandshake tu op) s :=
  .derefUd_bind fun _ _ => .bind kept_sslHandshake fun _ _ _ => .ite
    (fun _ => (kept_modifyUd _).bind fun _ _ _ => within_pure _)
    fun _ => .bind kept_sslIsRw fun _ _ _ => within_pure _

theorem kept_tlsOpenCb : Within Kept (tlsOpenCb n) s :=
  (kept_callocUd _).bind fun _ _ _ => kept_setUd _ _

theorem kept_tlsCloseCb : Within Kept (tlsCloseCb n) s :=
  .getUd_bind fun _ => .ite (fun _ => .derefUd_bind fun _ _ => .ite
    (fun _ => (kept_modifyUd _).bind fun _ _ _ => .bind
      (.when fun _ => .derefSsl_bind fun _ _ _ _ => kept_modifyTls _) fun _ _ _ =>
        (kept_modifyTls _).bind fun _ _ _ => kept_setUd _ _)
    fun _ => within_pure ()) fun _ => within_pure ()

theorem kept_tlsListenCb : Within Kept (tlsListenCb n) s :=
  .getUd_bind fun _ => .ite (fun _ => (kept_setUd _ _).bind fun _ _ _ => kept_modifyTls _)
    fun _ => within_pure ()

theorem kept_tlsDisconnectCb : Within Kept (tlsDisconnectCb n) s :=
  .getUd_bind fun _ => .ite (fun _ => .derefUd_bind fun _ _ => .ite
    (fun _ => (kept_modifyUd _).bind fun _ _ _ => kept_sslReset) fun _ => within_pure ())
    fun _ => within_pure ()

theorem kept_tlsTransferFn (len : Nat) : Within Kept (tlsTransferFn n len) s :=
  .getUd_bind fun _ => .ite (fun _ => .derefUd_bind fun _ _ => (kept_sslTransfer len).bind
    fun _ _ _ => .ite (fun _ => within_pure _) fun _ => .bind kept_sslIsRw fun _ _ _ => within_pure _)
    fun _ => within_pure _

/-! ## Callbacks that may call back -/

theorem Lib.Exec.Within.kept {α : Type} {m : TlsM α} (h : Within Kept m s) :
    Within (CallsBack tlsTable) m s := h.mono fun _ ht => .single (.inl ht.aside)

theorem mnetChannDisconnect_tls : mnetChannDisconnect tlsTable (some n) = tlsDisconnect n := by
  simp only [mnetChannDisconnect, tlsDisconnect, opsOf_tlsTable]

theorem callsBack_tlsDisconnect : Within (CallsBack tlsTable) (tlsDisconnect n) s := by
  intro u t h
  rw [← mnetChannDisconnect_tls] at h
  exact .single (.inr ⟨some n, u, h⟩)

theorem callsBack_tlsBegin : Within (CallsBack tlsTable) (tlsBegin n tu op) s := by
  have hnew : ∀ s, Within Kept (sslNew n) s := fun _ =>
    .read_bind <| (kept_modifyTls _).bind fun _ _ _ => within_pure _
  have hfd : ∀ s ssl fd, Within Kept (sslSetFd ssl fd) s := fun _ _ _ =>
    .derefSsl_bind fun _ _ _ _ => kept_modifyTls _
  exact (hnew s).kept.bind fun _ _ _ => (kept_modifyUd _).kept.bind fun _ _ _ =>
    .deref_bind fun _ _ => (hfd _ _ _).kept.bind fun _ _ _ => kept_tlsHandshake.kept.bind
      fun _ _ _ => .when fun _ => callsBack_tlsDisconnect

theorem kept_modifyMsg (f : ChannMsg → ChannMsg) : Within Kept (modifyMsg n f) s :=
  kept_modifyChann fun _ => rfl

theorem callsBack_tlsReport {d : TlsUd} {p : Option ChannId} {h : Handshake} :
    Within (CallsBack tlsTable) (tlsReport n tu d p h) s := by
  have hdown : ∀ s, Within (CallsBack tlsTable) (Exec.forSome p tlsDisconnect) s :=
    fun _ => .forSome fun _ _ => callsBack_tlsDisconnect
  cases h with
  | done =>
    refine Within.kept (.ite (fun _ => ?_) fun _ => ?_)
    · exact (kept_modifyMsg _).bind fun _ _ _ => (kept_modifyUd _).bind fun _ _ _ => within_pure _
    · exact (kept_modifyMsg _).bind fun _ _ _ => within_pure _
  | again => exact within_pure _
  | failed =>
    refine .ite (fun _ => ?_) fun _ => ?_
    · exact (hdown _).bind fun _ _ _ => within_pure _
    · exact (kept_modifyMsg _).kept.bind fun _ _ _ => (hdown _).bind fun _ _ _ => within_pure _

theorem callsBack_tlsAdvance {p : Option ChannId} : Within (CallsBack tlsTable) (tlsAdvance n p) s :=
  .getUd_bind fun _ => .ite (fun _ => within_pure _) fun _ => .derefUd_bind fun _ _ => .ite
    (fun _ => within_pure _) fun _ => kept_tlsHandshake.kept.bind fun _ _ _ => callsBack_tlsReport

theorem callsBack_tlsFilterFn : Within (CallsBack tlsTable) (tlsFilterFn n) s := by
  refine .deref_bind fun c _ => ?_
  cases c.msg.event with
  | none => exact within_pure _
  | some event =>
    cases event with
    | accept =>
      exact .getUd_bind fun _ => .ite
        (fun _ => (kept_modifyUd _).kept.bind fun _ _ _ => within_pure _) fun _ => within_pure _
    | connected | recv => exact callsBack_tlsAdvance
    | _ => exact within_pure _

/-- The TLS callbacks call back only to hang up. -/
theorem obedient_tlsTable : Obedient tlsTable where
  ops ctype op n s ha hc := by
    unfold tlsTable
    split
    · cases op with
      | openCb => exact kept_tlsOpenCb.mono fun _ => Kept.aside
      | closeCb => exact kept_tlsCloseCb.mono fun _ => Kept.aside
      | listenCb => exact kept_tlsListenCb.mono fun _ => Kept.aside
      | disconnectCb => exact kept_tlsDisconnectCb.mono fun _ => Kept.aside
      | acceptCb => exact absurd rfl ha
      | connectCb => exact absurd rfl hc
    · cases op <;> exact within_pure ()
  recvFn ctype n len s := by
    unfold tlsTable
    split
    · exact (kept_tlsTransferFn len).mono fun _ => Kept.aside
    · exact (wired_internal_recvFn ctype len).mono fun _ => Wired.aside
  sendFn ctype n data s := by
    unfold tlsTable
    split
    · exact (kept_tlsTransferFn data.length).mono fun _ => Kept.aside
    · exact (wired_internal_sendFn ctype data).mono fun _ => Wired.aside
  acceptCb ctype n s := by
    unfold tlsTable
    split
    · exact (kept_callocUd _).kept.bind fun _ _ _ => (kept_setUd _ _).kept.bind fun _ _ _ =>
        callsBack_tlsBegin
    · exact within_pure ()
  connectCb ctype n s := by
    unfold tlsTable
    split
    · exact .getUd_bind fun _ => .ite
        (fun _ => (kept_modifyUd _).kept.bind fun _ _ _ => callsBack_tlsBegin) fun _ => within_pure ()
    · exact within_pure ()
  filterFn ctype n s := by
    unfold tlsTable
    split
    · exact callsBack_tlsFilterFn
    · exact within_pure true

/-! ## One call of a handshake -/

/-- The object `i` after a call of its handshake. -/
def Tls.shaken (e : Tls) (i : SslId) (obj : Ssl) (op : SslOp) (ret err : Int) : Tls :=
  (e.setSsl i { obj with err := err }).logged (.handshake i op ret err)

/-- The call is to be repeated. -/
def Again (err : Int) : Prop := err = SSL_ERROR_WANT_READ ∨ err = SSL_ERROR_WANT_WRITE

instance (err : Int) : Decidable (Again err) := by unfold Again; infer_instance

theorem returns_derefSsl {p : SslId × Ssl} : Returns (derefSsl ssl) s p t ↔
    t = s ∧ ssl = some p.1 ∧ s.ext.ssls p.1 = some p.2 := by
  simp only [derefSsl, returns_bind, returns_require, returns_read, returns_pure]
  constructor
  · rintro ⟨i, _, ⟨hi, rfl⟩, _, _, ⟨rfl, rfl⟩, obj, _, ⟨hobj, rfl⟩, hp, ht⟩
    rw [hp]
    exact ⟨ht, hi, hobj⟩
  · rintro ⟨ht, hi, hobj⟩
    exact ⟨p.1, s, ⟨hi, rfl⟩, _, s, ⟨rfl, rfl⟩, p.2, s, ⟨hobj, rfl⟩, rfl, ht⟩

theorem returns_derefUd {d : TlsUd} :
    Returns (derefUd tu) s d t ↔ t = s ∧ s.ext.uds tu = some d := by
  simp only [derefUd, returns_bind, returns_require, returns_read, and_assoc, exists_and_left,
    exists_eq_left]
  exact and_comm

theorem returns_modifyTls {f : Tls → Tls} {u : Unit} :
    Returns (modifyTls f) s u t ↔ t = s.withExt (f s.ext) := returns_modify

theorem returns_modifyUd {f : TlsUd → TlsUd} {u : Unit} : Returns (modifyUd tu f) s u t ↔
    ∃ d, s.ext.uds tu = some d ∧ t = s.withExt (s.ext.setUd tu (f d)) := by
  simp only [modifyUd, returns_bind, returns_derefUd, returns_modifyTls, and_assoc, exists_eq_left]

theorem sslAnswer_cases {p : Int × Int} (h : Returns sslAnswer s p t) :
    Kept s t ∧ t.heap = s.heap ∧ t.ext = s.ext := by
  refine ⟨kept_sslAnswer _ _ h, ?_⟩
  simp only [sslAnswer, returns_bind, returns_read, returns_pure] at h
  obtain ⟨_, _, ⟨rfl, rfl⟩, r, a, hr, _, rfl⟩ := h
  obtain ⟨_, rfl⟩ := sysRet_spec hr
  exact ⟨rfl, rfl⟩

theorem sslHandshake_cases {ret : Int} (h : Returns (sslHandshake op ssl) s ret t) :
    ∃ i obj err, ssl = some i ∧ s.ext.ssls i = some obj ∧ Kept s t ∧ t.heap = s.heap ∧
      t.ext = s.ext.shaken i obj op ret err := by
  have hk := kept_sslHandshake _ _ h
  simp only [sslHandshake, returns_bind, returns_derefSsl, returns_modifyTls, returns_pure] at h
  obtain ⟨⟨i, obj⟩, _, ⟨rfl, hi, hobj⟩, ⟨r, err⟩, a, ha, _, _, rfl, rfl, rfl⟩ := h
  obtain ⟨_, hheap, hext⟩ := sslAnswer_cases ha
  exact ⟨i, obj, err, hi, hobj, hk, hheap, by rw [← hext]; rfl⟩

theorem sslIsRw_cases {rw : Bool} (h : Returns (sslIsRw ssl) s rw t) :
    t = s ∧ ∃ i obj, ssl = some i ∧ s.ext.ssls i = some obj ∧ (rw = true ↔ Again obj.err) := by
  simp only [sslIsRw, returns_bind, returns_derefSsl, returns_pure] at h
  obtain ⟨⟨i, obj⟩, _, ⟨rfl, hi, hobj⟩, rfl, rfl⟩ := h
  exact ⟨rfl, i, obj, hi, hobj, by simp [Again]⟩

/-- A call of the handshake is done, or it failed or is to be repeated, which
`SSL_get_error` tells apart. -/
theorem tlsHandshake_cases {h : Handshake} (hr : Returns (tlsHandshake tu op) s h t) :
    ∃ d i obj ret err, s.ext.uds tu = some d ∧ d.ssl = some i ∧ s.ext.ssls i = some obj ∧
      Kept s t ∧ t.heap = s.heap ∧
      ((h = .done ∧ ret = 1 ∧
          t.ext = (s.ext.shaken i obj op ret err).setUd tu { d with state := .connected }) ∨
        (h = .again ∧ ret ≠ 1 ∧ Again err ∧ t.ext = s.ext.shaken i obj op ret err) ∨
        (h = .failed ∧ ret ≠ 1 ∧ ¬ Again err ∧ t.ext = s.ext.shaken i obj op ret err)) := by
  have hk := kept_tlsHandshake _ _ hr
  simp only [tlsHandshake, returns_bind, returns_derefUd, and_assoc, exists_eq_left] at hr
  obtain ⟨d, hd, ret, a, hs, hr⟩ := hr
  obtain ⟨i, obj, err, hi, hobj, ha, hheap, hext⟩ := sslHandshake_cases hs
  have hud : a.ext.uds tu = some d := by
    rw [hext]
    exact hd
  rcases returns_ite.mp hr with ⟨h1, hr⟩ | ⟨h1, hr⟩
  · simp only [returns_bind, returns_modifyUd, returns_pure] at hr
    obtain ⟨_, _, ⟨d', hd', rfl⟩, rfl, rfl⟩ := hr
    rw [hud, Option.some.injEq] at hd'
    subst hd'
    exact ⟨d, i, obj, ret, err, hd, hi, hobj, hk, hheap, .inl ⟨rfl, h1, by rw [← hext]; rfl⟩⟩
  · simp only [returns_bind, returns_pure] at hr
    obtain ⟨rw, b, hrw, hh, rfl⟩ := hr
    obtain ⟨rfl, j, obj', hj, hobj', hiff⟩ := sslIsRw_cases hrw
    rw [hi, Option.some.injEq] at hj
    subst hj
    rw [hext] at hobj'
    simp only [Tls.shaken, Tls.setSsl, Tls.logged, Function.update_self, Option.some.injEq] at hobj'
    subst hobj'
    refine ⟨d, i, obj, ret, err, hd, hi, hobj, hk, hheap, .inr ?_⟩
    by_cases hrw : rw = true
    · exact .inl ⟨by rw [hh, if_pos hrw], h1, hiff.mp hrw, hext⟩
    · exact .inr ⟨by rw [hh, if_neg hrw], h1, fun he => hrw (hiff.mpr he), hext⟩

/-- The user data `tu` with a new object, after the first call of its handshake. -/
def Tls.begun (e : Tls) (n : ChannId) (tu : Nat) (d : TlsUd) (fd : Int) (op : SslOp)
    (ret err : Int) : Tls where
  uds := Function.update e.uds tu
    (some { d with ssl := some e.nextSsl, state := if ret = 1 then .connected else d.state })
  nextUd := e.nextUd
  ssls := Function.update e.ssls e.nextSsl (some { fd := fd, err := err })
  nextSsl := e.nextSsl + 1
  log := .handshake e.nextSsl op ret err :: .new n e.nextSsl :: e.log

/-- A handshake is begun; if the first call fails the channel is hung up. -/
theorem tlsBegin_cases {u : Unit} (h : Returns (tlsBegin n tu op) s u t) :
    ∃ c d ret err a, s.heap n = some c ∧ s.ext.uds tu = some d ∧ Kept s a ∧ a.heap = s.heap ∧
      a.ext = s.ext.begun n tu d c.fd op ret err ∧
      (((ret = 1 ∨ Again err) ∧ t = a) ∨
        (ret ≠ 1 ∧ ¬ Again err ∧ Returns (tlsDisconnect n) a u t)) := by
  simp only [tlsBegin, sslNew, sslSetFd, returns_bind, returns_read, returns_modifyTls,
    returns_modifyUd, returns_deref, returns_derefSsl, returns_pure] at h
  obtain ⟨_, _, ⟨_, s, ⟨rfl, rfl⟩, _, _, rfl, rfl, rfl⟩, _, _, ⟨d, hd, rfl⟩, c, _, ⟨hc, rfl⟩, _, _,
    ⟨⟨i, obj⟩, _, ⟨rfl, hi, hobj⟩, rfl⟩, hs, a, hhs, hwhen⟩ := h
  cases hi
  simp only [Tls.setUd, Tls.setSsl, Tls.logged, Sys.withExt_ext, Function.update_self,
    Option.some.injEq] at hobj
  subst hobj
  obtain ⟨d', j, obj', ret, err, hd', hj, hobj', ha, hheap, hcases⟩ := tlsHandshake_cases hhs
  simp only [Tls.setUd, Tls.setSsl, Sys.withExt_ext, Function.update_self, Option.some.injEq] at hd'
  subst hd'
  cases hj
  simp only [Tls.setUd, Tls.setSsl, Sys.withExt_ext, Function.update_self, Option.some.injEq] at hobj'
  subst hobj'
  have hk : Kept s a := ⟨ha.shell, ha.nextChann, ha.mnet, ha.socks, ha.nextSock, ha.epoll,
    ha.oracle, ha.trace⟩
  refine ⟨c, d, ret, err, a, hc, hd, hk, hheap, ?_⟩
  obtain ⟨rfl, h1, hext⟩ | ⟨rfl, h1, hag, hext⟩ | ⟨rfl, h1, hag, hext⟩ := hcases
  · refine ⟨?_, .inl ⟨.inl h1, ?_⟩⟩
    · rw [hext, Tls.begun, if_pos h1]
      simp [Tls.shaken, Tls.setUd, Tls.setSsl, Tls.logged]
    · exact (returns_when.mp hwhen).elim (fun hf => by cases hf.1) fun hf => hf.2
  · refine ⟨?_, .inl ⟨.inr hag, ?_⟩⟩
    · rw [hext, Tls.begun, if_neg h1]
      simp [Tls.shaken, Tls.setUd, Tls.setSsl, Tls.logged]
    · exact (returns_when.mp hwhen).elim (fun hf => by cases hf.1) fun hf => hf.2
  · refine ⟨?_, .inr ⟨h1, hag, ?_⟩⟩
    · rw [hext, Tls.begun, if_neg h1]
      simp [Tls.shaken, Tls.setUd, Tls.setSsl, Tls.logged]
    · exact (returns_when.mp hwhen).elim (fun hf => hf.2) fun hf => absurd rfl hf.1

/-! ## The callbacks of a channel of a registered type -/

section

variable {u : Unit}

theorem getUd_of (hc : s.heap n = some c) (hres : s.mnet.reserved c.ctype = true) :
    Returns (mnetExtChannGetUd (some n) : TlsM Nat) s c.extUd s :=
  returns_getUd.mpr ⟨rfl, c, hc, by rw [if_pos hres]⟩

theorem setUd_of (hc : s.heap n = some c) (hres : s.mnet.reserved c.ctype = true) :
    Returns (mnetExtChannSetUd (some n) tu) s u t ↔ t = s.setChann n { c with extUd := tu } := by
  simp [mnetExtChannSetUd, hc, hres]

/-- New user data in the state `st`. -/
def Tls.alloc (e : Tls) (st : ChannState) : Tls :=
  { e.setUd e.nextUd { state := st } with nextUd := e.nextUd + 1 }

theorem returns_callocUd {st : ChannState} : Returns (callocUd st) s tu t ↔
    tu = s.ext.nextUd ∧ t = s.withExt (s.ext.alloc st) := by
  simp only [callocUd, returns_bind, returns_read, returns_modifyTls, returns_pure]
  constructor
  · rintro ⟨e, a, ⟨rfl, rfl⟩, _, b, hb, hu, ht⟩
    exact ⟨hu, ht.trans hb⟩
  · rintro ⟨hu, ht⟩
    exact ⟨_, s, ⟨rfl, rfl⟩, (), _, rfl, hu, ht⟩

theorem tlsOpenCb_cases (hc : s.heap n = some c) (hres : s.mnet.reserved c.ctype = true)
    (h : Returns (tlsOpenCb n) s u t) :
    t = (s.setChann n { c with extUd := s.ext.nextUd }).withExt (s.ext.alloc .disconnect) := by
  simp only [tlsOpenCb, returns_bind, returns_callocUd] at h
  obtain ⟨_, a, ⟨rfl, rfl⟩, h⟩ := h
  exact (setUd_of (c := c) (by exact hc) (by exact hres)).mp h

/-- The user data and its object, freed. -/
def Tls.drop (e : Tls) (tu : Nat) (d : TlsUd) : Tls :=
  match d.ssl with
  | some i =>
    { e.logged (.free i) with
      uds := Function.update e.uds tu none, ssls := Function.update e.ssls i none }
  | none => { e with uds := Function.update e.uds tu none }

theorem tlsCloseCb_cases (hc : s.heap n = some c) (hres : s.mnet.reserved c.ctype = true)
    (h : Returns (tlsCloseCb n) s u t) :
    (c.extUd = 0 ∧ t = s) ∨ (c.extUd ≠ 0 ∧ ∃ d, s.ext.uds c.extUd = some d ∧
      ((d.state = .closed ∧ t = s) ∨ (d.state ≠ .closed ∧
        (∀ i, d.ssl = some i → s.ext.ssls i ≠ none) ∧
          t = (s.setChann n { c with extUd := 0 }).withExt (s.ext.drop c.extUd d)))) := by
  rw [tlsCloseCb, (getUd_of hc hres).bind_iff] at h
  rcases returns_ite.mp h with ⟨hu, h⟩ | ⟨hu, h⟩
  swap
  · exact .inl ⟨not_not.mp hu, (returns_pure.mp h).2⟩
  simp only [returns_bind, returns_derefUd, and_assoc, exists_eq_left] at h
  obtain ⟨d, hd, h⟩ := h
  refine .inr ⟨hu, d, hd, ?_⟩
  rcases returns_ite.mp h with ⟨hst, h⟩ | ⟨hst, h⟩
  swap
  · refine .inl ⟨?_, (returns_pure.mp h).2⟩
    revert hst
    cases d.state <;> simp [ChannState.val]
  have hne : d.state ≠ .closed := by
    intro he
    rw [he] at hst
    exact absurd hst (by decide)
  simp only [returns_bind, returns_modifyUd, freeUd, returns_modifyTls] at h
  obtain ⟨_, _, ⟨d', hd', rfl⟩, _, a, hfree, _, _, rfl, h⟩ := h
  rw [hd, Option.some.injEq] at hd'
  subst hd'
  refine .inr ⟨hne, ?_⟩
  cases hssl : d.ssl with
  | none =>
    rw [hssl] at hfree
    obtain ⟨hno, _⟩ | ⟨_, rfl⟩ := returns_when.mp hfree
    · exact absurd rfl hno
    rw [(setUd_of (t := t) (u := u) (c := c) (by exact hc) (by exact hres)).mp h]
    exact ⟨(fun _ he => by cases he), by simp [Tls.drop, hssl, Tls.setUd, Sys.withExt_setChann]⟩
  | some i =>
    rw [hssl] at hfree
    obtain ⟨_, hfree⟩ | ⟨hno, _⟩ := returns_when.mp hfree
    swap
    · exact absurd (Option.some_ne_none i) hno
    simp only [sslFree, returns_bind, returns_derefSsl, returns_modifyTls] at hfree
    obtain ⟨⟨j, obj⟩, _, ⟨rfl, hj, hobj⟩, rfl⟩ := hfree
    cases hj
    rw [(setUd_of (t := t) (u := u) (c := c) (by exact hc) (by exact hres)).mp h]
    refine ⟨fun i' he => ?_, ?_⟩
    · cases he
      rw [show s.ext.ssls j = some obj from hobj]
      exact Option.some_ne_none obj
    · simp [Tls.drop, hssl, Tls.setUd, Tls.logged, Sys.withExt_setChann]

theorem tlsListenCb_cases (hc : s.heap n = some c) (hres : s.mnet.reserved c.ctype = true)
    (h : Returns (tlsListenCb n) s u t) :
    (c.extUd = 0 ∧ t = s) ∨ (c.extUd ≠ 0 ∧ t = (s.setChann n { c with extUd := 0 }).withExt
      { s.ext with uds := Function.update s.ext.uds c.extUd none }) := by
  rw [tlsListenCb, (getUd_of hc hres).bind_iff] at h
  rcases returns_ite.mp h with ⟨hu, h⟩ | ⟨hu, h⟩
  · simp only [returns_bind, setUd_of hc hres, freeUd, returns_modifyTls] at h
    obtain ⟨_, _, rfl, rfl⟩ := h
    exact .inr ⟨hu, rfl⟩
  · exact .inl ⟨not_not.mp hu, (returns_pure.mp h).2⟩

theorem tlsAcceptCb_cases (hc : s.heap n = some c) (hres : s.mnet.reserved c.ctype = true)
    (h : Returns (tlsAcceptCb n) s u t) : Returns (tlsBegin n s.ext.nextUd .accept)
      ((s.setChann n { c with extUd := s.ext.nextUd }).withExt (s.ext.alloc .listening)) u t := by
  simp only [tlsAcceptCb, returns_bind, returns_callocUd] at h
  obtain ⟨_, a, ⟨rfl, rfl⟩, _, b, hset, h⟩ := h
  have hb := (setUd_of (c := c) (by exact hc) (by exact hres)).mp hset
  rwa [hb] at h

theorem tlsConnectCb_cases (hc : s.heap n = some c) (hres : s.mnet.reserved c.ctype = true)
    (h : Returns (tlsConnectCb n) s u t) :
    (c.extUd = 0 ∧ t = s) ∨ (c.extUd ≠ 0 ∧ ∃ d, s.ext.uds c.extUd = some d ∧
      Returns (tlsBegin n c.extUd .connect)
        (s.withExt (s.ext.setUd c.extUd { d with state := .connecting })) u t) := by
  rw [tlsConnectCb, (getUd_of hc hres).bind_iff] at h
  rcases returns_ite.mp h with ⟨hu, h⟩ | ⟨hu, h⟩
  · simp only [returns_bind, returns_modifyUd] at h
    obtain ⟨_, _, ⟨d, hd, rfl⟩, h⟩ := h
    exact .inr ⟨hu, d, hd, h⟩
  · exact .inl ⟨not_not.mp hu, (returns_pure.mp h).2⟩

theorem tlsTransferFn_cases {len : Nat} {r : Int} (h : Returns (tlsTransferFn n len) s r t) :
    t.heap = s.heap ∧ (t.ext = s.ext ∨ ∃ i obj obj', s.ext.ssls i = some obj ∧
      t.ext = s.ext.setSsl i obj') := by
  simp only [tlsTransferFn, returns_bind] at h
  obtain ⟨tu, a, hu, h⟩ := h
  obtain ⟨rfl, _⟩ := returns_getUd.mp hu
  rcases returns_ite.mp h with ⟨_, h⟩ | ⟨_, h⟩
  swap
  · rw [(returns_pure.mp h).2]
    exact ⟨rfl, .inl rfl⟩
  simp only [sslTransfer, returns_bind, returns_derefUd, returns_derefSsl, returns_modifyTls,
    returns_pure] at h
  obtain ⟨d, _, ⟨rfl, _⟩, ret, b, ⟨⟨i, obj⟩, _, ⟨rfl, hi, hobj⟩, p, e, he, _, _, rfl, rfl, rfl⟩, h⟩ := h
  obtain ⟨_, hheap, hext⟩ := sslAnswer_cases he
  have ht : t = e.withExt (e.ext.setSsl i { obj with err := p.2 }) := by
    rcases returns_ite.mp h with ⟨_, h⟩ | ⟨_, h⟩
    · exact (returns_pure.mp h).2
    · simp only [returns_bind, returns_pure] at h
      obtain ⟨rw, f, hrw, _, rfl⟩ := h
      exact (sslIsRw_cases hrw).1
  rw [ht, ← hext]
  exact ⟨hheap, .inr ⟨i, obj, _, hext ▸ hobj, rfl⟩⟩

end

end MNet
