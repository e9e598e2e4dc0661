import MNet.Ledger
import MNet.Tls.Steady

/-! # What the TLS callbacks leave alone

They keep their data to themselves. Only a handshake that fails hangs up, and only the filter writes
to messages. -/

namespace MNet
open MNet.Lib MNet.Lib.Exec

variable {s : Sys Tls} {n : ChannId} {tu : Nat} {ssl : Option SslId} {op : SslOp}

theorem bland_modifyTls (f : Tls → Tls) : Within Bland (modifyTls f) s := by
  intro _ t h
  rw [returns_modifyTls] at h
  subst h
  exact .of_heap rfl rfl rfl (.refl _)

theorem bland_modifyUd (f : TlsUd → TlsUd) : Within Bland (modifyUd tu f) s :=
  .derefUd_bind fun _ _ => bland_modifyTls _

theorem bland_setUd (p : Option ChannId) (tu : Nat) : Within Bland (mnetExtChannSetUd p tu : TlsM Unit) s := by
  cases p with
  | none => exact within_pure ()
  | some n =>
    exact .deref_bind fun _ _ => .read_bind <| .ite (fun _ => leaves_modifyChann fun _ => rfl)
      fun _ => within_pure ()

theorem bland_callocUd (st : ChannState) : Within Bland (callocUd st) s :=
  .read_bind <| (bland_modifyTls _).bind fun _ _ _ => within_pure _

theorem bland_sslNew : Within Bland (sslNew n) s :=
  .read_bind <| (bland_modifyTls _).bind fun _ _ _ => within_pure _

theorem bland_sslSetFd (fd : Int) : Within Bland (sslSetFd ssl fd) s :=
  .derefSsl_bind fun _ _ _ _ => bland_modifyTls _

theorem bland_sslAnswer : Within Bland sslAnswer s :=
  .read_bind <| .bind bland_sysRet fun _ _ _ => within_pure _

theorem bland_sslReset : Within Bland (sslReset ssl) s :=
  .derefSsl_bind fun _ _ _ _ => .bind bland_sysRet fun _ _ _ => bland_modifyTls _

theorem bland_sslIsRw : Within Bland (sslIsRw ssl) s := .derefSsl_bind fun _ _ _ _ => within_pure _

theorem bland_tlsHandshake : Within Bland (tlsHandshake tu op) s :=
  .derefUd_bind fun _ _ => .bind (.derefSsl_bind fun _ _ _ _ => .bind bland_sslAnswer fun _ _ _ =>
      (bland_modifyTls _).bind fun _ _ _ => within_pure _) fun _ _ _ => .ite
    (fun _ => (bland_modifyUd _).bind fun _ _ _ => within_pure _)
    fun _ => .bind bland_sslIsRw fun _ _ _ => within_pure _

theorem bland_tlsTransferFn (len : Nat) : Within Bland (tlsTransferFn n len) s :=
  .getUd_bind fun _ => .ite (fun _ => .derefUd_bind fun _ _ =>
    .bind (.derefSsl_bind fun _ _ _ _ => .bind bland_sslAnswer fun _ _ _ =>
      (bland_modifyTls _).bind fun _ _ _ => within_pure _) fun _ _ _ =>
        .ite (fun _ => within_pure _) fun _ => .bind bland_sslIsRw fun _ _ _ => within_pure _)
    fun _ => within_pure _

theorem bland_tlsDisconnectCb : Within Bland (tlsDisconnectCb n) s :=
  .getUd_bind fun _ => .ite (fun _ => .derefUd_bind fun _ _ => .ite
    (fun _ => (bland_modifyUd _).bind fun _ _ _ => bland_sslReset) fun _ => within_pure ())
    fun _ => within_pure ()

/-- Neither do the callbacks of the internal types do anything, nor those of TLS that do not start a
handshake. -/
theorem bland_cb {ctype : Nat} {op : ExtOp} (ha : op ≠ .acceptCb) (hc : op ≠ .connectCb) :
    Within Bland ((extConfig tlsTable ctype).cb op n) s := by
  obtain ⟨_, he⟩ | ⟨_, he⟩ := extConfig_cases ctype
  swap
  · rw [he, internalExt_cb]
    exact within_pure ()
  rw [he]
  cases op with
  | openCb => exact (bland_callocUd _).bind fun _ _ _ => bland_setUd _ _
  | closeCb =>
    exact .getUd_bind fun _ => .ite (fun _ => .derefUd_bind fun _ _ => .ite
      (fun _ => (bland_modifyUd _).bind fun _ _ _ => .bind
        (.when fun _ => .derefSsl_bind fun _ _ _ _ => bland_modifyTls _) fun _ _ _ =>
          (bland_modifyTls _).bind fun _ _ _ => bland_setUd _ _)
      fun _ => within_pure ()) fun _ => within_pure ()
  | listenCb =>
    exact .getUd_bind fun _ => .ite (fun _ => (bland_setUd _ _).bind fun _ _ _ => bland_modifyTls _)
      fun _ => within_pure ()
  | disconnectCb => exact bland_tlsDisconnectCb
  | acceptCb => exact absurd rfl ha
  | connectCb => exact absurd rfl hc

/-- The user data and the object a handshake starts with. -/
theorem bland_tlsBegin {R : Sys Tls → Sys Tls → Prop} [Std.Refl R] [IsTrans (Sys Tls) R]
    (hR : ∀ a b, Bland a b → R a b) (hdown : ∀ a, Within R (tlsDisconnect n) a) :
    Within R (tlsBegin n tu op) s := by
  refine (bland_sslNew.mono (hR _)).bind fun _ _ _ => ((bland_modifyUd _).mono (hR _)).bind fun _ _ _ =>
    .deref_bind fun _ _ => ((bland_sslSetFd _).mono (hR _)).bind fun _ _ _ =>
      (bland_tlsHandshake.mono (hR _)).bind fun _ _ _ => .when fun _ => hdown _

/-- Every callback does what is bland, and may disconnect. -/
theorem within_cb {R : Sys Tls → Sys Tls → Prop} [Std.Refl R] [IsTrans (Sys Tls) R]
    (hR : ∀ a b, Bland a b → R a b) (hdown : ∀ n a, Within R (tlsDisconnect n) a) (ctype : Nat) (op : ExtOp) :
    Within R ((extConfig tlsTable ctype).cb op n) s := by
  by_cases hop : op = .acceptCb ∨ op = .connectCb
  swap
  · exact (bland_cb (fun h => hop (.inl h)) fun h => hop (.inr h)).mono (hR _)
  obtain ⟨_, he⟩ | ⟨_, he⟩ := extConfig_cases ctype
  · rw [he]
    rcases hop with rfl | rfl
    · exact ((bland_callocUd _).mono (hR _)).bind fun _ _ _ => ((bland_setUd _ _).mono (hR _)).bind
        fun _ _ _ => bland_tlsBegin hR (hdown n)
    · exact .getUd_bind fun _ => .ite (fun _ => ((bland_modifyUd _).mono (hR _)).bind
        fun _ _ _ => bland_tlsBegin hR (hdown n)) fun _ => within_pure ()
  · rw [he, internalExt_cb]
    exact within_pure ()

theorem bland_recvFn (ctype len : Nat) : Within Bland ((extConfig tlsTable ctype).recvFn n len) s := by
  obtain ⟨_, he⟩ | ⟨_, he⟩ := extConfig_cases ctype
  · rw [he]
    exact bland_tlsTransferFn len
  · rw [he]
    exact bland_internal_recvFn ctype len

theorem bland_sendFn (ctype : Nat) (data : List UInt8) :
    Within Bland ((extConfig tlsTable ctype).sendFn n data) s := by
  obtain ⟨_, he⟩ | ⟨_, he⟩ := extConfig_cases ctype
  · rw [he]
    exact bland_tlsTransferFn data.length
  · rw [he]
    exact bland_internal_sendFn ctype data

/-! ## Data and timers -/

theorem resting_disconnectCb (ctype : Nat) (n : ChannId) (s : Sys Tls) :
    Within Resting ((extConfig tlsTable ctype).disconnectCb n) s := by
  have hcb : ∀ a, Within Bland ((extConfig tlsTable ctype).cb .disconnectCb n) a := fun _ =>
    bland_cb (by simp) (by simp)
  exact (hcb s).resting

theorem settling_tlsDisconnect : Within Settling (tlsDisconnect n) s := by
  have hdown := settling_disconnectSocket (x := tlsTable) resting_disconnectCb (n := n) (s := s)
  rw [opsOf_tlsTable] at hdown
  exact hdown.bind fun _ _ _ => within_pure ()

theorem settling_modifyMsg (f : ChannMsg → ChannMsg) : Within Settling (modifyMsg n f) s :=
  Within.settling (leaves_modifyChann fun _ => rfl)

theorem settling_tlsReport {d : TlsUd} {p : Option ChannId} {h : Handshake} :
    Within Settling (tlsReport n tu d p h) s := by
  cases h with
  | again => exact within_pure _
  | done =>
    exact .ite (fun _ => (settling_modifyMsg _).bind fun _ _ _ => (bland_modifyUd _).resting.settling.bind
      fun _ _ _ => within_pure _) fun _ => (settling_modifyMsg _).bind fun _ _ _ => within_pure _
  | failed =>
    exact .ite (fun _ => .bind (.forSome fun _ _ => settling_tlsDisconnect) fun _ _ _ => within_pure _)
      fun _ => (settling_modifyMsg _).bind fun _ _ _ =>
        .bind (.forSome fun _ _ => settling_tlsDisconnect) fun _ _ _ => within_pure _

theorem settling_tlsFilterFn : Within Settling (tlsFilterFn n) s := by
  refine .deref_bind fun c _ => ?_
  have hadvance : Within Settling (tlsAdvance n c.msg.n) s := .getUd_bind fun _ => .ite (fun _ => within_pure _)
    fun _ => .derefUd_bind fun _ _ => .ite (fun _ => within_pure _) fun _ =>
      bland_tlsHandshake.resting.settling.bind fun _ _ _ => settling_tlsReport
  match c.msg.event with
  | some .accept =>
    exact .getUd_bind fun _ => .ite
      (fun _ => (bland_modifyUd _).resting.settling.bind fun _ _ _ => within_pure _) fun _ => within_pure _
  | some .connected | some .recv => exact hadvance
  | some .send | some .disconnect | some .timer | none => exact within_pure _

theorem modest_tlsTable : Modest tlsTable where
  cb ctype op _ _ := within_cb (fun _ _ h => .single (.inl h.resting)) (fun _ _ => settling_tlsDisconnect) ctype op
  disconnectCb := resting_disconnectCb
  recvFn ctype _ len _ := (bland_recvFn ctype len).resting
  sendFn ctype _ data _ := (bland_sendFn ctype data).resting
  filterFn ctype n _ := by
    obtain ⟨_, he⟩ | ⟨_, he⟩ := extConfig_cases ctype
    · rw [he]
      exact settling_tlsFilterFn
    · rw [he]
      exact within_pure true

end MNet
