import MNet.Berths
import MNet.Tls.Ebb
import MNet.Tls.Owned
import MNet.WriteInterest

/-! # Handshakes that wait for output

A handshake call that cannot write reports `SSL_ERROR_WANT_WRITE`, and has to be made again when the
socket takes output. Only a connection that is still CONNECTING is watched for it. -/

namespace MNet
open MNet.Lib MNet.Lib.Exec

variable {s t a : Sys Tls} {n p : ChannId} {c : Chann} {u : Unit}

/-! ## The last call -/

/-- What the event says of a handshake call on the object. -/
def SslEvent.callOn (i : SslId) : SslEvent → Option (Int × Int)
  | .handshake j _ ret err => if j = i then some (ret, err) else none
  | _ => none

/-- What the last call of the handshake of the object came to. -/
def Tls.lastCall (e : Tls) (i : SslId) : Option (Int × Int) := e.log.findSome? (SslEvent.callOn i)

/-- The call did not get through, and `SSL_get_error` says that output blocked it. -/
def WantsWrite (r : Int × Int) : Prop := r.1 ≠ 1 ∧ r.2 = SSL_ERROR_WANT_WRITE

instance (r : Int × Int) : Decidable (WantsWrite r) := by unfold WantsWrite; infer_instance

/-- The last handshake call on the object that the channel holds waits for output. -/
def Blocked (s : Sys Tls) (n : ChannId) : Prop :=
  ∃ i ∈ s.sslOf n, ∃ r ∈ s.ext.lastCall i, WantsWrite r

instance (s : Sys Tls) (n : ChannId) : Decidable (Blocked s n) := by unfold Blocked; infer_instance

theorem Tls.lastCall_cons {e e' : Tls} {ev : SslEvent} {i : SslId} (hlog : e'.log = ev :: e.log)
    (hev : ev.callOn i = none) : e'.lastCall i = e.lastCall i := by
  rw [Tls.lastCall, hlog, List.findSome?_cons, hev]
  rfl

theorem Tls.lastCall_self {e : Tls} {i : SslId} {op : SslOp} {ret err : Int} {l : List SslEvent}
    (hlog : e.log = .handshake i op ret err :: l) : e.lastCall i = some (ret, err) := by
  rw [Tls.lastCall, hlog, List.findSome?_cons, SslEvent.callOn, if_pos rfl]

theorem SslEvent.callOn_other {i j : SslId} {op : SslOp} {ret err : Int} (h : j ≠ i) :
    (SslEvent.handshake j op ret err).callOn i = none := if_neg h

/-! ## What concerns a channel -/

/-- What a connection is to the kernel and to the extension. -/
def Chann.grip (c : Chann) : Int × ChannState × Nat × Nat := (c.fd, c.state, c.extUd, c.ctype)

def TlsUd.face (d : TlsUd) : ChannState × Option SslId := (d.state, d.ssl)

/-- User data and the handshake of its object are as they were. -/
structure Tls.Spares (v : Nat) (e e' : Tls) : Prop where
  ud : (e'.uds v).map TlsUd.face = (e.uds v).map TlsUd.face
  last : ∀ d i, e.uds v = some d → d.ssl = some i → e'.lastCall i = e.lastCall i

/-- So are the connection of the channel and what the kernel watches it for. -/
structure Bypasses (p : ChannId) (s t : Sys Tls) : Prop where
  grip : (t.heap p).map Chann.grip = (s.heap p).map Chann.grip
  ext : ∀ c, s.heap p = some c → c.extUd ≠ 0 → s.ext.Spares c.extUd t.ext
  kq : t.mnet.kq = s.mnet.kq
  epoll : ∀ c, s.heap p = some c → 0 < c.fd → t.kernel.epoll c.fd = s.kernel.epoll c.fd

namespace Tls.Spares

variable {e e' e'' : Tls} {v tu : Nat} {d : TlsUd} {i : SslId}

theorem refl (v : Nat) (e : Tls) : e.Spares v e := ⟨rfl, fun _ _ _ _ => rfl⟩

theorem trans (h : e.Spares v e') (h' : e'.Spares v e'') : e.Spares v e'' where
  ud := h'.ud.trans h.ud
  last d i hd hi := by
    have hud := h.ud
    rw [hd] at hud
    obtain ⟨f, hf, hface⟩ := Option.map_eq_some_iff.mp hud
    have hssl : f.ssl = d.ssl := congrArg Prod.snd hface
    exact (h'.last f i hf (hssl.trans hi)).trans (h.last d i hd hi)

theorem of_log (huds : e'.uds v = e.uds v) (hlog : e'.log = e.log) : e.Spares v e' :=
  ⟨by rw [huds], fun _ _ _ _ => by rw [lastCall, hlog, lastCall]⟩

theorem setSsl (obj : Ssl) : e.Spares v (e.setSsl i obj) := of_log rfl rfl

theorem setUd (hv : v ≠ tu) : e.Spares v (e.setUd tu d) := of_log (Function.update_of_ne hv ..) rfl

theorem alloc {st : ChannState} (hv : v ≠ e.nextUd) : e.Spares v (e.alloc st) :=
  of_log (Function.update_of_ne hv ..) rfl

/-- User data that is written to shows the same. -/
theorem reface (hd : e.uds tu = some d) {d' : TlsUd} (hface : d'.face = d.face) : e.Spares v (e.setUd tu d') where
  ud := by
    by_cases hv : v = tu
    · simp [hv, hd, Tls.setUd, hface]
    · exact congrArg _ (Function.update_of_ne hv ..)
  last _ _ _ _ := rfl

/-- A call on an object that is not there. -/
theorem shaken {obj : Ssl} {op : SslOp} {ret err : Int} (h : ∀ d, e.uds v = some d → d.ssl ≠ some i) :
    e.Spares v (e.shaken i obj op ret err) where
  ud := rfl
  last d _ hd hj := lastCall_cons rfl (SslEvent.callOn_other fun he => h d hd (he ▸ hj))

theorem begun {fd ret err : Int} {op : SslOp} (hv : v ≠ tu) (h : ∀ d, e.uds v = some d → d.ssl ≠ some e.nextSsl) :
    e.Spares v (e.begun n tu d fd op ret err) where
  ud := congrArg _ (Function.update_of_ne hv ..)
  last f j hf hj := by
    have hne : e.nextSsl ≠ j := fun he => h f hf (he ▸ hj)
    show List.findSome? _ _ = _
    rw [Tls.begun, List.findSome?_cons, SslEvent.callOn_other hne, List.findSome?_cons]
    rfl

theorem drop (hv : v ≠ tu) : e.Spares v (e.drop tu d) where
  ud := by rw [drop_uds, Function.update_of_ne hv]
  last f j _ _ := by
    unfold Tls.drop
    cases d.ssl with
    | none => rfl
    | some i => exact lastCall_cons rfl rfl

end Tls.Spares

namespace Bypasses

theorem of_ext (hheap : (t.heap p).map Chann.grip = (s.heap p).map Chann.grip) (hext : t.ext = s.ext)
    (hkq : t.mnet.kq = s.mnet.kq) (hepoll : t.kernel.epoll = s.kernel.epoll) : Bypasses p s t :=
  ⟨hheap, fun _ _ _ => hext ▸ .refl _ _, hkq, fun _ _ _ => by rw [hepoll]⟩

theorem refl (p : ChannId) (s : Sys Tls) : Bypasses p s s := of_ext rfl rfl rfl rfl

theorem chann (h : Bypasses p s t) (hc : s.heap p = some c) : ∃ d, t.heap p = some d ∧ d.grip = c.grip := by
  have hg := h.grip
  rw [hc] at hg
  exact Option.map_eq_some_iff.mp hg

theorem chann' (h : Bypasses p s t) {d : Chann} (hd : t.heap p = some d) : ∃ c, s.heap p = some c ∧ d.grip = c.grip := by
  have hg := h.grip
  rw [hd] at hg
  obtain ⟨c, hc, he⟩ := Option.map_eq_some_iff.mp hg.symm
  exact ⟨c, hc, he.symm⟩

theorem trans (h : Bypasses p s a) (h' : Bypasses p a t) : Bypasses p s t where
  grip := h'.grip.trans h.grip
  ext c hc hne := by
    obtain ⟨d, hd, hg⟩ := h.chann hc
    have hud : d.extUd = c.extUd := congrArg (·.2.2.1) hg
    exact (h.ext c hc hne).trans (hud ▸ h'.ext d hd (hud ▸ hne))
  kq := h'.kq.trans h.kq
  epoll c hc hpos := by
    obtain ⟨d, hd, hg⟩ := h.chann hc
    have hfd : d.fd = c.fd := congrArg Prod.fst hg
    exact (hfd ▸ h'.epoll d hd (hfd ▸ hpos)).trans (h.epoll c hc hpos)

theorem of_set {d : Chann} (hc : s.heap n = some c) (hd : d.grip = c.grip) : Bypasses p s (s.setChann n d) := by
  refine of_ext ?_ rfl rfl rfl
  by_cases hp : p = n
  · rw [hp, hc, setChann_self, Option.map_some, Option.map_some, hd]
  · exact congrArg _ (Function.update_of_ne hp ..)

theorem recorded {e : SysEvent} : Bypasses p s (s.recorded e) := of_ext rfl rfl rfl rfl

/-- Another channel is written to. -/
theorem of_other {d : Chann} (hp : p ≠ n) (hheap : t.heap = Function.update s.heap n (some d)) (hext : t.ext = s.ext)
    (hkq : t.mnet.kq = s.mnet.kq) (hepoll : ∀ c, s.heap p = some c → 0 < c.fd → t.kernel.epoll c.fd = s.kernel.epoll c.fd) :
    Bypasses p s t :=
  ⟨by rw [hheap, Function.update_of_ne hp], fun _ _ _ => hext ▸ .refl _ _, hkq, hepoll⟩

/-- The object and its last call are those from before. -/
theorem blocked (h : Bypasses p s t) (hb : Blocked t p) : Blocked s p := by
  have hssl : ∀ i, t.sslOf p = some i → s.sslOf p = some i ∧ t.ext.lastCall i = s.ext.lastCall i := by
    intro i hi
    obtain ⟨d, f, hd, hne, hf, hfi⟩ := Sys.sslOf_some hi
    obtain ⟨c, hc, hg⟩ := h.chann' hd
    have hud : d.extUd = c.extUd := congrArg (·.2.2.1) hg
    rw [hud] at hne hf
    have hext := h.ext c hc hne
    have hface := hext.ud
    rw [hf] at hface
    obtain ⟨g, hg', he⟩ := Option.map_eq_some_iff.mp hface.symm
    have hgssl : g.ssl = f.ssl := congrArg Prod.snd he
    refine ⟨(Sys.sslOf_eq hc hne hg').trans (hgssl.trans hfi), hext.last g i hg' (hgssl.trans hfi)⟩
  obtain ⟨i, hi, r, hr, hw⟩ := hb
  obtain ⟨hi', hlast⟩ := hssl i hi
  exact ⟨i, hi', r, hlast ▸ hr, hw⟩

theorem of_kept (h : Kept s t) (hheap : t.heap = s.heap)
    (hext : ∀ c, s.heap p = some c → c.extUd ≠ 0 → s.ext.Spares c.extUd t.ext) : Bypasses p s t :=
  ⟨by rw [hheap], hext, by rw [h.mnet], fun _ _ _ => by rw [h.epoll]⟩

end Bypasses

/-! ## What the moves spare -/

theorem Plain.bypasses (h : Plain s t) : Bypasses p s t := by
  refine .of_ext ?_ h.ext h.kq h.epoll
  have hp := congrArg (Option.map Chann.grip) (h.face p)
  rw [Option.map_map, Option.map_map] at hp
  exact hp

theorem Wired.bypasses (h : Wired s t) : Bypasses p s t := by
  refine .of_ext ?_ h.ext (by rw [h.mnet]) h.epoll
  have hp := congrArg (Option.map Chann.grip) (h.heap p)
  rw [Option.map_map, Option.map_map] at hp
  exact hp

/-- Two channels that share neither descriptor nor user data. -/
structure Unshared (p n : ChannId) (s : Sys Tls) : Prop where
  ne : p ≠ n
  fd : ∀ c d, s.heap p = some c → s.heap n = some d → 0 < c.fd → c.fd ≠ d.fd
  ud : ∀ c d, s.heap p = some c → s.heap n = some d → c.extUd ≠ 0 → c.extUd ≠ d.extUd

namespace Unshared

theorem of_owned (hb : Owned s) (hk : Berthed s) (hp : p ≠ n) : Unshared p n s where
  ne := hp
  fd c d hc hd hpos he := hp (hk.inj p n c d hc hd hpos he)
  ud c d hc hd hne he := hp (hb.inj p n c d hc hd he hne)

theorem of_grip (h : Unshared p n s) (hg : ∀ m, (t.heap m).map Chann.grip = (s.heap m).map Chann.grip) : Unshared p n t := by
  have hback : ∀ m d, t.heap m = some d → ∃ c, s.heap m = some c ∧ c.fd = d.fd ∧ c.extUd = d.extUd := by
    intro m d hd
    have hm := hg m
    rw [hd] at hm
    obtain ⟨c, hc, he⟩ := Option.map_eq_some_iff.mp hm.symm
    exact ⟨c, hc, congrArg Prod.fst he, congrArg (·.2.2.1) he⟩
  refine ⟨h.ne, fun c d hc hd hpos => ?_, fun c d hc hd hne => ?_⟩
  all_goals
    obtain ⟨e, he, hefd, heud⟩ := hback p c hc
    obtain ⟨f, hf, hffd, hfud⟩ := hback n d hd
  · rw [← hefd, ← hffd]
    exact h.fd e f he hf (hefd ▸ hpos)
  · rw [← heud, ← hfud]
    exact h.ud e f he hf (heud ▸ hne)

theorem of_heap (h : Unshared p n s) (hheap : t.heap = s.heap) : Unshared p n t := h.of_grip fun _ => by rw [hheap]

end Unshared

/-- `epoll_ctl` for another channel. -/
theorem evtCtl_bypasses {op : CtlOp} {events : BitVec 32} {r : Int} (hp : Unshared p n s)
    (h : Returns (evtCtl n op events) s r t) : Bypasses p s t := by
  obtain ⟨d, ev, hctl, hcases⟩ := evtCtl_cases h
  refine .of_other hp.ne hctl.heap hctl.ext (by rw [hctl.mnet]) fun c hc hpos => ?_
  obtain ⟨_, _, _, _, he⟩ | ⟨_, _, he, _⟩ := hcases
  · rw [he]
    exact Function.update_of_ne (hp.fd c d hc hctl.was hpos) ..
  · rw [he]

theorem evtAdd_bypasses {set : EvtSet} {r : Int} (hp : Unshared p n s) (h : Returns (evtAdd n set) s r t) : Bypasses p s t := by
  simp only [evtAdd, returns_bind, returns_deref, and_assoc, exists_and_left, exists_eq_left] at h
  obtain ⟨_, _, h⟩ := h
  exact evtCtl_bypasses hp h

theorem ChannState.active.lt_val {st : ChannState} (h : st.active) : ChannState.disconnect.val < st.val := by
  cases st <;> simp [ChannState.val, ChannState.active] at *

/-- The state in the user data is written to, and the object is cleared, unless the user data is in no connection. -/
theorem tlsDisconnectCb_cases (h : Returns (tlsDisconnectCb n) s u t) : Kept s t ∧ t.heap = s.heap ∧
    ((t.ext = s.ext ∧ ∀ c d, s.heap n = some c → s.mnet.reserved c.ctype = true → c.extUd ≠ 0 →
      s.ext.uds c.extUd = some d → ¬ d.state.active) ∨
    ∃ c d i obj, s.heap n = some c ∧ c.extUd ≠ 0 ∧ s.ext.uds c.extUd = some d ∧
      t.ext = (s.ext.setUd c.extUd { d with state := .disconnect }).setSsl i obj) := by
  refine ⟨kept_tlsDisconnectCb _ _ h, ?_⟩
  simp only [tlsDisconnectCb, returns_bind, returns_getUd] at h
  obtain ⟨tu, _, ⟨rfl, c, hc, htu⟩, h⟩ := h
  rcases returns_ite.mp h with ⟨hne, h⟩ | ⟨hz, h⟩
  swap
  · rw [(returns_pure.mp h).2]
    refine ⟨rfl, .inl ⟨rfl, fun e d he hres hne _ => ?_⟩⟩
    obtain rfl := Option.some.inj (hc.symm.trans he)
    rw [if_pos hres] at htu
    exact absurd (htu ▸ hne) hz
  have htu : tu = c.extUd := by
    split at htu
    · exact htu
    · exact absurd htu hne
  subst htu
  simp only [returns_bind, returns_derefUd, and_assoc, exists_eq_left] at h
  obtain ⟨d, hd, h⟩ := h
  rcases returns_ite.mp h with ⟨_, h⟩ | ⟨hdown, h⟩
  swap
  · rw [(returns_pure.mp h).2]
    refine ⟨rfl, .inl ⟨rfl, fun e f he _ _ hf hact => hdown ?_⟩⟩
    obtain rfl := Option.some.inj (hc.symm.trans he)
    obtain rfl := Option.some.inj (hd.symm.trans hf)
    exact hact.lt_val
  simp only [sslReset, returns_bind, returns_modifyUd, returns_derefSsl, returns_modifyTls] at h
  obtain ⟨_, _, ⟨d', hd', rfl⟩, ⟨i, obj⟩, _, ⟨rfl, _, _⟩, r, b, hr, rfl⟩ := h
  rw [hd, Option.some.injEq] at hd'
  subst hd'
  obtain ⟨_, rfl⟩ := sysRet_spec hr
  exact ⟨rfl, .inr ⟨c, d, i, _, hc, hne, hd, rfl⟩⟩

theorem disconnectCb_bypasses {ctype : Nat} (hp : Unshared p n s)
    (h : Returns ((extConfig tlsTable ctype).disconnectCb n) s u t) : t.heap = s.heap ∧ Bypasses p s t := by
  obtain ⟨_, he⟩ | ⟨_, he⟩ := extConfig_cases ctype
  · rw [he] at h
    obtain ⟨hk, hheap, hcases⟩ := tlsDisconnectCb_cases h
    refine ⟨hheap, .of_kept hk hheap fun c hc hne => ?_⟩
    obtain ⟨hext, _⟩ | ⟨d, f, i, obj, hd, _, _, hext⟩ := hcases
    · rw [hext]
      exact .refl _ _
    · rw [hext]
      exact (Tls.Spares.setUd (hp.ud c d hc hd hne)).trans (.setSsl _)
  · rw [he] at h
    rw [(returns_pure.mp h).2]
    exact ⟨rfl, .refl _ _⟩

/-- Another channel is hung up. -/
theorem disconnect_bypasses {r : Int} (hp : Unshared p n s) (h : Returns (channDisconnectSocket (opsOf tlsTable) n) s r t) :
    Bypasses p s t := by
  obtain ⟨c, _, ⟨_, _, rfl⟩ | ⟨_, _, _, a, d, v, hcb, hrel⟩⟩ := channDisconnectSocket_cases h
  · exact .refl _ _
  rw [opsConfig_opsOf] at hcb
  have hp' : Unshared p n (s.recorded (.extOp .disconnectCb n)) := ⟨hp.ne, hp.fd, hp.ud⟩
  obtain ⟨hheap, ha⟩ := disconnectCb_bypasses hp' hcb
  refine Bypasses.trans .recorded (ha.trans (.of_other hp.ne hrel.heap hrel.ext (by rw [hrel.mnet]) fun e he hpos => ?_))
  rw [hrel.epoll]
  exact Function.update_of_ne ((hp'.of_heap hheap).fd e d he hrel.was hpos) ..

theorem tlsDisconnect_bypasses (hp : Unshared p n s) (h : Returns (tlsDisconnect n) s u t) : Bypasses p s t := by
  rw [tlsDisconnect, ← opsOf_tlsTable] at h
  obtain ⟨_, _, h, hpure⟩ := returns_bind.mp h
  rw [(returns_pure.mp hpure).2]
  exact disconnect_bypasses hp h

/-- A handshake of another channel is begun. -/
theorem tlsBegin_bypasses {op : SslOp} {tu : Nat} (hp : Unshared p n s)
    (hv : ∀ c, s.heap p = some c → c.extUd ≠ 0 → c.extUd ≠ tu)
    (hssl : ∀ c d, s.heap p = some c → c.extUd ≠ 0 → s.ext.uds c.extUd = some d → d.ssl ≠ some s.ext.nextSsl)
    (h : Returns (tlsBegin n tu op) s u t) : Bypasses p s t := by
  obtain ⟨c, d, ret, err, a, _, _, hk, hheap, hext, hcases⟩ := tlsBegin_cases h
  have ha : Bypasses p s a := .of_kept hk hheap fun e he hne => by
    rw [hext]
    exact .begun (hv e he hne) fun f hf => hssl e f he hne hf
  obtain ⟨_, rfl⟩ | ⟨_, _, hdown⟩ := hcases
  · exact ha
  · exact ha.trans (tlsDisconnect_bypasses (hp.of_heap hheap) hdown)

/-! ## Calls of the handshake -/

/-- No call is logged. -/
def Unlogged (s t : Sys Tls) : Prop := t.ext.log = s.ext.log

instance : Std.Refl Unlogged := ⟨fun _ => rfl⟩

instance : IsTrans (Sys Tls) Unlogged := ⟨fun _ _ _ h h' => h'.trans h⟩

theorem unlogged_tlsDisconnect : Within Unlogged (tlsDisconnect n) s := by
  rw [tlsDisconnect, ← opsOf_tlsTable]
  refine .bind (fun r t h => ?_) fun _ _ _ => within_pure ()
  obtain ⟨c, _, ⟨_, _, rfl⟩ | ⟨_, _, _, a, d, v, hcb, hrel⟩⟩ := channDisconnectSocket_cases h
  · exact rfl
  rw [opsConfig_opsOf] at hcb
  have ha : Unlogged s a := by
    obtain ⟨_, he⟩ | ⟨_, he⟩ := extConfig_cases c.ctype
    · rw [he] at hcb
      obtain ⟨_, _, ⟨hext, _⟩ | ⟨_, _, _, _, _, _, _, hext⟩⟩ := tlsDisconnectCb_cases hcb
      all_goals
        rw [Unlogged, hext]
        rfl
    · rw [he] at hcb
      rw [(returns_pure.mp hcb).2]
      exact rfl
  exact (congrArg Tls.log hrel.ext).trans ha

theorem unlogged_modifyMsg (f : ChannMsg → ChannMsg) : Within Unlogged (modifyMsg n f) s := by
  intro _ t h
  obtain ⟨_, _, rfl⟩ := returns_modifyChann.mp h
  rfl

theorem unlogged_tlsReport {tu : Nat} {d : TlsUd} {q : Option ChannId} {h : Handshake} :
    Within Unlogged (tlsReport n tu d q h) s := by
  have hdown : ∀ s, Within Unlogged (Exec.forSome q tlsDisconnect) s :=
    fun _ => .forSome fun _ _ => unlogged_tlsDisconnect
  cases h with
  | done =>
    refine .ite (fun _ => (unlogged_modifyMsg _).bind fun _ _ _ => .bind (fun _ _ hm => ?_) fun _ _ _ => within_pure _)
      fun _ => (unlogged_modifyMsg _).bind fun _ _ _ => within_pure _
    obtain ⟨_, _, rfl⟩ := returns_modifyUd.mp hm
    rfl
  | again => exact within_pure _
  | failed =>
    exact .ite (fun _ => (hdown _).bind fun _ _ _ => within_pure _) fun _ =>
      (unlogged_modifyMsg _).bind fun _ _ _ => (hdown _).bind fun _ _ _ => within_pure _

/-- What is reported of another channel. -/
theorem tlsReport_bypasses {tu : Nat} {d : TlsUd} {h : Handshake} {pass : Bool} (hp : Unshared p n s)
    (hr : Returns (tlsReport n tu d (some n) h) s pass t) : Bypasses p s t := by
  have hmsg : ∀ {a b : Sys Tls} {f : ChannMsg → ChannMsg} {u : Unit}, Returns (modifyMsg n f) a u b →
      Bypasses p a b ∧ (Unshared p n a → Unshared p n b) := by
    intro a b f u h
    obtain ⟨c, hc, rfl⟩ := returns_modifyChann.mp h
    refine ⟨.of_set hc rfl, fun ha => ha.of_grip fun m => ?_⟩
    exact (Bypasses.of_set (p := m) (d := { c with msg := f c.msg }) hc rfl).grip
  cases h with
  | done =>
    rcases returns_ite.mp hr with ⟨_, h⟩ | ⟨_, h⟩
    · simp only [returns_bind, returns_modifyUd, returns_pure] at h
      obtain ⟨_, a, hm, _, _, ⟨e, he, rfl⟩, _, rfl⟩ := h
      exact (hmsg hm).1.trans ⟨rfl, fun _ _ _ => .reface he rfl, rfl, fun _ _ _ => rfl⟩
    · simp only [returns_bind, returns_pure] at h
      obtain ⟨_, _, hm, _, rfl⟩ := h
      exact (hmsg hm).1
  | again =>
    rw [(returns_pure.mp hr).2]
    exact .refl _ _
  | failed =>
    simp only [tlsReport, Exec.forSome] at hr
    rcases returns_ite.mp hr with ⟨_, h⟩ | ⟨_, h⟩
    · simp only [returns_bind, returns_pure] at h
      obtain ⟨_, _, h, _, rfl⟩ := h
      exact tlsDisconnect_bypasses hp h
    · simp only [returns_bind, returns_pure] at h
      obtain ⟨_, a, hm, _, _, h, _, rfl⟩ := h
      exact (hmsg hm).1.trans (tlsDisconnect_bypasses ((hmsg hm).2 hp) h)

/-- A call on the object of the channel, which is the last one logged. -/
def Called (n : ChannId) (op : SslOp) (s t : Sys Tls) : Prop :=
  ∃ i ret err l, t.sslOf n = some i ∧ t.ext.log = .handshake i op ret err :: l ∧ s.ext.log <:+ l

theorem tlsBegin_called {op : SslOp} {tu : Nat} (hc : s.heap n = some c) (hud : c.extUd = tu) (hne : tu ≠ 0)
    (h : Returns (tlsBegin n tu op) s u t) : Called n op s t := by
  obtain ⟨e, d, ret, err, a, he, _, hk, hheap, hext, hcases⟩ := tlsBegin_cases h
  rw [hc, Option.some.injEq] at he
  subst he
  subst hud
  have hssl : a.sslOf n = some s.ext.nextSsl := by
    refine Sys.sslOf_eq (c := c) (d := { d with ssl := some s.ext.nextSsl, state := if ret = 1 then .connected else d.state })
      (by rw [hheap, hc]) hne ?_
    rw [hext]
    exact Function.update_self ..
  refine ⟨s.ext.nextSsl, ret, err, .new n s.ext.nextSsl :: s.ext.log, ?_, ?_, List.suffix_cons _ _⟩
  all_goals obtain ⟨_, rfl⟩ | ⟨_, _, hdown⟩ := hcases
  · exact hssl
  · exact ((steady_tlsDisconnect _ _ hdown).sslOf n).trans hssl
  · rw [hext]
    rfl
  · rw [unlogged_tlsDisconnect _ _ hdown, hext]
    rfl

/-- A message that drives the handshake makes one call, and reports what that comes to. Without user
data, and with a handshake that is done, it does not. -/
theorem tlsAdvance_cases {pass : Bool} (hc : s.heap n = some c) (h : Returns (tlsAdvance n (some n)) s pass t) :
    (t = s ∧ (c.extUd = 0 ∨ s.mnet.reserved c.ctype = false ∨ ∃ d, s.ext.uds c.extUd = some d ∧ d.state = .connected)) ∨
      ∃ d i obj op ret err a hs, c.extUd ≠ 0 ∧ s.ext.uds c.extUd = some d ∧ d.ssl = some i ∧ Kept s a ∧ a.heap = s.heap ∧
        (a.ext = s.ext.shaken i obj op ret err ∨
          a.ext = (s.ext.shaken i obj op ret err).setUd c.extUd { d with state := .connected }) ∧
        Returns (tlsReport n c.extUd d (some n) hs) a pass t := by
  simp only [tlsAdvance, returns_bind, returns_getUd] at h
  obtain ⟨tu, _, ⟨rfl, e, he, htu⟩, h⟩ := h
  rw [hc, Option.some.injEq] at he
  subst he
  rcases returns_ite.mp h with ⟨hz, h⟩ | ⟨hne, h⟩
  · refine .inl ⟨(returns_pure.mp h).2, ?_⟩
    split at htu
    · exact .inl (htu.symm.trans hz)
    · exact .inr (.inl (Bool.eq_false_iff.mpr ‹_›))
  have htu : tu = c.extUd := by
    split at htu
    · exact htu
    · exact absurd htu hne
  subst htu
  simp only [returns_bind, returns_derefUd, and_assoc, exists_eq_left] at h
  obtain ⟨d, hd, h⟩ := h
  rcases returns_ite.mp h with ⟨hdone, h⟩ | ⟨_, h⟩
  · exact .inl ⟨(returns_pure.mp h).2, .inr (.inr ⟨d, hd, hdone⟩)⟩
  obtain ⟨hs, a, hhs, h⟩ := returns_bind.mp h
  obtain ⟨e, i, obj, ret, err, he, hi, _, hk, hheap, hcases⟩ := tlsHandshake_cases hhs
  rw [hd, Option.some.injEq] at he
  subst he
  refine .inr ⟨d, i, obj, if d.state = .listening then .accept else .connect, ret, err, a, hs, hne, hd, hi, hk, hheap,
    ?_, h⟩
  obtain ⟨_, _, hext⟩ | ⟨_, _, _, hext⟩ | ⟨_, _, _, hext⟩ := hcases
  · exact .inr hext
  · exact .inl hext
  · exact .inl hext

/-- So the channel's own handshake is called, or nothing happens. -/
theorem tlsAdvance_drives {pass : Bool} (hb : Owned s) (hk : Berthed s) (hc : s.heap n = some c)
    (h : Returns (tlsAdvance n (some n)) s pass t) :
    (t = s ∧ (c.extUd = 0 ∨ s.mnet.reserved c.ctype = false ∨ ∃ d, s.ext.uds c.extUd = some d ∧ d.state = .connected)) ∨
      ((∃ op, Called n op s t) ∧ ∀ p ≠ n, Bypasses p s t) := by
  obtain hsame | ⟨d, i, obj, op, ret, e, a, hs, hne, hd, hi, hka, hheap, hext, hreport⟩ := tlsAdvance_cases hc h
  · exact .inl hsame
  have hud : a.ext.uds c.extUd = some d ∨ a.ext.uds c.extUd = some { d with state := .connected } := by
    obtain hext | hext := hext
    · exact .inl (by rw [hext]; exact hd)
    · exact .inr (by rw [hext]; exact Function.update_self ..)
  have hlog : a.ext.log = .handshake i op ret e :: s.ext.log := by
    obtain hext | hext := hext <;> rw [hext] <;> rfl
  refine .inr ⟨⟨op, i, ret, e, s.ext.log, ?_, ?_, List.suffix_refl _⟩, fun p hp => ?_⟩
  · rw [(steady_tlsReport _ _ hreport).sslOf]
    obtain hud | hud := hud
    all_goals exact (Sys.sslOf_eq (hheap ▸ hc) hne hud).trans hi
  · rw [unlogged_tlsReport _ _ hreport, hlog]
  · have hap := Unshared.of_owned hb hk hp
    refine Bypasses.trans (.of_kept hka hheap fun f hf hfne => ?_) (tlsReport_bypasses (hap.of_heap hheap) hreport)
    have hv : f.extUd ≠ c.extUd := hap.ud f c hf hc hfne
    have hshaken : s.ext.Spares f.extUd (s.ext.shaken i obj op ret e) :=
      .shaken fun g hg hgi => hv (hb.only f.extUd c.extUd g d i hg hd hgi hi)
    obtain hext | hext := hext
    · rw [hext]
      exact hshaken
    · rw [hext]
      exact hshaken.trans (.setUd hv)

/-- What handing a message on comes to: the message in its slot, the listener noted for the handshake,
or a step of the handshake. -/
theorem channMsg_drives {event : ChannEvent} {q : Option ChannId} {err : Int} {pass : Bool}
    (h : Returns (channMsg tlsTable n event q err) s pass t) : ∃ c, s.heap n = some c ∧
      (((¬ event.drives ∨ c.ctype ≠ CHANN_TYPE_TLS) ∧ ∀ p, Bypasses p s t) ∨
        (event.drives ∧ c.ctype = CHANN_TYPE_TLS ∧
          Returns (tlsAdvance n (some n)) (s.setChann n { c with msg := msgOf n c event q err }) pass t)) := by
  by_cases hacc : event = .accept
  · subst hacc
    obtain ⟨c, v, hc, rfl, ⟨_, _, rfl⟩ | ⟨_, tu, _, ⟨_, rfl⟩ | ⟨_, d, hd, rfl⟩⟩⟩ := channMsg_accept h
    · exact ⟨c, hc, .inl ⟨.inl id, fun _ => .of_set hc rfl⟩⟩
    · exact ⟨c, hc, .inl ⟨.inl id, fun _ => .of_set hc rfl⟩⟩
    · exact ⟨c, hc, .inl ⟨.inl id, fun _ => (Bypasses.of_set (d := { c with msg := msgOf n c .accept q err }) hc rfl).trans
        ⟨rfl, fun _ _ _ => .reface hd rfl, rfl, fun _ _ _ => rfl⟩⟩⟩
  obtain ⟨c, hc, h⟩ := channMsg_cases h
  refine ⟨c, hc, ?_⟩
  have hset : ∀ p, Bypasses p s (s.setChann n { c with msg := msgOf n c event q err }) := fun _ => .of_set hc rfl
  obtain ⟨hty, he⟩ | ⟨hty, he⟩ := extConfig_cases c.ctype
  swap
  · rw [he] at h
    obtain rfl := (returns_pure.mp h).2
    exact .inl ⟨.inr hty, hset⟩
  rw [he] at h
  have h : Returns (tlsFilterFn n) _ pass t := h
  simp only [tlsFilterFn, returns_bind, returns_deref, and_assoc, exists_and_left, exists_eq_left] at h
  obtain ⟨c', hc', h⟩ := h
  rw [setChann_self, Option.some.injEq] at hc'
  subst hc'
  cases event with
  | accept => exact absurd rfl hacc
  | connected | recv => exact .inr ⟨trivial, hty, h⟩
  | send | disconnect | timer =>
    obtain rfl := (returns_pure.mp h).2
    exact .inl ⟨.inl id, hset⟩

/-- Handing a message on leaves the other channels alone. It may come to a call of the handshake of its own. -/
theorem channMsg_bypasses {event : ChannEvent} {q : Option ChannId} {err : Int} {pass : Bool} (hb : Owned s)
    (hk : Berthed s) (h : Returns (channMsg tlsTable n event q err) s pass t) :
    (∀ p, Bypasses p s t) ∨ ((∃ op, Called n op s t) ∧ ∀ p ≠ n, Bypasses p s t) := by
  obtain ⟨c, hc, ⟨_, hall⟩ | ⟨_, _, h⟩⟩ := channMsg_drives h
  · exact .inl hall
  have hset : ∀ p, Bypasses p s (s.setChann n { c with msg := msgOf n c event q err }) := fun _ => .of_set hc rfl
  obtain ⟨rfl, _⟩ | ⟨hcalled, hothers⟩ := tlsAdvance_drives (hb.steady (steady_setChann hc (by rfl)))
    (hk.of_set hc rfl (by rfl) rfl) (setChann_self ..) h
  · exact .inl hset
  · exact .inr ⟨hcalled, fun p hp => (hset p).trans (hothers p hp)⟩

/-- A handshake that is under way is called. -/
theorem channMsg_called {event : ChannEvent} {q : Option ChannId} {err : Int} {pass : Bool} {d : TlsUd} (hb : Owned s)
    (hk : Berthed s) (hev : event.drives) (hc : s.heap n = some c) (hne : c.extUd ≠ 0)
    (hd : s.ext.uds c.extUd = some d) (hst : d.state ≠ .connected)
    (h : Returns (channMsg tlsTable n event q err) s pass t) : ∃ op, Called n op s t := by
  obtain ⟨e, he, ⟨hno, _⟩ | ⟨_, _, h⟩⟩ := channMsg_drives h
  all_goals obtain rfl := Option.some.inj (he.symm.trans hc)
  · exact absurd hno (not_or.mpr ⟨not_not.mpr hev, not_not.mpr (hb.ud n e hc hne).1⟩)
  obtain ⟨_, hz | hres | ⟨f, hf, hdone⟩⟩ | ⟨hcalled, _⟩ := tlsAdvance_drives (hb.steady (steady_setChann hc (by rfl)))
    (hk.of_set hc rfl (by rfl) rfl) (setChann_self ..) h
  · exact absurd hz hne
  · exact absurd ((hb.typed n e hc).symm.trans hres) (by simp)
  · obtain rfl := Option.some.inj (hd.symm.trans hf)
    exact absurd hdone hst
  · exact hcalled

/-! ## Moves -/

/-- A call that output has blocked. -/
def SslEvent.stalls : SslEvent → Prop
  | .handshake _ _ ret err => WantsWrite (ret, err)
  | _ => False

instance (ev : SslEvent) : Decidable ev.stalls := by cases ev <;> unfold SslEvent.stalls <;> infer_instance

/-- What was logged since is no call that output has blocked. -/
def Unstalled (s t : Sys Tls) : Prop := ∃ l, (∀ ev ∈ l, ¬ ev.stalls) ∧ t.ext.log = l ++ s.ext.log

theorem Unstalled.split (h : Unstalled s t) (ha : s.ext.log <:+ a.ext.log) (ht : a.ext.log <:+ t.ext.log) :
    Unstalled s a ∧ Unstalled a t := by
  obtain ⟨new, hnew, h⟩ := h
  obtain ⟨l, hl⟩ := ha
  obtain ⟨k, hk⟩ := ht
  have hsplit : new = k ++ l := List.append_cancel_right (by rw [← h, ← hk, ← hl, List.append_assoc])
  subst hsplit
  exact ⟨⟨l, fun ev hev => hnew ev (List.mem_append_right k hev), hl.symm⟩,
    ⟨k, fun ev hev => hnew ev (List.mem_append_left l hev), hk.symm⟩⟩

/-- A handshake that waits for output, on an open socket. -/
def Stalled (s : Sys Tls) (n : ChannId) : Prop := Blocked s n ∧ ∃ c, s.heap n = some c ∧ 0 < c.fd

/-- A call that got through has not blocked its channel. -/
theorem Called.unblocked {op : SslOp} (h : Called n op s t) (hq : Unstalled s t) : ¬ Blocked t n := by
  obtain ⟨i, ret, err, l, hi, hlog, hl⟩ := h
  rintro ⟨j, hj, r, hr, hw⟩
  rw [hi, Option.mem_some_iff] at hj
  subst hj
  rw [Tls.lastCall_self hlog, Option.mem_some_iff] at hr
  subst hr
  obtain ⟨new, hnew, hsplit⟩ := hq
  obtain ⟨k, hk⟩ := hl
  have hmem : .handshake i op ret err ∈ new := by
    have hcons : new = .handshake i op ret err :: k :=
      List.append_cancel_right (by rw [← hsplit, hlog, ← hk, List.cons_append])
    rw [hcons]
    exact List.mem_cons_self
  exact hnew _ hmem hw

/-- Neither a channel without user data nor one without a socket is stalled. -/
theorem Stalled.ud (h : Stalled s n) (hc : s.heap n = some c) : 0 < c.fd ∧ c.extUd ≠ 0 := by
  obtain ⟨⟨i, hi, _⟩, d, hd, hpos⟩ := h
  obtain ⟨e, _, he, hne, _⟩ := Sys.sslOf_some hi
  rw [hc, Option.some.injEq] at hd he
  exact ⟨hd ▸ hpos, he ▸ hne⟩

theorem Created.bypasses {ctype : Nat} {st : ChannState} (h : Created n ctype st s t) (hp : p ≠ n) : Bypasses p s t := by
  refine .of_ext ?_ h.ext (by rw [h.mnet]) (by rw [h.kernel])
  rw [h.others p hp, Option.map_map]
  cases s.heap p with
  | none => rfl
  | some c =>
    simp only [Option.map_some, Function.comp_apply]
    split <;> rfl

/-- A descriptor for another channel, or for none. -/
theorem NewFd.bypasses {fd : Int} (h : NewFd fd s t) (hheap : (t.heap p).map Chann.grip = (s.heap p).map Chann.grip) :
    Bypasses p s t := .of_ext hheap h.ext (by rw [h.mnet]) h.epoll

theorem opened_bypasses {ctype : Nat} (hb : Owned s) (hp : p ≠ n) (hres : s.mnet.reserved ctype = true)
    (hnew : Returns (channCreate ctype .disconnect) s n a)
    (hcb : Returns (callback .openCb (extConfig tlsTable ctype).openCb n) a u t) : Bypasses p s t := by
  have hcr := channCreate_created hnew
  obtain ⟨_, _, rfl, hcb⟩ := returns_callback.mp hcb
  obtain ⟨q, hq⟩ := hcr.chann
  have hown : Owned (a.recorded (.extOp .openCb n)) := (hb.created hcr hres).steady steady_recorded
  obtain ⟨_, he⟩ | ⟨_, he⟩ := extConfig_cases ctype
  · rw [he] at hcb
    have hcb : Returns (tlsOpenCb n) _ _ t := hcb
    have ht := tlsOpenCb_cases (s := a.recorded _) hq (hown.typed n _ hq) hcb
    subst ht
    refine (hcr.bypasses hp).trans ((Bypasses.recorded (e := .extOp .openCb n)).trans ?_)
    refine ⟨congrArg _ (Function.update_of_ne hp ..), fun c hc hne => .alloc (hown.ne_nextUd hc hne), rfl, fun _ _ _ => rfl⟩
  · rw [he] at hcb
    obtain rfl := (returns_pure.mp hcb).2
    exact (hcr.bypasses hp).trans .recorded

/-- A channel that has just been opened has no socket. -/
theorem opened_unstalled {ctype : Nat} (hb : Owned s) (hres : s.mnet.reserved ctype = true)
    (hnew : Returns (channCreate ctype .disconnect) s n a)
    (hcb : Returns (callback .openCb (extConfig tlsTable ctype).openCb n) a u t) : ¬ Stalled t n := by
  intro hst
  have hcr := channCreate_created hnew
  obtain ⟨_, _, rfl, hcb⟩ := returns_callback.mp hcb
  obtain ⟨q, hq⟩ := hcr.chann
  have hown : Owned (a.recorded (.extOp .openCb n)) := (hb.created hcr hres).steady steady_recorded
  obtain ⟨_, he⟩ | ⟨_, he⟩ := extConfig_cases ctype
  · rw [he] at hcb
    have hcb : Returns (tlsOpenCb n) _ _ t := hcb
    have ht := tlsOpenCb_cases (s := a.recorded _) hq (hown.typed n _ hq) hcb
    subst ht
    exact absurd (hst.ud (setChann_self ..)).1 (by simp)
  · rw [he] at hcb
    obtain rfl := (returns_pure.mp hcb).2
    exact absurd (hst.ud hq).1 (by simp)

/-- The user data of a new channel is that of no other, and the first call of its handshake is made. -/
theorem tlsAcceptCb_begins {e : Chann} (hb : Owned s) (hn : s.heap n = some e) (h : Returns (tlsAcceptCb n) s u t) :
    ∃ w, w.heap n = some { e with extUd := s.ext.nextUd } ∧ w.ext = s.ext.alloc .listening ∧
      (∀ p ≠ n, w.heap p = s.heap p ∧ Bypasses p s w) ∧ Returns (tlsBegin n s.ext.nextUd .accept) w u t := by
  have hbegin := tlsAcceptCb_cases hn (hb.typed n _ hn) h
  refine ⟨(s.setChann n { e with extUd := s.ext.nextUd }).withExt (s.ext.alloc .listening), setChann_self .., rfl,
    fun p hp => ?_, hbegin⟩
  have hsame : Function.update s.heap n (some { e with extUd := s.ext.nextUd }) p = s.heap p := Function.update_of_ne hp ..
  exact ⟨hsame, congrArg _ hsame, fun d hd hne => .alloc (hb.ne_nextUd hd hne), rfl, fun _ _ _ => rfl⟩

/-- The callback of an accepted channel, whose descriptor is new. -/
theorem acceptCb_bypasses {e : Chann} (hb : Owned s) (hp : p ≠ n) (hn : s.heap n = some e)
    (hfd : ∀ d, s.heap p = some d → 0 < d.fd → d.fd ≠ e.fd)
    (hcb : Returns ((extConfig tlsTable e.ctype).acceptCb n) s u t) : Bypasses p s t := by
  obtain ⟨_, he⟩ | ⟨_, he⟩ := extConfig_cases e.ctype
  swap
  · rw [he] at hcb
    obtain rfl := (returns_pure.mp hcb).2
    exact .refl _ _
  rw [he] at hcb
  obtain ⟨w, hwn, hext, hothers, hbegin⟩ := tlsAcceptCb_begins hb hn hcb
  obtain ⟨hwp, hborn⟩ := hothers p hp
  refine hborn.trans (tlsBegin_bypasses ⟨hp, fun d f hd hf hpos => ?_, fun d f hd hf hne => ?_⟩ (fun d hd hne => ?_)
    (fun d f hd hne hf hi => ?_) hbegin)
  all_goals rw [hwp] at hd
  · obtain rfl := Option.some.inj (hwn.symm.trans hf)
    exact hfd d hd hpos
  · obtain rfl := Option.some.inj (hwn.symm.trans hf)
    exact hb.ne_nextUd hd hne
  · exact hb.ne_nextUd hd hne
  · rw [hext] at hf hi
    have hf : s.ext.uds d.extUd = some f := (Function.update_of_ne (hb.ne_nextUd hd hne) ..).symm.trans hf
    exact hb.ne_nextSsl hf hi rfl

/-- The first call of an accepted channel has got through. -/
theorem acceptCb_unstalled {e : Chann} (hb : Owned s) (hn : s.heap n = some e) (hud : e.extUd = 0)
    (hcb : Returns ((extConfig tlsTable e.ctype).acceptCb n) s u t) (hq : Unstalled s t) : ¬ Stalled t n := by
  intro hst
  obtain ⟨_, he⟩ | ⟨_, he⟩ := extConfig_cases e.ctype
  swap
  · rw [he] at hcb
    obtain rfl := (returns_pure.mp hcb).2
    exact (hst.ud hn).2 hud
  rw [he] at hcb
  obtain ⟨w, hwn, hext, _, hbegin⟩ := tlsAcceptCb_begins hb hn hcb
  refine (tlsBegin_called hwn rfl (Nat.ne_of_gt hb.pos) hbegin).unblocked ?_ hst.1
  rw [Unstalled, hext]
  exact hq

/-- An accepted channel is a new one. -/
theorem accept_fresh {l m : ChannId} (h : Move tlsTable s (.accept l m) t) : m = s.nextChann := by
  cases h with
  | accept _ hnew _ hcreate _ _ => rw [(channCreate_created hcreate).id, hnew.nextChann]

/-- An accepted channel shares nothing. -/
theorem accept_bypasses {b : Sys Tls} {l : ChannId} {lc : Chann} {fd : Int} {addr : SockAddr} (hb : Owned s) (hk : Berthed s)
    (hp : p ≠ n) (hl : s.heap l = some lc) (hnew : NewFd fd s a) (hheap : a.heap = s.heap)
    (hcreate : Returns (channCreate lc.ctype .connected) a n b) (hc : b.heap n = some c)
    (hcb : Returns ((extConfig tlsTable c.ctype).acceptCb n)
      ((b.setChann n { c with fd := fd, addr := addr }).recorded (.extOp .acceptCb n)) u t) : Bypasses p s t := by
  obtain ⟨ha, hcr, hla, _, _, hset⟩ := accept_created addr hl hnew hheap hcreate hc
  have hown := ((hb.steady ha).created hcr ((hb.steady ha).typed l lc hla)).steady hset
  have hmade : Bypasses p s ((b.setChann n { c with fd := fd, addr := addr }).recorded (.extOp .acceptCb n)) :=
    ((hnew.bypasses (by rw [hheap])).trans (hcr.bypasses hp)).trans (.of_other hp rfl rfl rfl fun _ _ _ => rfl)
  refine hmade.trans (acceptCb_bypasses (e := { c with fd := fd, addr := addr }) hown hp (Function.update_self ..)
    (fun d hd hpos => ?_) hcb)
  obtain ⟨f, hf, hg⟩ := hmade.chann' hd
  have hfd : d.fd = f.fd := congrArg Prod.fst hg
  rw [hfd]
  exact hk.unused hnew.free hf (hfd ▸ hpos)

theorem accept_unstalled {b : Sys Tls} {l : ChannId} {lc : Chann} {fd : Int} {addr : SockAddr} (hb : Owned s)
    (hl : s.heap l = some lc) (hnew : NewFd fd s a) (hheap : a.heap = s.heap)
    (hcreate : Returns (channCreate lc.ctype .connected) a n b) (hc : b.heap n = some c)
    (hcb : Returns ((extConfig tlsTable c.ctype).acceptCb n)
      ((b.setChann n { c with fd := fd, addr := addr }).recorded (.extOp .acceptCb n)) u t)
    (hq : Unstalled s t) : ¬ Stalled t n := by
  obtain ⟨ha, hcr, hla, _, hud, hset⟩ := accept_created addr hl hnew hheap hcreate hc
  have hown := ((hb.steady ha).created hcr ((hb.steady ha).typed l lc hla)).steady hset
  refine acceptCb_unstalled (e := { c with fd := fd, addr := addr }) hown (Function.update_self ..) hud hcb ?_
  rw [Unstalled, ← show b.ext = s.ext from hcr.ext.trans hnew.ext] at hq
  exact hq

/-- Another channel gets a socket, and its callback runs. -/
theorem attach_bypasses {b : Sys Tls} {fd r : Int} {addr : SockAddr} {raw : Nat} {st : ChannState} {op : ExtOp} {set : EvtSet}
    (hb : Owned s) (hk : Berthed s) (hp : p ≠ n) (hc : s.heap n = some c) (hst : c.state = .disconnect)
    (hnew : NewFd fd s a) (hent : Entered raw op st set)
    (hheap : a.heap = Function.update s.heap n (some { c with fd := fd, addr := addr, state := st }))
    (hadd : Returns (evtAdd n set) a r b)
    (hcb : Returns ((extConfig tlsTable c.ctype).cb op n) (b.recorded (.extOp op n)) u t) : Bypasses p s t := by
  have hsteady := attach_steady hc hst hnew hent hheap hadd
  obtain ⟨_, _, hctl⟩ := evtAdd_cases hadd
  have hown := hb.steady hsteady
  have hka : Berthed a := hk.take_update hnew hc hheap (.inl rfl)
  have hap : Unshared p n a := by
    refine .of_owned (hb.steady (hnew.steady fun m => ?_)) hka hp
    rw [hheap]
    refine holder_update hc ?_ m
    obtain ⟨hact, _⟩ := hent.active
    have hopen : st ≠ .closed := fun he => by simp [he, ChannState.active] at hact
    simp [Chann.holder, hst, hopen]
  have hs : Bypasses p s (b.recorded (.extOp op n)) :=
    ((hnew.bypasses (by rw [hheap, Function.update_of_ne hp])).trans (evtAdd_bypasses hap hadd)).trans .recorded
  have hapb : Unshared p n (b.recorded (.extOp op n)) := .of_owned hown (hka.aside hctl.aside).recorded hp
  obtain ⟨e, he, _⟩ := hsteady.chann' hc
  obtain ⟨hty, hext⟩ | ⟨_, hext⟩ := extConfig_cases c.ctype
  swap
  · rw [hext, internalExt_cb] at hcb
    rw [(returns_pure.mp hcb).2]
    exact hs
  rw [hext] at hcb
  have hres := hown.typed n e he
  refine hs.trans ?_
  obtain ⟨rfl, _⟩ | ⟨rfl, _⟩ := hent
  · obtain ⟨_, rfl⟩ | ⟨hne, d, hd, hbegin⟩ := tlsConnectCb_cases he hres hcb
    · exact .refl _ _
    have hset : ∀ f, b.heap p = some f → f.extUd ≠ 0 → f.extUd ≠ e.extUd := fun f hf hfne => hapb.ud f e hf he hfne
    have hstate : Bypasses p (b.recorded (.extOp .connectCb n)) ((b.recorded (.extOp .connectCb n)).withExt
        (b.ext.setUd e.extUd { d with state := .connecting })) :=
      ⟨rfl, fun f hf hfne => .setUd (hset f hf hfne), rfl, fun _ _ _ => rfl⟩
    refine hstate.trans (tlsBegin_bypasses (hapb.of_heap rfl) hset (fun f g hf hfne hg hi => ?_) hbegin)
    have hg : b.ext.uds f.extUd = some g := (Function.update_of_ne (hset f hf hfne) ..).symm.trans hg
    exact hown.ne_nextSsl hg hi rfl
  · obtain ⟨_, rfl⟩ | ⟨_, rfl⟩ := tlsListenCb_cases he hres hcb
    · exact .refl _ _
    · exact ⟨congrArg _ (Function.update_of_ne hp ..), fun f hf hfne => .of_log
        (Function.update_of_ne (hapb.ud f e hf he hfne) ..) rfl, rfl, fun _ _ _ => rfl⟩

/-- Another channel is closed. -/
theorem close_bypasses (hb : Owned s) (hp : p ≠ n) (h : Returns (channCloseSocket (opsOf tlsTable) n) s u t) :
    Bypasses p s t := by
  obtain ⟨c, hc, ⟨_, rfl⟩ | ⟨_, a, d, v, hcb, _, rfl⟩⟩ := channCloseSocket_cases h
  · exact .refl _ _
  rw [opsConfig_opsOf] at hcb
  have hs : Owned (s.recorded (.extOp .closeCb n)) := hb.steady steady_recorded
  have ha : Bypasses p s a := by
    obtain ⟨_, rfl⟩ | ⟨ud, _, rfl⟩ := closeCb_cases hs hc hcb
    · exact .recorded
    · refine ⟨congrArg _ (Function.update_of_ne hp ..), fun f hf hne => .drop ?_, rfl, fun _ _ _ => rfl⟩
      exact fun he => hp (hb.inj p n f c hf hc he hne)
  exact ha.trans (.of_other hp rfl rfl rfl fun _ _ _ => rfl)

/-- A closed channel has no user data. -/
theorem close_unheld (hb : Owned s) (h : Returns (channCloseSocket (opsOf tlsTable) n) s u t) :
    t = s ∨ ∃ c d, s.heap n = some c ∧ t.heap n = some d ∧ d.ctype = c.ctype ∧ d.state = .closed ∧ d.extUd = 0 := by
  obtain ⟨c, hc, ⟨_, rfl⟩ | ⟨_, a, d, v, hcb, hd, rfl⟩⟩ := channCloseSocket_cases h
  · exact .inl rfl
  rw [opsConfig_opsOf] at hcb
  have hs : Owned (s.recorded (.extOp .closeCb n)) := hb.steady steady_recorded
  refine .inr ⟨c, _, hc, setChann_self .., ?_⟩
  obtain ⟨hz, rfl⟩ | ⟨_, _, rfl⟩ := closeCb_cases hs hc hcb
  · obtain rfl := Option.some.inj (hc.symm.trans hd)
    exact ⟨rfl, rfl, hz⟩
  · obtain rfl := Option.some.inj ((setChann_self ..).symm.trans hd)
    exact ⟨rfl, rfl, rfl⟩

theorem Destroyed.bypasses (h : Destroyed n c s t) (hp : p ≠ n) : Bypasses p s t := by
  refine .of_ext ?_ h.ext h.kq h.epoll
  have hm := congrArg (Option.map Chann.grip) (h.bare p hp)
  rw [Option.map_map, Option.map_map] at hm
  exact hm

/-! Transfers log no call. -/

theorem tlsTransferFn_bypasses {len : Nat} {r : Int} (h : Returns (tlsTransferFn n len) s r t) : Bypasses p s t := by
  obtain ⟨hheap, hext⟩ := tlsTransferFn_cases h
  refine .of_kept (kept_tlsTransferFn _ _ _ h) hheap fun c _ _ => ?_
  obtain hext | ⟨i, obj, obj', _, hext⟩ := hext
  · rw [hext]
    exact .refl _ _
  · rw [hext]
    exact .setSsl _

theorem recvFn_bypasses {ctype len : Nat} {r : Int} (h : Returns ((extConfig tlsTable ctype).recvFn n len) s r t) :
    Bypasses p s t := by
  obtain ⟨_, he⟩ | ⟨_, he⟩ := extConfig_cases ctype
  · rw [he] at h
    exact tlsTransferFn_bypasses h
  · rw [he] at h
    exact (wired_internal_recvFn _ _ _ _ h).bypasses

theorem sendFn_bypasses {ctype : Nat} {data : List UInt8} {r : Int}
    (h : Returns ((extConfig tlsTable ctype).sendFn n data) s r t) : Bypasses p s t := by
  obtain ⟨_, he⟩ | ⟨_, he⟩ := extConfig_cases ctype
  · rw [he] at h
    exact tlsTransferFn_bypasses h
  · rw [he] at h
    exact (wired_internal_sendFn _ _ _ _ h).bypasses

/-- What is made on the channel, or on all of them. -/
def Deed.meets (p : ChannId) : Deed → Prop
  | .established n | .ctl n | .opened n | .accept _ n | .attach n _ | .refuse n | .message n _ | .disconnect n | .close n
  | .destroy n => n = p
  | .queue | .wipe => True
  | _ => False

/-- The other channels are left alone. -/
theorem Move.aloof {d : Deed} (h : Move tlsTable s d t) (hb : Owned s) (hk : Berthed s) (hd : ¬ d.meets p) : Bypasses p s t := by
  cases h with
  | plain h => exact h.bypasses
  | forget hc | sendFlag hc | cache hc | address hc => exact .of_set hc rfl
  | established hc _ => exact .of_other (Ne.symm hd) rfl rfl rfl fun _ _ _ => rfl
  | ctl h => exact evtCtl_bypasses (.of_owned hb hk (Ne.symm hd)) h
  | queue | wipe => exact absurd trivial hd
  | opened hres hnew hcb => exact opened_bypasses hb (Ne.symm hd) hres hnew hcb
  | accept hl hnew hheap hcreate hc hcb => exact accept_bypasses hb hk (Ne.symm hd) hl hnew hheap hcreate hc hcb
  | attach hc hdis hnew hent hheap hadd hcb => exact attach_bypasses hb hk (Ne.symm hd) hc hdis hnew hent hheap hadd hcb
  | refuse hc _ hnew hheap _ => exact hnew.bypasses (by rw [hheap, Function.update_of_ne (Ne.symm hd)])
  | @bounce a _ n c fd addr _ hc _ hnew hheap hclose =>
    have ha : Bypasses p s a := by
      refine hnew.bypasses ?_
      rw [hheap]
      exact (Bypasses.of_set (p := p) (d := { c with addr := addr }) hc rfl).grip
    obtain ⟨hh, _, hm, hx, _, _, he, _⟩ := sysClose_cases hclose
    refine ha.trans ⟨by rw [hh], fun _ _ _ => hx ▸ .refl _ _, by rw [hm], fun f hf hpos => ?_⟩
    obtain ⟨e, hes, hg⟩ := ha.chann' hf
    have hfd : f.fd = e.fd := congrArg Prod.fst hg
    rw [he, Function.update_of_ne (hfd ▸ hk.unused hnew.free hes (hfd ▸ hpos))]
  | leak hnew hheap _ => exact hnew.bypasses (by rw [hheap])
  | message _ h =>
    obtain hall | ⟨_, hothers⟩ := channMsg_bypasses hb hk h
    · exact hall p
    · exact hothers p (Ne.symm hd)
  | send h =>
    obtain ⟨c, a, _, hsend, ⟨_, rfl⟩ | ⟨_, d, hd, rfl⟩⟩ := channSend_cases h
    · exact (sendFn_bypasses hsend).trans .recorded
    · exact (sendFn_bypasses hsend).trans (Bypasses.recorded.trans (.of_set (s := a.recorded _) hd rfl))
  | recv _ h => exact (recvFn_bypasses h).trans .recorded
  | disconnect h => exact disconnect_bypasses (.of_owned hb hk (Ne.symm hd)) h
  | close _ h => exact close_bypasses hb (Ne.symm hd) h
  | destroy h =>
    obtain ⟨c, _, ⟨_, rfl⟩ | hdes⟩ := channDestroy_cases h
    · exact .refl _ _
    · exact hdes.bypasses (Ne.symm hd)

/-- What bears on the handshake of the channel but does not drive it. -/
def Deed.hits (p : ChannId) : Deed → Prop
  | .established n | .ctl n | .attach n _ | .refuse n => n = p
  | .queue | .wipe => True
  | _ => False

/-- What may call a handshake of a channel it does not hit. -/
def Deed.calls : Deed → Prop
  | .accept .. | .message .. => True
  | _ => False

/-- A channel that is stalled after a move was left alone by it. -/
theorem Move.bypasses {d : Deed} (h : Move tlsTable s d t) (hb : Owned s) (hk : Berthed s) (hd : ¬ d.hits p)
    (hq : d.calls → Unstalled s t) (hst : Stalled t p) : Bypasses p s t := by
  by_cases hm : d.meets p
  swap
  · exact h.aloof hb hk hm
  -- on the channel itself
  cases h with
  | plain | forget | sendFlag | cache | address | bounce | leak | send | recv => exact hm.elim
  | established | ctl | attach | refuse | queue | wipe => exact absurd hm hd
  | opened hres hnew hcb =>
    obtain rfl := hm
    exact absurd hst (opened_unstalled hb hres hnew hcb)
  | accept hl hnew hheap hcreate hc hcb =>
    obtain rfl := hm
    exact absurd hst (accept_unstalled hb hl hnew hheap hcreate hc hcb (hq trivial))
  | message _ h =>
    obtain rfl := hm
    obtain hall | ⟨⟨_, hcalled⟩, _⟩ := channMsg_bypasses hb hk h
    · exact hall _
    · exact absurd hst.1 (hcalled.unblocked (hq trivial))
  | disconnect h =>
    obtain rfl := hm
    obtain ⟨c, _, ⟨_, _, rfl⟩ | ⟨_, _, _, a, d, _, _, hrel⟩⟩ := channDisconnectSocket_cases h
    · exact .refl _ _
    · have ht := hrel.heap
      exact absurd (hst.ud (by rw [ht, Function.update_self])).1 (by simp)
  | close _ h =>
    obtain rfl := hm
    obtain rfl | ⟨_, d, _, hd, _, _, hz⟩ := close_unheld hb h
    · exact .refl _ _
    · exact absurd hz (hst.ud hd).2
  | destroy h =>
    obtain rfl := hm
    obtain ⟨c, _, ⟨_, rfl⟩ | hdes⟩ := channDestroy_cases h
    · exact .refl _ _
    · obtain ⟨_, e, he, _⟩ := hst
      rw [hdes.gone] at he
      cases he

end MNet
