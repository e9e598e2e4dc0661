import MNet.Tls.Spec

/-! # What SSL objects do not depend on

Who holds user data and objects, and the moves that leave all of it as it is. -/

namespace MNet
open MNet.Lib MNet.Lib.Exec

variable {s t a : Sys Tls} {n : ChannId} {c : Chann} {tu : Nat} {ssl : Option SslId} {u : Unit}

/-- The user data of a channel, its type, and whether it is closed. -/
def Chann.holder (c : Chann) : Nat × Nat × Bool := (c.extUd, c.ctype, decide (c.state = .closed))

def SslEvent.isLife : SslEvent → Bool
  | .new .. | .free _ => true
  | .handshake .. => false

/-- Nothing an object belongs to or that it consists of is created or freed. -/
structure Steady (s t : Sys Tls) : Prop where
  holder : ∀ m, (t.heap m).map Chann.holder = (s.heap m).map Chann.holder
  nextChann : t.nextChann = s.nextChann
  reserved : ∀ ctype, s.mnet.reserved ctype = true → t.mnet.reserved ctype = true
  ssl : ∀ u, (t.ext.uds u).map TlsUd.ssl = (s.ext.uds u).map TlsUd.ssl
  opened : ∀ u d, t.ext.uds u = some d → d.state = .closed →
    ∃ e, s.ext.uds u = some e ∧ e.state = .closed
  live : ∀ i, t.ext.ssls i = none ↔ s.ext.ssls i = none
  nextUd : t.ext.nextUd = s.ext.nextUd
  nextSsl : t.ext.nextSsl = s.ext.nextSsl
  life : t.ext.log.filter SslEvent.isLife = s.ext.log.filter SslEvent.isLife

theorem Steady.refl (s : Sys Tls) : Steady s s where
  holder _ := rfl
  nextChann := rfl
  reserved _ h := h
  ssl _ := rfl
  opened _ d hd hst := ⟨d, hd, hst⟩
  live _ := Iff.rfl
  nextUd := rfl
  nextSsl := rfl
  life := rfl

theorem Steady.trans (h : Steady s a) (h' : Steady a t) : Steady s t where
  holder m := (h'.holder m).trans (h.holder m)
  nextChann := h'.nextChann.trans h.nextChann
  reserved ctype hr := h'.reserved ctype (h.reserved ctype hr)
  ssl u := (h'.ssl u).trans (h.ssl u)
  opened u d hd hst := by
    obtain ⟨e, he, hst'⟩ := h'.opened u d hd hst
    exact h.opened u e he hst'
  live i := (h'.live i).trans (h.live i)
  nextUd := h'.nextUd.trans h.nextUd
  nextSsl := h'.nextSsl.trans h.nextSsl
  life := h'.life.trans h.life

instance : Std.Refl Steady := ⟨Steady.refl⟩

instance : IsTrans (Sys Tls) Steady := ⟨fun _ _ _ => Steady.trans⟩

/-- The extension's own state is the same. -/
theorem steady_of_ext (hext : t.ext = s.ext) (hnext : t.nextChann = s.nextChann)
    (hres : ∀ ctype, s.mnet.reserved ctype = true → t.mnet.reserved ctype = true)
    (hh : ∀ m, (t.heap m).map Chann.holder = (s.heap m).map Chann.holder) : Steady s t :=
  { Steady.refl s with
    holder := hh, nextChann := hnext, reserved := hres
    ssl := fun u => by rw [hext]
    opened := fun u d hd hst => ⟨d, hext ▸ hd, hst⟩
    live := fun i => by rw [hext]
    nextUd := by rw [hext]
    nextSsl := by rw [hext]
    life := by rw [hext] }

/-- Only the extension's own state differs. -/
theorem steady_withExt {e : Tls} (hssl : ∀ u, (e.uds u).map TlsUd.ssl = (s.ext.uds u).map TlsUd.ssl)
    (hopened : ∀ u d, e.uds u = some d → d.state = .closed →
      ∃ d', s.ext.uds u = some d' ∧ d'.state = .closed)
    (hlive : ∀ i, e.ssls i = none ↔ s.ext.ssls i = none) (hud : e.nextUd = s.ext.nextUd)
    (hnew : e.nextSsl = s.ext.nextSsl)
    (hlife : e.log.filter SslEvent.isLife = s.ext.log.filter SslEvent.isLife) :
    Steady s (s.withExt e) :=
  { Steady.refl s with
    ssl := hssl, opened := hopened, live := hlive, nextUd := hud, nextSsl := hnew, life := hlife }

theorem holder_update {heap : ChannId → Option Chann} {d : Chann} (hc : heap n = some c)
    (hd : d.holder = c.holder) (m : ChannId) :
    (Function.update heap n (some d) m).map Chann.holder = (heap m).map Chann.holder := by
  by_cases hm : m = n
  · rw [hm, hc]
    simp [hd]
  · rw [Function.update_of_ne hm]

theorem Plain.steady (h : Plain s t) : Steady s t :=
  steady_of_ext h.ext h.nextChann h.reserved fun m => by
    have hm := congrArg (Option.map Chann.holder) (h.face m)
    rw [Option.map_map, Option.map_map] at hm
    exact hm

theorem steady_setChann {d : Chann} (hc : s.heap n = some c) (hd : d.holder = c.holder) :
    Steady s (s.setChann n d) :=
  steady_of_ext rfl rfl (fun _ h => h) (holder_update hc hd)

theorem steady_recorded {e : SysEvent} : Steady s (s.recorded e) :=
  steady_of_ext rfl rfl (fun _ h => h) fun _ => rfl

theorem steady_modifyUd (f : TlsUd → TlsUd) (hssl : ∀ d, (f d).ssl = d.ssl)
    (hst : ∀ d, (f d).state = .closed → d.state = .closed) : Within Steady (modifyUd tu f) s := by
  intro _ t h
  obtain ⟨d, hd, rfl⟩ := returns_modifyUd.mp h
  refine steady_withExt (fun v => ?_) (fun v e he hcl => ?_) (fun _ => Iff.rfl) rfl rfl rfl
  · by_cases hv : v = tu
    · rw [hv, hd]
      simp [Tls.setUd, hssl]
    · simp only [Tls.setUd, Function.update_of_ne hv]
  · by_cases hv : v = tu
    · subst hv
      simp only [Tls.setUd, Function.update_self, Option.some.injEq] at he
      exact ⟨d, hd, hst d (he ▸ hcl)⟩
    · simp only [Tls.setUd, Function.update_of_ne hv] at he
      exact ⟨e, he, hcl⟩

theorem live_update {ssls : SslId → Option Ssl} {i : SslId} {obj obj' : Ssl} (hi : ssls i = some obj)
    (j : SslId) : Function.update ssls i (some obj') j = none ↔ ssls j = none := by
  by_cases hj : j = i
  · rw [hj, hi]
    simp
  · rw [Function.update_of_ne hj]

theorem steady_setSsl {i : SslId} {obj obj' : Ssl} (hi : s.ext.ssls i = some obj) :
    Steady s (s.withExt (s.ext.setSsl i obj')) :=
  steady_withExt (fun _ => rfl) (fun _ d hd hst => ⟨d, hd, hst⟩) (live_update hi) rfl rfl rfl

/-- What changes nothing but the extension's own state. -/
theorem Kept.steady {e : Tls} (h : Kept s t) (hheap : t.heap = s.heap) (hext : t.ext = e)
    (he : Steady s (s.withExt e)) : Steady s t := by
  refine he.trans (steady_of_ext hext h.nextChann (fun ctype hr => ?_) fun m => by rw [hheap]; rfl)
  rw [h.mnet]
  exact hr

theorem steady_tlsHandshake {op : SslOp} : Within Steady (tlsHandshake tu op) s := by
  have hshaken : ∀ i obj ret err, s.ext.ssls i = some obj →
      Steady s (s.withExt (s.ext.shaken i obj op ret err)) := fun i obj ret err hi =>
    steady_withExt (fun _ => rfl) (fun _ d hd hst => ⟨d, hd, hst⟩) (live_update hi) rfl rfl rfl
  intro h t hr
  obtain ⟨d, i, obj, ret, err, hd, hi, hobj, hk, hheap, hcases⟩ := tlsHandshake_cases hr
  obtain ⟨_, _, hext⟩ | ⟨_, _, _, hext⟩ | ⟨_, _, _, hext⟩ := hcases
  · refine hk.steady hheap hext ((hshaken i obj ret err hobj).trans ?_)
    exact steady_modifyUd (fun d => { d with state := .connected }) (fun _ => rfl)
      (fun _ hst => by cases hst) () _ (returns_modifyUd.mpr ⟨d, hd, rfl⟩)
  · exact hk.steady hheap hext (hshaken i obj ret err hobj)
  · exact hk.steady hheap hext (hshaken i obj ret err hobj)

theorem Wired.steady (h : Wired s t) : Steady s t :=
  steady_of_ext h.ext h.nextChann (fun ctype hr => by rwa [h.mnet]) fun m => by
    have hm := congrArg (Option.map Chann.holder) (h.heap m)
    rw [Option.map_map, Option.map_map] at hm
    exact hm

theorem Controlled.steady {ev : BitVec 32} (h : Controlled n c ev s t) : Steady s t :=
  steady_of_ext h.ext h.nextChann (fun ctype hr => by rwa [h.mnet]) fun m => by
    rw [h.heap]
    refine holder_update h.was ?_ m
    rfl

/-- A descriptor opened for a channel, or for none. -/
theorem NewFd.steady {fd : Int} (h : NewFd fd s t)
    (hh : ∀ m, (t.heap m).map Chann.holder = (s.heap m).map Chann.holder) : Steady s t :=
  steady_of_ext h.ext h.nextChann (fun ctype hr => by rwa [h.mnet]) hh

/-- What the callbacks of a type do is that of TLS, or nothing. -/
theorem extConfig_cases (ctype : Nat) : (ctype = CHANN_TYPE_TLS ∧ extConfig tlsTable ctype = tlsExt) ∨
    (ctype ≠ CHANN_TYPE_TLS ∧ extConfig tlsTable ctype = internalExt ctype) := by
  by_cases h : ctype = CHANN_TYPE_TLS
  · exact .inl ⟨h, h ▸ extConfig_tls⟩
  · exact .inr ⟨h, extConfig_other h⟩

theorem steady_sslReset : Within Steady (sslReset ssl) s := by
  refine .derefSsl_bind fun i obj hi hobj => ?_
  intro _ t h
  obtain ⟨r, a, hr, h⟩ := returns_bind.mp h
  have hext : a.ext = s.ext ∧ Steady s a := by
    obtain ⟨_, rfl⟩ := sysRet_spec hr
    exact ⟨rfl, steady_of_ext rfl rfl (fun _ h => h) fun _ => rfl⟩
  rw [returns_modifyTls] at h
  subst h
  have hlive : a.ext.ssls i = some obj := by
    rw [hext.1]
    exact hobj
  exact hext.2.trans (steady_setSsl hlive)

theorem steady_tlsDisconnectCb : Within Steady (tlsDisconnectCb n) s :=
  .getUd_bind fun _ => .ite (fun _ => .derefUd_bind fun _ _ => .ite
    (fun _ => (steady_modifyUd (fun d => { d with state := .disconnect }) (fun _ => rfl)
      fun _ h => by cases h).bind fun _ _ _ => steady_sslReset)
    fun _ => within_pure ()) fun _ => within_pure ()

theorem steady_channDisconnectSocket :
    Within Steady (channDisconnectSocket (opsOf tlsTable) n) s := by
  intro r t h
  obtain ⟨c, hc, ⟨_, _, rfl⟩ | ⟨_, hact, _, a, d, u, hcb, hrel⟩⟩ := channDisconnectSocket_cases h
  · exact .refl _
  rw [opsConfig_opsOf] at hcb
  have ha : Steady s a := by
    obtain ⟨_, he⟩ | ⟨_, he⟩ := extConfig_cases c.ctype
    · rw [he] at hcb
      exact steady_recorded.trans (steady_tlsDisconnectCb _ _ hcb)
    · rw [he] at hcb
      rw [(returns_pure.mp hcb).2]
      exact steady_recorded
  have hopen : d.state ≠ .closed := by
    have hh := ha.holder n
    rw [hrel.was, hc] at hh
    have hst : decide (d.state = .closed) = decide (c.state = .closed) :=
      congrArg (·.2.2) (Option.some.inj hh)
    intro he
    rw [he] at hst
    have := of_decide_eq_true hst.symm
    rw [this] at hact
    exact hact
  refine ha.trans (steady_of_ext hrel.ext hrel.nextChann (fun ctype hr => by rwa [hrel.mnet])
    fun m => ?_)
  rw [hrel.heap]
  refine holder_update hrel.was ?_ m
  simp [Chann.holder, hopen]

theorem steady_tlsDisconnect : Within Steady (tlsDisconnect n) s := by
  rw [tlsDisconnect, ← opsOf_tlsTable]
  exact .bind steady_channDisconnectSocket fun _ _ _ => within_pure ()

theorem steady_modifyMsg (f : ChannMsg → ChannMsg) : Within Steady (modifyMsg n f) s := by
  intro _ t h
  obtain ⟨c, hc, rfl⟩ := returns_modifyChann.mp h
  exact steady_setChann hc rfl

theorem steady_tlsReport {d : TlsUd} {p : Option ChannId} {h : Handshake} :
    Within Steady (tlsReport n tu d p h) s := by
  have hdown : ∀ s, Within Steady (Exec.forSome p tlsDisconnect) s :=
    fun _ => .forSome fun _ _ => steady_tlsDisconnect
  cases h with
  | done =>
    refine .ite (fun _ => ?_) fun _ => ?_
    · exact (steady_modifyMsg _).bind fun _ _ _ =>
        (steady_modifyUd (fun d => { d with ln := none }) (fun _ => rfl) fun _ h => h).bind
          fun _ _ _ => within_pure _
    · exact (steady_modifyMsg _).bind fun _ _ _ => within_pure _
  | again => exact within_pure _
  | failed =>
    refine .ite (fun _ => ?_) fun _ => ?_
    · exact (hdown _).bind fun _ _ _ => within_pure _
    · exact (steady_modifyMsg _).bind fun _ _ _ => (hdown _).bind fun _ _ _ => within_pure _

theorem steady_tlsFilterFn : Within Steady (tlsFilterFn n) s := by
  have hadvance : ∀ p, Within Steady (tlsAdvance n p) s := fun p =>
    .getUd_bind fun _ => .ite (fun _ => within_pure _) fun _ => .derefUd_bind fun _ _ => .ite
      (fun _ => within_pure _) fun _ => .bind steady_tlsHandshake fun _ _ _ => steady_tlsReport
  refine .deref_bind fun c _ => ?_
  cases c.msg.event with
  | none => exact within_pure _
  | some event =>
    cases event with
    | accept =>
      exact .getUd_bind fun _ => .ite
        (fun _ => (steady_modifyUd (fun d => { d with ln := c.msg.n }) (fun _ => rfl) fun _ h => h).bind
          fun _ _ _ => within_pure _) fun _ => within_pure _
    | connected | recv => exact hadvance _
    | _ => exact within_pure _

theorem steady_tlsTransferFn {len : Nat} : Within Steady (tlsTransferFn n len) s := by
  intro r t h
  have hk := kept_tlsTransferFn len _ _ h
  obtain ⟨hheap, hext | ⟨i, obj, obj', hi, hext⟩⟩ := tlsTransferFn_cases h
  · exact hk.steady hheap hext (.refl _)
  · exact hk.steady hheap hext (steady_setSsl hi)

theorem steady_channSend {data : List UInt8} {r : Int} (h : Returns (channSend tlsTable n data) s r t) :
    Steady s t := by
  obtain ⟨c, a, _, hsend, ht⟩ := channSend_cases h
  have ha : Steady s a := by
    obtain ⟨_, he⟩ | ⟨_, he⟩ := extConfig_cases c.ctype
    · rw [he] at hsend
      exact steady_tlsTransferFn _ _ hsend
    · rw [he] at hsend
      exact (wired_internal_sendFn _ _ _ _ hsend).steady
  obtain ⟨_, rfl⟩ | ⟨_, d, hd, rfl⟩ := ht
  · exact ha.trans steady_recorded
  · exact ha.trans (steady_recorded.trans
      (steady_setChann (show (a.recorded _).heap n = some d from hd) rfl))

/-- The moves that neither make, connect nor close a channel. -/
def Deed.idle : Deed → Prop
  | .opened _ | .accept .. | .attach .. | .close _ | .destroy _ | .wipe => False
  | _ => True

theorem Move.steady {d : Deed} (h : Move tlsTable s d t) (hd : d.idle) : Steady s t := by
  cases h with
  | plain h => exact h.steady
  | forget hc | sendFlag hc | cache hc | address hc => exact steady_setChann hc rfl
  | established hc hst =>
    refine steady_setChann hc ?_
    simp [Chann.holder, hst]
  | ctl h =>
    obtain ⟨_, _, hctl, _⟩ := evtCtl_cases h
    exact hctl.steady
  | queue => exact steady_of_ext rfl rfl (fun _ h => h) fun _ => rfl
  | refuse hc hst hnew hheap _ =>
    refine hnew.steady fun m => ?_
    rw [hheap]
    refine holder_update hc ?_ m
    rfl
  | bounce hc hst hnew hheap hclose =>
    obtain ⟨hth, htn, htm, hext, _⟩ := sysClose_cases hclose
    refine Steady.trans (hnew.steady fun m => ?_)
      (steady_of_ext hext htn (fun ctype hr => by rwa [htm]) fun m => by rw [hth])
    rw [hheap]
    refine holder_update hc ?_ m
    rfl
  | leak hnew hheap _ => exact hnew.steady fun m => by rw [hheap]
  | message _ h =>
    obtain ⟨c, hc, h⟩ := channMsg_cases h
    obtain ⟨_, he⟩ | ⟨_, he⟩ := extConfig_cases c.ctype
    · rw [he] at h
      have hf := steady_tlsFilterFn _ _ h
      exact (steady_setChann hc (by rfl)).trans hf
    · rw [he] at h
      rw [(returns_pure.mp h).2]
      exact steady_setChann hc (by rfl)
  | send h => exact steady_channSend h
  | @recv b _ c _ _ _ h =>
    refine Steady.trans (a := b) ?_ steady_recorded
    obtain ⟨_, he⟩ | ⟨_, he⟩ := extConfig_cases c.ctype
    · rw [he] at h
      exact steady_tlsTransferFn _ _ h
    · rw [he] at h
      exact (wired_internal_recvFn _ _ _ _ h).steady
  | disconnect h => exact steady_channDisconnectSocket _ _ h
  | _ => exact hd.elim

end MNet
