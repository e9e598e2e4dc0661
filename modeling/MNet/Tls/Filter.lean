import MNet.Reports
import MNet.Tls.Bland

/-! # The TLS filter

What becomes of a message of a TLS channel. An ACCEPT waits for the handshake, and the event that
ends the handshake is renamed. -/

namespace MNet
open MNet.Lib MNet.Lib.Exec

variable {gone : Prop} {s t : Sys Tls} {n : ChannId} {c : Chann} {tu : Nat} {ssl : Option SslId}
  {op : SslOp}

/-! ## The TLS callbacks -/

theorem discreet_tlsDisconnect : Within (Discreet gone) (tlsDisconnect n) s := by
  refine Within.bind (.deref_bind fun c _ => .ite (fun _ => Within.bind ?_ fun _ _ _ => .deref_bind fun _ _ =>
    (bland_sysClose _).discreet.bind fun _ _ _ => .bind discreet_destroyCache fun _ _ _ =>
      .bind (discreet_modifyChann fun _ => rfl) fun _ _ _ => within_pure _) fun _ => within_pure _)
    fun _ _ _ => within_pure ()
  refine (discreet_record _).bind fun _ _ _ => ?_
  rw [← opsOf_tlsTable, opsConfig_opsOf]
  have hcb : ∀ a, Within Bland ((extConfig tlsTable c.ctype).cb .disconnectCb n) a := fun _ =>
    bland_cb (by simp) (by simp)
  exact (hcb _).discreet

theorem tactful_tlsTable : Tactful tlsTable where
  cb ctype op _ _ := within_cb (fun _ _ h => (h.mono Chann.shown (fun _ => rfl) (·.1) fun _ _ => rfl).discreet)
    (fun _ _ => discreet_tlsDisconnect) ctype op
  recvFn ctype _ len _ := (bland_recvFn ctype len).discreet
  sendFn ctype _ data _ := (bland_sendFn ctype data).discreet

/-! ## Producing a message -/

/-- What becomes of the slot of `n`, whose contents were `c`, when its filter is asked. -/
inductive Filtered (n : ChannId) (c : Chann) (s : Sys Tls) (pass : Bool) (t : Sys Tls) : Prop
  /-- Nothing. -/
  | left : Discreet False s t → Filtered n c s pass t
  /-- The event of a handshake, or its failure. -/
  | renamed {a : Sys Tls} {event : ChannEvent} : event = .connected ∨ event = .disconnect →
    Discreet False s a → a.heap n = some c →
    Discreet False (a.setChann n { c with msg := { c.msg with event := some event } }) t →
    Filtered n c s pass t
  /-- The end of the handshake of an accepted channel. -/
  | announced {a : Sys Tls} {d : TlsUd} {i : SslId} {r : Int} {e : Tls} : pass = true →
    Discreet False s a → a.heap n = some c → c.ctype = CHANN_TYPE_TLS → s.mnet.reserved c.ctype = true →
    c.extUd ≠ 0 → s.ext.uds c.extUd = some d → d.state = .listening →
    e.log = .handshake i .accept 1 r :: s.ext.log →
    t = (a.setChann n { c with msg :=
      { c.msg with event := some .accept, r := c.msg.n, n := d.ln } }).withExt e → Filtered n c s pass t

theorem tlsAdvance_filtered {pass : Bool} (hc : s.heap n = some c) (hty : c.ctype = CHANN_TYPE_TLS)
    (h : Returns (tlsAdvance n (some n)) s pass t) : Filtered n c s pass t := by
  simp only [tlsAdvance, returns_bind, returns_getUd] at h
  obtain ⟨tu, w, ⟨hw, c', hc', htu⟩, h⟩ := h
  rw [hw] at h
  rw [hc, Option.some.injEq] at hc'
  subst hc'
  rcases returns_ite.mp h with ⟨_, h⟩ | ⟨hne, h⟩
  · exact .left (within_of_eq (fun _ _ h => (returns_pure.mp h).2) _ _ h)
  -- there is user data, so the type is registered
  have hres : s.mnet.reserved c.ctype = true := by
    by_contra hno
    rw [if_neg hno] at htu
    exact hne htu
  rw [if_pos hres] at htu
  subst htu
  simp only [returns_bind, returns_derefUd, and_assoc, exists_eq_left] at h
  obtain ⟨d, hd, h⟩ := h
  rcases returns_ite.mp h with ⟨_, h⟩ | ⟨_, h⟩
  · exact .left (within_of_eq (fun _ _ h => (returns_pure.mp h).2) _ _ h)
  obtain ⟨hs, a, hhs, h⟩ := returns_bind.mp h
  have ha : Discreet False s a := bland_tlsHandshake.discreet _ _ hhs
  obtain ⟨d', i, obj, r, err, hd', _, _, _, hheap, hcases⟩ := tlsHandshake_cases hhs
  rw [hd, Option.some.injEq] at hd'
  subst hd'
  have hca : a.heap n = some c := by rw [hheap, hc]
  cases hs with
  | again => exact .left (ha.trans (within_of_eq (fun _ _ h => (returns_pure.mp h).2) _ _ h))
  | failed =>
    rcases returns_ite.mp h with ⟨_, h⟩ | ⟨_, h⟩
    · exact .left (ha.trans ((Within.bind discreet_tlsDisconnect fun _ _ _ => within_pure _) _ _ h))
    · simp only [modifyMsg, returns_bind, returns_modifyChann] at h
      obtain ⟨_, _, ⟨c', hc', rfl⟩, _, b, hdown, h⟩ := h
      rw [hca, Option.some.injEq] at hc'
      subst hc'
      rw [(returns_pure.mp h).2]
      exact .renamed (.inr rfl) ha hca (discreet_tlsDisconnect _ _ hdown)
  | done =>
    obtain ⟨_, hr, hext⟩ | ⟨hno, _⟩ | ⟨hno, _⟩ := hcases
    · rcases returns_ite.mp h with ⟨hst, h⟩ | ⟨_, h⟩
      · simp only [modifyMsg, returns_bind, returns_modifyChann, returns_modifyUd] at h
        obtain ⟨_, _, ⟨c', hc', rfl⟩, _, _, ⟨e, _, rfl⟩, h⟩ := h
        rw [hca, Option.some.injEq] at hc'
        subst hc'
        obtain ⟨rfl, rfl⟩ := returns_pure.mp h
        refine .announced (i := i) (r := err) rfl ha hca hty hres hne hd hst ?_ rfl
        show a.ext.log = _
        rw [hext, if_pos hst, hr]
        rfl
      · simp only [modifyMsg, returns_bind, returns_modifyChann] at h
        obtain ⟨_, _, ⟨c', hc', rfl⟩, h⟩ := h
        rw [hca, Option.some.injEq] at hc'
        subst hc'
        rw [(returns_pure.mp h).2]
        exact .renamed (.inl rfl) ha hca (.refl _)
    · cases hno
    · cases hno

/-- Every other message passes, but an ACCEPT of TLS, which waits for the handshake. -/
theorem filterFn_filtered {pass : Bool} {event : ChannEvent} (hc : s.heap n = some c)
    (hevent : c.msg.event = some event) (hn : c.msg.n = some n)
    (h : Returns ((extConfig tlsTable c.ctype).filterFn n) s pass t) : Filtered n c s pass t ∧
      (event = .accept → Discreet False s t) ∧
      (event ≠ .accept → event ≠ .connected → event ≠ .recv → pass = true ∧ t = s) := by
  obtain ⟨hty, he⟩ | ⟨_, he⟩ := extConfig_cases c.ctype
  · rw [he] at h
    have h : Returns (tlsFilterFn n) s pass t := h
    simp only [tlsFilterFn, returns_bind, returns_deref, and_assoc, exists_and_left, exists_eq_left] at h
    obtain ⟨c', hc', h⟩ := h
    rw [hc, Option.some.injEq] at hc'
    subst hc'
    rw [hevent] at h
    cases event with
    | accept =>
      have hst : Discreet False s t := Within.getUd_bind (fun _ => .ite
        (fun _ => (bland_modifyUd _).discreet.bind fun _ _ _ => within_pure _) fun _ => within_pure _) _ _ h
      exact ⟨.left hst, fun _ => hst, fun hno => absurd rfl hno⟩
    | connected =>
      rw [hn] at h
      exact ⟨tlsAdvance_filtered hc hty h, (fun hno => by cases hno), fun _ hno => absurd rfl hno⟩
    | recv =>
      rw [hn] at h
      exact ⟨tlsAdvance_filtered hc hty h, (fun hno => by cases hno), fun _ _ hno => absurd rfl hno⟩
    | send | disconnect | timer =>
      obtain ⟨rfl, rfl⟩ := returns_pure.mp h
      exact ⟨.left (.refl _), fun _ => .refl _, fun _ _ _ => ⟨rfl, rfl⟩⟩
  · rw [he] at h
    obtain ⟨rfl, rfl⟩ := returns_pure.mp h
    exact ⟨.left (.refl _), fun _ => .refl _, fun _ _ _ => ⟨rfl, rfl⟩⟩

/-- The slot is written, and the filter asked. -/
theorem channMsg_filtered {event : ChannEvent} {q : Option ChannId} {err : Int} {pass : Bool}
    (h : Returns (channMsg tlsTable n event q err) s pass t) : ∃ c d, s.heap n = some c ∧
      d = { c with msg := msgOf n c event q err } ∧ Filtered n d (s.setChann n d) pass t ∧
      (event = .accept → Discreet False (s.setChann n d) t) ∧
      (event ≠ .accept → event ≠ .connected → event ≠ .recv → pass = true ∧ t = s.setChann n d) := by
  obtain ⟨c, hc, h⟩ := channMsg_cases h
  have hd : (s.setChann n { c with msg := msgOf n c event q err }).heap n =
      some { c with msg := msgOf n c event q err } := Function.update_self ..
  exact ⟨c, _, hc, rfl, filterFn_filtered hd rfl rfl h⟩

/-! ## TLS is polite -/

theorem Filtered.reworded {pass : Bool} (h : Filtered n c s pass t) : Reworded n s t := by
  cases h with
  | left h => exact h.reworded
  | renamed _ ha hc h => exact ha.reworded.trans ((Reworded.set hc _).trans h.reworded)
  | announced _ ha hc _ _ _ _ _ _ ht =>
    have hset := ha.reworded.trans (Reworded.set hc
      { c.msg with event := some .accept, r := c.msg.n, n := ‹TlsUd›.ln })
    rw [ht]
    exact { hset with }

/-- No message of a timer is made of another one. -/
theorem Filtered.others {pass : Bool} {d : Chann} (h : Filtered n c s pass t) (hs : Fresh s) (hc : s.heap n = some c)
    (hno : c.msg.event ≠ some .timer) (hd : t.heap n = some d) : d.msg.event ≠ some .timer := by
  have hkept : ∀ {a : Sys Tls} {e : Chann}, Fresh a → a.heap n = some e → Discreet False a t →
      e.msg.event ≠ some .timer → d.msg.event ≠ some .timer := by
    intro a e ha he hkeep hne
    rw [hkeep.message ha he hd]
    exact hne
  cases h with
  | left h => exact hkept hs hc h hno
  | renamed hren ha hca h =>
    refine hkept ((ha.fresh hs).set hca _) (Function.update_self ..) h fun he => ?_
    obtain rfl := Option.some.inj he
    obtain hno | hno := hren <;> cases hno
  | announced _ ha hca _ _ _ _ _ _ ht =>
    rw [ht] at hd
    simp only [Sys.withExt, Sys.setChann, Function.update_self, Option.some.injEq] at hd
    rw [← hd]
    exact ChannEvent.noConfusion ∘ Option.some.inj

theorem polite_tlsTable : Polite tlsTable where
  toTactful := tactful_tlsTable
  filterFn hasked _ _ h := (filterFn_filtered hasked.heap hasked.event hasked.n h).1.reworded
  passes hasked h := by
    obtain ⟨_, _, hplain⟩ := filterFn_filtered hasked.heap hasked.event hasked.n h
    obtain ⟨rfl, rfl⟩ := hplain (by simp) (by simp) (by simp)
    exact ⟨rfl, _, rfl⟩
  others hs hasked hev h hd := by
    refine (filterFn_filtered hasked.heap hasked.event hasked.n h).1.others hs hasked.heap (fun hno => hev ?_) hd
    exact Option.some.inj (hasked.event.symm.trans hno)

/-- Reports, timers and flushes are told as they are. -/
theorem saysOf_tlsTable {P : ChannId → ChannMsg → Nat → Prop} {event : ChannEvent}
    (hev : event = .disconnect ∨ event = .timer ∨ event = .send)
    (hP : ∀ c q err, P n (msgOf n c event q err) c.opaquePtr) : SaysOf tlsTable P n event := by
  intro s q err pass t _ h d hd
  obtain ⟨c, _, _, rfl, _, _, hplain⟩ := channMsg_filtered h
  have hno : event ≠ .accept ∧ event ≠ .connected ∧ event ≠ .recv := by
    obtain rfl | rfl | rfl := hev <;> simp
  obtain ⟨_, rfl⟩ := hplain hno.1 hno.2.1 hno.2.2
  rw [setChann_self, Option.some.injEq] at hd
  rw [← hd]
  exact hP c q err

theorem fits_tlsTable {P : ChannId → ChannMsg → Nat → Prop}
    (hP : ∀ n c event q err, event = .disconnect ∨ event = .timer ∨ event = .send →
      P n (msgOf n c event q err) c.opaquePtr) : Fits tlsTable P := by
  have htold : ∀ {event : ChannEvent}, event = .disconnect ∨ event = .timer ∨ event = .send → Says tlsTable P event :=
    fun {event} hev n => saysOf_tlsTable hev fun c q err => hP n c event q err hev
  exact ⟨htold (.inl rfl), htold (.inr (.inl rfl)), htold (.inr (.inr rfl))⟩

/-- Nothing of TLS depends on the state and the mask of a channel that is open. -/
theorem Still.steady (h : Still n c s t) : Steady s t := by
  obtain ⟨hc, hopen⟩ := h.was
  obtain ⟨d, hd, hty, hud, hact⟩ := h.chann
  refine steady_of_ext h.ext h.nextChann (fun _ hr => by rwa [h.mnet]) fun m => ?_
  by_cases hm : m = n
  · subst hm
    have hdopen : d.state ≠ .closed := by
      intro hno
      rw [hno] at hact
      exact hact
    rw [hc, hd]
    simp [Chann.holder, hty, hud, hopen, hdopen]
  · rw [h.others m hm]

end MNet
