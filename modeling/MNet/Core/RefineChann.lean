import MNet.Core.RefineTimer

/-! # Channel operations as acts -/

namespace MNet
open MNet.Lib MNet.Lib.Exec

variable {ε : Type} {x : ExtTable ε} {o : OpsTable ε} {s t : Sys ε} {n : ChannId} {c : Chann}
  {r : Int} {u : Unit}

/-! ## Callbacks of a channel's type -/

theorem quiet_wouldBlock (r : Int) : Quiet (wouldBlock r : M ε Int) := by
  intro s a t h
  simp only [wouldBlock, readErrno, returns_bind, returns_read, returns_pure] at h
  obtain ⟨_, _, ⟨rfl, rfl⟩, _, rfl⟩ := h
  rfl

/-- Receiving may store the sender's address, which the core leaves out. -/
theorem quiet_internal_recvFn (ctype : Nat) (n : ChannId) (len : Nat) :
    Quiet ((internalExt ctype : Ext ε).recvFn n len) := by
  unfold internalExt
  split
  · intro s a t h
    simp only [extStreamRecv, returns_bind, returns_deref] at h
    obtain ⟨c, _, ⟨hc, rfl⟩, p, b, hp, hw⟩ := h
    rw [quiet_wouldBlock _ _ _ _ hw, core_sysRecv hp]
  · intro s a t h
    simp only [extDgramRecv, returns_bind, returns_deref, returns_modifyChann] at h
    obtain ⟨c, _, ⟨hc, rfl⟩, p, b, hp, _, _, ⟨d, hd, rfl⟩, hw⟩ := h
    rw [quiet_wouldBlock _ _ _ _ hw, core_setChann_same hd, core_sysRecv hp]
    split <;> rfl

/-- A datagram goes to no wire. -/
theorem quiet_internal_sendFn {ctype : Nat} (hty : ctype ≠ CHANN_TYPE_STREAM) (n : ChannId)
    (data : List UInt8) : Quiet ((internalExt ctype : Ext ε).sendFn n data) := by
  intro s a t h
  simp only [internalExt, if_neg hty, extDgramSend, returns_bind, returns_deref] at h
  obtain ⟨_, _, ⟨_, rfl⟩, p, b, hp, hw⟩ := h
  rw [quiet_wouldBlock _ _ _ _ hw, core_sysSendto hp]

section Callbacks

variable (ho : TameOps o)
include ho

theorem quiet_disconnectCb (ctype : Nat) (n : ChannId) :
    Quiet ((opsConfig o ctype).disconnectCb n) := by
  unfold opsConfig
  split
  · exact Quiet.pure ()
  · exact ho.disconnectCb ctype n

theorem quiet_closeCb (ctype : Nat) (n : ChannId) : Quiet ((opsConfig o ctype).closeCb n) := by
  unfold opsConfig
  split
  · exact Quiet.pure ()
  · exact ho.closeCb ctype n

end Callbacks

section ExtCallbacks

variable (hx : Tame x)
include hx

theorem quiet_openCb (ctype : Nat) (n : ChannId) : Quiet ((extConfig x ctype).openCb n) := by
  unfold extConfig
  split
  · exact Quiet.pure ()
  · exact hx.ops.openCb ctype n

theorem quiet_listenCb (ctype : Nat) (n : ChannId) : Quiet ((extConfig x ctype).listenCb n) := by
  unfold extConfig
  split
  · exact Quiet.pure ()
  · exact hx.ops.listenCb ctype n

theorem quiet_recvFn (ctype : Nat) (n : ChannId) (len : Nat) :
    Quiet ((extConfig x ctype).recvFn n len) := by
  unfold extConfig
  split
  · exact quiet_internal_recvFn ctype n len
  · exact hx.ops.recvFn ctype n len

theorem reenters_acceptCb {ctype : Nat} (h : Returns ((extConfig x ctype).acceptCb n) s u t) :
    Reenters (opsOf x) n s t := by
  unfold extConfig at h
  split at h
  · exact .inl (Quiet.pure () _ _ _ h)
  · exact hx.acceptCb ctype n s u t h

theorem reenters_connectCb {ctype : Nat} (h : Returns ((extConfig x ctype).connectCb n) s u t) :
    Reenters (opsOf x) n s t := by
  unfold extConfig at h
  split at h
  · exact .inl (Quiet.pure () _ _ _ h)
  · exact hx.connectCb ctype n s u t h

/-- A wrapped state is at least CONNECTED only on a channel that is. -/
theorem connected_of_stateFn {ctype : Nat} {st : ChannState}
    (h : ChannState.connected.val ≤ (extConfig x ctype).stateFn s n st) :
    ChannState.connected.val ≤ st.val := by
  unfold extConfig at h
  split at h
  · exact h
  · exact hx.ops.stateFn ctype s n st h

end ExtCallbacks

/-! ## Sending -/

theorem Core.onWire_nil (k : Core) (c : CChann) : k.onWire c [] = k := by
  unfold Core.onWire
  split
  · split
    · rw [List.append_nil, Function.update_eq_self]
    · rfl
  · rfl

theorem core_extStreamSend {data : List UInt8} (hc : s.heap n = some c)
    (hty : c.ctype = CHANN_TYPE_STREAM) (h : Returns (extStreamSend n data) s r t) :
    r ≤ data.length ∧ t.core = s.core.onWire c.core (data.take r.toNat) := by
  simp only [extStreamSend, returns_bind, returns_deref, and_assoc, exists_and_left,
    exists_eq_left] at h
  obtain ⟨d, hd, q, b, hq, hw⟩ := h
  rw [hc] at hd
  cases hd
  obtain ⟨hle, hcore⟩ := core_sysSend hq
  have hwire : b.core = s.core.onWire c.core (data.take q.toNat) := by
    have hty' : c.core.ctype = CHANN_TYPE_STREAM := hty
    rw [hcore, Core.onWire, if_pos hty']
    rfl
  have hb := quiet_wouldBlock _ _ _ _ hw
  simp only [wouldBlock, readErrno, returns_bind, returns_read, returns_pure] at hw
  obtain ⟨_, _, ⟨rfl, rfl⟩, rfl, _⟩ := hw
  rw [hb, hwire]
  split
  · next hq0 =>
    have : q.toNat = 0 := by omega
    rw [this]
    exact ⟨by simp, rfl⟩
  · exact ⟨hle, rfl⟩

theorem Core.onWire_of_ne {k : Core} {c : CChann} (h : c.ctype ≠ CHANN_TYPE_STREAM)
    (bytes : List UInt8) : k.onWire c bytes = k := if_neg h

/-- What `send_fn` does to the core: a stream socket takes the bytes it reports. -/
theorem sendFn_spec (hx : Tame x) {data : List UInt8} (hc : s.heap n = some c)
    (h : Returns ((extConfig x c.ctype).sendFn n data) s r t) :
    (c.ctype = CHANN_TYPE_STREAM → r ≤ data.length) ∧
      t.core = s.core.onWire c.core (data.take r.toNat) := by
  unfold extConfig at h
  split at h
  · by_cases hty : c.ctype = CHANN_TYPE_STREAM
    · simp only [internalExt, if_pos hty] at h
      have := core_extStreamSend hc hty h
      exact ⟨fun _ => this.1, this.2⟩
    · have hty' : c.core.ctype ≠ CHANN_TYPE_STREAM := hty
      refine ⟨fun he => absurd he hty, ?_⟩
      rw [quiet_internal_sendFn hty n data _ _ _ h, Core.onWire_of_ne hty']
  · next hty =>
    have hne : c.ctype ≠ CHANN_TYPE_STREAM := fun he => hty (by rw [he]; decide)
    have hne' : c.core.ctype ≠ CHANN_TYPE_STREAM := hne
    refine ⟨fun he => absurd he hne, ?_⟩
    rw [hx.ops.sendFn c.ctype n data (Nat.lt_of_not_le hty) _ _ _ h, Core.onWire_of_ne hne']

theorem channSend_spec (hx : Tame x) {data : List UInt8} (hc : s.heap n = some c)
    (h : Returns (channSend x n data) s r t) :
    (c.ctype = CHANN_TYPE_STREAM → r ≤ data.length) ∧
      t.core = s.core.onWire c.core (data.take r.toNat) := by
  simp only [channSend, returns_bind, returns_deref, and_assoc, exists_and_left,
    exists_eq_left] at h
  obtain ⟨d, hd, q, a, hq, _, b, hrec, h⟩ := h
  rw [hc] at hd
  cases hd
  have hsend := sendFn_spec hx hc hq
  have hb := (core_record hrec trivial).trans hsend.2
  rcases returns_ite.mp h with ⟨_, h⟩ | ⟨_, h⟩
  · simp only [returns_bind, returns_modifyChann, returns_pure] at h
    obtain ⟨_, _, ⟨d, hd, rfl⟩, rfl, rfl⟩ := h
    refine ⟨hsend.1, Eq.trans ?_ hb⟩
    exact core_setChann_same hd rfl
  · obtain ⟨rfl, rfl⟩ := returns_pure.mp h
    exact ⟨hsend.1, hb⟩

/-! ## Tearing down -/

theorem destroyCache_spec (h : Returns (destroyCache n) s u t) :
    ∃ c, s.heap n = some c ∧ Spent c.rwbSend ∧
      t.core = s.core.set n { c.core with rwbSend := [] } := by
  simp only [destroyCache, returns_bind, returns_deref, returns_require, returns_modifyChann] at h
  obtain ⟨c, _, ⟨hc, rfl⟩, r, _, ⟨hr, rfl⟩, d, hd, rfl⟩ := h
  rw [hc] at hd
  cases hd
  obtain ⟨rfl, hsp⟩ := rwbDestroy_eq_some.mp hr
  exact ⟨c, hc, hsp, core_setChann _ _ _⟩

/-- The state of a channel after its socket is gone. -/
def CChann.released (c : CChann) : CChann :=
  { c with rwbSend := [], fd := -1, state := .disconnect, epollEvents := 0 }

/-- A channel with a socket loses it, with its cache; another one stays as it is. -/
theorem channDisconnectSocket_spec (ho : TameOps o) (hb : Base s.core)
    (h : Returns (channDisconnectSocket o n) s r t) :
    ∃ c, s.heap n = some c ∧
      ((c.state.active ∧ r = 1 ∧ Spent c.rwbSend ∧
          t.core = (s.core.closeFd c.fd).set n c.core.released) ∨
        (¬ c.state.active ∧ r = 0 ∧ t.core = s.core)) := by
  simp only [channDisconnectSocket, returns_bind, returns_deref, and_assoc, exists_and_left,
    exists_eq_left] at h
  obtain ⟨c, hc, h⟩ := h
  refine ⟨c, hc, ?_⟩
  rcases returns_ite.mp h with ⟨⟨hfd, hst⟩, h⟩ | ⟨hno, h⟩
  · have ha : c.state.active := by
      revert hst
      cases c.state <;> simp [ChannState.val, ChannState.active]
    simp only [returns_bind, returns_deref, returns_modifyChann, returns_pure, and_assoc,
      exists_and_left, exists_eq_left] at h
    obtain ⟨_, a, hcb, d, hd, _, b, hcl, _, e, hdc, _, _, ⟨d', hd', rfl⟩, rfl, rfl⟩ := h
    have ha' := (quiet_disconnectCb ho c.ctype n).callback _ _ _ hcb
    obtain ⟨c₁, hc₁, hdc₁⟩ := heap_of_core ha' hd
    rw [hc] at hc₁
    cases hc₁
    have hfd₁ : d.fd = c.fd := congrArg CChann.fd hdc₁
    have hclosed := core_sysClose hcl
    rw [ha', hfd₁] at hclosed
    obtain ⟨d₂, hd₂, hsp, hcache⟩ := destroyCache_spec hdc
    have hd₂' : d₂.core = c.core := by
      have := core_heap_some hd₂
      rw [hclosed] at this
      exact (Option.some.inj ((core_heap_some hc).symm.trans this)).symm
    have hr₂ : d₂.rwbSend = c.rwbSend := congrArg CChann.rwbSend hd₂'
    have hd'' := core_heap_some hd'
    rw [hcache, hd₂', hclosed] at hd''
    have hd3 : d'.core = { c.core with rwbSend := [] } := by
      simpa [Core.set] using hd''.symm
    refine .inl ⟨ha, rfl, hr₂ ▸ hsp, ?_⟩
    have hfin : ({ d' with fd := -1, state := .disconnect, epollEvents := 0 } : Chann).core =
        c.core.released := by
      have : ({ d' with fd := -1, state := .disconnect, epollEvents := 0 } : Chann).core =
        { d'.core with fd := -1, state := .disconnect, epollEvents := 0 } := rfl
      rw [this, hd3]
      rfl
    rw [core_setChann, hfin, hcache, hclosed]
    simp [Core.set, Function.update_idem]
  · obtain ⟨rfl, rfl⟩ := returns_pure.mp h
    refine .inr ⟨fun ha => hno ⟨(hb.own.opened n c.core (core_heap_some hc) ha).1, ?_⟩, rfl, rfl⟩
    revert ha
    cases c.state <;> simp [ChannState.val, ChannState.active]

theorem channDisconnectSocket_steps (ho : TameOps o) (hb : Base s.core)
    (h : Returns (channDisconnectSocket o n) s r t) : Steps {.disconnect n} s.core t.core := by
  obtain ⟨c, hc, ⟨ha, _, hsp, ht⟩ | ⟨_, _, ht⟩⟩ := channDisconnectSocket_spec ho hb h
  · have hn := core_heap_some hc
    rw [ht]
    exact Steps.single (.disconnect hn (hb.own.opened n _ hn ha).1 ha hsp) rfl
  · exact .of_eq ht

/-- Disconnecting leaves the channel without a socket, and allocated. -/
theorem channDisconnectSocket_inactive (ho : TameOps o) (hb : Base s.core)
    (h : Returns (channDisconnectSocket o n) s r t) :
    ∃ d, t.core.heap n = some d ∧ ¬ d.state.active := by
  obtain ⟨c, hc, ⟨_, _, _, ht⟩ | ⟨hno, _, ht⟩⟩ := channDisconnectSocket_spec ho hb h
  · exact ⟨c.core.released, by rw [ht]; simp, id⟩
  · exact ⟨c.core, ht ▸ core_heap_some hc, hno⟩

theorem Reenters.steps (ho : TameOps o) (hb : Base s.core) (h : Reenters o n s t) :
    Steps {.disconnect n} s.core t.core := by
  rcases h with h | ⟨a, b, r, ha, hd, ht⟩
  · exact .of_eq h
  · rw [ht, ← ha]
    exact channDisconnectSocket_steps ho (ha ▸ hb) hd

/-- A channel without a socket stays one while only its slot is written. -/
theorem Steps.keeps_inactive {k k' : Core} (h : Steps {.slot n, .disconnect n} k k') {c : CChann}
    (hn : k.heap n = some c) (ha : ¬ c.state.active) :
    ∃ d, k'.heap n = some d ∧ ¬ d.state.active ∧ d.ctype = c.ctype := by
  refine h.keeps (I := fun k => ∃ d, k.heap n = some d ∧ ¬ d.state.active ∧ d.ctype = c.ctype) ?_
    ⟨c, hn, ha, rfl⟩
  rintro a k k' (rfl | rfl) hs ⟨d, hd, hda, hty⟩
  · cases hs with
    | slot msg hn hm =>
      rw [hd] at hn
      cases hn
      exact ⟨_, Function.update_self .., hda, hty⟩
  · cases hs with
    | disconnect hn hpos ha hsp =>
      rw [hd] at hn
      cases hn
      exact absurd ha hda

/-! ## Messages -/

/-- What `_chann_msg` writes into the slot of `n`. -/
def msgOf (n : ChannId) (c : Chann) (event : ChannEvent) (r : Option ChannId) (err : Int) :
    ChannMsg :=
  { event := some event, err := err, n := some n, r := r, opaquePtr := c.opaquePtr }

/-- The slot is written; what a filter of a registered type does comes after. -/
theorem channMsg_spec (hx : Tame x) (hb : Base s.core) {event : ChannEvent} {q : Option ChannId}
    {err : Int} {pass : Bool} (h : Returns (channMsg x n event q err) s pass t) :
    ∃ c, s.heap n = some c ∧
      (c.ctype ≤ CHANN_TYPE_BROADCAST →
        pass = true ∧ t = s.setChann n { c with msg := msgOf n c event q err }) ∧
      Steps {.slot n, .disconnect n} (s.core.set n { c.core with msg := msgOf n c event q err })
        t.core := by
  simp only [channMsg, returns_bind, returns_modifyChann, returns_deref, and_assoc, exists_and_left,
    exists_eq_left] at h
  obtain ⟨_, _, ⟨c, hc, rfl⟩, d, hd, h⟩ := h
  have hdc : d = { c with msg := msgOf n c event q err } := by
    simpa [Sys.setChann, msgOf] using hd.symm
  have hty : d.ctype = c.ctype := by rw [hdc]
  rw [hty] at h
  have hcore : (s.setChann n { c with msg := msgOf n c event q err }).core =
      s.core.set n { c.core with msg := msgOf n c event q err } := core_setChann _ _ _
  have hstep : CStep s.core (.slot n) (s.core.set n { c.core with msg := msgOf n c event q err }) :=
    .slot _ (core_heap_some hc) fun _ => rfl
  have hbu := hb.step hstep
  refine ⟨c, hc, ?_, ?_⟩
  · intro hle
    rw [extConfig_builtin x hle] at h
    obtain ⟨rfl, rfl⟩ := returns_pure.mp h
    exact ⟨rfl, rfl⟩
  · rw [← hcore] at hbu ⊢
    by_cases hle : c.ctype ≤ CHANN_TYPE_BROADCAST
    · rw [extConfig_builtin x hle] at h
      obtain ⟨rfl, rfl⟩ := returns_pure.mp h
      exact .refl _
    · have hlt := Nat.lt_of_not_le hle
      rw [extConfig, if_neg hle] at h
      obtain ⟨v, hv, hre⟩ := hx.filterFn c.ctype n _ pass t hlt h
      have h1 : Steps {.slot n, .disconnect n} (s.setChann n { c with msg := msgOf n c event q err }).core
          v.core := by
        rcases hv with hv | ⟨d', msg, hd', hv⟩
        · exact .of_eq hv
        · rw [hv]
          refine Steps.single (.slot msg hd' fun hle' => absurd hle' (Nat.not_le.mpr ?_)) (.inl rfl)
          rw [core_heap, hd, Option.map_some, Option.some.injEq] at hd'
          rw [← hd', show d.core.ctype = c.ctype from hty]
          exact hlt
      exact h1.trans ((hre.steps hx.ops (h1.base hbu)).mono (by intro a ha; exact .inr ha))

theorem pushDis_spec (h : Returns (pushDis n) s u t) :
    ∃ c, s.core.heap n = some c ∧ t.kernel = s.kernel ∧
      t.core = { s.core.set n { c with disNext := s.core.disChanns } with disChanns := some n } := by
  simp only [pushDis, returns_bind, returns_readMnet, returns_modifyChann, returns_modifyMnet,
    and_assoc, exists_and_left, exists_eq_left] at h
  obtain ⟨_, _, ⟨c, hc, rfl⟩, rfl⟩ := h
  refine ⟨c.core, core_heap_some hc, rfl, ?_⟩
  have hset := core_setChann s n { c with disNext := s.mnet.disChanns }
  exact congrArg (fun k : Core => { k with disChanns := some n }) hset

/-- A failed transfer disconnects, writes the slot, and at last queues the channel, unless a
filter objects; one of a built-in type is always queued, with `errno` in its slot. -/
theorem channFail_spec (hx : Tame x) (hb : Base s.core) (h : Returns (channFail x n) s u t) :
    ∃ c k, s.core.heap n = some c ∧ Steps {.slot n, .disconnect n} s.core k ∧
      (t.core = k ∨ CStep k (.report n) t.core) ∧
      (c.ctype ≤ CHANN_TYPE_BROADCAST → CStep k (.report n) t.core ∧
        ∃ d, k.heap n = some d ∧ d.msg.event = some .disconnect ∧ d.msg.err = t.kernel.errno ∧
          d.msg.n = some n ∧ d.msg.r = none) := by
  simp only [channFail, readErrno, returns_bind, returns_read, and_assoc, exists_and_left,
    exists_eq_left] at h
  obtain ⟨r, a, hdis, pass, b, hmsg, hpush⟩ := h
  have hs := channDisconnectSocket_steps hx.ops hb hdis
  have hba := hs.base hb
  obtain ⟨c, hc, hspec⟩ := channDisconnectSocket_spec hx.ops hb hdis
  -- the channel has no socket when its slot is written
  obtain ⟨d, hd, hbuiltin, hext⟩ := channMsg_spec hx hba hmsg
  have hda : ¬ d.core.state.active ∧ d.core.ctype = c.core.ctype := by
    have hd' := core_heap_some hd
    rcases hspec with ⟨_, _, _, ht⟩ | ⟨hno, _, ht⟩
    · rw [ht] at hd'
      simp only [Core.set, Function.update_self, Option.some.injEq] at hd'
      rw [← hd']
      exact ⟨id, rfl⟩
    · rw [ht, core_heap_some hc, Option.some.injEq] at hd'
      rw [← hd']
      exact ⟨hno, rfl⟩
  have hslot : CStep a.core (.slot n)
      (a.core.set n { d.core with msg := msgOf n d .disconnect none a.kernel.errno }) :=
    .slot _ (core_heap_some hd) fun _ => rfl
  have hsb : Steps {.slot n, .disconnect n} s.core b.core :=
    ((hs.mono fun _ ha => .inr ha).trans (.single hslot (.inl rfl))).trans hext
  obtain ⟨e, he, hea, hety⟩ := hext.keeps_inactive (Function.update_self ..) hda.1
  refine ⟨c.core, b.core, core_heap_some hc, hsb, ?_, ?_⟩
  · rcases returns_when.mp hpush with ⟨_, hpush⟩ | ⟨_, rfl⟩
    · obtain ⟨e', he', _, ht⟩ := pushDis_spec hpush
      rw [he] at he'
      cases he'
      refine .inr (ht ▸ .report he hea fun hle => ?_)
      have hle' : d.ctype ≤ CHANN_TYPE_BROADCAST := (hety ▸ hle : d.core.ctype ≤ _)
      obtain ⟨_, rfl⟩ := hbuiltin hle'
      simp only [core_setChann, Core.set, Function.update_self, Option.some.injEq] at he
      rw [← he]
      exact ⟨rfl, rfl⟩
    · exact .inl rfl
  · intro hle
    have hle' : d.ctype ≤ CHANN_TYPE_BROADCAST := (hda.2 ▸ hle : d.core.ctype ≤ _)
    obtain ⟨rfl, rfl⟩ := hbuiltin hle'
    simp only [Exec.when, if_true] at hpush
    obtain ⟨e', he', hker, ht⟩ := pushDis_spec hpush
    rw [he] at he'
    cases he'
    have hmsgs : e.msg = msgOf n d .disconnect none a.kernel.errno := by
      simp only [core_setChann, Core.set, Function.update_self, Option.some.injEq] at he
      rw [← he]
      rfl
    refine ⟨ht ▸ .report he hea fun _ => ?_, e, he, ?_⟩
    · rw [hmsgs]
      exact ⟨rfl, rfl⟩
    · rw [hmsgs, hker]
      exact ⟨rfl, rfl, rfl, rfl⟩

/-! ## Closing and freeing -/

/-- Closing a channel without a socket: it goes on the `del_channs` list, once. -/
theorem channCloseSocket_spec (ho : TameOps o) (h : Returns (channCloseSocket o n) s u t) :
    ∃ c, s.core.heap n = some c ∧
      ((c.state = .closed ∧ t.core = s.core) ∨
        (c.state ≠ .closed ∧ t.core = { s.core.set n
          { c with delNext := s.core.delChanns, state := .closed } with delChanns := some n })) := by
  simp only [channCloseSocket, returns_bind, returns_deref, and_assoc, exists_and_left,
    exists_eq_left] at h
  obtain ⟨c, hc, h⟩ := h
  refine ⟨c.core, core_heap_some hc, ?_⟩
  rcases returns_ite.mp h with ⟨hst, h⟩ | ⟨hst, h⟩
  · simp only [returns_bind, returns_readMnet, and_assoc, exists_and_left, exists_eq_left] at h
    obtain ⟨_, a, hcb, _, b, hdel, _, d, hhead, hcl⟩ := h
    have ha := (quiet_closeCb ho c.ctype n).callback _ _ _ hcb
    obtain ⟨c₁, hc₁, hb₁, hbm, _, hb⟩ := core_modifyChann hdel
    obtain ⟨hd₁, _, _, hd⟩ := core_modifyMnet hhead
    obtain ⟨c₂, hc₂, _, _, _, ht⟩ := core_modifyChann hcl
    obtain ⟨c', hc', hcc⟩ := heap_of_core ha hc₁
    rw [hc] at hc'
    cases hc'
    rw [hd₁, hb₁] at hc₂
    cases hc₂
    refine .inr ⟨?_, ?_⟩
    · intro hcl
      have hcl' : c.state = .closed := hcl
      rw [hcl'] at hst
      exact absurd hst (by decide)
    · have hfin : ({ c₁ with delNext := a.mnet.delChanns, state := .closed, opaquePtr := 0 } :
          Chann).core = { c.core with delNext := s.core.delChanns, state := .closed } := by
        rw [← hcc, ← ha]
        rfl
      rw [ht, hfin, hd, hb, Core.withMnet_set, Core.set_set, hbm, ← ha]
      rfl
  · obtain ⟨_, rfl⟩ := returns_pure.mp h
    refine .inl ⟨?_, rfl⟩
    have : c.core.state = c.state := rfl
    rw [this]
    revert hst
    cases c.state <;> simp [ChannState.val]

/-- A channel without a socket ends up closed, where it was in the list. -/
theorem channCloseSocket_steps (ho : TameOps o) {c : CChann} (hn : s.core.heap n = some c)
    (ha : ¬ c.state.active) (h : Returns (channCloseSocket o n) s u t) :
    Steps {.close n} s.core t.core ∧ t.core.channs = s.core.channs ∧
      ∃ d, t.core.heap n = some d ∧ d.state = .closed ∧ d.next = c.next := by
  obtain ⟨d, hd, ⟨hst, ht⟩ | ⟨hst, ht⟩⟩ := channCloseSocket_spec ho h
  all_goals
    rw [hn, Option.some.injEq] at hd
    subst hd
  · exact ⟨.of_eq ht, by rw [ht], c, ht ▸ hn, hst, rfl⟩
  · have hdis : c.state = .disconnect := (ChannState.not_active_iff.mp ha).resolve_left hst
    refine ⟨?_, by rw [ht]; rfl, { c with delNext := s.core.delChanns, state := .closed },
      by rw [ht]; exact Function.update_self .., rfl, rfl⟩
    rw [ht]
    exact .single (.close hn hdis) rfl

/-- A write behind a pointer that may be NULL. -/
theorem core_forSome {p : Option ChannId} {f : Chann → Chann} {g : CChann → CChann}
    (hg : ∀ c, (f c).core = g c.core) (h : Returns (Exec.forSome p fun m => modifyChann m f) s u t) :
    t.mnet = s.mnet ∧ t.kernel = s.kernel ∧
      t.core = { s.core with heap := alterAt s.core.heap p g } := by
  cases p with
  | none =>
    rw [returns_forSome_none.mp h]
    exact ⟨rfl, rfl, rfl⟩
  | some m =>
    obtain ⟨c, hc, _, hm, hk, ht⟩ := core_modifyChann (returns_forSome_some.mp h)
    refine ⟨hm, hk, ?_⟩
    rw [ht, hg]
    simp [Core.set, alterAt, hc]

theorem unlinkChann_spec (h : Returns (unlinkChann n) s u t) :
    ∃ c, s.core.heap n = some c ∧ t.core = s.core.unlinked c := by
  simp only [unlinkChann, returns_bind, returns_deref, and_assoc, exists_and_left,
    exists_eq_left] at h
  obtain ⟨c, hc, _, a, hnext, h⟩ := h
  refine ⟨c.core, core_heap_some hc, ?_⟩
  obtain ⟨_, _, ha⟩ := core_forSome (g := fun d => { d with prev := c.prev }) (fun _ => rfl) hnext
  cases hp : c.prev with
  | none =>
    rw [hp] at h
    obtain ⟨_, _, _, ht⟩ := core_modifyMnet h
    have hcore : t.core = { a.core with channs := c.next } := ht
    have hp' : c.core.prev = none := hp
    rw [hcore, ha, Core.unlinked, hp', hp]
    rfl
  | some m =>
    rw [hp] at h
    have hp' : c.core.prev = some m := hp
    obtain ⟨_, _, ht⟩ := core_forSome (g := fun d => { d with next := c.next }) (fun _ => rfl)
      (returns_forSome_some.mpr h)
    rw [ht, ha, Core.unlinked, hp', hp]
    rfl

/-- A channel's own contents do not matter when it is freed. -/
theorem Core.destroyed_set {k : Core} {c d : CChann} (hx : d.next = c.next) (hp : d.prev = c.prev)
    (h : ∀ i, c.next = some i ∨ c.prev = some i → i ≠ n) :
    (k.set n d).destroyed n d = k.destroyed n c := by
  unfold Core.destroyed Core.unlinked Core.set
  rw [hx, hp]
  simp only [alterAt_update fun i hi => h i (.inl hi), alterAt_update fun i hi => h i (.inr hi),
    Function.update_idem]

/-- A closed channel is freed, with its timer; one that is open stays. -/
theorem channDestroy_spec (hb : Base s.core) (h : Returns (channDestroy n) s u t) :
    ∃ c, s.core.heap n = some c ∧ ((c.state ≠ .closed ∧ t.core = s.core) ∨
      (c.state = .closed ∧ t.core.heap n = none ∧ t.core.channs = (s.core.unlinked c).channs ∧
        Steps {.disarm n, .destroy n} s.core t.core)) := by
  simp only [channDestroy, returns_bind, returns_deref, and_assoc, exists_and_left,
    exists_eq_left] at h
  obtain ⟨c, hc, h⟩ := h
  have hn := core_heap_some hc
  refine ⟨c.core, hn, ?_⟩
  rcases returns_ite.mp h with ⟨hst, h⟩ | ⟨hst, h⟩
  · have hst' : c.core.state = .closed := hst
    have hnil : c.core.rwbSend = [] := (hb.cache n _ hn).2 (by rw [hst']; decide)
    have hself : ∀ i, c.core.next = some i ∨ c.core.prev = some i → i ≠ n :=
      fun i hi => (hb.reg.neighbours hn hi).1
    simp only [returns_bind] at h
    obtain ⟨_, a, hul, _, b, hdc, _, d, hk, _, e, hcnt, hfree⟩ := h
    obtain ⟨c₁, hc₁, ha⟩ := unlinkChann_spec hul
    rw [hn] at hc₁
    cases hc₁
    -- the neighbours are other channels, so the contents of `n` are as they were
    have han : a.core.heap n = some c.core := by
      rw [ha, Core.unlinked_heap hself, hn]
    obtain ⟨c₂, hc₂, _, hbcore⟩ := destroyCache_spec hdc
    have hc₂' : c₂.core = c.core := by
      have := core_heap_some hc₂
      rw [han] at this
      exact (Option.some.inj this).symm
    have hbn : b.core.heap n = some c.core := by
      rw [hbcore, hc₂']
      simp [← hnil]
    have hba : b.core = a.core := by
      rw [hbcore, hc₂', Core.set]
      have : ({ c.core with rwbSend := [] } : CChann) = c.core := by rw [← hnil]
      rw [this, Function.update_eq_self_iff.mpr han.symm]
    obtain ⟨c₃, hc₃, hkill⟩ := tmKill_spec hk
    rw [hbn] at hc₃
    cases hc₃
    obtain ⟨_, _, _, he⟩ := core_modifyMnet hcnt
    have he' : e.core = { d.core with channCount := d.core.channCount - 1 } := he
    have hfree' : t.core = { e.core with heap := Function.update e.core.heap n none } := by
      rw [freeChann, returns_modify] at hfree
      subst hfree
      have hh : (fun m => (Function.update e.heap n none m).map Chann.core) =
          Function.update e.core.heap n none := by
        funext m
        by_cases hm : m = n
        · subst hm
          simp
        · simp [Function.update_of_ne hm]
      unfold Sys.core at hh ⊢
      simp only [hh]
    have hgone : t.core.heap n = none := by
      rw [hfree']
      simp
    have hspent : ∀ tn, Spent ({ c.core with timerNode := tn } : CChann).rwbSend := by
      intro tn b hb
      rw [show ({ c.core with timerNode := tn } : CChann).rwbSend = c.core.rwbSend from rfl, hnil] at hb
      simp at hb
    rcases hkill with ⟨htn, hd⟩ | ⟨id, clock, htn, hclock, hd⟩
    · have ht : t.core = s.core.destroyed n c.core := by
        rw [hfree', he', hd, hba, ha]
        rfl
      refine .inr ⟨hst', hgone, by rw [ht]; rfl, ?_⟩
      rw [ht]
      exact .single (.destroy hn hst' (hspent c.core.timerNode) htn) (.inr rfl)
    · have hclock' : s.core.tmClock = some clock := by
        rw [hba, ha] at hclock
        exact hclock
      have hdis : CStep s.core (.disarm n)
          { s.core.set n { c.core with timerNode := none } with
            tmClock := some (skiplistRemove clock id) } := .disarm hn htn hclock'
      have hdes := CStep.destroy (k := { s.core.set n { c.core with timerNode := none } with
        tmClock := some (skiplistRemove clock id) }) (n := n) (c := { c.core with timerNode := none })
        (by simp) hst' (hspent none) rfl
      have ht : t.core = { s.core.destroyed n c.core with
          tmClock := some (skiplistRemove clock id) } := by
        rw [hfree', he', hd, hba, ha]
        simp [Core.set, Core.destroyed, Function.update_idem]
        rfl
      refine .inr ⟨hst', hgone, by rw [ht]; rfl, ?_⟩
      refine (Steps.single hdis (.inl rfl)).trans (.single ?_ (.inr rfl))
      rw [ht]
      have hset := Core.destroyed_set (k := s.core) (c := c.core)
        (d := { c.core with timerNode := none }) rfl rfl hself
      rw [← hset]
      exact hdes
  · obtain ⟨_, rfl⟩ := returns_pure.mp h
    exact .inl ⟨hst, rfl⟩

/-! ## New channels -/

theorem channCreate_spec {ctype : Nat} {st : ChannState} {m : ChannId}
    (h : Returns (channCreate ctype st) s m t) :
    m = s.core.nextChann ∧ t.kernel = s.kernel ∧
      t.core = s.core.push { state := st, ctype := ctype } := by
  simp only [channCreate, returns_bind, returns_read, returns_readMnet, returns_modify, returns_pure,
    and_assoc, exists_and_left, exists_eq_left] at h
  obtain ⟨_, _, _, a, hhead, _, b, hmnet, rfl, rfl⟩ := h
  obtain ⟨ham, hak, ha⟩ := core_forSome (g := fun d => { d with prev := some s.nextChann })
    (fun _ => rfl) hhead
  obtain ⟨_, _, hbk, hb⟩ := core_modifyMnet hmnet
  have hset := core_setChann { s with nextChann := s.nextChann + 1 } s.nextChann
    { state := st, ctype := ctype, next := s.mnet.channs }
  refine ⟨rfl, by rw [hbk, hak]; rfl, ?_⟩
  rw [hb, ha, hset, ham]
  rfl

/-- Writing to the channel just pushed is pushing it with other contents. -/
theorem Core.push_set {k : Core} {c d : CChann} (hb : Base k) (hx : d.next = k.channs)
    (hp : d.prev = none) : (k.push c).set k.nextChann d = k.push d := by
  have hd : ({ d with next := k.channs, prev := none } : CChann) = d := by
    rw [← hx, ← hp]
  simp only [Core.push, Core.set, alterAt_update hb.head_ne_fresh, Function.update_idem, hd]

/-! ## Accepting -/

theorem setNonblocking_spec {fd : Int} (h : Returns (setNonblocking fd) s r t) :
    (notAccept s → t.core = s.core) ∧ notAccept t ∧
    (∀ lfd tr, s.kernel.trace = .accept lfd fd :: tr →
      (r < 0 → t.core = { s.core with lost := fd :: s.core.lost }) ∧ (0 ≤ r → t.core = s.core)) := by
  simp only [setNonblocking, returns_bind] at h
  obtain ⟨flag, a, hflag, h⟩ := h
  have ha := (core_sysRet hflag).1
  have hatr := trace_sysRet hflag
  -- either way the call ends with one record
  have hrec : ∃ b, b.core = a.core ∧ b.kernel.trace = a.kernel.trace ∧
      Returns (record (.nonblock fd r)) b () t := by
    rcases returns_ite.mp h with ⟨_, h⟩ | ⟨_, h⟩
    · simp only [returns_bind, returns_pure] at h
      obtain ⟨_, b, hb, _, d, hrec, rfl, rfl⟩ := h
      exact ⟨b, (core_sysRet hb).1, trace_sysRet hb, hrec⟩
    · simp only [returns_bind, returns_pure] at h
      obtain ⟨_, d, hrec, rfl, rfl⟩ := h
      exact ⟨a, rfl, rfl, hrec⟩
  obtain ⟨b, hb, hbtr, hrec⟩ := hrec
  rw [returns_record] at hrec
  subst hrec
  have hlost : ∀ l, lostFds (.nonblock fd r :: b.kernel.trace) = l →
      ({ b with kernel := { b.kernel with trace := .nonblock fd r :: b.kernel.trace } } : Sys ε).core =
        { s.core with lost := l } := by
    rintro l rfl
    rw [← ha, ← hb]
    rfl
  refine ⟨fun hna => ?_, fun _ _ _ he => by simp at he, fun lfd tr htr => ?_⟩
  · refine hlost _ ?_
    rw [hbtr, hatr]
    exact lostFds_nonblock hna
  · rw [← hatr, ← hbtr] at htr
    have hold : lostFds b.kernel.trace = s.core.lost := by rw [← ha, ← hb]; rfl
    constructor
    · intro hr
      refine hlost _ ?_
      rw [← hold, htr, lostFds, if_pos ⟨hr, rfl⟩]
    · intro hr
      refine Eq.trans (hlost s.core.lost ?_) rfl
      rw [← hold, htr, lostFds, if_neg fun hc => absurd hc.1 (by omega)]

/-- `accept`, directly or through the balancer. -/
theorem acFn_spec {lfd : Int} {p : Int × SockAddr} (h : Returns (acFn lfd) s p t) :
    (p.1 ≤ 0 ∧ t.core = s.core) ∨
    (0 < p.1 ∧ s.core.socks p.1 = none ∧ t.core = s.core.openFd p.1 ∧
      ∃ tr, t.kernel.trace = .accept lfd p.1 :: tr) := by
  have hacc : ∀ {a b : Sys ε}, Returns (sysAccept lfd) a p b → (p.1 ≤ 0 ∧ b.core = a.core) ∨
      (0 < p.1 ∧ a.core.socks p.1 = none ∧ b.core = a.core.openFd p.1 ∧
        ∃ tr, b.kernel.trace = .accept lfd p.1 :: tr) := by
    intro a b hab
    obtain ⟨htr, ⟨hp, hb⟩ | ⟨hpos, hnone, hb⟩⟩ := core_sysAccept hab
    · exact .inl ⟨by omega, hb⟩
    · exact .inr ⟨hpos, hnone, hb, _, htr⟩
  simp only [acFn, returns_bind, returns_readMnet, and_assoc, exists_and_left, exists_eq_left] at h
  rcases returns_ite.mp h with ⟨_, h⟩ | ⟨_, h⟩
  · simp only [returns_bind] at h
    obtain ⟨before, a, hbefore, h⟩ := h
    have ha := (core_sysRet hbefore).1
    rcases returns_ite.mp h with ⟨_, h⟩ | ⟨_, h⟩
    · simp only [returns_bind, returns_pure] at h
      obtain ⟨_, b, hab, _, d, hafter, rfl, rfl⟩ := h
      rw [(core_sysRet hafter).1, trace_sysRet hafter, ← ha]
      exact hacc hab
    · obtain ⟨rfl, rfl⟩ := returns_pure.mp h
      exact .inl ⟨le_refl _, ha⟩
  · exact hacc h

/-- A new connection in front of `channs`, a descriptor lost, or nothing. -/
theorem channAccept_spec (hx : Tame x) (hb : Base s.core) {q : Option ChannId}
    (h : Returns (channAccept x n) s q t) :
    (q = none ∧ (t.core = s.core ∨ ∃ fd, CStep s.core (.leak fd) t.core)) ∨
    (∃ m fd a, q = some m ∧ CStep s.core (.accept m fd) a ∧ Steps {.disconnect m} a t.core) := by
  simp only [channAccept, returns_bind, returns_deref, and_assoc, exists_and_left,
    exists_eq_left] at h
  obtain ⟨l, hl, p, a, hac, h⟩ := h
  rcases returns_ite.mp h with ⟨hfd, h⟩ | ⟨_, h⟩
  · obtain ⟨hp, _⟩ | ⟨hpos, hnone, ha, tr, htr⟩ := acFn_spec hac
    · exact absurd hp (by omega)
    simp only [returns_bind] at h
    obtain ⟨nb, b, hnb, h⟩ := h
    obtain ⟨hlt, hge⟩ := (setNonblocking_spec hnb).2.2 _ _ htr
    rcases returns_ite.mp h with ⟨hnb0, h⟩ | ⟨hnb0, h⟩
    · have hbcore := (hge hnb0).trans ha
      simp only [returns_bind, returns_pure] at h
      obtain ⟨m, d, hnew, _, e, hmod, _, f, hcb, rfl, rfl⟩ := h
      obtain ⟨rfl, _, hd⟩ := channCreate_spec hnew
      obtain ⟨c, hc, _, _, _, he⟩ := core_modifyChann hmod
      have hbb : Base b.core := hbcore ▸ hb.openFd hnone
      -- the new channel with its descriptor stored is what the act pushes
      have hc' := core_heap_some hc
      rw [hd, Core.push_heap hbb, Option.some.injEq] at hc'
      have hpush : e.core = (s.core.openFd p.1).push
          { fd := p.1, state := .connected, ctype := l.core.ctype } := by
        have hfd : ({ c with fd := p.1, addr := p.2 } : Chann).core = { c.core with fd := p.1 } := rfl
        rw [he, hfd, ← hc', hd, ← hbcore]
        exact Core.push_set hbb rfl rfl
      have hstep := CStep.accept (core_heap_some hl) hpos hnone
      rw [← hpush] at hstep
      have hnext : b.core.nextChann = s.core.nextChann := by rw [hbcore]; rfl
      rw [hnext] at hcb ⊢
      refine .inr ⟨_, p.1, e.core, rfl, hstep, ?_⟩
      simp only [callback, returns_bind] at hcb
      obtain ⟨_, g, hrec, hcb⟩ := hcb
      have hg := core_record hrec trivial
      rw [← hg] at hstep ⊢
      exact (reenters_acceptCb hx hcb).steps hx.ops (hb.step hstep)
    · obtain ⟨rfl, rfl⟩ := returns_pure.mp h
      refine .inl ⟨rfl, .inr ⟨p.1, ?_⟩⟩
      rw [hlt (by omega), ha]
      exact .leak hpos hnone
  · obtain ⟨rfl, rfl⟩ := returns_pure.mp h
    obtain ⟨_, ha⟩ | ⟨hpos, _⟩ := acFn_spec hac
    · exact .inl ⟨rfl, .inl ha⟩
    · exact absurd hpos (by omega)

/-! ## Flushing -/

/-- A connection with cached data cannot be torn down, so a failed transfer of such a channel
never returns. -/
theorem channFail_stuck (hx : Tame x) (hb : Base s.core) {c : CChann} (hn : s.core.heap n = some c)
    (ha : c.state.active) (hne : c.rwbSend ≠ []) : ¬ Returns (channFail x n) s u t := by
  intro h
  simp only [channFail, returns_bind] at h
  obtain ⟨_, a, hdis, _⟩ := h
  obtain ⟨d, hd, ⟨_, _, hsp, _⟩ | ⟨hno, _⟩⟩ := channDisconnectSocket_spec hx.ops hb hdis
  all_goals
    rw [core_heap_some hd] at hn
    cases hn
  · exact hne (((hb.cache n d.core (core_heap_some hd)).1.spent_iff).mp hsp)
  · exact hno ha

/-- What a flush leaves: the channel is connected as before. -/
def Flushed (n : ChannId) (k k' : Core) : Prop :=
  Steps (Set.range (Act.flush n)) k k' ∧ ∃ d, k'.heap n = some d ∧ d.state = .connected

/-- One block, or a part of it, is sent and drained. -/
theorem flush_step (hx : Tame x) {d : Chann} {a b : Sys ε} (hd : s.heap n = some d)
    (hst : d.state = .connected) (hne : d.rwbSend ≠ [])
    (hsend : Returns (channSend x n (rwbDrainParam d.rwbSend)) s r a) (hpos : 0 < r)
    (hdrain : Returns (modifyChann n fun c => { c with rwbSend := rwbDrain c.rwbSend r.toNat }) a u b) :
    CStep s.core (.flush n r.toNat) b.core ∧
      b.core.heap n = some { d.core with rwbSend := rwbDrain d.core.rwbSend r.toNat } := by
  obtain ⟨hle, ha⟩ := channSend_spec hx hd hsend
  obtain ⟨c', hc', _, _, _, hbcore⟩ := core_modifyChann hdrain
  have hc'' := core_heap_some hc'
  rw [ha, Core.onWire_heap, core_heap_some hd, Option.some.injEq] at hc''
  have hwrite : ({ c' with rwbSend := rwbDrain c'.rwbSend r.toNat } : Chann).core =
      { d.core with rwbSend := rwbDrain d.core.rwbSend r.toNat } := by
    have : ({ c' with rwbSend := rwbDrain c'.rwbSend r.toNat } : Chann).core =
      { c'.core with rwbSend := rwbDrain c'.core.rwbSend r.toNat } := rfl
    rw [this, ← hc'']
  refine ⟨?_, by rw [hbcore, hwrite, Core.set_heap, Function.update_self]⟩
  rw [hbcore, hwrite, ha]
  refine .flush (core_heap_some hd) hst hne fun hty => ?_
  have hle' := hle hty
  have hdp : d.core.rwbSend = d.rwbSend := rfl
  rw [hdp]
  omega

theorem channSendedLoop_spec (hx : Tame x) {fuel : Nat} {c : CChann} (hb : Base s.core)
    (hn : s.core.heap n = some c) (hst : c.state = .connected) (hne : c.rwbSend ≠ [])
    (h : Returns (channSendedLoop x n fuel) s u t) : Flushed n s.core t.core := by
  induction fuel generalizing s c with
  | zero => exact absurd h returns_fail
  | succ fuel ih =>
    simp only [channSendedLoop, returns_bind, returns_deref, and_assoc, exists_and_left,
      exists_eq_left] at h
    obtain ⟨d, hd, r, a, hsend, h⟩ := h
    rw [core_heap_some hd] at hn
    cases hn
    rcases returns_ite.mp h with ⟨hpos, h⟩ | ⟨hpos, h⟩
    · simp only [returns_bind, returns_deref, and_assoc, exists_and_left, exists_eq_left] at h
      obtain ⟨_, b, hdrain, e, he, h⟩ := h
      obtain ⟨hstep, hbheap⟩ := flush_step hx hd hst hne hsend hpos hdrain
      have hflush : Steps (Set.range (Act.flush n)) s.core b.core := .single hstep ⟨_, rfl⟩
      rcases returns_ite.mp h with ⟨⟨_, hcount⟩, h⟩ | ⟨_, h⟩
      · have hmore : ({ d.core with rwbSend := rwbDrain d.core.rwbSend r.toNat } : CChann).rwbSend ≠ [] := by
          have he' := core_heap_some he
          rw [hbheap, Option.some.injEq] at he'
          have her : e.rwbSend = rwbDrain d.core.rwbSend r.toNat := congrArg CChann.rwbSend he'.symm
          intro hnil
          have hnil' : rwbDrain d.core.rwbSend r.toNat = [] := hnil
          rw [her, hnil'] at hcount
          exact absurd hcount (by decide)
        obtain ⟨hsteps, hfin⟩ := ih (hb.step hstep) hbheap hst hmore h
        exact ⟨hflush.trans hsteps, hfin⟩
      · obtain ⟨_, rfl⟩ := returns_pure.mp h
        exact ⟨hflush, _, hbheap, hst⟩
    · obtain ⟨_, ha⟩ := channSend_spec hx hd hsend
      rw [show r.toNat = 0 by omega, List.take_zero, Core.onWire_nil] at ha
      rcases returns_ite.mp h with ⟨_, h⟩ | ⟨_, h⟩
      · refine absurd h (channFail_stuck hx (ha ▸ hb) (ha ▸ core_heap_some hd) ?_ hne)
        rw [hst]
        trivial
      · obtain ⟨_, rfl⟩ := returns_pure.mp h
        exact ⟨.of_eq ha, d.core, ha ▸ core_heap_some hd, hst⟩

theorem channSendedRwb_spec (hx : Tame x) {c : CChann} {sent : Bool} (hb : Base s.core)
    (hn : s.core.heap n = some c) (hst : c.state = .connected)
    (h : Returns (channSendedRwb x n) s sent t) :
    Flushed n s.core t.core ∧
      (sent = true → ∀ d, t.core.heap n = some d → d.rwbSend = []) := by
  simp only [channSendedRwb, returns_bind, returns_deref, and_assoc, exists_and_left,
    exists_eq_left] at h
  obtain ⟨d, hd, h⟩ := h
  rw [core_heap_some hd] at hn
  cases hn
  rcases returns_ite.mp h with ⟨hcount, h⟩ | ⟨hcount, h⟩
  · obtain ⟨_, rfl⟩ := returns_pure.mp h
    refine ⟨⟨.refl _, d.core, core_heap_some hd, hst⟩, fun _ e he => ?_⟩
    rw [core_heap_some hd] at he
    cases he
    exact List.length_eq_zero_iff.mp (Nat.le_zero.mp hcount)
  · simp only [returns_bind, returns_deref, returns_pure, and_assoc, exists_and_left,
      exists_eq_left] at h
    obtain ⟨_, a, hloop, e, he, rfl, rfl⟩ := h
    have hne : d.core.rwbSend ≠ [] := by
      intro hnil
      have hnil' : d.rwbSend = [] := hnil
      rw [hnil'] at hcount
      exact hcount (Nat.le_refl _)
    refine ⟨channSendedLoop_spec hx hb (core_heap_some hd) hst hne hloop, fun hsent f hf => ?_⟩
    rw [core_heap_some he] at hf
    cases hf
    exact List.length_eq_zero_iff.mp (Nat.le_zero.mp (of_decide_eq_true hsent))

/-! ## Opening a socket -/

/-- A call on a socket being opened. -/
def Setup (m : M ε Int) : Prop :=
  ∀ s r t, notAccept s → Returns m s r t → t.core = s.core ∧ notAccept t

theorem setup_sysSetup (fd : Int) : Setup (sysSetup fd : M ε Int) :=
  fun _ _ _ _ h => core_sysSetup h

theorem setup_setNonblocking (fd : Int) : Setup (setNonblocking fd : M ε Int) :=
  fun _ _ _ hs h => ⟨(setNonblocking_spec h).1 hs, (setNonblocking_spec h).2.1⟩

theorem setup_setBufsize (fd size : Int) : Setup (setBufsize fd size : M ε Int) := by
  intro s r t hs h
  simp only [setBufsize, returns_bind, returns_pure] at h
  obtain ⟨_, a, ha, _, b, hb, _, rfl⟩ := h
  exact ⟨(core_sysSetup hb).1.trans (core_sysSetup ha).1, (core_sysSetup hb).2⟩

theorem allOk_spec {ms : List (M ε Int)} (hms : ∀ m ∈ ms, Setup m) {ok : Bool} (hs : notAccept s)
    (h : Returns (allOk ms) s ok t) : t.core = s.core ∧ notAccept t := by
  induction ms generalizing s with
  | nil =>
    obtain ⟨_, rfl⟩ := returns_pure.mp h
    exact ⟨rfl, hs⟩
  | cons m ms ih =>
    simp only [allOk, returns_bind] at h
    obtain ⟨r, a, hm, h⟩ := h
    obtain ⟨ha, hna⟩ := hms m (by simp) s r a hs hm
    rcases returns_ite.mp h with ⟨_, h⟩ | ⟨_, h⟩
    · obtain ⟨_, rfl⟩ := returns_pure.mp h
      exact ⟨ha, hna⟩
    · obtain ⟨ht, hnt⟩ := ih (fun m hm => hms m (List.mem_cons_of_mem _ hm)) hna h
      exact ⟨ht.trans ha, hnt⟩

/-- A new descriptor, or none left open. -/
theorem channOpenSocket_spec {host : Option Nat} {port fd : Int} {backlog : BitVec 32}
    (h : Returns (channOpenSocket x n host port backlog) s fd t) :
    ∃ c, s.core.heap n = some c ∧
      ((0 < fd ∧ c.state = .disconnect ∧ s.core.socks fd = none ∧ t.core = s.core.openFd fd) ∨
        (fd ≤ 0 ∧ (t.core = s.core ∨ ∃ f, CStep s.core (.bounce f) t.core))) := by
  simp only [channOpenSocket, returns_bind, returns_deref, and_assoc, exists_and_left,
    exists_eq_left] at h
  obtain ⟨c, hc, h⟩ := h
  refine ⟨c.core, core_heap_some hc, ?_⟩
  rcases returns_ite.mp h with ⟨hst, h⟩ | ⟨_, h⟩
  · simp only [returns_bind] at h
    obtain ⟨f, a, hf, h⟩ := h
    obtain ⟨hna, hsock⟩ := core_sysSocket hf
    rcases returns_ite.mp h with ⟨hpos, h⟩ | ⟨hpos, h⟩
    · obtain ⟨hneg, _⟩ | ⟨_, hnone, ha⟩ := hsock
      · omega
      simp only [returns_bind] at h
      obtain ⟨_, b, hfill, ok, d, hok, h⟩ := h
      have hb : b.core = a.core := by
        rw [channFillAddr, returns_modifyChann] at hfill
        obtain ⟨e, he, rfl⟩ := hfill
        exact core_setChann_same he rfl
      have hnb : notAccept b := by
        rw [channFillAddr, returns_modifyChann] at hfill
        obtain ⟨e, he, rfl⟩ := hfill
        exact hna
      have hd := (allOk_spec (by
        intro m hm
        simp only [List.mem_append, List.mem_cons, List.not_mem_nil, or_false] at hm
        rcases hm with ((((((rfl | hm) | hm) | rfl) | hm) | hm) | rfl)
        · exact setup_sysSetup f
        · split at hm
          · rw [List.mem_singleton.mp hm]
            exact setup_sysSetup f
          · simp at hm
        · split at hm
          · rw [List.mem_singleton.mp hm]
            exact setup_sysSetup f
          · simp at hm
        · exact setup_setNonblocking f
        · split at hm
          · rw [List.mem_singleton.mp hm]
            exact setup_sysSetup f
          · simp at hm
        · split at hm
          · rw [List.mem_singleton.mp hm]
            exact setup_sysSetup f
          · simp at hm
        · exact setup_setBufsize f _) hnb hok).1
      have hcore : d.core = s.core.openFd f := by rw [hd, hb, ha]
      rcases returns_ite.mp h with ⟨_, h⟩ | ⟨_, h⟩
      · obtain ⟨rfl, rfl⟩ := returns_pure.mp h
        exact .inl ⟨hpos, hst, hnone, hcore⟩
      · simp only [returns_bind, returns_pure] at h
        obtain ⟨_, e, hclose, rfl, rfl⟩ := h
        refine .inr ⟨by omega, .inr ⟨f, ?_⟩⟩
        rw [core_sysClose hclose, hcore]
        exact .bounce hpos hnone
    · obtain ⟨rfl, rfl⟩ := returns_pure.mp h
      obtain ⟨_, ha⟩ | ⟨hp, _⟩ := hsock
      · exact .inr ⟨by omega, .inl ha⟩
      · exact absurd hp hpos
  · obtain ⟨rfl, rfl⟩ := returns_pure.mp h
    exact .inr ⟨by omega, .inl rfl⟩

end MNet
