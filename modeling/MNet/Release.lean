import MNet.Release.Model
import MNet.Ledger
import MNet.Reports
import MNet.Teardown

/-! # Failed flushes

A flush that fails tears the connection down and queues a report in the message slot of the
channel. The cache is released with the connection, and an empty cache is what tells the caller
that all is sent: with SEND events on it writes over the report. -/

namespace MNet
open MNet.Lib MNet.Lib.Exec

variable {ε : Type} {x : ExtTable ε} {free : ChannId → M ε Unit} {gone : Prop} {s t : Sys ε} {n m : ChannId}
  {c d : Chann} {u : Unit} {kev : Kev}

/-- A table of types whose callbacks keep to their own business, and whose filters let every message
pass. -/
structure Docile (x : ExtTable ε) : Prop where
  tactful : Tactful x
  disconnectCb : ∀ ctype n s, ∃ t, Returns ((extConfig x ctype).disconnectCb n) s () t ∧ t.heap = s.heap ∧ t.mnet = s.mnet
  sendFn : ∀ ctype n data s r t, Returns ((extConfig x ctype).sendFn n data) s r t → t.heap = s.heap ∧ t.mnet = s.mnet
  filterFn : ∀ ctype n s, Returns ((extConfig x ctype).filterFn n) s true s

/-! ## Messages -/

theorem Docile.channMsg (hx : Docile x) {event : ChannEvent} {q : Option ChannId} {err : Int} {pass : Bool} :
    Returns (channMsg x n event q err) s pass t ↔ pass = true ∧
      ∃ c, s.heap n = some c ∧ t = s.setChann n { c with msg := msgOf n c event q err } := by
  constructor
  · intro h
    obtain ⟨c, hc, hf⟩ := channMsg_cases h
    obtain ⟨rfl, rfl⟩ := Returns.det hf (hx.filterFn _ _ _)
    exact ⟨rfl, c, hc, rfl⟩
  · rintro ⟨rfl, c, hc, rfl⟩
    have hset : Returns (modifyChann n fun c => { c with msg := msgOf n c event q err }) s () _ :=
      returns_modifyChann.mpr ⟨c, hc, rfl⟩
    have hself := Function.update_self n (some { c with msg := msgOf n c event q err }) s.heap
    exact returns_bind.mpr ⟨_, _, hset, returns_bind.mpr ⟨_, _, returns_deref.mpr ⟨hself, rfl⟩, hx.filterFn _ _ _⟩⟩

theorem Docile.emit (hx : Docile x) {event : ChannEvent} {q : Option ChannId} {err : Int} {p : Pass} :
    Returns (emit x n event q err) s p t ↔ p = .ret (some n) ∧
      ∃ c, s.heap n = some c ∧ t = s.setChann n { c with msg := msgOf n c event q err } := by
  simp only [MNet.emit, returns_bind, hx.channMsg, returns_pure, and_assoc, exists_and_left, exists_eq_left]
  constructor
  · rintro ⟨_, ⟨c, hc, rfl⟩, rfl, rfl⟩
    exact ⟨rfl, c, hc, rfl⟩
  · rintro ⟨rfl, c, hc, rfl⟩
    exact ⟨_, ⟨c, hc, rfl⟩, rfl, rfl⟩

/-- The report of a message. -/
def NotSend (_ : ChannId) (msg : ChannMsg) (_ : Nat) : Prop := msg.event ≠ some .send

/-- No SEND message gets into the queue of reports. -/
def Unsending (s t : Sys ε) : Prop := Filed NotSend s → Filed NotSend t

instance : Std.Refl (Unsending (ε := ε)) := ⟨fun _ => id⟩

instance : IsTrans (Sys ε) Unsending := ⟨fun _ _ _ h h' hf => h' (h hf)⟩

theorem Discreet.unsending (h : Discreet gone s t) : Unsending s t := fun hf => hf.discreet h

theorem Unsending.of_heap (hheap : t.heap = s.heap) (hnext : t.nextChann = s.nextChann)
    (hdis : t.mnet.disChanns = s.mnet.disChanns) (htrace : s.kernel.trace <:+ t.kernel.trace) : Unsending s t :=
  fun hf => hf.discreet (Discreet.of_heap hheap hnext hdis htrace : Discreet False s t)

theorem Lib.Exec.Within.noSend {α : Type} {m : M ε α} (h : Within (Discreet False) m s) : Within Unsending m s :=
  h.mono fun _ => Discreet.unsending

theorem Lib.Exec.Within.unsending {α : Type} {m : M ε α} (h : Within Bland m s) : Within Unsending m s :=
  Within.noSend h.discreet

theorem unsending_modifyChann {f : Chann → Chann} (hf : ∀ c, (f c).disNext = c.disNext ∧
    ((f c).msg = c.msg ∨ (f c).msg.event ≠ some .send)) : Within Unsending (modifyChann n f) s := by
  intro _ t h hfiled
  obtain ⟨c, hc, rfl⟩ := returns_modifyChann.mp h
  refine hfiled.write hc (hf c).1 (fun hw => ?_) rfl rfl rfl
  obtain hsame | hno := (hf c).2
  · rw [NotSend, hsame]
    exact (hfiled.waiting n hw).2 c hc
  · exact hno

section Calls

variable (hx : Docile x)
include hx

theorem Docile.unsending_channMsg {event : ChannEvent} {q : Option ChannId} {err : Int} (hno : event ≠ .send) :
    Within Unsending (MNet.channMsg x n event q err) s :=
  .bind (unsending_modifyChann fun _ => ⟨rfl, .inr fun he => hno (Option.some.inj he)⟩) fun _ _ _ =>
    .deref_bind fun c _ => fun _ _ h hf => by
      obtain ⟨_, rfl⟩ := Returns.det h (hx.filterFn c.ctype n _)
      exact hf

theorem Docile.unsending_emit {event : ChannEvent} {q : Option ChannId} {err : Int} (hno : event ≠ .send) :
    Within Unsending (MNet.emit x n event q err) s :=
  (hx.unsending_channMsg hno).bind fun _ _ _ => within_pure _

variable (hfree : ∀ n s, Within (Discreet (ε := ε) False) (free n) s)
include hfree

theorem Docile.unsending_channDisconnectSocketBy : Within Unsending (channDisconnectSocketBy free (opsOf x) n) s := by
  refine .deref_bind fun c _ => .ite (fun _ => Within.bind ?_ fun _ _ _ => .deref_bind fun _ _ =>
    (bland_sysClose _).unsending.bind fun _ _ _ => (hfree _ _).noSend.bind fun _ _ _ =>
      .bind (unsending_modifyChann fun _ => ⟨rfl, .inl rfl⟩) fun _ _ _ => within_pure _) fun _ => within_pure _
  rw [opsConfig_opsOf]
  exact Within.noSend (hx.tactful.callback .disconnectCb c.ctype)

theorem Docile.unsending_channFailBy : Within Unsending (channFailBy x free n) s := by
  refine (hx.unsending_channDisconnectSocketBy hfree).bind fun _ _ _ => .read_bind fun _ t h hf => ?_
  obtain ⟨pass, a, hmsg, hpush⟩ := returns_bind.mp h
  obtain ⟨rfl, c, hc, rfl⟩ := hx.channMsg.mp hmsg
  have ha := hx.unsending_channMsg (by simp) _ _ hmsg hf
  obtain ⟨_, hpush⟩ | ⟨hno, _⟩ := returns_when.mp hpush
  · exact ha.push (Function.update_self ..) (by simp [NotSend, msgOf]) hpush
  · exact absurd rfl hno

theorem Docile.unsending_mnetChannSendBy {buf : Option (List UInt8)} :
    Within Unsending (mnetChannSendBy x free (some n) buf) s := by
  refine .require_bind fun m hm => .bind_same fun _ _ hready => ⟨channReady_same hready, .ite (fun _ => ?_)
    fun _ => within_pure _⟩
  refine .deref_bind fun c _ => .ite (fun _ => .bind (unsending_modifyChann fun _ => ⟨rfl, .inl rfl⟩)
    fun _ _ _ => within_pure _) fun _ => ?_
  refine (Within.noSend (hx.tactful.channSend _)).bind fun r _ _ => .ite
    (fun _ => (hx.unsending_channFailBy hfree).bind fun _ _ _ => within_pure _) fun _ => .ite (fun _ => ?_)
    fun _ => within_pure _
  exact .bind (unsending_modifyChann fun _ => ⟨rfl, .inl rfl⟩) fun _ _ _ =>
    (bland_evtAdd _).unsending.bind fun _ _ _ => within_pure _

theorem Docile.unsending_mnetChannRecvBy {buf : Bool} {len : Int} :
    Within Unsending (mnetChannRecvBy x free (some n) buf len) s := by
  refine .require_bind fun m hm => .bind_same fun _ _ hready => ⟨channReady_same hready, .ite (fun _ => ?_)
    fun _ => within_pure _⟩
  exact .deref_bind fun c _ => (Within.noSend (hx.tactful.recvFn c.ctype _ _ _)).bind fun r _ _ =>
    (Within.noSend (discreet_record _)).bind fun _ _ _ =>
      (Within.when fun _ => hx.unsending_channFailBy hfree).bind fun _ _ _ =>
        .bind (unsending_modifyChann fun _ => ⟨rfl, .inl rfl⟩) fun _ _ _ => within_pure _

omit hx in
theorem unsending_channDestroyBy : Within Unsending (channDestroyBy free n) s :=
  .deref_bind fun _ _ => .ite
    (fun _ => bland_unlinkChann.unsending.bind fun _ _ _ => (hfree _ _).noSend.bind fun _ _ _ =>
      (Within.noSend discreet_tmKill).bind fun _ _ _ =>
        .bind (Within.noSend (discreet_modifyMnet fun _ => rfl)) fun _ _ _ =>
          (discreet_freeChann.mono fun _ => Discreet.unsending))
    fun _ => within_pure ()

omit hx in
theorem unsending_evtDelLoopBy {fuel : Nat} {p : Option ChannId} : Within Unsending (evtDelLoopBy free fuel p) s := by
  induction fuel generalizing s p with
  | zero =>
    cases p with
    | none => exact within_pure ()
    | some n => exact within_fail
  | succ fuel ih =>
    cases p with
    | none => exact within_pure ()
    | some n => exact .deref_bind fun _ _ => (unsending_channDestroyBy hfree).bind fun _ _ _ => ih

omit hx in
theorem unsending_evtPollBy : Within Unsending (evtPollBy free) s := by
  have hmod : ∀ {a : Sys ε} {f : Mnet → Mnet}, (∀ ss, (f ss).disChanns = ss.disChanns) →
      Within Unsending (modifyMnet f) a := fun hf => Within.noSend (discreet_modifyMnet hf)
  refine .bind (.read_bind <| .read_bind <| (unsending_evtDelLoopBy hfree).bind fun _ _ _ => hmod fun _ => rfl)
    fun _ _ _ => (Within.noSend discreet_tmSchedule).bind fun _ _ _ =>
      (bland_sysEpollWait _).unsending.bind fun recs _ _ => .read_bind ?_
  cases recs with
  | none => exact .bind (hmod fun _ => rfl) fun _ _ _ => .ite (fun _ => within_pure _) fun _ => within_read _
  | some evts => exact .bind (hmod fun _ => rfl) fun _ _ _ => within_read _

omit hfree in
theorem Docile.unsending_channCloseSocket : Within Unsending (channCloseSocket (opsOf x) n) s := by
  refine .deref_bind fun c _ => .ite (fun _ => Within.bind ?_ fun _ _ _ => .read_bind <|
    .bind (unsending_modifyChann fun _ => ⟨rfl, .inl rfl⟩) fun _ _ _ =>
      .bind (Within.noSend (discreet_modifyMnet fun _ => rfl)) fun _ _ _ =>
        unsending_modifyChann fun _ => ⟨rfl, .inl rfl⟩) fun _ => within_pure ()
  rw [opsConfig_opsOf]
  exact Within.noSend (hx.tactful.callback .closeCb c.ctype)

theorem Docile.unsending_finiLoopBy {fuel : Nat} {p : Option ChannId} :
    Within Unsending (finiLoopBy x free fuel p) s := by
  induction fuel generalizing s p with
  | zero =>
    cases p with
    | none => exact within_pure ()
    | some n => exact within_fail
  | succ fuel ih =>
    cases p with
    | none => exact within_pure ()
    | some n =>
      exact .deref_bind fun _ _ => (hx.unsending_channDisconnectSocketBy hfree).bind fun _ _ _ =>
        hx.unsending_channCloseSocket.bind fun _ _ _ => (unsending_channDestroyBy hfree).bind fun _ _ _ => ih

/-- The reports are wiped with the rest. -/
theorem Docile.unsending_mnetFiniBy : Within Unsending (mnetFiniBy x free) s := by
  refine .read_bind <| .ite (fun _ => .read_bind <| .read_bind <| (hx.unsending_finiLoopBy hfree).bind
    fun _ _ _ => bland_evtFini.unsending.bind fun _ _ _ => ?_) fun _ => within_pure ()
  intro _ t h hf
  rw [returns_modifyMnet] at h
  subst h
  exact .of_empty hf.fresh rfl

/-- The loop apart, every call keeps SEND messages out of the queue. -/
theorem Docile.unsending_apiCallBy {call : Call} (hloop : ∀ fuel, call ≠ .resultNext fuel) :
    Within Unsending (apiCallBy x free call) s := by
  by_cases hd : call.discreet
  · have hother : call ≠ .poll → (∀ p, call ≠ .channDisconnect p) → Within Unsending (apiCall x call) s :=
      fun _ _ => (hx.tactful.apiCall hd).mono fun _ => Discreet.unsending
    cases call with
    | poll => exact Within.ret (unsending_evtPollBy hfree)
    | channDisconnect p =>
      cases p with
      | none => exact Within.ret (within_pure ())
      | some n => exact Within.ret ((hx.unsending_channDisconnectSocketBy hfree).bind fun _ _ _ => within_pure ())
    | mnetFini | resultNext | channClose | channSetOpaque | channRecv | channSend | dgramRecv | dgramSend =>
      exact hd.elim
    | _ => exact hother (by simp) (by simp)
  cases call with
  | mnetFini => exact Within.ret (hx.unsending_mnetFiniBy hfree)
  | resultNext fuel => exact absurd rfl (hloop fuel)
  | channClose p =>
    cases p with
    | none => exact Within.ret (within_pure ())
    | some n =>
      exact Within.ret (.deref_bind fun _ _ => .ite
        (fun _ => (hx.unsending_channDisconnectSocketBy hfree).bind fun _ _ _ => hx.unsending_channCloseSocket)
        fun _ => within_pure ())
  | channSetOpaque p v =>
    cases p with
    | none => exact Within.ret (within_pure ())
    | some n => exact Within.ret (unsending_modifyChann fun _ => ⟨rfl, .inl rfl⟩)
  | channRecv p buf len =>
    cases p with
    | none => exact Within.ret (.require_bind fun _ h => by cases h)
    | some n => exact Within.ret (hx.unsending_mnetChannRecvBy hfree)
  | channSend p buf =>
    cases p with
    | none => exact Within.ret (.require_bind fun _ h => by cases h)
    | some n => exact Within.ret (hx.unsending_mnetChannSendBy hfree)
  | dgramRecv p buf len =>
    cases p with
    | none => exact Within.ret (.require_bind fun _ h => by cases h)
    | some n =>
      refine Within.ret (.require_bind fun m _ => .deref_bind fun c _ => .ite (fun _ => .bind_same fun _ _ hready =>
        ⟨channReady_same hready, .ite (fun _ => ?_) fun _ => within_pure _⟩) fun _ => within_pure _)
      exact (hx.unsending_mnetChannRecvBy hfree).bind fun _ _ _ => .deref_bind fun _ _ => within_pure _
  | dgramSend p addr buf =>
    cases p with
    | none => exact Within.ret (.require_bind fun _ h => by cases h)
    | some n =>
      refine Within.ret (.require_bind fun m _ => .deref_bind fun c _ => ?_)
      cases addr with
      | none => exact within_pure _
      | some dest =>
        exact .ite (fun _ => (Within.noSend (hx.tactful.dgramAim _ _)).bind fun _ _ _ =>
          hx.unsending_mnetChannSendBy hfree) fun _ => within_pure _
  | _ => exact absurd trivial hd

end Calls

/-! ## Flushes -/

/-- What a flush leaves alone, unless it fails. -/
def Chann.carrier (c : Chann) : ChannState × Int × Bool := (c.state, c.fd, c.activeSendEvent)

theorem Docile.channSend (hx : Docile x) {data : List UInt8} {r : Int} (hc : s.heap n = some c)
    (h : Returns (channSend x n data) s r t) : t.mnet = s.mnet ∧ ∃ d, t.heap n = some d ∧ d.carrier = c.carrier ∧
      d.rwbSend = c.rwbSend := by
  obtain ⟨c', a, hc', hsend, ht⟩ := channSend_cases h
  obtain ⟨hheap, hmnet⟩ := hx.sendFn _ _ _ _ _ _ hsend
  rw [hc, Option.some.injEq] at hc'
  subst hc'
  obtain ⟨_, rfl⟩ | ⟨_, d, hd, rfl⟩ := ht
  · exact ⟨hmnet, c, by rw [← hc, ← hheap]; rfl, rfl, rfl⟩
  · rw [hheap, hc, Option.some.injEq] at hd
    subst hd
    exact ⟨hmnet, _, Function.update_self .., rfl, rfl⟩

/-- The loop comes to the send that fails, and handles the failure. -/
theorem Docile.loop_fails (hx : Docile x) {fuel : Nat} (hc : s.heap n = some c) (hfuel : rwbCount c.rwbSend ≤ fuel)
    (h : FlushFails x n s) : ∃ b d, b.heap n = some d ∧ d.carrier = c.carrier ∧ d.rwbSend ≠ [] ∧ b.mnet = s.mnet ∧
      ∀ v t, Returns (channFailBy x free n) b v t → Returns (channSendedLoopBy x free n fuel) s v t := by
  induction h generalizing c fuel with
  | @now s b c' r hc' hne hsend hneg =>
    rw [hc, Option.some.injEq] at hc'
    subst hc'
    obtain ⟨hmnet, d, hd, hsame, hcache⟩ := hx.channSend hc hsend
    refine ⟨b, d, hd, hsame, by rwa [hcache], hmnet, fun v t hfail => ?_⟩
    obtain ⟨fuel, rfl⟩ : ∃ f, fuel = f + 1 := by
      have hpos : 0 < rwbCount c.rwbSend := List.length_pos_iff.mpr hne
      exact ⟨fuel - 1, by omega⟩
    rw [channSendedLoopBy, (returns_deref.mpr ⟨hc, rfl⟩).bind_iff, hsend.bind_iff, if_neg (by omega), if_pos hneg]
    exact hfail
  | @later s a b c' r u hc' hne hsend hpos hlen hmod hlater ih =>
    rw [hc, Option.some.injEq] at hc'
    subst hc'
    obtain ⟨hmnet, d, hd, hsame, hcache⟩ := hx.channSend hc hsend
    obtain ⟨d', hd', rfl⟩ := returns_modifyChann.mp hmod
    rw [hd, Option.some.injEq] at hd'
    subst hd'
    have hself := Function.update_self n (some { d with rwbSend := rwbDrain d.rwbSend r.toNat }) a.heap
    -- the block that was sent is gone
    have hless : rwbCount (rwbDrain d.rwbSend r.toNat) < rwbCount c.rwbSend := by
      obtain ⟨blk, q, hq⟩ := List.exists_cons_of_ne_nil hne
      rw [hcache, hq]
      exact rwbDrain_length_lt (by rw [← hq]; omega) (by omega)
    obtain ⟨fuel, rfl⟩ : ∃ f, fuel = f + 1 := ⟨fuel - 1, by omega⟩
    have hrest : rwbCount (rwbDrain d.rwbSend r.toNat) ≤ fuel := by omega
    obtain ⟨b, g, hg, hgs, hgne, hbm, hret⟩ := ih hself hrest
    refine ⟨b, g, hg, hgs.trans hsame, hgne, hbm.trans hmnet, fun v t hfail => ?_⟩
    have hmore : 0 < rwbCount (rwbDrain d.rwbSend r.toNat) := by
      have hcached : ∃ e, (a.setChann n { d with rwbSend := rwbDrain d.rwbSend r.toNat }).heap n = some e ∧
          e.rwbSend ≠ [] := by
        cases hlater with
        | now he hene | later he hene => exact ⟨_, he, hene⟩
      obtain ⟨e, he, hene⟩ := hcached
      obtain rfl := Option.some.inj (hself.symm.trans he)
      exact List.length_pos_iff.mpr hene
    rw [channSendedLoopBy, (returns_deref.mpr ⟨hc, rfl⟩).bind_iff, hsend.bind_iff, if_pos hpos,
      (returns_modifyChann (u := ()) |>.mpr ⟨d, hd, rfl⟩).bind_iff,
      (returns_deref.mpr ⟨hself, rfl⟩).bind_iff, if_pos ⟨hlen, hmore⟩]
    exact hret v t hfail

/-- A loop that ends has failed, or nothing happened to the connection. -/
theorem Docile.loop_cases (hx : Docile x) {fuel : Nat} (hc : s.heap n = some c) (hne : c.rwbSend ≠ [])
    (h : Returns (channSendedLoopBy x free n fuel) s u t) :
    FlushFails x n s ∨ (t.mnet = s.mnet ∧ ∃ d, t.heap n = some d ∧ d.carrier = c.carrier) := by
  induction fuel generalizing s c with
  | zero => exact absurd h returns_fail
  | succ fuel ih =>
    simp only [channSendedLoopBy, returns_bind, returns_deref, and_assoc, exists_and_left, exists_eq_left] at h
    obtain ⟨c', hc', r, a, hsend, h⟩ := h
    rw [hc, Option.some.injEq] at hc'
    subst hc'
    obtain ⟨hmnet, d, hd, hsame, hcache⟩ := hx.channSend hc hsend
    rcases returns_ite.mp h with ⟨hpos, h⟩ | ⟨_, h⟩
    · simp only [returns_bind, returns_deref, and_assoc, exists_and_left, exists_eq_left] at h
      obtain ⟨v, b, hmod, e, he, h⟩ := h
      have hmod' := hmod
      obtain ⟨d', hd', rfl⟩ := returns_modifyChann.mp hmod
      rw [hd, Option.some.injEq] at hd'
      subst hd'
      have hself := Function.update_self n (some { d with rwbSend := rwbDrain d.rwbSend r.toNat }) a.heap
      obtain rfl := Option.some.inj (hself.symm.trans he)
      rcases returns_ite.mp h with ⟨⟨hlen, hmore⟩, h⟩ | ⟨_, h⟩
      · obtain hfails | ⟨htm, g, hg, hgs⟩ := ih he (List.length_pos_iff.mp hmore) h
        · exact .inl (.later hc hne hsend hpos hlen hmod' hfails)
        · exact .inr ⟨htm.trans hmnet, g, hg, hgs.trans hsame⟩
      · obtain ⟨_, rfl⟩ := returns_pure.mp h
        exact .inr ⟨hmnet, _, he, hsame⟩
    · rcases returns_ite.mp h with ⟨hneg, _⟩ | ⟨_, h⟩
      · exact .inl (.now hc hne hsend hneg)
      · obtain ⟨_, rfl⟩ := returns_pure.mp h
        exact .inr ⟨hmnet, d, hd, hsame⟩

/-- What a failed flush leaves: the report, and an empty cache where there was a socket to close. -/
structure Torn (c : Chann) (s t : Sys ε) (n : ChannId) (d : Chann) : Prop where
  chann : t.heap n = some d
  event : d.msg.event = some .disconnect
  last : d.disNext = s.mnet.disChanns
  head : t.mnet.disChanns = some n
  flag : d.activeSendEvent = c.activeSendEvent
  released : c.state = .connected → 0 < c.fd → d.rwbSend = []
  kept : ¬ 0 < c.fd → d.rwbSend = c.rwbSend

theorem Docile.channFailBy (hx : Docile x) (hc : s.heap n = some c) :
    ∃ t d, Returns (channFailBy x releaseCache n) s () t ∧ Torn c s t n d := by
  have hdown : ∃ r a e, Returns (channDisconnectSocketBy releaseCache (opsOf x) n) s r a ∧ a.heap n = some e ∧
      a.mnet = s.mnet ∧ e.activeSendEvent = c.activeSendEvent ∧ (c.state = .connected → 0 < c.fd → e.rwbSend = []) ∧
        (¬ 0 < c.fd → e.rwbSend = c.rwbSend) := by
    by_cases hopen : c.fd > 0 ∧ c.state.val > ChannState.disconnect.val
    swap
    · refine ⟨0, s, c, ?_, hc, rfl, rfl, fun hst hpos => absurd ⟨hpos, by rw [hst]; decide⟩ hopen, fun _ => rfl⟩
      rw [channDisconnectSocketBy, (returns_deref.mpr ⟨hc, rfl⟩).bind_iff, if_neg hopen]
      exact returns_pure.mpr ⟨rfl, rfl⟩
    obtain ⟨a, hcb, haheap, hamnet⟩ := hx.disconnectCb c.ctype n (s.recorded (.extOp .disconnectCb n))
    have hac : a.heap n = some c := by
      rw [haheap]
      exact hc
    obtain ⟨_, b, hclose⟩ := halts_sysClose c.fd a
    obtain ⟨hbheap, _, hbmnet, _⟩ := sysClose_cases hclose
    have hbc : b.heap n = some c := by rw [hbheap, hac]
    have hcall : Returns (callback .disconnectCb ((opsConfig (opsOf x) c.ctype).disconnectCb) n) s () a := by
      rw [opsConfig_opsOf]
      exact returns_callback.mpr ⟨(), _, rfl, hcb⟩
    have hself := Function.update_self n (some { c with rwbSend := [] }) b.heap
    have hlast : ((b.setChann n { c with rwbSend := [] }).setChann n
        { c with rwbSend := [], fd := -1, state := .disconnect, epollEvents := 0 }).heap n = some _ :=
      Function.update_self ..
    refine ⟨1, _, _, ?_, hlast, hbmnet.trans hamnet, rfl, fun _ _ => rfl, fun hno => absurd hopen.1 hno⟩
    rw [channDisconnectSocketBy, (returns_deref.mpr ⟨hc, rfl⟩).bind_iff, if_pos hopen, hcall.bind_iff,
      (returns_deref.mpr ⟨hac, rfl⟩).bind_iff, hclose.bind_iff, releaseCache,
      (returns_modifyChann (u := ()) |>.mpr ⟨c, hbc, rfl⟩).bind_iff,
      (returns_modifyChann (u := ()) |>.mpr ⟨_, hself, rfl⟩).bind_iff]
    exact returns_pure.mpr ⟨rfl, rfl⟩
  obtain ⟨r, a, e, hdis, he, hmnet, hflag, hempty, hkept⟩ := hdown
  have hself := Function.update_self n (some { e with msg := msgOf n e .disconnect none a.kernel.errno }) a.heap
  have hmsg : Returns (MNet.channMsg x n .disconnect none a.kernel.errno) a true _ :=
    hx.channMsg.mpr ⟨rfl, e, he, rfl⟩
  obtain ⟨_, t, hpush⟩ := pushDis_terminates (s := a.setChann n { e with msg := msgOf n e .disconnect none a.kernel.errno })
    (core_heap_some hself)
  obtain ⟨e', he', hheap, _, hhead, _⟩ := pushDis_cases hpush
  obtain rfl := Option.some.inj (hself.symm.trans he')
  have hd := congrFun hheap n
  rw [Function.update_self] at hd
  refine ⟨t, _, ?_, hd, rfl, ?_, hhead, hflag, hempty, hkept⟩
  · rw [MNet.channFailBy, hdis.bind_iff, readErrno, (returns_read.mpr ⟨rfl, rfl⟩).bind_iff, hmsg.bind_iff]
    exact returns_when.mpr (.inl ⟨rfl, hpush⟩)
  · exact congrArg Mnet.disChanns hmnet

/-! ## A record and its report -/

/-- The record is that of a connected channel that may write, and there is cached data to write. -/
structure Flushes (u : Sys ε) (kev : Kev) (n : ChannId) (c : Chann) : Prop where
  ptr : kev.ptr = some n
  chann : u.heap n = some c
  state : c.state = .connected
  opened : 0 ≤ c.fd
  cached : c.rwbSend ≠ []
  fine : kev.events &&& (EPOLLERR ||| (EPOLLRDHUP ||| EPOLLHUP)) = 0
  unread : kev.events &&& EPOLLIN = 0
  writes : kev.events &&& EPOLLOUT ≠ 0

/-- The messages that come out of the queue until it is empty, as they are given out. -/
inductive Drains : Sys ε → List (ChannId × ChannMsg) → Prop
  | empty {s t : Sys ε} : Returns disNext s none t → Drains s []
  | next {s a : Sys ε} {n : ChannId} {c : Chann} {l : List (ChannId × ChannMsg)} :
    Returns disNext s (some n) a → a.heap n = some c → Drains a l → Drains s ((n, c.msg) :: l)

/-- The message a round gives out. -/
def Pass.given (p : Pass) (s : Sys ε) : List (ChannId × ChannMsg) :=
  match p with
  | .ret (some n) => ((s.heap n).map fun c => (n, c.msg)).toList
  | _ => []

/-- The messages of the record `kev` and of the reports it leaves in the queue. -/
def Messages (x : ExtTable ε) (u : Sys ε) (kev : Kev) (l : List (ChannId × ChannMsg)) : Prop :=
  ∃ p a q, Returns (evtDispatchBy x releaseCache kev) u p a ∧ Drains a q ∧ l = p.given a ++ q

theorem drains_one (hd : s.mnet.disChanns = some n) (hc : s.heap n = some c) (hlast : c.disNext = none) :
    Drains s [(n, c.msg)] := by
  have hpop : Returns disNext s (some n) { s with mnet := { s.mnet with disChanns := c.disNext } } := by
    rw [disNext, (returns_readMnet.mpr ⟨rfl, rfl⟩).bind_iff, hd]
    simp only
    rw [(returns_deref.mpr ⟨hc, rfl⟩).bind_iff, (returns_modifyMnet (u := ()) |>.mpr rfl).bind_iff]
    exact returns_pure.mpr ⟨rfl, rfl⟩
  exact .next hpop hc (.empty (disNext_none hlast))

/-- What is done with such a record. -/
theorem Flushes.dispatch {p : Pass} (h : Flushes s kev n c) :
    Returns (evtDispatchBy x free kev) s p t ↔ Returns (do
      let sent ← channSendedRwbBy x free n
      if sent then
        let c ← deref n
        if c.activeSendEvent then emit x n .send none 0
        else
          let _ ← evtDel n .write
          return .next
      else return .next) s p t := by
  have hopen : ¬ (c.state = .closed ∨ c.fd < 0) := by
    rw [h.state]
    have := h.opened
    simp only [reduceCtorEq, false_or]
    omega
  rw [evtDispatchBy, h.ptr, (returns_require.mpr ⟨rfl, rfl⟩).bind_iff, (returns_deref.mpr ⟨h.chann, rfl⟩).bind_iff,
    if_neg hopen, if_neg (not_not.mpr h.fine), h.state]
  simp only
  rw [evtConnectedBy, if_neg (not_not.mpr h.unread), if_pos h.writes]

/-- The flush of such a record fails: the report is queued, and the caller is told that all is sent
if there was a socket to close. -/
theorem Docile.flush_torn (hx : Docile x) (h : Flushes s kev n c) (hfails : FlushFails x n s) :
    ∃ t d, Returns (channSendedRwbBy x releaseCache n) s (decide (0 < c.fd)) t ∧ t.heap n = some d ∧
      d.msg.event = some .disconnect ∧ d.disNext = s.mnet.disChanns ∧ t.mnet.disChanns = some n ∧
        d.activeSendEvent = c.activeSendEvent := by
  obtain ⟨b, e, he, hsame, hne, hmnet, hloop⟩ :=
    hx.loop_fails h.chann (Nat.le_refl _) hfails
  obtain ⟨t, d, hfail, htorn⟩ := hx.channFailBy he
  have hst : e.state = .connected := (congrArg (·.1) hsame).trans h.state
  have hfd : e.fd = c.fd := congrArg (·.2.1) hsame
  have hflag : e.activeSendEvent = c.activeSendEvent := congrArg (·.2.2) hsame
  have hsent : decide (rwbCount d.rwbSend ≤ 0) = decide (0 < c.fd) := by
    by_cases hpos : 0 < c.fd
    · rw [htorn.released hst (hfd ▸ hpos)]
      simp [rwbCount, hpos]
    · have hkept : d.rwbSend ≠ [] := by
        rw [htorn.kept (hfd ▸ hpos)]
        exact hne
      simp [rwbCount, hpos, hkept]
  refine ⟨t, d, ?_, htorn.chann, htorn.event, htorn.last.trans (congrArg Mnet.disChanns hmnet), htorn.head,
    htorn.flag.trans hflag⟩
  have hmore : ¬ rwbCount c.rwbSend ≤ 0 := by
    have hpos : 0 < rwbCount c.rwbSend := List.length_pos_iff.mpr h.cached
    omega
  rw [channSendedRwbBy, (returns_deref.mpr ⟨h.chann, rfl⟩).bind_iff, if_neg hmore, (hloop () t hfail).bind_iff,
    (returns_deref.mpr ⟨htorn.chann, rfl⟩).bind_iff, ← hsent]
  exact returns_pure.mpr ⟨rfl, rfl⟩

/-- One message of `n` comes of a failed flush, and it is the disconnect, unless SEND events are on
and a socket was closed. -/
theorem Docile.failed_flush (hx : Docile x) (h : Flushes s kev n c) (hdis : s.mnet.disChanns = none)
    (hfails : FlushFails x n s) : ∃ l, Messages x s kev l ∧
      ((∃ msg, l = [(n, msg)] ∧ msg.event = some .disconnect) ↔ ¬ (c.activeSendEvent = true ∧ 0 < c.fd)) := by
  obtain ⟨t, d, hflush, hd, hev, hlast, hhead, hflag⟩ := hx.flush_torn h hfails
  rw [hdis] at hlast
  by_cases hbad : c.activeSendEvent = true ∧ 0 < c.fd
  · -- the slot is written over
    have hemit : Returns (MNet.emit x n .send none 0) t (.ret (some n))
        (t.setChann n { d with msg := msgOf n d .send none 0 }) := hx.emit.mpr ⟨rfl, d, hd, rfl⟩
    have hself := Function.update_self n (some { d with msg := msgOf n d .send none 0 }) t.heap
    have hdrain : Drains (t.setChann n { d with msg := msgOf n d .send none 0 }) _ := drains_one hhead hself hlast
    have hret : Returns (evtDispatchBy x releaseCache kev) s (.ret (some n))
        (t.setChann n { d with msg := msgOf n d .send none 0 }) := by
      refine h.dispatch.mpr ?_
      rw [hflush.bind_iff, if_pos (decide_eq_true hbad.2), (returns_deref.mpr ⟨hd, rfl⟩).bind_iff,
        if_pos (hflag.trans hbad.1)]
      exact hemit
    refine ⟨_, ⟨_, _, _, hret, hdrain, rfl⟩, fun ⟨msg, hl, _⟩ => ?_, fun hno => absurd hbad hno⟩
    have hlen := congrArg List.length hl
    rw [List.length_append, Pass.given] at hlen
    simp [Sys.setChann] at hlen
  have hgood : ∃ a e, Returns (evtDispatchBy x releaseCache kev) s .next a ∧ a.mnet.disChanns = some n ∧
      a.heap n = some e ∧ e.msg = d.msg ∧ e.disNext = none := by
    by_cases hpos : 0 < c.fd
    · obtain ⟨r, a, hdel⟩ := evtDel_terminates (core_heap_some hd) .write
      obtain ⟨e, ev, hctl⟩ := evtDel_cases hdel
      obtain rfl := Option.some.inj (hd.symm.trans hctl.was)
      refine ⟨a, _, h.dispatch.mpr ?_, by rw [hctl.mnet, hhead], hctl.chann, rfl, hlast⟩
      have hoff : ¬ d.activeSendEvent = true := fun hon => hbad ⟨hflag ▸ hon, hpos⟩
      rw [hflush.bind_iff, if_pos (decide_eq_true hpos), (returns_deref.mpr ⟨hd, rfl⟩).bind_iff, if_neg hoff,
        hdel.bind_iff]
      exact returns_pure.mpr ⟨rfl, rfl⟩
    · refine ⟨t, d, h.dispatch.mpr ?_, hhead, hd, rfl, hlast⟩
      rw [hflush.bind_iff, if_neg (by simp [hpos])]
      exact returns_pure.mpr ⟨rfl, rfl⟩
  obtain ⟨a, e, hret, hhead', he, hmsg, hlast'⟩ := hgood
  refine ⟨_, ⟨_, _, _, hret, drains_one hhead' he hlast', rfl⟩, fun _ => hbad, fun _ => ⟨e.msg, rfl, ?_⟩⟩
  rw [hmsg, hev]

/-! ## Runs -/

/-- A round that gives out a SEND message gives out that of a connected channel with an empty cache. -/
def Honest (p : Pass) (t : Sys ε) : Prop :=
  ∀ m d, p = .ret (some m) → t.heap m = some d → d.msg.event = some .send → d.state = .connected ∧ d.rwbSend = []

theorem honest_next : Honest (ε := ε) .next t := fun _ _ h => by cases h

theorem Docile.honest_emit (hx : Docile x) {event : ChannEvent} {q : Option ChannId} {err : Int} {p : Pass}
    (hno : event ≠ .send) (h : Returns (MNet.emit x n event q err) s p t) : Honest p t := by
  intro m d hp hd hev
  obtain ⟨rfl, c, _, rfl⟩ := hx.emit.mp h
  cases hp
  rw [setChann_self, Option.some.injEq] at hd
  subst hd
  exact absurd (Option.some.inj hev) hno

/-- The flush of the record, if it comes to one, does not fail on a socket while SEND events are on. -/
def Heeded (x : ExtTable ε) (u : Sys ε) (kev : Kev) : Prop :=
  ∀ n c, Flushes u kev n c → FlushFails x n u → ¬ (c.activeSendEvent = true ∧ 0 < c.fd)

/-- What a round makes of the queue and of the message it gives out. -/
def Fair (p : Pass) (s t : Sys ε) : Prop := Filed NotSend s → Filed NotSend t ∧ Honest p t

theorem Docile.fair_emit (hx : Docile x) {event : ChannEvent} {q : Option ChannId} {err : Int} {p : Pass}
    (hno : event ≠ .send) (h : Returns (MNet.emit x n event q err) s p t) : Fair p s t :=
  fun hf => ⟨hx.unsending_emit hno _ _ h hf, hx.honest_emit hno h⟩

theorem Fair.after {a : Sys ε} {p : Pass} (h : Fair p a t) (ha : Unsending s a) : Fair p s t := fun hf => h (ha hf)

theorem Unsending.next (h : Unsending s t) : Fair .next s t := fun hf => ⟨h hf, honest_next⟩

theorem releaseCache_discreet (n : ChannId) (s : Sys ε) : Within (Discreet False) (releaseCache n) s :=
  discreet_modifyChann fun _ => rfl

theorem Docile.unsending_channSendedLoopBy (hx : Docile x) {fuel : Nat} :
    Within Unsending (channSendedLoopBy x releaseCache n fuel) s := by
  induction fuel generalizing s with
  | zero => exact within_fail
  | succ fuel ih =>
    refine .deref_bind fun c _ => (Within.noSend (hx.tactful.channSend _)).bind fun r _ _ => .ite
      (fun _ => .bind (unsending_modifyChann fun _ => ⟨rfl, .inl rfl⟩) fun _ _ _ => .deref_bind fun _ _ => .ite
        (fun _ => ih) fun _ => within_pure ()) fun _ => .ite
      (fun _ => hx.unsending_channFailBy releaseCache_discreet) fun _ => within_pure ()

theorem Docile.unsending_channSendedRwbBy (hx : Docile x) : Within Unsending (channSendedRwbBy x releaseCache n) s :=
  .deref_bind fun _ _ => .ite (fun _ => within_pure _) fun _ => hx.unsending_channSendedLoopBy.bind fun _ _ _ =>
    .deref_bind fun _ _ => within_pure _

/-- A flush that reports all sent has not failed, or it tore the connection down. -/
theorem Docile.flush_cases (hx : Docile x) (hc : s.heap n = some c) (hne : c.rwbSend ≠ []) {sent : Bool}
    (h : Returns (channSendedRwbBy x releaseCache n) s sent t) : FlushFails x n s ∨
      (t.mnet = s.mnet ∧ ∃ d, t.heap n = some d ∧ d.carrier = c.carrier ∧ (sent = true → d.rwbSend = [])) := by
  have hmore : ¬ rwbCount c.rwbSend ≤ 0 := by
    have hpos : 0 < rwbCount c.rwbSend := List.length_pos_iff.mpr hne
    omega
  rw [channSendedRwbBy, (returns_deref.mpr ⟨hc, rfl⟩).bind_iff, if_neg hmore] at h
  simp only [returns_bind, returns_deref, returns_pure, and_assoc, exists_and_left, exists_eq_left] at h
  obtain ⟨_, a, hloop, d, hd, rfl, rfl⟩ := h
  obtain hfails | ⟨hmnet, e, he, hsame⟩ := hx.loop_cases hc hne hloop
  · exact .inl hfails
  · obtain rfl := Option.some.inj (hd.symm.trans he)
    refine .inr ⟨hmnet, d, hd, hsame, fun hsent => ?_⟩
    exact List.length_eq_zero_iff.mp (Nat.le_zero.mp (of_decide_eq_true hsent))

/-- The end of a flush is reported. -/
theorem Docile.fair_sent (hx : Docile x) {p : Pass} (hdis : s.mnet.disChanns = none) (hc : s.heap n = some c)
    (hst : c.state = .connected) (hempty : c.rwbSend = [])
    (h : Returns (MNet.emit x n .send none 0) s p t) : Fair p s t := by
  intro hf
  obtain ⟨rfl, d, hd, rfl⟩ := hx.emit.mp h
  obtain rfl := Option.some.inj (hc.symm.trans hd)
  refine ⟨.of_empty (hf.fresh.set hc _) hdis, fun m e hm he _ => ?_⟩
  cases hm
  rw [setChann_self, Option.some.injEq] at he
  subst he
  exact ⟨hst, hempty⟩

/-- After the flush of a record. -/
theorem Docile.fair_flush (hx : Docile x) {p : Pass} (hdis : s.mnet.disChanns = none) (hfl : Flushes s kev n c)
    (hheed : Heeded x s kev) (h : Returns (evtDispatchBy x releaseCache kev) s p t) : Fair p s t := by
  rw [hfl.dispatch] at h
  obtain ⟨sent, a, hflush, h⟩ := returns_bind.mp h
  have ha : Unsending s a := hx.unsending_channSendedRwbBy _ _ hflush
  have hmute : ∀ p, Returns (do
      let _ ← evtDel n .write
      return .next) a p t → Fair p s t := by
    intro p h
    obtain ⟨_, b, hdel, h⟩ := returns_bind.mp h
    obtain ⟨rfl, rfl⟩ := returns_pure.mp h
    exact (Unsending.next ((bland_evtDel (s := a) .write).unsending _ _ hdel)).after ha
  rcases returns_ite.mp h with ⟨hsent, h⟩ | ⟨_, h⟩
  swap
  · obtain ⟨rfl, rfl⟩ := returns_pure.mp h
    exact ha.next
  simp only [returns_bind, returns_deref, and_assoc, exists_and_left, exists_eq_left] at h
  obtain ⟨d, hd, h⟩ := h
  rcases returns_ite.mp h with ⟨hon, h⟩ | ⟨_, h⟩
  swap
  · exact hmute p h
  obtain hfails | ⟨hmnet, e, he, hsame, hempty⟩ := hx.flush_cases hfl.chann hfl.cached hflush
  · obtain ⟨a', d', hflush', hd', _, _, _, hflag⟩ := hx.flush_torn hfl hfails
    obtain ⟨hpos, rfl⟩ := Returns.det hflush hflush'
    obtain rfl := Option.some.inj (hd.symm.trans hd')
    rw [hpos] at hsent
    exact absurd ⟨hflag ▸ hon, of_decide_eq_true hsent⟩ (hheed n c hfl hfails)
  · obtain rfl := Option.some.inj (hd.symm.trans he)
    refine (hx.fair_sent ?_ hd ((congrArg (·.1) hsame).trans hfl.state) (hempty hsent) h).after ha
    rw [hmnet, hdis]

theorem Docile.fair_down (hx : Docile x) {p : Pass} {err : Int} (h : Returns (do
      let _ ← channDisconnectSocketBy releaseCache (opsOf x) n
      MNet.emit x n .disconnect none err) s p t) : Fair p s t := by
  obtain ⟨_, a, hdown, h⟩ := returns_bind.mp h
  exact (hx.fair_emit (by simp) h).after (hx.unsending_channDisconnectSocketBy releaseCache_discreet _ _ hdown)

theorem Docile.fair_listening (hx : Docile x) {p : Pass} {raw : Nat} (h : Returns (evtListening x n raw) s p t) :
    Fair p s t := by
  rcases returns_ite.mp h with ⟨_, h⟩ | ⟨_, h⟩
  swap
  · exact hx.fair_emit (by simp) h
  obtain ⟨q, a, haccept, h⟩ := returns_bind.mp h
  have ha : Unsending s a := Within.noSend hx.tactful.channAccept _ _ haccept
  cases q with
  | none =>
    obtain ⟨rfl, rfl⟩ := returns_pure.mp h
    exact ha.next
  | some m =>
    obtain ⟨_, b, hadd, h⟩ := returns_bind.mp h
    exact ((hx.fair_emit (by simp) h).after ((bland_evtAdd (s := a) .read).unsending _ _ hadd)).after ha

theorem Docile.fair_connecting (hx : Docile x) {p : Pass}
    (h : Returns (evtConnectingBy x releaseCache n) s p t) : Fair p s t := by
  simp only [evtConnectingBy, returns_bind, returns_deref, and_assoc, exists_and_left, exists_eq_left] at h
  obtain ⟨c, _, r, a, herr, h⟩ := h
  have ha : Unsending s a := (bland_sysSockError (s := s) c.fd).unsending _ _ herr
  rcases returns_ite.mp h with ⟨_, h⟩ | ⟨_, h⟩
  · refine Fair.after ?_ ha
    simp only [returns_bind] at h
    obtain ⟨_, b, hdel, _, d, hadd, _, e, hmod, h⟩ := h
    have hb : Unsending a b := (bland_evtDel (s := a) .write).unsending _ _ hdel
    have hd : Unsending b d := (bland_evtAdd (s := b) .read).unsending _ _ hadd
    have he : Unsending d e :=
      unsending_modifyChann (f := fun c => { c with state := .connected }) (fun _ => ⟨rfl, .inl rfl⟩) _ _ hmod
    exact (((hx.fair_emit (by simp) h).after he).after hd).after hb
  · exact (hx.fair_down h).after ha

/-- A record is handled. -/
theorem Docile.fair_dispatch (hx : Docile x) {p : Pass} (hdis : s.mnet.disChanns = none) (hheed : Heeded x s kev)
    (h : Returns (evtDispatchBy x releaseCache kev) s p t) : Fair p s t := by
  have hwhole := h
  simp only [evtDispatchBy, returns_bind, returns_require, returns_deref, and_assoc, exists_and_left,
    exists_eq_left] at h
  obtain ⟨n, hptr, c, hc, h⟩ := h
  rcases returns_ite.mp h with ⟨_, h⟩ | ⟨hlive, h⟩
  · obtain ⟨rfl, rfl⟩ := returns_pure.mp h
    exact (Std.Refl.refl _ : Unsending (ε := ε) _ _).next
  rcases returns_ite.mp h with ⟨_, h⟩ | ⟨hfine, h⟩
  · rcases returns_ite.mp h with ⟨_, h⟩ | ⟨_, h⟩
    · obtain ⟨err, a, herr, h⟩ := returns_bind.mp h
      exact (hx.fair_down h).after (bland_channGetErr.unsending _ _ herr)
    · exact hx.fair_down h
  cases hst : c.state with
  | closed => exact absurd (.inl hst) hlive
  | disconnect =>
    rw [hst] at h
    obtain ⟨rfl, rfl⟩ := returns_pure.mp h
    exact (Std.Refl.refl _ : Unsending (ε := ε) _ _).next
  | listening =>
    rw [hst] at h
    exact hx.fair_listening h
  | connecting =>
    rw [hst] at h
    exact hx.fair_connecting h
  | connected =>
    rw [hst] at h
    rcases returns_ite.mp h with ⟨_, h⟩ | ⟨hin, h⟩
    · exact hx.fair_emit (by simp) h
    rcases returns_ite.mp h with ⟨hout, h⟩ | ⟨_, h⟩
    swap
    · obtain ⟨rfl, rfl⟩ := returns_pure.mp h
      exact (Std.Refl.refl _ : Unsending (ε := ε) _ _).next
    by_cases hempty : c.rwbSend = []
    · -- nothing to flush
      have hsent : Returns (channSendedRwbBy x releaseCache n) s true s := by
        rw [channSendedRwbBy, (returns_deref.mpr ⟨hc, rfl⟩).bind_iff, if_pos (by rw [hempty]; exact Nat.le_refl 0)]
        exact returns_pure.mpr ⟨rfl, rfl⟩
      rw [hsent.bind_iff, if_pos rfl, (returns_deref.mpr ⟨hc, rfl⟩).bind_iff] at h
      rcases returns_ite.mp h with ⟨_, h⟩ | ⟨_, h⟩
      · exact hx.fair_sent hdis hc hst hempty h
      · obtain ⟨_, b, hdel, h⟩ := returns_bind.mp h
        obtain ⟨rfl, rfl⟩ := returns_pure.mp h
        exact Unsending.next ((bland_evtDel (s := s) .write).unsending _ _ hdel)
    · have hfd : 0 ≤ c.fd := Int.not_lt.mp fun hneg => hlive (.inr hneg)
      exact hx.fair_flush hdis ⟨hptr, hc, hst, hfd, hempty, not_not.mp hfine, not_not.mp hin, hout⟩ hheed hwhole

/-! ## The loop -/

/-- Timers have nothing to do with reports. -/
theorem Docile.tmNext (hx : Docile x) {fuel : Nat} {q : Option ChannId} (h : Returns (tmNext x fuel) s q t) :
    Unsending s t ∧ ∀ m, q = some m → ∃ d, t.heap m = some d ∧ d.msg.event = some .timer := by
  cases fuel with
  | zero => exact absurd h returns_fail
  | succ fuel =>
    obtain ⟨rfl, rfl, _⟩ | ⟨clock, node, _, _, _, ⟨rfl, _, rfl⟩ | ⟨_, a, pass, b, hup, hmsg, hnext⟩⟩ := tmNext_cases h
    · exact ⟨Std.Refl.refl t, fun m hm => by cases hm⟩
    · refine ⟨.of_heap rfl rfl rfl (List.suffix_refl _), fun m hm => ?_⟩
      cases hm
    have hset : Unsending s { s with mnet := { s.mnet with tmPos := some (skiplistNext clock node.id) } } :=
      .of_heap rfl rfl rfl (List.suffix_refl _)
    have hfired : Unsending _ a := (Within.noSend (discreet_tmUpdate _)) _ _ hup
    have hb : Unsending a b := hx.unsending_channMsg (by simp) _ _ hmsg
    obtain ⟨rfl, c, _, rfl⟩ := hx.channMsg.mp hmsg
    obtain ⟨_, rfl, rfl⟩ | ⟨hno, _⟩ := hnext
    · refine ⟨fun hf => hb (hfired (hset hf)), fun m hm => ?_⟩
      cases hm
      exact ⟨_, setChann_self .., rfl⟩
    · cases hno

/-- The rounds of a call that fetched records and gave out nothing. -/
abbrev RoundsBy (x : ExtTable ε) (fuel : Nat) : Sys ε → Sys ε → Prop :=
  Relation.ReflTransGen fun s t => Returns (evtPassBy x releaseCache fuel) s .next t

/-- The flushes of the call do not fail on a socket while SEND events are on. -/
def HeedsFlush (x : ExtTable ε) (s : Sys ε) : Call → Prop
  | .resultNext fuel => ∀ a u kev, RoundsBy x fuel s a → Fetches x fuel a u kev → Heeded x u kev
  | _ => True

theorem Docile.fair_pass (hx : Docile x) {fuel : Nat} {p : Pass}
    (hheed : ∀ u kev, Fetches x fuel s u kev → Heeded x u kev)
    (h : Returns (evtPassBy x releaseCache fuel) s p t) : Fair p s t := by
  intro hf
  obtain ⟨tm, a, htm, h⟩ := returns_bind.mp h
  obtain ⟨ha, htimer⟩ := hx.tmNext htm
  cases tm with
  | some n =>
    obtain ⟨rfl, rfl⟩ := returns_pure.mp h
    refine ⟨ha hf, fun m d hm hd hev => ?_⟩
    obtain ⟨e, he, hev'⟩ := htimer n rfl
    cases hm
    obtain rfl := Option.some.inj (hd.symm.trans he)
    rw [hev'] at hev
    cases hev
  | none =>
    simp only [returns_bind] at h
    obtain ⟨dis, b, hdis, h⟩ := h
    obtain ⟨hb, hgiven⟩ := (ha hf).pop hdis
    cases dis with
    | some n =>
      obtain ⟨rfl, rfl⟩ := returns_pure.mp h
      refine ⟨hb, fun m d hm hd hev => ?_⟩
      obtain ⟨e, he, hno⟩ := hgiven n rfl
      cases hm
      obtain rfl := Option.some.inj (hd.symm.trans he)
      exact absurd hev hno
    | none =>
      obtain ⟨_, hnone, rfl⟩ | ⟨n, hn, _⟩ := disNext_spec hdis
      swap
      · cases hn
      simp only [returns_bind, returns_modifyMnet, returns_readMnet] at h
      obtain ⟨_, _, rfl, ended, _, ⟨rfl, rfl⟩, h⟩ := h
      have hindex : Unsending b { b with mnet := { b.mnet with fdIndex := b.mnet.fdIndex + 1 } } :=
        .of_heap rfl rfl rfl (List.suffix_refl _)
      rcases returns_ite.mp h with ⟨_, h⟩ | ⟨hmore, h⟩
      · obtain ⟨rfl, rfl⟩ := returns_pure.mp h
        exact ⟨hindex hb, fun m d hm => by cases hm⟩
      · simp only [evtRecord, returns_bind, returns_readMnet] at h
        obtain ⟨kev, _, ⟨rfl, rfl⟩, h⟩ := h
        have hfetch : Fetches x fuel s { b with mnet := { b.mnet with fdIndex := b.mnet.fdIndex + 1 } } _ :=
          ⟨⟨b, htm, hnone, rfl⟩, by simpa using hmore, rfl⟩
        exact hx.fair_dispatch hfetch.queue (hheed _ _ hfetch) h (hindex hb)

theorem Docile.fair_loop (hx : Docile x) {fuel rounds : Nat} {q : Option ChannId}
    (hheed : ∀ a u kev, RoundsBy x fuel s a → Fetches x fuel a u kev → Heeded x u kev)
    (h : Returns (evtLoopBy x releaseCache fuel rounds) s q t) : Fair (.ret q) s t := by
  induction rounds generalizing s with
  | zero => exact absurd h returns_fail
  | succ rounds ih =>
    obtain ⟨p, a, hpass, h⟩ := returns_bind.mp h
    have hfair := hx.fair_pass (fun u kev hf => hheed s u kev .refl hf) hpass
    cases p with
    | ret q' =>
      obtain ⟨rfl, rfl⟩ := returns_pure.mp h
      exact hfair
    | next => exact (ih (fun b u kev hb hf => hheed b u kev (.head hpass hb) hf) h).after fun hf => (hfair hf).1

/-- A call of the library with the cache released at once. -/
def StepBy (x : ExtTable ε) (s : Sys ε) (i : Call × Ret) (t : Sys ε) : Prop :=
  Returns (apiCallBy x releaseCache i.1) s i.2 t

theorem Docile.fair_step (hx : Docile x) {i : Call × Ret} (h : StepBy x s i t) (hheed : HeedsFlush x s i.1)
    (hf : Filed NotSend s) : Filed NotSend t := by
  obtain ⟨call, r⟩ := i
  by_cases hloop : ∃ fuel, call = .resultNext fuel
  · obtain ⟨fuel, rfl⟩ := hloop
    obtain ⟨q, _, h⟩ := returns_ret.mp h
    exact (hx.fair_loop hheed h hf).1
  · exact hx.unsending_apiCallBy releaseCache_discreet (fun fuel he => hloop ⟨fuel, he⟩) _ _ h hf

/-! ## The built-in types -/

/-- The channels and the library are as they were. -/
def Spares (s t : Sys ε) : Prop := t.heap = s.heap ∧ t.mnet = s.mnet

instance : Std.Refl (Spares (ε := ε)) := ⟨fun _ => ⟨rfl, rfl⟩⟩

instance : IsTrans (Sys ε) Spares := ⟨fun _ _ _ h h' => ⟨h'.1.trans h.1, h'.2.trans h.2⟩⟩

theorem spares_modifyKernel {f : Kernel → Kernel} : Within Spares (modifyKernel f) s := by
  intro _ t h
  rw [returns_modifyKernel] at h
  subst h
  exact ⟨rfl, rfl⟩

theorem spares_record (e : SysEvent) : Within Spares (record e) s := by
  intro _ t h
  rw [returns_record] at h
  subst h
  exact ⟨rfl, rfl⟩

theorem spares_sysRet : Within Spares (sysRet) s := outside_sysRet.mono fun _ h => ⟨h.heap, h.mnet⟩

theorem spares_wouldBlock (r : Int) : Within Spares (wouldBlock r) s := .read_bind <| within_pure _

theorem spares_sendFn (ctype : Nat) (data : List UInt8) :
    Within Spares ((internalExt ctype : Ext ε).sendFn n data) s := by
  show Within Spares ((if ctype = CHANN_TYPE_STREAM then extStreamSend else extDgramSend) n data) s
  split
  · exact .deref_bind fun _ _ => Within.bind (.bind spares_sysRet fun _ _ _ => .bind spares_modifyKernel fun _ _ _ =>
      (spares_record _).bind fun _ _ _ => within_pure _) fun _ _ _ => spares_wouldBlock _
  · exact .deref_bind fun _ _ => Within.bind (.bind spares_sysRet fun _ _ _ => (spares_record _).bind fun _ _ _ =>
      within_pure _) fun _ _ _ => spares_wouldBlock _

theorem docile_noExt : Docile noExt where
  tactful := {
    cb ctype op n s := by
      rw [extConfig_noExt, internalExt_cb]
      exact within_pure ()
    recvFn ctype n len s := by
      rw [extConfig_noExt]
      exact (bland_internal_recvFn ctype len).discreet
    sendFn ctype n data s := by
      rw [extConfig_noExt]
      exact (bland_internal_sendFn ctype data).discreet }
  disconnectCb ctype n s := by
    rw [extConfig_noExt]
    exact ⟨s, returns_pure.mpr ⟨rfl, rfl⟩, rfl, rfl⟩
  sendFn ctype n data s r t h := by
    rw [extConfig_noExt] at h
    exact spares_sendFn ctype data r t h
  filterFn ctype n s := by
    rw [extConfig_noExt]
    exact returns_pure.mpr ⟨rfl, rfl⟩

/-! ## A flush that fails -/

/-- The computation returns, and its result and the state it leaves are as `P` says. -/
def Leads {α : Type} (m : M ε α) (s : Sys ε) (P : α → Sys ε → Prop) : Prop := ∃ r t, Returns m s r t ∧ P r t

instance {α : Type} {m : M ε α} {P : α → Sys ε → Prop} [∀ r t, Decidable (P r t)] : Decidable (Leads m s P) :=
  match h : m s with
  | .ok (r, t) => decidable_of_iff (P r t)
    ⟨fun hp => ⟨r, t, h, hp⟩, fun ⟨_, _, h', hp⟩ => by
      obtain ⟨rfl, rfl⟩ := Returns.det h h'
      exact hp⟩
  | .error _ => isFalse fun ⟨_, _, h', _⟩ => by
      rw [Returns, h] at h'
      cases h'

def runBy (x : ExtTable ε) : List Call → M ε Unit
  | [] => pure ()
  | c :: cs => do
    let _ ← apiCallBy x releaseCache c
    runBy x cs

theorem path_of_runBy {cs : List Call} (h : Returns (runBy x cs) s u t) : ∃ l, Path (StepBy x) s l t := by
  induction cs generalizing s with
  | nil =>
    obtain ⟨_, rfl⟩ := returns_pure.mp h
    exact ⟨[], .nil⟩
  | cons c cs ih =>
    obtain ⟨r, a, hc, h⟩ := returns_bind.mp h
    obtain ⟨l, hl⟩ := ih h
    exact ⟨(c, r) :: l, .cons hc hl⟩

/-- The first byte has to wait, and then there is no one to read it. -/
def brokenOracle (first broken : Nat) : Oracle :=
  { quietOracle with
    ret := fun tick => if tick = first ∨ tick = broken then -1 else tick + 3
    err := fun tick => if tick = broken then 32 else EWOULDBLOCK
    events := fun _ => [(4, EPOLLOUT)] }

def brokenCalls (on : Int) : List Call :=
  [.mnetInit, .channOpen 1, .channConnect (some 0) (some 0) 80, .poll, .resultNext 5, .resultNext 5,
    .channActiveEvent (some 0) .send on, .channSend (some 0) (some [1]), .poll]

/-- Comes to a record whose flush fails. -/
structure Breaks (on : Bool) (u : Sys Unit) (kev : Kev) (c : Chann) : Prop where
  fetched : ∃ o l s fuel, Path (StepBy noExt) (Sys.start o ()) l s ∧ Fetches noExt fuel s u kev
  flushes : Flushes u kev 0 c
  dis : u.mnet.disChanns = none
  fails : FlushFails noExt 0 u
  flag : c.activeSendEvent = on
  opened : 0 < c.fd

/-- What the flush has to do with: the record, the channel and the next record of the batch. -/
abbrev AtFlush (on : Bool) (s : Sys Unit) : Prop :=
  (s.mnet.tmPos = none ∧ s.mnet.disChanns = none ∧ s.mnet.fdIndex = -1 ∧ s.mnet.fdCount = 1) ∧
    s.mnet.evtArray = [⟨EPOLLOUT, some 0, some 0⟩] ∧
      (s.heap 0).map (fun c => (c.state, c.fd, c.rwbSend, c.activeSendEvent)) = some (.connected, 4, [rwbNew [1]], on)

theorem breaks (on : Bool) (value : Int) (first broken : Nat)
    (h : Leads (runBy noExt (brokenCalls value)) (Sys.start (brokenOracle first broken) ()) fun _ s => AtFlush on s ∧
      Leads (channSend noExt 0 [1]) { s with mnet := { s.mnet with fdIndex := s.mnet.fdIndex + 1 } } fun r _ => r < 0) :
    ∃ u kev c, Breaks on u kev c := by
  obtain ⟨_, s, hrun, ⟨⟨hpos, hdis, hidx, hcount⟩, hevts, hchann⟩, r, t, hsend, hneg⟩ := h
  obtain ⟨l, hl⟩ := path_of_runBy hrun
  obtain ⟨c, hc, hvals⟩ := Option.map_eq_some_iff.mp hchann
  obtain ⟨hst, hfd, hcache, hflag⟩ : c.state = .connected ∧ c.fd = 4 ∧ c.rwbSend = [rwbNew [1]] ∧
      c.activeSendEvent = on := by simpa using hvals
  have hkev : s.mnet.evtArray.getD (s.mnet.fdIndex + 1).toNat {} = ⟨EPOLLOUT, some 0, some 0⟩ := by
    rw [hidx, hevts]
    rfl
  refine ⟨_, _, c, ⟨_, l, s, 1, hl, fetches_idle hpos hdis (by rw [hidx, hcount]; decide)⟩, ?_, hdis, ?_, hflag, ?_⟩
  · rw [hkev]
    exact ⟨rfl, hc, hst, by rw [hfd]; decide, by rw [hcache]; simp, by decide, by decide, by decide⟩
  · have hdata : rwbDrainParam c.rwbSend = [1] := by
      rw [hcache]
      rfl
    exact .now (a := t) hc (by rw [hcache]; simp) (hdata ▸ hsend) hneg
  · rw [hfd]
    decide

/-- With the cache released at once: one message comes of a failed flush, and it is the disconnect,
exactly if SEND events are off or there was no socket to close; and while no flush fails otherwise,
every SEND message that is given out is that of a connected channel with an empty cache. -/
theorem failed_flush_told (hx : Docile x) :
    (∀ s kev n c, Flushes s kev n c → s.mnet.disChanns = none → FlushFails x n s → ∃ l, Messages x s kev l ∧
      ((∃ msg, l = [(n, msg)] ∧ msg.event = some .disconnect) ↔ ¬ (c.activeSendEvent = true ∧ 0 < c.fd))) ∧
    ∀ o e l s t fuel p c, Path (fun s i t => StepBy x s i t ∧ HeedsFlush x s i.1) (Sys.start o e) l s →
      HeedsFlush x s (.resultNext fuel) → StepBy x s (.resultNext fuel, .msg (some p)) t → t.heap p = some c →
        c.msg.event = some .send → c.state = .connected ∧ c.rwbSend = [] := by
  refine ⟨fun s kev n c hfl hdis hfails => hx.failed_flush hfl hdis hfails, ?_⟩
  intro o e l s t fuel p c hrun hheed hstep hc hev
  have hs : Filed NotSend s := Path.keeps hrun (fun _ _ _ hi hf => hx.fair_step hi.1 hi.2 hf)
    (.of_empty (fun _ _ => rfl) rfl)
  obtain ⟨q, hq, h⟩ := returns_ret.mp hstep
  cases hq
  exact (hx.fair_loop hheed h hs).2 p c rfl hc hev

set_option synthInstance.maxSize 1000 in
/-- Without SEND events a failed flush is reported once. -/
theorem failed_flush_told_off : ∃ (u : Sys Unit) (kev : Kev) (c : Chann), Breaks false u kev c ∧
    ∃ l msg, Messages noExt u kev l ∧ l = [(0, msg)] ∧ msg.event = some .disconnect := by
  obtain ⟨u, kev, c, h⟩ := breaks false 0 14 17 (by decide +kernel)
  obtain ⟨l, hl, hiff⟩ := (failed_flush_told docile_noExt).1 u kev 0 c h.flushes h.dis h.fails
  obtain ⟨msg, hmsg, hev⟩ := hiff.mpr fun ⟨hon, _⟩ => by rw [h.flag] at hon; cases hon
  exact ⟨u, kev, c, h, l, msg, hl, hmsg, hev⟩

set_option synthInstance.maxSize 1000 in
/-- With SEND events it is not. -/
theorem not_failed_flush_told : ∃ (u : Sys Unit) (kev : Kev) (c : Chann), Breaks true u kev c ∧
    ∃ l, Messages noExt u kev l ∧ ¬ ∃ msg, l = [(0, msg)] ∧ msg.event = some .disconnect := by
  obtain ⟨u, kev, c, h⟩ := breaks true 1 15 18 (by decide +kernel)
  obtain ⟨l, hl, hiff⟩ := docile_noExt.failed_flush h.flushes h.dis h.fails
  exact ⟨u, kev, c, h, l, hl, fun hone => hiff.mp hone ⟨h.flag, h.opened⟩⟩

end MNet
