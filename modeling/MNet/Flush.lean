import MNet.Core.Progress
import MNet.Moves.Api

/-! # Writable events

A channel may hold cached data when it is CONNECTED, or LISTENING and a datagram channel.
`_evt_result_next` flushes the cache in one of the cases only: a record of a CONNECTED channel
that does not tell of received data. -/

namespace MNet
open MNet.Lib MNet.Lib.Exec

variable {ε : Type} {x : ExtTable ε} {s t u : Sys ε} {n : ChannId} {c : Chann} {kev : Kev}

/-- `mnet_chann_send` can cache data for the channel. -/
def CanCache (x : ExtTable ε) (c : Chann) : Prop :=
  c.state = .connected ∨
    (c.state = .listening ∧ (extConfig x c.ctype).typeFn c.ctype ≠ CHANN_TYPE_STREAM)

/-- A record that tells of room to write, for a channel with data to write. -/
structure Writable (x : ExtTable ε) (s : Sys ε) (kev : Kev) (n : ChannId) (c : Chann) : Prop where
  ptr : kev.ptr = some n
  chann : s.heap n = some c
  caches : CanCache x c
  cached : c.rwbSend ≠ []
  out : kev.events &&& EPOLLOUT ≠ 0
  fine : kev.events &&& (EPOLLERR ||| (EPOLLRDHUP ||| EPOLLHUP)) = 0

/-- Sending the head block is part of what handling the record does. -/
def HeadSent (x : ExtTable ε) (s : Sys ε) (kev : Kev) (n : ChannId) (c : Chann) : Prop :=
  ∃ r a, Returns (channSend x n (rwbDrainParam c.rwbSend)) s r a ∧
    ∀ p t, Returns (evtDispatch x kev) s p t → a.kernel.trace <:+ t.kernel.trace

def SysEvent.isSendFn : SysEvent → Bool
  | .sendFn .. => true
  | _ => false

/-- What is added to the history is no `send_fn`. -/
abbrev NoSend (s t : Sys ε) : Prop := Adds (fun e => e.isSendFn = false) s t

/-- The callbacks of registered types return, and what they add to the history is no call of
a `send_fn` by the library. -/
structure Answering (x : ExtTable ε) : Prop where
  sendFn : ∀ ctype n data s, s.heap n ≠ none → Terminates ((x ctype).sendFn n data) s
  filterFn : ∀ ctype n s, s.heap n ≠ none → Terminates ((x ctype).filterFn n) s
  sends : ∀ ctype n data s, Within NoSend ((x ctype).sendFn n data) s
  filters : ∀ ctype n s, Within NoSend ((x ctype).filterFn n) s
  disconnects : ∀ ctype n s, Within NoSend ((x ctype).disconnectCb n) s

instance {P : SysEvent → Prop} : Std.Refl (Adds P (ε := ε)) := ⟨fun _ => adds_of_eq rfl⟩

instance {P : SysEvent → Prop} : IsTrans (Sys ε) (Adds P) := ⟨fun _ _ _ => Adds.trans⟩

theorem Plain.noSend (h : Plain s t) : NoSend s t :=
  h.trace.mono fun e he => by cases e <;> first | rfl | exact he.elim

theorem Outside.noSend (h : Outside s t) : NoSend s t := h.plain.noSend

theorem noSend_record {e : SysEvent} (he : e.isSendFn = false) : Within NoSend (record e) s := by
  intro _ t h
  rw [returns_record] at h
  subst h
  exact adds_recorded he

theorem noSend_sysRet : Within NoSend (sysRet) s := outside_sysRet.mono fun _ => Outside.noSend

/-! ## What the callbacks add -/

theorem noSend_internal (ctype : Nat) (data : List UInt8) :
    Within NoSend ((internalExt ctype : Ext ε).sendFn n data) s :=
  (wired_internal_sendFn ctype data).mono fun _ h => h.trace.mono fun e he => by
    cases e <;> first | rfl | exact he.elim

section

variable (hx : Answering x)
include hx

theorem noSend_filterFn (ctype : Nat) : Within NoSend ((extConfig x ctype).filterFn n) s := by
  unfold extConfig
  split
  · exact within_pure true
  · exact hx.filters ctype n s

theorem noSend_disconnectCb (ctype : Nat) :
    Within NoSend ((opsConfig (opsOf x) ctype).disconnectCb n) s := by
  unfold opsConfig
  split
  · exact within_pure ()
  · exact hx.disconnects ctype n s

theorem noSend_sendFn (ctype : Nat) (data : List UInt8) :
    Within NoSend ((extConfig x ctype).sendFn n data) s := by
  unfold extConfig
  split
  · exact noSend_internal ctype data
  · exact hx.sends ctype n data s

theorem noSend_channMsg {event : ChannEvent} {r : Option ChannId} {err : Int} :
    Within NoSend (channMsg x n event r err) s := by
  refine .bind (fun _ t h => ?_) fun _ _ _ => .deref_bind fun _ _ => noSend_filterFn hx _
  obtain ⟨_, _, rfl⟩ := returns_modifyChann.mp h
  exact adds_of_eq rfl

theorem noSend_disconnect : Within NoSend (channDisconnectSocket (opsOf x) n) s := by
  have hwrite : ∀ (f : Chann → Chann) (s : Sys ε), Within NoSend (modifyChann n f) s := by
    intro f s _ t h
    obtain ⟨_, _, rfl⟩ := returns_modifyChann.mp h
    exact adds_of_eq rfl
  have hclose : ∀ fd (s : Sys ε), Within NoSend (sysClose fd) s := fun fd _ =>
    .bind noSend_sysRet fun _ _ _ => .bind (fun _ t h => by
      rw [returns_modifyKernel] at h
      subst h
      exact adds_of_eq rfl) fun _ _ _ => noSend_record rfl
  have hdestroy : ∀ s : Sys ε, Within NoSend (destroyCache n) s := fun _ =>
    .deref_bind fun _ _ => .require_bind fun _ _ => hwrite _ _
  refine .deref_bind fun c _ => .ite (fun _ => ?_) fun _ => within_pure _
  refine .bind (.bind (noSend_record rfl) fun _ _ _ => noSend_disconnectCb hx _) fun _ _ _ =>
    .deref_bind fun _ _ => .bind (hclose _ _) fun _ _ _ => .bind (hdestroy _) fun _ _ _ =>
      .bind (hwrite _ _) fun _ _ _ => within_pure _

/-- Handing data over is one more event of the history. -/
theorem channSend_sends {data : List UInt8} {r : Int} (h : Returns (channSend x n data) s r t) :
    ∃ a, NoSend s a ∧ t.kernel.trace = .sendFn n data r :: a.kernel.trace := by
  simp only [channSend, returns_bind, returns_deref, returns_record, and_assoc, exists_and_left,
    exists_eq_left] at h
  obtain ⟨c, _, q, a, hsend, _, h⟩ := h
  refine ⟨a, noSend_sendFn hx _ _ _ _ hsend, ?_⟩
  rcases returns_ite.mp h with ⟨_, h⟩ | ⟨_, h⟩
  · simp only [returns_bind, returns_modifyChann, returns_pure] at h
    obtain ⟨_, _, ⟨_, _, rfl⟩, rfl, rfl⟩ := h
    rfl
  · obtain ⟨rfl, rfl⟩ := returns_pure.mp h
    rfl

/-- Flushing, waiting and reporting only add to the history. -/
theorem Move.grows {d : Deed} (h : Move x s d t)
    (hd : d ∈ flushDeeds n ∨ d = .ctl n ∨ ∃ event, d = .message n event) :
    s.kernel.trace <:+ t.kernel.trace := by
  cases h with
  | plain ht => exact ht.trace.suffix
  | cache hc => exact List.suffix_rfl
  | ctl ht =>
    obtain ⟨_, _, hctl, _⟩ := evtCtl_cases ht
    exact hctl.trace.suffix
  | message _ ht => exact (noSend_channMsg hx _ _ ht).suffix
  | disconnect ht => exact (noSend_disconnect hx _ _ ht).suffix
  | send ht =>
    obtain ⟨a, ha, ht⟩ := channSend_sends hx ht
    rw [ht]
    exact ha.suffix.trans (List.suffix_cons _ _)
  | _ => simp [flushDeeds, failDeeds] at hd

end

/-! ## The flush -/

/-- What happens after the first block of a flush was handed over. -/
theorem channSendedRwb_head {sent : Bool} (hc : s.heap n = some c) (hne : c.rwbSend ≠ [])
    (h : Returns (channSendedRwb x n) s sent t) :
    ∃ r a, Returns (channSend x n (rwbDrainParam c.rwbSend)) s r a ∧ Moves x (flushDeeds n) a t := by
  have hcount : ¬ rwbCount c.rwbSend ≤ 0 := fun h => hne (List.length_eq_zero_iff.mp (Nat.le_zero.mp h))
  rw [channSendedRwb, (returns_deref.mpr ⟨hc, rfl⟩).bind_iff, if_neg hcount] at h
  simp only [returns_bind, returns_deref, returns_pure, and_assoc, exists_and_left,
    exists_eq_left] at h
  obtain ⟨_, b, hloop, _, _, _, rfl⟩ := h
  cases hfuel : rwbCount c.rwbSend with
  | zero => exact absurd (Nat.le_of_eq hfuel) hcount
  | succ fuel =>
    rw [hfuel, channSendedLoop, (returns_deref.mpr ⟨hc, rfl⟩).bind_iff] at hloop
    obtain ⟨r, a, hsend, hrest⟩ := returns_bind.mp hloop
    refine ⟨r, a, hsend, Within.ite (fun _ => ?_) (fun _ => .ite (fun _ => ?_) fun _ => within_pure ()) _ _ hrest⟩
    · exact .bind (moves_cache (.inr (.inr rfl))) fun _ _ _ => .deref_bind fun _ _ =>
        .ite (fun _ => moves_channSendedLoop fun _ hd => hd) fun _ => within_pure ()
    · exact moves_channFail fun _ hd => .inl hd

/-- A record without error flags goes by the state of its channel. -/
theorem evtDispatch_fine {p : Pass} (hptr : kev.ptr = some n) (hc : s.heap n = some c)
    (hopen : c.state ≠ .closed) (hfd : 0 ≤ c.fd)
    (hfine : kev.events &&& (EPOLLERR ||| (EPOLLRDHUP ||| EPOLLHUP)) = 0) :
    Returns (evtDispatch x kev) s p t ↔ Returns (match c.state with
      | .listening => evtListening x n ((extConfig x c.ctype).typeFn c.ctype)
      | .connecting => evtConnecting x n
      | .connected => evtConnected x n kev
      | _ => pure .next) s p t := by
  have hreq : Returns (Exec.require Fault.nullDeref kev.ptr) s n s := by rw [hptr]; rfl
  have hgo : ¬ (c.state = .closed ∨ c.fd < 0) := not_or.mpr ⟨hopen, by omega⟩
  rw [evtDispatch, hreq.bind_iff, (returns_deref.mpr ⟨hc, rfl⟩).bind_iff, if_neg hgo]
  exact iff_of_eq (congrArg (fun m => Returns m s p t) (if_neg (not_not.mpr hfine)))

theorem Writable.dispatch (hb : Base s.core) (h : Writable x s kev n c) (p : Pass) (t : Sys ε) :
    Returns (evtDispatch x kev) s p t ↔ Returns (match c.state with
      | .listening => evtListening x n ((extConfig x c.ctype).typeFn c.ctype)
      | .connecting => evtConnecting x n
      | .connected => evtConnected x n kev
      | _ => pure .next) s p t := by
  have hact : c.state.active := by
    obtain hst | ⟨hst, _⟩ := h.caches <;> rw [hst] <;> trivial
  have hfd : 0 < c.fd := (hb.own.opened n c.core (core_heap_some h.chann) hact).1
  exact evtDispatch_fine h.ptr h.chann hact.ne_closed (by omega) h.fine

/-! ## What handling a record comes to -/

theorem halts_extSend (ctype : Nat) {d : CChann} (hn : s.core.heap n = some d) (data : List UInt8) :
    Terminates ((internalExt ctype : Ext ε).sendFn n data) s := by
  have hblock : ∀ r : Int, Halts (wouldBlock r : M ε Int) := fun _ =>
    (halts_read _).bind fun _ => halts_pure _
  unfold internalExt
  dsimp only
  split
  · exact (terminates_deref hn).bind fun _ _ _ => (Halts.bind halts_sysRet fun _ => (halts_modify _).bind
      fun _ => (halts_record _).bind fun _ => halts_pure _).bind hblock _
  · exact (terminates_deref hn).bind fun _ _ _ => (Halts.bind halts_sysRet fun _ => (halts_record _).bind
      fun _ => halts_pure _).bind hblock _

theorem channSend_terminates (hx : Tame x) (ha : Answering x) (hc : s.heap n = some c)
    (data : List UInt8) : Terminates (channSend x n data) s := by
  refine (terminates_deref (core_heap_some hc)).bind fun d a hd => ?_
  obtain ⟨hd, rfl⟩ := returns_deref.mp hd
  have hsend : Terminates ((extConfig x d.ctype).sendFn n data) a := by
    unfold extConfig
    split
    · exact halts_extSend _ (core_heap_some hd) data
    · exact ha.sendFn _ _ _ _ (by simp [hd])
  refine hsend.bind fun r b hb => (halts_record _ b).bind fun _ e hrec =>
    .ite (fun _ => ?_) fun _ => halts_pure _ _
  have he : e.core.heap n = some d.core := by
    rw [core_record hrec trivial, (sendFn_spec hx hd hb).2, Core.onWire_heap, core_heap_some hd]
  exact (terminates_modifyChann he _).bind fun _ _ _ => halts_pure _ _

/-- A RECV message is made without handing anything over. -/
theorem emit_recv (ha : Answering x) (hc : s.heap n = some c) :
    ∃ p t, Returns (emit x n .recv none 0) s p t ∧ NoSend s t := by
  have hfilter : ∀ ctype (a : Sys ε), a.heap n ≠ none →
      Terminates ((extConfig x ctype).filterFn n) a := by
    intro ctype a hn
    unfold extConfig
    split
    · exact halts_pure true a
    · exact ha.filterFn ctype n a hn
  obtain ⟨pass, t, hmsg⟩ : Terminates (channMsg x n .recv none 0) s := by
    refine (terminates_modifyChann (core_heap_some hc) _).bind fun _ a hmod => ?_
    obtain ⟨d, _, rfl⟩ := returns_modifyChann.mp hmod
    refine (terminates_deref (core_heap_some (Function.update_self ..))).bind fun e b hderef => ?_
    obtain ⟨he, rfl⟩ := returns_deref.mp hderef
    exact hfilter _ _ fun hno => by
      rw [hno] at he
      cases he
  exact ⟨_, t, returns_bind.mpr ⟨pass, t, hmsg, rfl⟩, noSend_channMsg ha _ _ hmsg⟩

/-- Handing data over cannot be part of what hands nothing over. -/
theorem not_suffix_of_noSend (ha : Answering x) {data : List UInt8} {r : Int} {a : Sys ε}
    (hsend : Returns (channSend x n data) s r a) (ht : NoSend s t) :
    ¬ a.kernel.trace <:+ t.kernel.trace := by
  intro hsuffix
  have hnone : ∀ {s t : Sys ε}, NoSend s t →
      t.kernel.trace.countP SysEvent.isSendFn = s.kernel.trace.countP SysEvent.isSendFn := by
    intro s t ⟨l, hl, he⟩
    rw [he, List.countP_append, List.countP_eq_zero.mpr fun e hm => by simp [hl e hm], Nat.zero_add]
  obtain ⟨b, hb, hab⟩ := channSend_sends ha hsend
  have hle := hsuffix.sublist.countP_le (p := SysEvent.isSendFn)
  rw [hab, List.countP_cons_of_pos rfl, hnone hb, hnone ht] at hle
  omega

theorem answering_noExt : Answering noExt where
  sendFn ctype _ data _ hn := by
    obtain ⟨c, hc⟩ := Option.ne_none_iff_exists'.mp hn
    exact halts_extSend ctype (core_heap_some hc) data
  filterFn _ _ _ _ := halts_pure true _
  sends ctype n data s := noSend_internal ctype data
  filters _ _ _ := within_pure true
  disconnects _ _ _ := within_pure ()

/-- An environment in which descriptor 4 is ready for `flags` once its socket has turned a byte
away. -/
def readyOracle (flags : BitVec 32) : Oracle :=
  { quietOracle with
    ret := fun tick => if tick = 14 then -1 else tick + 3
    err := fun _ => EWOULDBLOCK
    events := fun tick => if tick < 14 then [(4, EPOLLOUT)] else [(4, flags)] }

def readyCalls : List Call :=
  [.mnetInit, .channOpen 1, .channConnect (some 0) (some 0) 80, .poll, .resultNext 5, .resultNext 5,
    .channSend (some 0) (some [1]), .poll]

/-- A connected channel with a cached byte and a record for it. -/
structure ReadyRun (flags : BitVec 32) (s : Sys Unit) : Prop where
  reachable : Reachable noExt s
  pos : s.mnet.tmPos = none
  dis : s.mnet.disChanns = none
  idx : s.mnet.fdIndex = -1
  count : s.mnet.fdCount = 1
  evts : s.mnet.evtArray = [⟨flags, some 0, some 0⟩]
  chann : (s.heap 0).map (fun c => (c.state, c.rwbSend)) = some (.connected, [rwbNew [1]])

/-- Such a record is about to be handled. -/
theorem ReadyRun.record {flags : BitVec 32} {s : Sys Unit} (h : ReadyRun flags s)
    (hout : flags &&& EPOLLOUT ≠ 0)
    (hfine : flags &&& (EPOLLERR ||| (EPOLLRDHUP ||| EPOLLHUP)) = 0) :
    ∃ u c, AtRecord noExt u ⟨flags, some 0, some 0⟩ ∧
      Writable noExt u ⟨flags, some 0, some 0⟩ 0 c ∧ c.state = .connected := by
  obtain ⟨c, hc, hvals⟩ := Option.map_eq_some_iff.mp h.chann
  obtain ⟨hst, hcache⟩ : c.state = .connected ∧ c.rwbSend = [rwbNew [1]] := by simpa using hvals
  refine ⟨_, c, ⟨s, 5, .call h.reachable, ⟨s, tmNext_none h.pos 4, h.dis, rfl⟩, ?_, ?_⟩,
    ⟨rfl, hc, .inl hst, by rw [hcache]; simp, hout, hfine⟩, hst⟩
  · simp [h.idx, h.count]
  · simp [h.idx, h.evts]

theorem readyRun {flags : BitVec 32}
    (h : After noExt readyCalls (Sys.start (readyOracle flags) ()) fun _ s =>
      s.mnet.tmPos = none ∧ s.mnet.disChanns = none ∧ s.mnet.fdIndex = -1 ∧ s.mnet.fdCount = 1 ∧
        s.mnet.evtArray = [⟨flags, some 0, some 0⟩] ∧
        (s.heap 0).map (fun c => (c.state, c.rwbSend)) = some (.connected, [rwbNew [1]])) :
    ∃ s, ReadyRun flags s := by
  obtain ⟨_, s, hs, hpos, hdis, hidx, hcount, hevts, hchann⟩ := h.run
  exact ⟨s, ⟨_, _, _, hs⟩, hpos, hdis, hidx, hcount, hevts, hchann⟩

end MNet
