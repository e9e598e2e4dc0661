import MNet.Bland
import MNet.Moves.Spec

/-! # What no message notices

Most of the library leaves alone what the message loop gives out: the message slots, the user
pointers and the queue of reports. A type is tactful when its callbacks do so, its filter apart. -/

namespace MNet
open MNet.Lib MNet.Lib.Exec

variable {ε : Type} {gone : Prop} {x : ExtTable ε} {s t : Sys ε} {n : ChannId} {c d : Chann}

/-- The message, what the next one takes from the channel, and the place in the queue. -/
def Chann.shown (c : Chann) : ChannMsg × Nat × Option ChannId := (c.msg, c.opaquePtr, c.disNext)

/-- Channels keep what they show. They may be freed if `gone` allows it. -/
structure Discreet (gone : Prop) (s t : Sys ε) : Prop where
  shown : ∀ n < s.nextChann,
    (t.heap n).map Chann.shown = (s.heap n).map Chann.shown ∨ (gone ∧ t.heap n = none)
  nextChann : s.nextChann ≤ t.nextChann
  fresh : Fresh s → Fresh t
  disChanns : t.mnet.disChanns = s.mnet.disChanns
  trace : s.kernel.trace <:+ t.kernel.trace

namespace Discreet

theorem refl (s : Sys ε) : Discreet gone s s := ⟨fun _ _ => .inl rfl, Nat.le_refl _, id, rfl, List.suffix_refl _⟩

theorem trans {a : Sys ε} (h : Discreet gone s a) (h' : Discreet gone a t) : Discreet gone s t where
  shown n hn := by
    rcases h'.shown n (Nat.lt_of_lt_of_le hn h.nextChann) with hn' | hn'
    · rcases h.shown n hn with hs | ⟨hg, hs⟩
      · exact .inl (hn'.trans hs)
      · rw [hs, Option.map_none, Option.map_eq_none_iff] at hn'
        exact .inr ⟨hg, hn'⟩
    · exact .inr hn'
  nextChann := Nat.le_trans h.nextChann h'.nextChann
  fresh := h'.fresh ∘ h.fresh
  disChanns := h'.disChanns.trans h.disChanns
  trace := h.trace.trans h'.trace

theorem mono (h : Discreet False s t) : Discreet gone s t :=
  { h with shown := fun n hn => .inl ((h.shown n hn).resolve_right fun hg => hg.1) }

/-- The channels are the same. -/
theorem of_heap (hheap : t.heap = s.heap) (hnext : t.nextChann = s.nextChann)
    (hdis : t.mnet.disChanns = s.mnet.disChanns) (htrace : s.kernel.trace <:+ t.kernel.trace) :
    Discreet gone s t where
  shown n _ := .inl (by rw [hheap])
  nextChann := Nat.le_of_eq hnext.symm
  fresh hs n hn := by
    rw [hheap]
    exact hs n (hnext ▸ hn)
  disChanns := hdis
  trace := htrace

/-- The channels show the same. -/
theorem of_map {g : Chann → Chann} (hg : ∀ c, (g c).shown = c.shown)
    (hheap : ∀ m, (t.heap m).map g = (s.heap m).map g) (hnext : t.nextChann = s.nextChann)
    (hdis : t.mnet.disChanns = s.mnet.disChanns) (htrace : s.kernel.trace <:+ t.kernel.trace) :
    Discreet gone s t where
  shown n _ := by
    have hn := congrArg (Option.map Chann.shown) (hheap n)
    rw [Option.map_map, Option.map_map, show Chann.shown ∘ g = Chann.shown from funext hg] at hn
    exact .inl hn
  nextChann := Nat.le_of_eq hnext.symm
  fresh hs n hn := by
    have hm := hheap n
    rw [hs n (hnext ▸ hn), Option.map_none, Option.map_eq_none_iff] at hm
    exact hm
  disChanns := hdis
  trace := htrace

/-- One channel is written to. -/
theorem of_update (hc : s.heap n = some c) (hd : d.shown = c.shown)
    (hheap : t.heap = Function.update s.heap n (some d)) (hnext : t.nextChann = s.nextChann)
    (hdis : t.mnet.disChanns = s.mnet.disChanns) (htrace : s.kernel.trace <:+ t.kernel.trace) :
    Discreet gone s t where
  shown m _ := by
    rw [hheap]
    by_cases hm : m = n
    · rw [hm, hc, Function.update_self, Option.map_some, Option.map_some, hd]
      exact .inl rfl
    · rw [Function.update_of_ne hm]
      exact .inl rfl
  nextChann := Nat.le_of_eq hnext.symm
  fresh hs := hs.update hc hheap hnext
  disChanns := hdis
  trace := htrace

/-- A channel that is left shows what it showed. -/
theorem kept (h : Discreet gone s t) (hn : n < s.nextChann) (hc : t.heap n = some c) :
    ∃ d, s.heap n = some d ∧ d.shown = c.shown := by
  rcases h.shown n hn with he | ⟨_, he⟩
  · rw [hc, Option.map_some] at he
    exact Option.map_eq_some_iff.mp he.symm
  · rw [hc] at he
    cases he

/-- No channel is freed. -/
theorem stays (h : Discreet False s t) (hn : n < s.nextChann) (hc : s.heap n = some c) :
    ∃ d, t.heap n = some d ∧ d.shown = c.shown := by
  have he := (h.shown n hn).resolve_right fun hg => hg.1
  rw [hc, Option.map_some] at he
  exact Option.map_eq_some_iff.mp he

theorem message (h : Discreet False s t) (hs : Fresh s) (hc : s.heap n = some c) (hd : t.heap n = some d) :
    d.msg = c.msg := by
  obtain ⟨e, he, hshown⟩ := h.stays (hs.lt hc) hc
  rw [hd, Option.some.injEq] at he
  subst he
  exact congrArg (·.1) hshown

end Discreet

instance : Std.Refl (Discreet (ε := ε) gone) := ⟨Discreet.refl⟩

instance : IsTrans (Sys ε) (Discreet gone) := ⟨fun _ _ _ => Discreet.trans⟩

/-! ## Writes -/

theorem discreet_modifyChann {f : Chann → Chann} (hf : ∀ c, (f c).shown = c.shown) :
    Within (Discreet gone) (modifyChann n f) s := by
  intro _ t h
  obtain ⟨c, hc, rfl⟩ := returns_modifyChann.mp h
  exact .of_update hc (hf c) rfl rfl rfl (List.suffix_refl _)

theorem discreet_modifyMnet {f : Mnet → Mnet} (hf : ∀ ss, (f ss).disChanns = ss.disChanns) :
    Within (Discreet gone) (modifyMnet f) s := by
  intro _ t h
  rw [returns_modifyMnet] at h
  subst h
  exact .of_heap rfl rfl (hf _) (List.suffix_refl _)

theorem discreet_recorded (s : Sys ε) (e : SysEvent) : Discreet gone s (s.recorded e) :=
  .of_heap rfl rfl rfl (List.suffix_cons ..)

theorem discreet_record (e : SysEvent) : Within (Discreet gone) (record e : M ε Unit) s := fun _ _ h => by
  rw [returns_record.mp h]
  exact discreet_recorded s e

/-! ## System calls -/

theorem Outside.discreet (h : Outside s t) : Discreet gone s t := .of_heap h.heap h.nextChann (by rw [h.mnet]) h.trace.suffix

theorem Wired.discreet (h : Wired s t) : Discreet gone s t :=
  .of_map (g := fun c => { c with addr := {} }) (fun _ => rfl) h.heap h.nextChann (by rw [h.mnet])
    h.trace.suffix

theorem Lib.Exec.Within.unheard {α : Type} {m : M ε α} (h : Within Outside m s) :
    Within (Discreet gone) m s := h.mono fun _ => Outside.discreet

/-- What keeps what the channels show and the queue of reports. -/
theorem Leaves.discreet (h : Leaves Chann.shown (fun ss _ => ss.disChanns) s t) : Discreet gone s t where
  shown n hn := .inl (h.chann n hn)
  nextChann := h.nextChann
  fresh := h.fresh
  disChanns := h.lib
  trace := by
    obtain ⟨l, _, ht⟩ := h.kernel.trace
    exact ⟨l, ht.symm⟩

theorem Lib.Exec.Within.discreet {α : Type} {m : M ε α} (h : Within Bland m s) : Within (Discreet gone) m s :=
  h.mono fun _ ht => (ht.mono Chann.shown (fun _ => rfl) (·.1) fun _ _ => rfl).discreet

theorem Controlled.discreet {ev : BitVec 32} (h : Controlled n c ev s t) : Discreet gone s t :=
  .of_update (d := { c with epollEvents := ev }) h.was rfl h.heap h.nextChann
    (by rw [h.mnet]) h.trace.suffix

/-! ## Timers -/

theorem untimed_shown : Untimed Chann.shown fun ss _ => ss.disChanns := ⟨fun _ _ => rfl, fun _ _ _ _ _ _ => rfl⟩

theorem discreet_tmUpdate (interval : Int) : Within (Discreet gone) (tmUpdate n interval : M ε Unit) s :=
  (untimed_shown.tmUpdate interval).mono fun _ => Leaves.discreet

theorem discreet_tmKill : Within (Discreet gone) (tmKill n : M ε Unit) s :=
  untimed_shown.tmKill.mono fun _ => Leaves.discreet

theorem discreet_tmSchedule : Within (Discreet gone) (tmSchedule : M ε Unit) s :=
  untimed_shown.tmSchedule.mono fun _ => Leaves.discreet

/-! ## Channels -/

theorem discreet_destroyCache : Within (Discreet gone) (destroyCache n : M ε Unit) s :=
  .deref_bind fun _ _ => .require_bind fun _ _ => discreet_modifyChann fun _ => rfl

theorem discreet_freeChann : Within (Discreet True) (freeChann n : M ε Unit) s := by
  intro _ t h
  rw [freeChann, returns_modify] at h
  subst h
  refine ⟨fun m _ => ?_, Nat.le_refl _, fun hs m hm => ?_, rfl, List.suffix_refl _⟩
  · by_cases hm : m = n
    · exact .inr ⟨trivial, by rw [hm]; exact Function.update_self ..⟩
    · exact .inl (congrArg _ (Function.update_of_ne hm ..))
  · by_cases hmn : m = n
    · rw [hmn]
      exact Function.update_self ..
    · exact (Function.update_of_ne hmn ..).trans (hs m hm)

theorem discreet_channDestroy : Within (Discreet True) (channDestroy n : M ε Unit) s :=
  .deref_bind fun _ _ => .ite
    (fun _ => bland_unlinkChann.discreet.bind fun _ _ _ => .bind discreet_destroyCache fun _ _ _ =>
      .bind discreet_tmKill fun _ _ _ => .bind (discreet_modifyMnet fun _ => rfl) fun _ _ _ =>
        discreet_freeChann)
    fun _ => within_pure ()

theorem discreet_evtDelLoop {fuel : Nat} {p : Option ChannId} :
    Within (Discreet True) (evtDelLoop fuel p : M ε Unit) s := by
  induction fuel generalizing s p with
  | zero =>
    cases p with
    | none => exact within_pure ()
    | some n => exact within_fail
  | succ fuel ih =>
    cases p with
    | none => exact within_pure ()
    | some n => exact .deref_bind fun _ _ => .bind discreet_channDestroy fun _ _ _ => ih

theorem discreet_evtPoll : Within (Discreet True) (evtPoll : M ε Int) s :=
  .bind (.read_bind <| .read_bind <| .bind discreet_evtDelLoop fun _ _ _ => discreet_modifyMnet fun _ => rfl)
    fun _ _ _ => .bind discreet_tmSchedule fun _ _ _ => (outside_sysEpollWait _).unheard.bind fun recs _ _ =>
      .read_bind <| by
        cases recs with
        | none =>
          exact .bind (discreet_modifyMnet fun _ => rfl) fun _ _ _ =>
            .ite (fun _ => within_pure _) fun _ => within_read _
        | some evts => exact .bind (discreet_modifyMnet fun _ => rfl) fun _ _ _ => within_read _

theorem discreet_mnetChannActiveEvent {n : Option ChannId} {et : ChannEvent} {value : Int} :
    Within (Discreet gone) (mnetChannActiveEvent x n et value) s := by
  cases n with
  | none => exact within_pure ()
  | some n =>
    exact .read_bind <| .deref_bind fun _ _ => .ite (fun _ => bland_activeSend.discreet) fun _ => .ite
      (fun _ => untimed_shown.activeTimer.mono fun _ => Leaves.discreet) fun _ => within_pure ()

theorem discreet_mnetInit : Within (Discreet gone) (mnetInit : M ε Int) s :=
  .read_bind <| .ite (fun _ => within_pure _) fun _ => bland_evtInit.discreet.bind fun _ _ _ =>
    outside_sysClock.unheard.bind fun _ _ _ => .bind (discreet_modifyMnet fun _ => rfl) fun _ _ _ =>
      within_pure _

/-- A channel is put in front of the queue of reports. -/
theorem pushDis_cases {u : Unit} (h : Returns (pushDis n) s u t) : ∃ c, s.heap n = some c ∧
    t.heap = Function.update s.heap n (some { c with disNext := s.mnet.disChanns }) ∧
      t.nextChann = s.nextChann ∧ t.mnet.disChanns = some n ∧ t.kernel = s.kernel := by
  simp only [pushDis, returns_bind, returns_readMnet, returns_modifyChann, returns_modifyMnet, and_assoc,
    exists_and_left, exists_eq_left] at h
  obtain ⟨_, _, ⟨c, hc, rfl⟩, rfl⟩ := h
  exact ⟨c, hc, rfl, rfl, rfl, rfl⟩

/-! ## Tactful types -/

/-- No callback but the filter makes a difference to a message. -/
structure Tactful (x : ExtTable ε) : Prop where
  cb : ∀ ctype op n s, Within (Discreet False) ((extConfig x ctype).cb op n) s
  recvFn : ∀ ctype n len s, Within (Discreet False) ((extConfig x ctype).recvFn n len) s
  sendFn : ∀ ctype n data s, Within (Discreet False) ((extConfig x ctype).sendFn n data) s

section

variable (hq : Tactful x)
include hq

theorem Tactful.callback (op : ExtOp) (ctype : Nat) :
    Within (Discreet gone) (callback op ((extConfig x ctype).cb op) n) s :=
  (discreet_record _).bind fun _ _ _ => (hq.cb ctype op n _).mono fun _ => Discreet.mono

theorem Tactful.channDisconnectSocket : Within (Discreet gone) (channDisconnectSocket (opsOf x) n) s := by
  refine .deref_bind fun c _ => .ite (fun _ => Within.bind ?_ fun _ _ _ => .deref_bind fun _ _ =>
    (bland_sysClose _).discreet.bind fun _ _ _ => .bind discreet_destroyCache fun _ _ _ =>
      .bind (discreet_modifyChann fun _ => rfl) fun _ _ _ => within_pure _) fun _ => within_pure _
  rw [opsConfig_opsOf]
  exact hq.callback .disconnectCb c.ctype

theorem Tactful.channAccept : Within (Discreet gone) (channAccept x n) s :=
  .deref_bind fun _ _ => (bland_acFn _).discreet.bind fun _ _ _ => .ite
    (fun _ => (outside_setNonblocking _).unheard.bind fun _ _ _ => .ite
      (fun _ => (bland_channCreate _ _).discreet.bind fun _ _ _ =>
        .bind (discreet_modifyChann fun _ => rfl) fun _ _ _ =>
          (hq.callback .acceptCb _).bind fun _ _ _ => within_pure _)
      fun _ => within_pure _)
    fun _ => within_pure _

theorem Tactful.channSend (data : List UInt8) : Within (Discreet gone) (channSend x n data) s :=
  .deref_bind fun c _ => ((hq.sendFn c.ctype n data _).mono fun _ => Discreet.mono).bind fun _ _ _ =>
    (discreet_record _).bind fun _ _ _ => .ite
      (fun _ => .bind (discreet_modifyChann fun _ => rfl) fun _ _ _ => within_pure _) fun _ => within_pure _

/-! ## Calls -/

theorem Tactful.mnetChannOpen {ctype : Nat} : Within (Discreet gone) (mnetChannOpen x ctype) s :=
  .ite (fun _ => within_pure _) fun _ => .read_bind <| .ite (fun _ => within_pure _) fun _ =>
    (bland_channCreate _ _).discreet.bind fun _ _ _ => (hq.callback .openCb ctype).bind fun _ _ _ => within_pure _

theorem Tactful.mnetChannConnect {n : Option ChannId} {host : Option Nat} {port : Int} :
    Within (Discreet gone) (mnetChannConnect x n host port) s := by
  cases n with
  | none => exact within_pure _
  | some n =>
    cases host with
    | none => exact within_pure _
    | some host =>
      refine .ite (fun _ => (bland_channOpenSocket _ _ _).discreet.bind fun fd _ _ => .ite (fun _ => ?_)
        fun _ => within_pure _) fun _ => within_pure _
      refine .bind (discreet_modifyChann fun _ => rfl) fun _ _ _ => .deref_bind fun c _ => .ite (fun _ => ?_)
        fun _ => ?_
      · exact (outside_sysConnect _ _).unheard.bind fun _ _ _ => .read_bind <| .ite
          (fun _ => .bind (discreet_modifyChann fun _ => rfl) fun _ _ _ => (bland_evtAdd _).discreet.bind
            fun _ _ _ => (hq.callback .connectCb c.ctype).bind fun _ _ _ => within_pure _)
          fun _ => within_pure _
      · exact .bind (discreet_modifyChann fun _ => rfl) fun _ _ _ => (bland_evtAdd _).discreet.bind
          fun _ _ _ => (hq.callback .connectCb c.ctype).bind fun _ _ _ => within_pure _

theorem Tactful.mnetChannDisconnect {n : Option ChannId} :
    Within (Discreet gone) (mnetChannDisconnect x n) s := by
  cases n with
  | none => exact within_pure ()
  | some n => exact hq.channDisconnectSocket.bind fun _ _ _ => within_pure ()

theorem Tactful.mnetChannListen {n : Option ChannId} {host : Option Nat} {port : Int} {backlog : BitVec 32} :
    Within (Discreet gone) (mnetChannListen x n host port backlog) s := by
  cases n with
  | none => exact within_pure _
  | some n =>
    refine .ite (fun _ => (bland_channOpenSocket _ _ _).discreet.bind fun fd _ _ => .ite (fun _ => ?_)
      fun _ => within_pure _) fun _ => within_pure _
    exact .bind (discreet_modifyChann fun _ => rfl) fun _ _ _ =>
      .bind (discreet_modifyChann fun _ => rfl) fun _ _ _ => (bland_evtAdd _).discreet.bind fun _ _ _ =>
        .deref_bind fun c _ => (hq.callback .listenCb c.ctype).bind fun _ _ _ => within_pure _

/-- The calls that neither produce a message nor change what a later one is made of. Some of them
free channels. -/
def Call.discreet : Call → Prop
  | .mnetFini | .resultNext _ | .channClose _ | .channSetOpaque .. | .channRecv .. | .channSend ..
  | .dgramRecv .. | .dgramSend .. => False
  | _ => True

theorem Tactful.dgramAim (host : Nat) (port : Int) : Within (Discreet gone) (dgramAim x n host port) s :=
  .bind (.read_bind <| .deref_bind fun _ _ => within_pure _) fun _ _ _ => .ite
    (fun _ => discreet_modifyChann fun _ => rfl)
    fun _ => hq.mnetChannConnect.bind fun _ _ _ => within_pure ()

/-- A transfer that did not work. -/
def SysEvent.fails (n : ChannId) : SysEvent → Prop
  | .sendFn m _ r | .recvFn m r => m = n ∧ r < 0
  | _ => False

instance (n : ChannId) : (e : SysEvent) → Decidable (e.fails n)
  | .sendFn m _ r | .recvFn m r => inferInstanceAs (Decidable (m = n ∧ r < 0))
  | .socket .. | .setup .. | .nonblock .. | .connect .. | .accept .. | .close .. |
    .send .. | .sendto .. | .recv .. | .epollCtl .. | .extOp .. => instDecidableFalse

/-- A transfer is discreet, or it fails and that is reported. -/
inductive Transfers (x : ExtTable ε) (n : ChannId) (s t : Sys ε) : Prop
  | fine : Discreet False s t → Transfers x n s t
  | failed {a b : Sys ε} {e : SysEvent} {u : Unit} : Discreet False s a → e.fails n →
    Returns (channFail x n) (a.recorded e) u b → Discreet False b t → Transfers x n s t

omit hq in
theorem Transfers.after {a : Sys ε} (h : Transfers x n a t) (hs : Discreet False s a) : Transfers x n s t := by
  cases h with
  | fine h => exact .fine (hs.trans h)
  | failed h hf hfail h' => exact .failed (hs.trans h) hf hfail h'

theorem Tactful.mnetChannSend {buf : Option (List UInt8)} {r : Int}
    (h : Returns (mnetChannSend x (some n) buf) s r t) : Transfers x n s t := by
  simp only [MNet.mnetChannSend, returns_bind, returns_require, and_assoc, exists_and_left,
    exists_eq_left', Option.some.injEq] at h
  obtain ⟨_, rfl, ready, _, hready, h⟩ := h
  obtain rfl := channReady_same hready
  rcases returns_ite.mp h with ⟨_, h⟩ | ⟨_, h⟩
  swap
  · obtain ⟨_, rfl⟩ := returns_pure.mp h
    exact .fine (.refl _)
  simp only [returns_bind, returns_deref, and_assoc, exists_and_left, exists_eq_left] at h
  obtain ⟨c, _, h⟩ := h
  rcases returns_ite.mp h with ⟨_, h⟩ | ⟨_, h⟩
  · refine .fine (Within.bind ?_ (fun _ _ _ => within_pure _) _ _ h)
    exact discreet_modifyChann fun _ => rfl
  obtain ⟨ret, a, hsend, h⟩ := returns_bind.mp h
  rcases returns_ite.mp h with ⟨hneg, h⟩ | ⟨_, h⟩
  · obtain ⟨d, b, _, hfn, ⟨_, rfl⟩ | ⟨hpos, _⟩⟩ := channSend_cases hsend
    · simp only [returns_bind, returns_pure] at h
      obtain ⟨_, _, hfail, _, rfl⟩ := h
      exact .failed (e := .sendFn n _ ret) (hq.sendFn _ _ _ _ _ _ hfn) ⟨rfl, hneg⟩ hfail (.refl _)
    · omega
  · refine .fine ((hq.channSend _ _ _ hsend).trans (Within.ite (fun _ => ?_) (fun _ => within_pure _) _ _ h))
    exact .bind (discreet_modifyChann fun _ => rfl) fun _ _ _ => (bland_evtAdd _).discreet.bind
      fun _ _ _ => within_pure _

theorem Tactful.mnetChannRecv {buf : Bool} {len r : Int}
    (h : Returns (mnetChannRecv x (some n) buf len) s r t) : Transfers x n s t := by
  simp only [MNet.mnetChannRecv, returns_bind, returns_require, and_assoc, exists_and_left,
    exists_eq_left', Option.some.injEq] at h
  obtain ⟨_, rfl, ready, _, hready, h⟩ := h
  obtain rfl := channReady_same hready
  rcases returns_ite.mp h with ⟨_, h⟩ | ⟨_, h⟩
  swap
  · obtain ⟨_, rfl⟩ := returns_pure.mp h
    exact .fine (.refl _)
  simp only [returns_bind, returns_deref, returns_record, returns_pure, and_assoc, exists_and_left,
    exists_eq_left] at h
  obtain ⟨c, _, ret, a, hfn, _, _, b, hfail, _, d, hmod, rfl, rfl⟩ := h
  have hd : Discreet False b t := by
    obtain ⟨d, hd, rfl⟩ := returns_modifyChann.mp hmod
    refine .of_update hd ?_ rfl rfl rfl (List.suffix_refl _)
    rfl
  rcases returns_when.mp hfail with ⟨hneg, hfail⟩ | ⟨_, rfl⟩
  · exact .failed (e := .recvFn n r) (hq.recvFn _ _ _ _ _ _ hfn) ⟨rfl, hneg⟩ hfail hd
  · exact .fine ((hq.recvFn _ _ _ _ _ _ hfn).trans
      ((discreet_record (.recvFn n r) () _ (returns_record.mpr rfl)).trans hd))

/-- The channel a call transfers data for. -/
def Call.transfers : Call → Option ChannId
  | .channRecv n _ _ | .channSend n _ | .dgramRecv n _ _ | .dgramSend n _ _ => n
  | _ => none

theorem Tactful.transfer {c : Call} {r : Ret} (hn : c.transfers = some n) (h : Returns (apiCall x c) s r t) :
    Transfers x n s t := by
  cases c with
  | channRecv m buf len =>
    obtain ⟨_, _, h⟩ := returns_ret.mp h
    rw [show m = some n from hn] at h
    exact hq.mnetChannRecv h
  | channSend m buf =>
    obtain ⟨_, _, h⟩ := returns_ret.mp h
    rw [show m = some n from hn] at h
    exact hq.mnetChannSend h
  | dgramRecv m buf len =>
    obtain ⟨_, _, h⟩ := returns_ret.mp h
    rw [show m = some n from hn] at h
    obtain rfl | ⟨_, hrecv⟩ := mnetDgramRecv_cases h
    · exact .fine (.refl _)
    · exact hq.mnetChannRecv hrecv
  | dgramSend m addr buf =>
    obtain ⟨_, _, h⟩ := returns_ret.mp h
    rw [show m = some n from hn] at h
    obtain ⟨rfl, _⟩ | ⟨_, host, port, a, _, _, _, _, haim, hsend⟩ := mnetDgramSend_cases h
    · exact .fine (.refl _)
    · exact (hq.mnetChannSend hsend).after (hq.dgramAim _ _ _ _ haim)
  | _ => cases hn

omit hq in
/-- A transfer for NULL does not return. -/
theorem transfer_null {c : Call} {r : Ret} (hd : ¬ c.discreet) (hn : c.transfers = none)
    (h : Returns (apiCall x c) s r t) : c = .mnetFini ∨ (∃ fuel, c = .resultNext fuel) ∨
      (∃ n, c = .channClose n) ∨ ∃ n p, c = .channSetOpaque n p := by
  cases c with
  | mnetFini => exact .inl rfl
  | resultNext fuel => exact .inr (.inl ⟨fuel, rfl⟩)
  | channClose n => exact .inr (.inr (.inl ⟨n, rfl⟩))
  | channSetOpaque n p => exact .inr (.inr (.inr ⟨n, p, rfl⟩))
  | channRecv m | channSend m | dgramRecv m | dgramSend m =>
    obtain ⟨_, _, h⟩ := returns_ret.mp h
    rw [show m = none from hn] at h
    obtain ⟨_, _, hnone, _⟩ := returns_bind.mp h
    cases (returns_require.mp hnone).1
  | _ => exact absurd trivial hd

/-- The call that frees channels. -/
def Call.reaps : Call → Prop
  | .poll => True
  | _ => False

theorem Tactful.apiCall {c : Call} (hc : c.discreet) : Within (Discreet c.reaps) (apiCall x c) s := by
  cases c with
  | mnetFini | resultNext | channClose | channSetOpaque | channRecv | channSend | dgramRecv | dgramSend =>
    exact hc.elim
  | mnetInit => exact .bind discreet_mnetInit fun _ _ _ => within_pure _
  | multiAcceptBalancer on => exact .bind (discreet_modifyMnet fun _ => rfl) fun _ _ _ => within_pure _
  | multiResetEvent => exact bland_mnetMultiResetEvent.discreet.bind fun _ _ _ => within_pure _
  | extRegister ctype => exact bland_mnetExtRegister.discreet.bind fun _ _ _ => within_pure _
  | poll => exact .bind discreet_evtPoll fun _ _ _ => within_pure _
  | channOpen ctype => exact hq.mnetChannOpen.bind fun _ _ _ => within_pure _
  | channConnect n host port => exact hq.mnetChannConnect.bind fun _ _ _ => within_pure _
  | channDisconnect n => exact hq.mnetChannDisconnect.bind fun _ _ _ => within_pure _
  | channListen n host port backlog => exact hq.mnetChannListen.bind fun _ _ _ => within_pure _
  | channActiveEvent n et value => exact .bind discreet_mnetChannActiveEvent fun _ _ _ => within_pure _
  | socketSetBufsize n size => exact bland_mnetChannSocketSetBufsize.discreet.bind fun _ _ _ => within_pure _

end

end MNet
