import MNet.Moves.Api

/-! # What asks nothing of the event queue

Most functions of the library neither call `epoll_ctl` nor change which types are registered.
Only the built-in types are looked at here. -/

namespace MNet
open MNet.Lib MNet.Lib.Exec

variable {ε : Type} {s t : Sys ε} {n : ChannId}

/-- The calls of `epoll_ctl`, newest first, with their descriptors and results. -/
def Kernel.requests (k : Kernel) : List (Int × Int) :=
  k.trace.filterMap fun e =>
    match e with
    | .epollCtl fd _ r => some (fd, r)
    | _ => none

structure Silent (s t : Sys ε) : Prop where
  requests : t.kernel.requests = s.kernel.requests
  reserved : t.mnet.reserved = s.mnet.reserved

namespace Silent

theorem refl (s : Sys ε) : Silent s s := ⟨rfl, rfl⟩

theorem trans {a : Sys ε} (h : Silent s a) (h' : Silent a t) : Silent s t :=
  ⟨h'.requests.trans h.requests, h'.reserved.trans h.reserved⟩

theorem of_trace (hk : t.kernel.trace = s.kernel.trace) (hm : t.mnet.reserved = s.mnet.reserved) :
    Silent s t := ⟨by rw [Kernel.requests, hk]; rfl, hm⟩

end Silent

instance : Std.Refl (Silent (ε := ε)) := ⟨Silent.refl⟩

instance : IsTrans (Sys ε) Silent := ⟨fun _ _ _ => Silent.trans⟩

def SysEvent.isRequest : SysEvent → Prop
  | .epollCtl .. => True
  | _ => False

theorem silent_record {e : SysEvent} (he : ¬ e.isRequest) : Within Silent (record e) s := by
  intro _ t h
  rw [returns_record] at h
  subst h
  refine ⟨?_, rfl⟩
  cases e with
  | epollCtl => exact absurd trivial he
  | _ => rfl

theorem silent_modifyChann (f : Chann → Chann) : Within Silent (modifyChann n f) s := by
  intro _ t h
  obtain ⟨c, _, rfl⟩ := returns_modifyChann.mp h
  exact .of_trace rfl rfl

theorem silent_modifyMnet {f : Mnet → Mnet} (hf : ∀ ss, (f ss).reserved = ss.reserved) :
    Within Silent (modifyMnet f) s := by
  intro _ t h
  rw [returns_modifyMnet] at h
  subst h
  exact .of_trace rfl (hf _)

theorem silent_modify {f : Sys ε → Sys ε} (hk : ∀ s, (f s).kernel.trace = s.kernel.trace)
    (hm : ∀ s, (f s).mnet = s.mnet) : Within Silent (Exec.modify f : M ε Unit) s := by
  intro _ t h
  rw [returns_modify] at h
  subst h
  exact .of_trace (hk s) (by rw [hm])

theorem silent_modifyKernel {f : Kernel → Kernel} (hf : ∀ k, (f k).trace = k.trace) :
    Within Silent (modifyKernel f : M ε Unit) s := silent_modify (fun s => hf s.kernel) fun _ => rfl

/-! ## System calls -/

theorem silent_sysRet : Within Silent (sysRet : M ε Int) s := by
  intro r t h
  obtain ⟨_, rfl⟩ := sysRet_spec h
  exact .of_trace rfl rfl

theorem silent_sysSetup (fd : Int) : Within Silent (sysSetup fd : M ε Int) s :=
  .bind silent_sysRet fun _ _ _ => (silent_record id).bind fun _ _ _ => within_pure _

theorem silent_setNonblocking (fd : Int) : Within Silent (setNonblocking fd : M ε Int) s :=
  .bind silent_sysRet fun _ _ _ => .ite
    (fun _ => .bind silent_sysRet fun _ _ _ => (silent_record id).bind fun _ _ _ => within_pure _)
    fun _ => (silent_record id).bind fun _ _ _ => within_pure _

theorem silent_sysConnect (fd : Int) (addr : SockAddr) : Within Silent (sysConnect fd addr : M ε Int) s :=
  .bind silent_sysRet fun _ _ _ => .read_bind <| (silent_record id).bind fun _ _ _ => within_pure _

theorem silent_sysSockError (fd : Int) : Within Silent (sysSockError fd : M ε (Int × Int)) s :=
  .read_bind <| .bind silent_sysRet fun _ _ _ => within_pure _

theorem silent_sysEpollWait (size : Nat) :
    Within Silent (sysEpollWait size : M ε (Option (List Kev))) s :=
  .read_bind <| .bind silent_sysRet fun _ _ _ => within_pure _

theorem silent_sysClock : Within Silent (sysClock : M ε Int) s := by
  refine .read_bind <| .bind (fun i t h => ?_) fun _ _ _ => within_pure _
  obtain ⟨_, rfl⟩ := core_nextTick h
  exact .of_trace rfl rfl

theorem silent_setBufsize (fd size : Int) : Within Silent (setBufsize fd size : M ε Int) s :=
  (silent_sysSetup fd).bind fun _ _ _ => (silent_sysSetup fd).bind fun _ _ _ => within_pure _

theorem silent_allOk {ms : List (M ε Int)} (h : ∀ m ∈ ms, ∀ s, Within Silent m s) :
    Within Silent (allOk ms) s := by
  induction ms generalizing s with
  | nil => exact within_pure true
  | cons m ms ih =>
    refine (h m (by simp) s).bind fun r _ _ => .ite (fun _ => within_pure false) fun _ => ?_
    exact ih fun m hm => h m (List.mem_cons_of_mem _ hm)

theorem silent_sysNewFd : Within Silent (sysNewFd : M ε Int) s :=
  .bind silent_sysRet fun _ _ _ => .read_bind <| .ite
    (fun _ => Within.bind (silent_modifyKernel fun _ => rfl) fun _ _ _ => within_pure _) fun _ => within_pure _

theorem silent_sysSocket : Within Silent (sysSocket : M ε Int) s :=
  .bind silent_sysNewFd fun _ _ _ => (silent_record id).bind fun _ _ _ => within_pure _

theorem silent_sysAccept (lfd : Int) : Within Silent (sysAccept lfd : M ε (Int × SockAddr)) s :=
  .read_bind <| .bind silent_sysNewFd fun _ _ _ => (silent_record id).bind fun _ _ _ => within_pure _

theorem silent_acFn (lfd : Int) : Within Silent (acFn lfd : M ε (Int × SockAddr)) s :=
  .read_bind <| .ite
    (fun _ => .bind silent_sysRet fun _ _ _ => .ite
      (fun _ => (silent_sysAccept lfd).bind fun _ _ _ => .bind silent_sysRet fun _ _ _ => within_pure _)
      fun _ => within_pure _)
    fun _ => silent_sysAccept lfd

theorem silent_sysClose (fd : Int) : Within Silent (sysClose fd : M ε Unit) s :=
  .bind silent_sysRet fun _ _ _ => Within.bind (silent_modifyKernel fun _ => rfl) fun _ _ _ => silent_record id

theorem silent_sysRecv (fd : Int) (len : Nat) :
    Within Silent (sysRecv fd len : M ε (Int × SockAddr)) s :=
  .read_bind <| .bind silent_sysRet fun _ _ _ => (silent_record id).bind fun _ _ _ => within_pure _

theorem silent_sysSend (fd : Int) (data : List UInt8) : Within Silent (sysSend fd data : M ε Int) s :=
  .bind silent_sysRet fun _ _ _ => (silent_modifyKernel fun k => by
    cases k.socks fd <;> rfl).bind fun _ _ _ => (silent_record id).bind fun _ _ _ => within_pure _

theorem silent_sysSendto (fd : Int) (addr : SockAddr) (data : List UInt8) :
    Within Silent (sysSendto fd addr data : M ε Int) s :=
  .bind silent_sysRet fun _ _ _ => (silent_record id).bind fun _ _ _ => within_pure _

/-! ## Timers -/

theorem silent_newNode (tm : ChannTm) : Within Silent (newNode tm : M ε NodeId) s :=
  .derefClock_bind fun _ => .read_bind <| Within.bind (silent_modify (fun _ => rfl) fun _ => rfl) fun _ _ _ =>
    Within.bind (silent_modifyMnet fun _ => rfl) fun _ _ _ => within_pure _

theorem silent_removeNode (id : NodeId) : Within Silent (removeNode id : M ε Unit) s :=
  .derefClock_bind fun _ => silent_modifyMnet fun _ => rfl

theorem silent_derefNode (id : NodeId) : Within Silent (derefNode id : M ε TmNode) s :=
  .derefClock_bind fun _ => within_require _ _

theorem silent_tmActive (interval : Int) : Within Silent (tmActive n interval : M ε Unit) s :=
  .bind silent_sysClock fun _ _ _ => (silent_newNode _).bind fun _ _ _ => silent_modifyChann _

theorem silent_tmUpdate (interval : Int) : Within Silent (tmUpdate n interval : M ε Unit) s :=
  .deref_bind fun _ _ => .require_bind fun _ _ => (silent_derefNode _).bind fun _ _ _ =>
    .bind silent_sysClock fun _ _ _ => (silent_removeNode _).bind fun _ _ _ =>
      (silent_newNode _).bind fun _ _ _ => silent_modifyChann _

theorem silent_tmKill : Within Silent (tmKill n : M ε Unit) s := by
  refine .deref_bind fun c _ => ?_
  cases c.timerNode with
  | none => exact within_pure ()
  | some id =>
    exact (silent_derefNode id).bind fun _ _ _ => (silent_removeNode id).bind fun _ _ _ =>
      silent_modifyChann _

theorem silent_tmSchedule : Within Silent (tmSchedule : M ε Unit) s := by
  refine .derefClock_bind fun clock => ?_
  cases clock with
  | nil => exact silent_modifyMnet fun _ => rfl
  | cons node clock =>
    exact .bind silent_sysClock fun _ _ _ => .ite (fun _ => silent_modifyMnet fun _ => rfl)
      fun _ => silent_modifyMnet fun _ => rfl

/-! ## Channels of the built-in types -/

theorem silent_recvFn (ctype len : Nat) : Within Silent ((internalExt ctype : Ext ε).recvFn n len) s := by
  unfold internalExt
  dsimp only
  split
  · exact .deref_bind fun _ _ => (silent_sysRecv _ _).bind fun _ _ _ => .read_bind (within_pure _)
  · exact .deref_bind fun _ _ => (silent_sysRecv _ _).bind fun _ _ _ =>
      (silent_modifyChann _).bind fun _ _ _ => .read_bind (within_pure _)

theorem silent_sendFn (ctype : Nat) (data : List UInt8) :
    Within Silent ((internalExt ctype : Ext ε).sendFn n data) s := by
  unfold internalExt
  dsimp only
  split
  · exact .deref_bind fun _ _ => (silent_sysSend _ _).bind fun _ _ _ => .read_bind (within_pure _)
  · exact .deref_bind fun _ _ => (silent_sysSendto _ _ _).bind fun _ _ _ => .read_bind (within_pure _)

theorem silent_channCreate (ctype : Nat) (st : ChannState) :
    Within Silent (channCreate ctype st : M ε ChannId) s :=
  .read_bind <| .read_bind <| Within.bind (silent_modify (fun _ => rfl) fun _ => rfl) fun _ _ _ =>
    Within.bind (silent_modify (fun _ => rfl) fun _ => rfl) fun _ _ _ =>
      (Within.forSome fun _ _ => silent_modifyChann _).bind fun _ _ _ =>
        Within.bind (silent_modifyMnet fun _ => rfl) fun _ _ _ => within_pure _

theorem silent_destroyCache : Within Silent (destroyCache n : M ε Unit) s :=
  .deref_bind fun _ _ => .require_bind fun _ _ => silent_modifyChann _

theorem silent_unlinkChann : Within Silent (unlinkChann n : M ε Unit) s := by
  refine .deref_bind fun c _ => (Within.forSome fun _ _ => silent_modifyChann _).bind fun _ _ _ => ?_
  cases c.prev with
  | none => exact silent_modifyMnet fun _ => rfl
  | some m => exact silent_modifyChann _

theorem silent_channDestroy : Within Silent (channDestroy n : M ε Unit) s :=
  .deref_bind fun _ _ => .ite
    (fun _ => .bind silent_unlinkChann fun _ _ _ => .bind silent_destroyCache fun _ _ _ =>
      .bind silent_tmKill fun _ _ _ => Within.bind (silent_modifyMnet fun _ => rfl) fun _ _ _ =>
        silent_modify (fun _ => rfl) fun _ => rfl)
    fun _ => within_pure ()

section NoExt

variable {s : Sys Unit}

theorem silent_cb (op : ExtOp) (ctype : Nat) :
    Within Silent (callback op ((extConfig noExt ctype).cb op) n) s :=
  (silent_record id).bind fun _ _ _ => by
    rw [extConfig_noExt, internalExt_cb]
    exact within_pure ()

theorem silent_opsCb (op : ExtOp) (ctype : Nat) {cb : ChannId → M Unit Unit}
    (h : cb = (extConfig noExt ctype).cb op) : Within Silent (callback op cb n) s := by
  rw [h]
  exact silent_cb op ctype

theorem silent_channAccept : Within Silent (channAccept noExt n) s :=
  .deref_bind fun _ _ => (silent_acFn _).bind fun _ _ _ => .ite
    (fun _ => (silent_setNonblocking _).bind fun _ _ _ => .ite
      (fun _ => (silent_channCreate _ _).bind fun _ _ _ => (silent_modifyChann _).bind fun _ _ _ =>
        (silent_cb .acceptCb _).bind fun _ _ _ => within_pure _)
      fun _ => within_pure _)
    fun _ => within_pure _

theorem silent_channSend (data : List UInt8) : Within Silent (channSend noExt n data) s := by
  refine .deref_bind fun c _ => .bind ?_ fun _ _ _ => (silent_record id).bind fun _ _ _ => .ite
    (fun _ => (silent_modifyChann _).bind fun _ _ _ => within_pure _) fun _ => within_pure _
  rw [extConfig_noExt]
  exact silent_sendFn c.ctype data

theorem silent_channDisconnectSocket : Within Silent (channDisconnectSocket (opsOf noExt) n) s :=
  .deref_bind fun c _ => .ite
    (fun _ => (silent_opsCb .disconnectCb c.ctype (by rw [opsConfig_opsOf]; rfl)).bind fun _ _ _ =>
      .deref_bind fun _ _ => (silent_sysClose _).bind fun _ _ _ => .bind silent_destroyCache fun _ _ _ =>
        (silent_modifyChann _).bind fun _ _ _ => within_pure _)
    fun _ => within_pure _

theorem silent_channCloseSocket : Within Silent (channCloseSocket (opsOf noExt) n) s :=
  .deref_bind fun c _ => .ite
    (fun _ => (silent_opsCb .closeCb c.ctype (by rw [opsConfig_opsOf]; rfl)).bind fun _ _ _ =>
      .read_bind <| (silent_modifyChann _).bind fun _ _ _ =>
        Within.bind (silent_modifyMnet fun _ => rfl) fun _ _ _ => silent_modifyChann _)
    fun _ => within_pure ()

theorem silent_channMsg (event : ChannEvent) (r : Option ChannId) (err : Int) :
    Within Silent (channMsg noExt n event r err) s :=
  (silent_modifyChann _).bind fun _ _ _ => .deref_bind fun _ _ => by
    rw [extConfig_noExt]
    exact within_pure true

theorem silent_emit (event : ChannEvent) (r : Option ChannId) (err : Int) :
    Within Silent (emit noExt n event r err) s :=
  (silent_channMsg _ _ _).bind fun _ _ _ => within_pure _

theorem silent_channFail : Within Silent (channFail noExt n) s :=
  .bind silent_channDisconnectSocket fun _ _ _ => .read_bind <| (silent_channMsg _ _ _).bind fun _ _ _ =>
    .when fun _ => .read_bind <| (silent_modifyChann _).bind fun _ _ _ => silent_modifyMnet fun _ => rfl

theorem silent_channSendedLoop {fuel : Nat} : Within Silent (channSendedLoop noExt n fuel) s := by
  induction fuel generalizing s with
  | zero => exact within_fail
  | succ fuel ih =>
    exact .deref_bind fun _ _ => (silent_channSend _).bind fun _ _ _ => .ite
      (fun _ => (silent_modifyChann _).bind fun _ _ _ => .deref_bind fun _ _ =>
        .ite (fun _ => ih) fun _ => within_pure ())
      fun _ => .ite (fun _ => silent_channFail) fun _ => within_pure ()

theorem silent_channSendedRwb : Within Silent (channSendedRwb noExt n) s :=
  .deref_bind fun _ _ => .ite (fun _ => within_pure true) fun _ =>
    .bind silent_channSendedLoop fun _ _ _ => .deref_bind fun _ _ => within_pure _

theorem silent_channOpenSocket (host : Option Nat) (port : Int) (backlog : BitVec 32) :
    Within Silent (channOpenSocket noExt n host port backlog) s := by
  refine .deref_bind fun c _ => .ite (fun _ => .bind silent_sysSocket fun f _ _ => .ite (fun _ => ?_)
    fun _ => within_pure _) fun _ => within_pure _
  refine (silent_modifyChann _).bind fun _ _ _ => (silent_allOk fun m hm s => ?_).bind fun _ _ _ =>
    .ite (fun _ => within_pure _) fun _ => (silent_sysClose _).bind fun _ _ _ => within_pure _
  simp only [List.mem_append, List.mem_cons, List.not_mem_nil, or_false] at hm
  rcases hm with ((((((rfl | hm) | hm) | rfl) | hm) | hm) | rfl)
  · exact silent_sysSetup f
  · rw [mem_ite_singleton hm]
    exact silent_sysSetup f
  · rw [mem_ite_singleton hm]
    exact silent_sysSetup f
  · exact silent_setNonblocking f
  · rw [mem_ite_singleton hm]
    exact silent_sysSetup f
  · rw [mem_ite_singleton hm]
    exact silent_sysSetup f
  · exact silent_setBufsize f _

end NoExt

/-! ## Polling and timers -/

theorem silent_evtDelLoop {fuel : Nat} {p : Option ChannId} :
    Within Silent (evtDelLoop fuel p : M ε Unit) s := by
  induction fuel generalizing s p with
  | zero =>
    cases p with
    | none => exact within_pure ()
    | some n => exact within_fail
  | succ fuel ih =>
    cases p with
    | none => exact within_pure ()
    | some n => exact .deref_bind fun _ _ => .bind silent_channDestroy fun _ _ _ => ih

theorem silent_evtPoll : Within Silent (evtPoll : M ε Int) s :=
  .bind (.read_bind <| .read_bind <| .bind silent_evtDelLoop fun _ _ _ => silent_modifyMnet fun _ => rfl)
    fun _ _ _ => .bind silent_tmSchedule fun _ _ _ => (silent_sysEpollWait _).bind fun recs _ _ =>
      .read_bind <| by
        cases recs with
        | none =>
          exact Within.bind (silent_modifyMnet fun _ => rfl) fun _ _ _ =>
            .ite (fun _ => within_pure _) fun _ => within_read _
        | some evts => exact Within.bind (silent_modifyMnet fun _ => rfl) fun _ _ _ => within_read _

theorem silent_tmNext {s : Sys Unit} {fuel : Nat} : Within Silent (tmNext noExt fuel) s := by
  induction fuel generalizing s with
  | zero => exact within_fail
  | succ fuel ih =>
    refine .read_bind ?_
    cases s.mnet.tmPos with
    | none => exact within_pure _
    | some p =>
      cases p with
      | head => exact within_pure _
      | node id =>
        exact .derefClock_bind fun _ => (silent_derefNode _).bind fun _ _ _ =>
          Within.bind (silent_modifyMnet fun _ => rfl) fun _ _ _ => .read_bind <| .ite
            (fun _ => (silent_tmUpdate _).bind fun _ _ _ => (silent_channMsg _ _ _).bind fun _ _ _ =>
              .ite (fun _ => within_pure _) fun _ => ih)
            fun _ => Within.bind (silent_modifyMnet fun _ => rfl) fun _ _ _ => within_pure _

theorem silent_disNext : Within Silent (disNext : M ε (Option ChannId)) s := by
  refine .read_bind ?_
  cases s.mnet.disChanns with
  | none => exact within_pure none
  | some n =>
    exact .deref_bind fun _ _ => Within.bind (silent_modifyMnet fun _ => rfl) fun _ _ _ => within_pure _

theorem silent_activeTimer {value : Int} : Within Silent (activeTimer n value : M ε Unit) s :=
  .deref_bind fun _ _ => .ite
    (fun _ => .ite (fun _ => silent_tmUpdate _) fun _ => silent_tmActive _)
    fun _ => .ite (fun _ => silent_tmKill) fun _ => within_pure ()

/-! ## Calls -/

section NoExt

variable {s : Sys Unit}

theorem silent_channReady : Within Silent (channReady noExt n) s :=
  .read_bind <| .deref_bind fun _ _ => within_pure _

theorem silent_mnetChannOpen {ctype : Nat} : Within Silent (mnetChannOpen noExt ctype) s :=
  .ite (fun _ => within_pure _) fun _ => .read_bind <| .ite (fun _ => within_pure _) fun _ =>
    (silent_channCreate _ _).bind fun _ _ _ => (silent_cb .openCb ctype).bind fun _ _ _ => within_pure _

theorem silent_mnetChannClose {n : Option ChannId} : Within Silent (mnetChannClose noExt n) s := by
  cases n with
  | none => exact within_pure ()
  | some n =>
    exact .deref_bind fun _ _ => .ite
      (fun _ => .bind silent_channDisconnectSocket fun _ _ _ => silent_channCloseSocket)
      fun _ => within_pure ()

theorem silent_finiLoop {fuel : Nat} {p : Option ChannId} :
    Within Silent (finiLoop noExt fuel p) s := by
  induction fuel generalizing s p with
  | zero =>
    cases p with
    | none => exact within_pure ()
    | some n => exact within_fail
  | succ fuel ih =>
    cases p with
    | none => exact within_pure ()
    | some n =>
      exact .deref_bind fun _ _ => .bind silent_channDisconnectSocket fun _ _ _ =>
        .bind silent_channCloseSocket fun _ _ _ => .bind silent_channDestroy fun _ _ _ => ih

theorem silent_mnetChannDisconnect {n : Option ChannId} :
    Within Silent (mnetChannDisconnect noExt n) s := by
  cases n with
  | none => exact within_pure ()
  | some n => exact .bind silent_channDisconnectSocket fun _ _ _ => within_pure ()

theorem silent_mnetChannSetOpaque {n : Option ChannId} {p : Nat} :
    Within Silent (mnetChannSetOpaque n p : M Unit Unit) s := by
  cases n with
  | none => exact within_pure ()
  | some n => exact silent_modifyChann _

theorem silent_mnetChannRecv {n : Option ChannId} {buf : Bool} {len : Int} :
    Within Silent (mnetChannRecv noExt n buf len) s :=
  .require_bind fun n _ => .bind silent_channReady fun _ _ _ => .ite
    (fun _ => .deref_bind fun _ _ => .bind (by rw [extConfig_noExt]; exact silent_recvFn _ _) fun _ _ _ =>
      (silent_record id).bind fun _ _ _ => (Within.when fun _ => silent_channFail).bind fun _ _ _ =>
        (silent_modifyChann _).bind fun _ _ _ => within_pure _)
    fun _ => within_pure _

theorem silent_mnetDgramRecv {n : Option ChannId} {buf : Bool} {len : Int} :
    Within Silent (mnetDgramRecv noExt n buf len) s :=
  .require_bind fun _ _ => .deref_bind fun _ _ => .ite
    (fun _ => .bind silent_channReady fun _ _ _ => .ite
      (fun _ => .bind silent_mnetChannRecv fun _ _ _ => .deref_bind fun _ _ => within_pure _)
      fun _ => within_pure _)
    fun _ => within_pure _

theorem silent_mnetChannSocketSetBufsize {n : Option ChannId} {size : Int} :
    Within Silent (mnetChannSocketSetBufsize n size : M Unit Int) s := by
  cases n with
  | none => exact within_pure _
  | some n =>
    exact .ite (fun _ => (silent_modifyChann _).bind fun _ _ _ => .deref_bind fun _ _ =>
      .ite (fun _ => silent_setBufsize _ _) fun _ => within_pure _) fun _ => within_pure _

/-- A type of no table cannot be registered. -/
theorem silent_mnetExtRegister {ctype : Nat} : Within Silent (mnetExtRegister noExt ctype) s := by
  refine .ite (fun _ => within_pure _) fun hty => .read_bind <| .ite (fun hraw => ?_) fun _ => within_pure _
  have hle : ctype ≤ CHANN_TYPE_BROADCAST := hraw.2.2
  exact absurd (.inl hle) hty

/-- The calls that may ask for interest. -/
def Call.asks : Call → Prop
  | .channConnect .. | .channListen .. | .channActiveEvent .. | .channSend .. | .dgramSend ..
  | .resultNext _ | .multiResetEvent => True
  | _ => False

/-- The calls that change which types are known. -/
def Call.reserves : Call → Prop
  | .mnetInit | .mnetFini => True
  | _ => False

theorem silent_apiCall {c : Call} (hask : ¬ c.asks) (hres : ¬ c.reserves) :
    Within Silent (apiCall noExt c) s := by
  cases c with
  | mnetInit | mnetFini => exact absurd trivial hres
  | channConnect | channListen | channActiveEvent | channSend | dgramSend | resultNext | multiResetEvent =>
    exact absurd trivial hask
  | multiAcceptBalancer on => exact Within.ret (silent_modifyMnet fun _ => rfl)
  | extRegister ctype => exact Within.ret silent_mnetExtRegister
  | poll => exact Within.ret silent_evtPoll
  | channOpen ctype => exact Within.ret silent_mnetChannOpen
  | channClose n => exact Within.ret silent_mnetChannClose
  | channDisconnect n => exact Within.ret silent_mnetChannDisconnect
  | channSetOpaque n p => exact Within.ret silent_mnetChannSetOpaque
  | channRecv n buf len => exact Within.ret silent_mnetChannRecv
  | dgramRecv n buf len => exact Within.ret silent_mnetDgramRecv
  | socketSetBufsize n size => exact Within.ret silent_mnetChannSocketSetBufsize

end NoExt

end MNet
