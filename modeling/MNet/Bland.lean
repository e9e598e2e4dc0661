import MNet.Moves.Api

/-! # What most calls leave alone

Most of the library has nothing to do with the data of a channel, its timer and its messages: it
makes sockets, registers them and keeps lists. `Bland` says so of a computation, and that time goes
on. Other computations leave less alone, so the relation is about any part of the channels and of
the library's own data. -/

namespace MNet
open MNet.Lib MNet.Lib.Exec

variable {ε : Type} {x : ExtTable ε} {s t : Sys ε} {n : ChannId} {c d : Chann}

/-- A call that neither transfers data nor hangs up. -/
def SysEvent.still : SysEvent → Prop
  | .sendFn .. | .recvFn .. | .extOp .disconnectCb _ => False
  | _ => True

/-- Time goes on, and the history grows by such calls. -/
structure Kernel.Later (k k' : Kernel) : Prop where
  oracle : k'.oracle = k.oracle
  tick : k.tick ≤ k'.tick
  trace : ∃ l, (∀ e ∈ l, e.still) ∧ k'.trace = l ++ k.trace

namespace Kernel.Later

variable {k k' k'' : Kernel}

theorem refl (k : Kernel) : k.Later k := ⟨rfl, Nat.le_refl _, [], by simp, rfl⟩

theorem trans (h : k.Later k') (h' : k'.Later k'') : k.Later k'' where
  oracle := h'.oracle.trans h.oracle
  tick := Nat.le_trans h.tick h'.tick
  trace := by
    obtain ⟨l, hl, ht⟩ := h.trace
    obtain ⟨l', hl', ht'⟩ := h'.trace
    refine ⟨l' ++ l, fun e he => ?_, by rw [ht', ht, List.append_assoc]⟩
    exact (List.mem_append.mp he).elim (hl' e) (hl e)

end Kernel.Later

/-- Channels are made at addresses no channel has. -/
def Fresh (s : Sys ε) : Prop := ∀ n, s.nextChann ≤ n → s.heap n = none

theorem Fresh.lt (h : Fresh s) (hc : s.heap n = some c) : n < s.nextChann := by
  by_contra hn
  rw [h n (Nat.le_of_not_lt hn)] at hc
  cases hc

theorem Fresh.update (h : Fresh s) (hc : s.heap n = some c) (hheap : t.heap = Function.update s.heap n (some d))
    (hnext : t.nextChann = s.nextChann) : Fresh t := by
  intro m hm
  rw [hnext] at hm
  rw [hheap, Function.update_of_ne (Nat.ne_of_gt (Nat.lt_of_lt_of_le (h.lt hc) hm))]
  exact h m hm

theorem Fresh.set (h : Fresh s) (hc : s.heap n = some c) (d : Chann) : Fresh (s.setChann n d) :=
  h.update hc rfl rfl

/-- A channel that nothing has happened to. -/
def Chann.blank : Chann := { state := .closed, ctype := 0 }

/-- The part `f` of the channels and the part `g` of the library's own data are left alone. In a new
channel the part `f` is that of one that nothing has happened to. -/
structure Leaves {α β : Type} (f : Chann → α) (g : Mnet → NodeId → β) (s t : Sys ε) : Prop where
  chann : ∀ n < s.nextChann, (t.heap n).map f = (s.heap n).map f
  blank : Fresh s → Fresh t ∧ ∀ n d, s.nextChann ≤ n → t.heap n = some d → f d = f .blank
  nextChann : s.nextChann ≤ t.nextChann
  lib : g t.mnet t.nextNode = g s.mnet s.nextNode
  kernel : s.kernel.Later t.kernel

namespace Leaves

variable {α β α' β' : Type} {f : Chann → α} {g : Mnet → NodeId → β}

/-- The channels are the same. -/
theorem of_heap (hheap : t.heap = s.heap) (hnext : t.nextChann = s.nextChann)
    (hlib : g t.mnet t.nextNode = g s.mnet s.nextNode) (hkernel : s.kernel.Later t.kernel) : Leaves f g s t where
  chann n _ := by rw [hheap]
  blank hs := by
    have ht : Fresh t := fun n hn => by
      rw [hheap]
      exact hs n (hnext ▸ hn)
    refine ⟨ht, fun n d hn hd => ?_⟩
    rw [ht n (hnext ▸ hn)] at hd
    cases hd
  nextChann := Nat.le_of_eq hnext.symm
  lib := hlib
  kernel := hkernel

theorem refl (s : Sys ε) : Leaves f g s s := of_heap rfl rfl rfl (.refl _)

theorem trans {a : Sys ε} (h : Leaves f g s a) (h' : Leaves f g a t) : Leaves f g s t where
  chann n hn := (h'.chann n (Nat.lt_of_lt_of_le hn h.nextChann)).trans (h.chann n hn)
  blank hs := by
    obtain ⟨ha, hblank⟩ := h.blank hs
    obtain ⟨ht, hblank'⟩ := h'.blank ha
    refine ⟨ht, fun n d hn hd => ?_⟩
    by_cases hlt : n < a.nextChann
    · have he := h'.chann n hlt
      rw [hd, Option.map_some] at he
      obtain ⟨c, hc, he⟩ := Option.map_eq_some_iff.mp he.symm
      rw [← he]
      exact hblank n c hn hc
    · exact hblank' n d (Nat.le_of_not_lt hlt) hd
  nextChann := Nat.le_trans h.nextChann h'.nextChann
  lib := h'.lib.trans h.lib
  kernel := h.kernel.trans h'.kernel

/-- What leaves something alone leaves alone what is made of it. -/
theorem mono {f' : Chann → α'} {g' : Mnet → NodeId → β'} (h : Leaves f g s t) (φ : α → α')
    (hf : ∀ c, f' c = φ (f c)) (ψ : β → β') (hg : ∀ ss i, g' ss i = ψ (g ss i)) : Leaves f' g' s t where
  chann n hn := by
    have he := congrArg (Option.map φ) (h.chann n hn)
    rw [Option.map_map, Option.map_map, ← show f' = φ ∘ f from funext hf] at he
    exact he
  blank hs := by
    obtain ⟨ht, hblank⟩ := h.blank hs
    refine ⟨ht, fun n d hn hd => ?_⟩
    rw [hf, hf, hblank n d hn hd]
  nextChann := h.nextChann
  lib := by rw [hg, hg, h.lib]
  kernel := h.kernel

/-- One channel is written to. -/
theorem of_set (hc : s.heap n = some c) (hd : f d = f c) : Leaves f g s (s.setChann n d) where
  chann m _ := by
    by_cases hm : m = n
    · rw [hm, hc]
      simp [Sys.setChann, hd]
    · simp [Sys.setChann, Function.update_of_ne hm]
  blank hs := by
    refine ⟨hs.set hc d, fun m e hm he => ?_⟩
    rw [hs.set hc d m hm] at he
    cases he
  nextChann := Nat.le_refl _
  lib := rfl
  kernel := .refl _

/-- A channel that is there, before and after. -/
theorem was (h : Leaves f g s t) (hn : n < s.nextChann) (hd : t.heap n = some d) :
    ∃ c, s.heap n = some c ∧ f c = f d := by
  have he := h.chann n hn
  rw [hd, Option.map_some] at he
  exact Option.map_eq_some_iff.mp he.symm

theorem stays (h : Leaves f g s t) (hn : n < s.nextChann) (hc : s.heap n = some c) :
    ∃ d, t.heap n = some d ∧ f d = f c := by
  have he := h.chann n hn
  rw [hc, Option.map_some] at he
  exact Option.map_eq_some_iff.mp he

theorem fresh (h : Leaves f g s t) (hs : Fresh s) : Fresh t := (h.blank hs).1

end Leaves

section

variable {α β : Type} {f : Chann → α} {g : Mnet → NodeId → β}

instance : Std.Refl (Leaves (ε := ε) f g) := ⟨Leaves.refl⟩

instance : IsTrans (Sys ε) (Leaves f g) := ⟨fun _ _ _ => Leaves.trans⟩

/-! ## Writes -/

theorem leaves_modifyChann {w : Chann → Chann} (hw : ∀ c, f (w c) = f c) :
    Within (Leaves f g) (modifyChann n w) s := by
  intro _ t h
  obtain ⟨c, hc, rfl⟩ := returns_modifyChann.mp h
  exact .of_set hc (hw c)

theorem leaves_modifyMnet {w : Mnet → Mnet} (hw : ∀ ss i, g (w ss) i = g ss i) :
    Within (Leaves f g) (modifyMnet w) s := by
  intro _ t h
  rw [returns_modifyMnet] at h
  subst h
  exact .of_heap rfl rfl (hw _ _) (.refl _)

theorem leaves_modifyKernel {w : Kernel → Kernel} (hw : ∀ k : Kernel, k.Later (w k)) :
    Within (Leaves f g) (modifyKernel w : M ε Unit) s := by
  intro _ t h
  rw [returns_modifyKernel] at h
  subst h
  exact .of_heap rfl rfl rfl (hw _)

end

/-- What a channel keeps of its data, its timer and its messages. -/
def Chann.held (c : Chann) : Chann :=
  { c with
    fd := 0, state := .closed, ctype := 0, extUd := 0, addr := {}, prev := none, next := none
    delNext := none, bufSize := 0, activeSendEvent := false, epollEvents := 0 }

/-- The queue of reports and the timers. -/
def Mnet.held (ss : Mnet) (i : NodeId) :
    Option ChannId × Bool × Option (List TmNode) × Option TmLink × Int × NodeId :=
  (ss.disChanns, ss.isInit, ss.tmClock, ss.tmPos, ss.tmCurrent, i)

abbrev Bland : Sys ε → Sys ε → Prop := Leaves Chann.held Mnet.held

/-- A write to the kernel's tables. -/
theorem bland_tables {f : Kernel → Kernel} (hf : ∀ k, (f k).oracle = k.oracle ∧ (f k).tick = k.tick ∧
    (f k).trace = k.trace) : Within Bland (modifyKernel f : M ε Unit) s :=
  leaves_modifyKernel fun k => ⟨(hf k).1, Nat.le_of_eq (hf k).2.1.symm, [], by simp, (hf k).2.2⟩

theorem bland_record {e : SysEvent} (he : e.still) : Within Bland (record e : M ε Unit) s :=
  leaves_modifyKernel fun _ => ⟨rfl, Nat.le_refl _, [e], by simpa using he, rfl⟩

theorem bland_recorded {e : SysEvent} (he : e.still) (s : Sys ε) : Bland s (s.recorded e) :=
  bland_record he () _ (returns_record.mpr rfl)

/-! ## System calls -/

theorem bland_nextTick : Within Bland (nextTick : M ε Nat) s :=
  .read_bind <| .bind (leaves_modifyKernel fun k => ⟨rfl, Nat.le_succ k.tick, [], by simp, rfl⟩)
    fun _ _ _ => within_pure _

theorem bland_sysRet : Within Bland (sysRet : M ε Int) s :=
  .read_bind <| .bind bland_nextTick fun _ _ _ => .bind (bland_tables fun k => by
    split
    · exact ⟨rfl, rfl, rfl⟩
    · exact ⟨rfl, rfl, rfl⟩) fun _ _ _ => within_pure _

theorem bland_sysNewFd : Within Bland (sysNewFd : M ε Int) s :=
  .bind bland_sysRet fun _ _ _ => .read_bind <| .ite
    (fun _ => .bind (bland_tables fun _ => ⟨rfl, rfl, rfl⟩) fun _ _ _ => within_pure _)
    fun _ => within_pure _

theorem bland_sysSocket : Within Bland (sysSocket : M ε Int) s :=
  .bind bland_sysNewFd fun _ _ _ => (bland_record (by trivial)).bind fun _ _ _ => within_pure _

theorem bland_sysAccept (lfd : Int) : Within Bland (sysAccept lfd : M ε (Int × SockAddr)) s :=
  .read_bind <| .bind bland_sysNewFd fun _ _ _ => (bland_record (by trivial)).bind fun _ _ _ => within_pure _

theorem bland_acFn (lfd : Int) : Within Bland (acFn lfd : M ε (Int × SockAddr)) s :=
  .read_bind <| .ite
    (fun _ => .bind bland_sysRet fun _ _ _ => .ite
      (fun _ => (bland_sysAccept lfd).bind fun _ _ _ => .bind bland_sysRet fun _ _ _ => within_pure _)
      fun _ => within_pure _)
    fun _ => bland_sysAccept lfd

theorem bland_sysClose (fd : Int) : Within Bland (sysClose fd : M ε Unit) s :=
  .bind bland_sysRet fun _ _ _ => .bind (bland_tables fun _ => ⟨rfl, rfl, rfl⟩) fun _ _ _ => bland_record (by trivial)

theorem bland_sysSetup (fd : Int) : Within Bland (sysSetup fd : M ε Int) s :=
  .bind bland_sysRet fun _ _ _ => (bland_record (by trivial)).bind fun _ _ _ => within_pure _

theorem bland_setBufsize (fd size : Int) : Within Bland (setBufsize fd size : M ε Int) s :=
  (bland_sysSetup fd).bind fun _ _ _ => (bland_sysSetup fd).bind fun _ _ _ => within_pure _

theorem bland_setNonblocking (fd : Int) : Within Bland (setNonblocking fd : M ε Int) s :=
  .bind bland_sysRet fun _ _ _ => .ite
    (fun _ => .bind bland_sysRet fun _ _ _ => (bland_record (by trivial)).bind fun _ _ _ => within_pure _)
    fun _ => (bland_record (by trivial)).bind fun _ _ _ => within_pure _

theorem bland_sysConnect (fd : Int) (addr : SockAddr) : Within Bland (sysConnect fd addr : M ε Int) s :=
  .bind bland_sysRet fun _ _ _ => .read_bind <| (bland_record (by trivial)).bind fun _ _ _ => within_pure _

theorem bland_sysSockError (fd : Int) : Within Bland (sysSockError fd : M ε (Int × Int)) s :=
  .read_bind <| .bind bland_sysRet fun _ _ _ => within_pure _

theorem bland_sysEpollWait (size : Nat) : Within Bland (sysEpollWait size : M ε (Option (List Kev))) s :=
  .read_bind <| .bind bland_sysRet fun _ _ _ => within_pure _

theorem bland_sysSend (fd : Int) (data : List UInt8) : Within Bland (sysSend fd data : M ε Int) s :=
  .bind bland_sysRet fun _ _ _ => .bind (bland_tables fun k => by
    cases k.socks fd with
    | none => exact ⟨rfl, rfl, rfl⟩
    | some i => exact ⟨rfl, rfl, rfl⟩) fun _ _ _ => (bland_record (by trivial)).bind fun _ _ _ => within_pure _

theorem bland_sysSendto (fd : Int) (addr : SockAddr) (data : List UInt8) :
    Within Bland (sysSendto fd addr data : M ε Int) s :=
  .bind bland_sysRet fun _ _ _ => (bland_record (by trivial)).bind fun _ _ _ => within_pure _

theorem bland_sysRecv (fd : Int) (len : Nat) : Within Bland (sysRecv fd len : M ε (Int × SockAddr)) s :=
  .read_bind <| .bind bland_sysRet fun _ _ _ => (bland_record (by trivial)).bind fun _ _ _ => within_pure _

/-! ## The event queue -/

theorem bland_sysEpollCtl (op : CtlOp) (fd : Int) (reg : EpollReg) :
    Within Bland (sysEpollCtl op fd reg : M ε Int) s :=
  .bind bland_nextTick fun _ _ _ => .read_bind <| .ite
    (fun _ => .bind (bland_tables fun _ => ⟨rfl, rfl, rfl⟩) fun _ _ _ =>
      (bland_record (by trivial)).bind fun _ _ _ => within_pure _)
    fun _ => .bind (bland_tables fun _ => ⟨rfl, rfl, rfl⟩) fun _ _ _ =>
      (bland_record (by trivial)).bind fun _ _ _ => within_pure _

theorem bland_evtCtl (op : CtlOp) (events : BitVec 32) : Within Bland (evtCtl n op events : M ε Int) s :=
  .bind (.deref_bind fun _ _ => .read_bind <| .ite (fun _ => bland_sysEpollCtl _ _ _) fun _ => within_pure _)
    fun _ _ _ => .ite (fun _ => within_pure _)
      fun _ => .bind (leaves_modifyChann fun _ => rfl) fun _ _ _ => within_pure _

theorem bland_evtAdd (set : EvtSet) : Within Bland (evtAdd n set : M ε Int) s :=
  .deref_bind fun _ _ => bland_evtCtl _ _

theorem bland_evtDel (set : EvtSet) : Within Bland (evtDel n set : M ε Int) s :=
  .deref_bind fun _ _ => bland_evtCtl _ _

/-- A new queue, or none. -/
theorem bland_queue (s : Sys ε) (on : Bool) :
    Bland s { s with
      mnet := { s.mnet with kq := on, evtArray := [] }, kernel := { s.kernel with epoll := fun _ => none } } :=
  .of_heap rfl rfl rfl ⟨rfl, Nat.le_refl _, [], by simp, rfl⟩

theorem bland_evtInit : Within Bland (evtInit : M ε Unit) s := by
  intro _ t h
  rw [evtInit, returns_modify] at h
  subst h
  split
  · exact .refl s
  · exact bland_queue s true

theorem bland_evtFini : Within Bland (evtFini : M ε Unit) s := by
  intro _ t h
  rw [evtFini, returns_modify] at h
  subst h
  split
  · exact bland_queue s false
  · exact .refl s

theorem bland_resetLoop {fuel : Nat} {p : Option ChannId} : Within Bland (resetLoop fuel p : M ε Unit) s := by
  induction fuel generalizing s p with
  | zero =>
    cases p with
    | none => exact within_pure ()
    | some n => exact within_fail
  | succ fuel ih =>
    cases p with
    | none => exact within_pure ()
    | some n =>
      exact .bind (leaves_modifyChann fun _ => rfl) fun _ _ _ => (bland_evtAdd _).bind
        fun _ _ _ => .deref_bind fun _ _ => ih

theorem bland_mnetMultiResetEvent : Within Bland (mnetMultiResetEvent : M ε Unit) s :=
  .bind bland_evtFini fun _ _ _ => .bind bland_evtInit fun _ _ _ => .read_bind <| .read_bind bland_resetLoop

/-! ## Timers -/

/-- Neither part has to do with timers. -/
structure Untimed {α β : Type} (f : Chann → α) (g : Mnet → NodeId → β) : Prop where
  chann : ∀ c p, f { c with timerNode := p } = f c
  lib : ∀ ss clock pos now i j, g { ss with tmClock := clock, tmPos := pos, tmCurrent := now } i = g ss j

section Untimed

variable {α β : Type} {f : Chann → α} {g : Mnet → NodeId → β} (hu : Untimed f g)
include hu

theorem Untimed.setClock (clock : List TmNode) : Within (Leaves f g) (setClock clock : M ε Unit) s :=
  leaves_modifyMnet fun ss i => hu.lib ss (some clock) ss.tmPos ss.tmCurrent i i

theorem Untimed.setTmPos (p : Option TmLink) : Within (Leaves f g) (setTmPos p : M ε Unit) s :=
  leaves_modifyMnet fun ss i => hu.lib ss ss.tmClock p ss.tmCurrent i i

theorem Untimed.newNode (tm : ChannTm) : Within (Leaves f g) (newNode tm : M ε NodeId) s := by
  refine .derefClock_bind fun _ => .read_bind <| .bind (fun _ t h => ?_) fun _ _ _ =>
    (hu.setClock _).bind fun _ _ _ => within_pure _
  rw [returns_modify] at h
  subst h
  exact .of_heap rfl rfl (hu.lib s.mnet s.mnet.tmClock s.mnet.tmPos s.mnet.tmCurrent _ _) (.refl _)

theorem Untimed.removeNode (id : NodeId) : Within (Leaves f g) (removeNode id : M ε Unit) s :=
  .derefClock_bind fun _ => hu.setClock _

omit hu in
theorem leaves_sysClock : Within (Leaves f g) (sysClock : M ε Int) s :=
  .read_bind <| .bind (.read_bind <| .bind
    (leaves_modifyKernel fun k => ⟨rfl, Nat.le_succ k.tick, [], by simp, rfl⟩) fun _ _ _ => within_pure _)
    fun _ _ _ => within_pure _

omit hu in
theorem leaves_derefNode (id : NodeId) : Within (Leaves f g) (derefNode id : M ε TmNode) s :=
  .derefClock_bind fun _ => within_require _ _

theorem Untimed.tmActive (interval : Int) : Within (Leaves f g) (tmActive n interval : M ε Unit) s :=
  .bind leaves_sysClock fun _ _ _ => (hu.newNode _).bind fun _ _ _ => leaves_modifyChann fun c => hu.chann c _

theorem Untimed.tmUpdate (interval : Int) : Within (Leaves f g) (tmUpdate n interval : M ε Unit) s :=
  .deref_bind fun _ _ => .require_bind fun _ _ => (leaves_derefNode _).bind fun _ _ _ =>
    .bind leaves_sysClock fun _ _ _ => (hu.removeNode _).bind fun _ _ _ => (hu.newNode _).bind fun _ _ _ =>
      leaves_modifyChann fun c => hu.chann c _

theorem Untimed.tmKill : Within (Leaves f g) (tmKill n : M ε Unit) s := by
  refine .deref_bind fun c _ => ?_
  cases c.timerNode with
  | none => exact within_pure ()
  | some id =>
    exact (leaves_derefNode id).bind fun _ _ _ => (hu.removeNode id).bind fun _ _ _ =>
      leaves_modifyChann fun c => hu.chann c _

theorem Untimed.tmSchedule : Within (Leaves f g) (tmSchedule : M ε Unit) s := by
  refine .derefClock_bind fun clock => ?_
  cases clock with
  | nil => exact hu.setTmPos _
  | cons node clock =>
    exact .bind leaves_sysClock fun now _ _ => .ite (fun _ => hu.setTmPos _)
      fun _ => leaves_modifyMnet fun ss i => hu.lib ss ss.tmClock (some (.node node.id)) now i i

theorem Untimed.activeTimer {value : Int} : Within (Leaves f g) (activeTimer n value : M ε Unit) s :=
  .deref_bind fun _ _ => .ite
    (fun _ => .ite (fun _ => hu.tmUpdate _) fun _ => hu.tmActive _)
    fun _ => .ite (fun _ => hu.tmKill) fun _ => within_pure ()

end Untimed

/-! ## Channels -/

theorem Created.bland {ctype : Nat} {st : ChannState} (h : Created n ctype st s t)
    (hnode : t.nextNode = s.nextNode) : Bland s t where
  chann m hm := by
    have hne : m ≠ n := Nat.ne_of_lt (h.id ▸ hm)
    rw [h.others m hne, Option.map_map]
    refine congrArg (fun g => (s.heap m).map g) (funext fun c => ?_)
    show (if s.mnet.channs = some m then { c with prev := some n } else c).held = c.held
    split <;> rfl
  blank hs := by
    have ht : Fresh t := fun m hm => by
      rw [h.nextChann] at hm
      have hnone := hs m (by rw [← h.id]; exact Nat.le_of_lt hm)
      have hm := h.others m (Nat.ne_of_gt hm)
      rw [hnone] at hm
      exact hm
    refine ⟨ht, fun m d hm hd => ?_⟩
    have hlt := ht.lt hd
    rw [h.nextChann, h.id] at hlt
    obtain rfl : m = n := by
      rw [h.id]
      exact Nat.le_antisymm (Nat.le_of_lt_succ hlt) hm
    obtain ⟨p, hp⟩ := h.chann
    rw [hp, Option.some.injEq] at hd
    rw [← hd]
    rfl
  nextChann := by
    rw [h.nextChann, h.id]
    exact Nat.le_succ _
  lib := by
    rw [h.mnet, hnode]
    rfl
  kernel := h.kernel ▸ .refl _

theorem bland_channCreate (ctype : Nat) (st : ChannState) :
    Within Bland (channCreate ctype st : M ε ChannId) s := by
  intro n t h
  refine (channCreate_created h).bland ?_
  simp only [channCreate, returns_bind, returns_read, returns_readMnet, returns_modify, returns_pure,
    returns_modifyMnet, and_assoc, exists_and_left, exists_eq_left] at h
  obtain ⟨_, _, _, a, hhead, _, _, rfl, _, rfl⟩ := h
  cases hc : s.mnet.channs with
  | none =>
    rw [hc] at hhead
    rw [returns_forSome_none.mp hhead]
    rfl
  | some m =>
    rw [hc] at hhead
    obtain ⟨_, _, rfl⟩ := returns_modifyChann.mp (returns_forSome_some.mp hhead)
    rfl

theorem bland_unlinkChann : Within Bland (unlinkChann n : M ε Unit) s := by
  refine .deref_bind fun c _ =>
    .bind (.forSome fun _ _ => leaves_modifyChann fun _ => rfl) fun _ _ _ => ?_
  cases c.prev with
  | none => exact leaves_modifyMnet fun _ _ => rfl
  | some m => exact leaves_modifyChann fun _ => rfl

theorem bland_channGetErr : Within Bland (channGetErr n : M ε Int) s :=
  .deref_bind fun _ _ => (bland_sysSockError _).bind fun _ _ _ => within_pure _

theorem bland_allOk {ms : List (M ε Int)} (h : ∀ m ∈ ms, ∀ s, Within Bland m s) : Within Bland (allOk ms) s := by
  induction ms generalizing s with
  | nil => exact within_pure true
  | cons m ms ih =>
    refine (h m (by simp) s).bind fun r _ _ => .ite (fun _ => within_pure false) fun _ => ?_
    exact ih fun m hm => h m (List.mem_cons_of_mem _ hm)

theorem bland_channOpenSocket (host : Option Nat) (port : Int) (backlog : BitVec 32) :
    Within Bland (channOpenSocket x n host port backlog) s := by
  refine .deref_bind fun c _ => .ite (fun _ => .bind bland_sysSocket fun f _ _ => .ite (fun _ => ?_)
    fun _ => within_pure _) fun _ => within_pure _
  refine .bind (leaves_modifyChann fun _ => rfl) fun _ _ _ => (bland_allOk fun m hm s => ?_).bind fun _ _ _ =>
    .ite (fun _ => within_pure _) fun _ => (bland_sysClose _).bind fun _ _ _ => within_pure _
  simp only [List.mem_append, List.mem_cons, List.not_mem_nil, or_false] at hm
  rcases hm with ((((((rfl | hm) | hm) | rfl) | hm) | hm) | rfl)
  · exact bland_sysSetup f
  · rw [mem_ite_singleton hm]
    exact bland_sysSetup f
  · rw [mem_ite_singleton hm]
    exact bland_sysSetup f
  · exact bland_setNonblocking f
  · rw [mem_ite_singleton hm]
    exact bland_sysSetup f
  · rw [mem_ite_singleton hm]
    exact bland_sysSetup f
  · exact bland_setBufsize f _

theorem bland_activeSend {value : Bool} : Within Bland (activeSend n value : M ε Unit) s :=
  .bind (leaves_modifyChann fun _ => rfl) fun _ _ _ => .ite
    (fun _ => (bland_evtAdd _).bind fun _ _ _ => within_pure _)
    fun _ => .deref_bind fun _ _ => .ite
      (fun _ => (bland_evtDel _).bind fun _ _ _ => within_pure _) fun _ => within_pure _

theorem bland_mnetExtRegister {ctype : Nat} : Within Bland (mnetExtRegister x ctype) s :=
  .ite (fun _ => within_pure _) fun _ => .read_bind <| .ite
    (fun _ => .bind (leaves_modifyMnet fun _ _ => rfl) fun _ _ _ => within_pure _) fun _ => within_pure _

theorem bland_mnetChannSocketSetBufsize {n : Option ChannId} {size : Int} :
    Within Bland (mnetChannSocketSetBufsize n size : M ε Int) s := by
  cases n with
  | none => exact within_pure _
  | some n =>
    exact .ite (fun _ => .bind (leaves_modifyChann fun _ => rfl) fun _ _ _ => .deref_bind fun _ _ =>
      .ite (fun _ => bland_setBufsize _ _) fun _ => within_pure _) fun _ => within_pure _

/-! ## Transfers of the internal types -/

theorem bland_wouldBlock (r : Int) : Within Bland (wouldBlock r : M ε Int) s :=
  .read_bind <| within_pure _

theorem bland_internal_recvFn (ctype len : Nat) :
    Within Bland ((internalExt ctype : Ext ε).recvFn n len) s := by
  show Within Bland ((if ctype = CHANN_TYPE_STREAM then extStreamRecv else extDgramRecv) n len) s
  split
  · exact .deref_bind fun _ _ => (bland_sysRecv _ _).bind fun _ _ _ => bland_wouldBlock _
  · exact .deref_bind fun _ _ => (bland_sysRecv _ _).bind fun _ _ _ =>
      .bind (leaves_modifyChann fun c => by split <;> rfl) fun _ _ _ => bland_wouldBlock _

theorem bland_internal_sendFn (ctype : Nat) (data : List UInt8) :
    Within Bland ((internalExt ctype : Ext ε).sendFn n data) s := by
  show Within Bland ((if ctype = CHANN_TYPE_STREAM then extStreamSend else extDgramSend) n data) s
  split
  · exact .deref_bind fun _ _ => (bland_sysSend _ _).bind fun _ _ _ => bland_wouldBlock _
  · exact .deref_bind fun _ _ => (bland_sysSendto _ _ _).bind fun _ _ _ => bland_wouldBlock _

end MNet
