import Mathlib.Data.List.Perm.Subperm
import MNet.Wepoll.Sock

/-! # The functions of the port

`port_ctl` and the two halves of `port_wait`, on a sound port: each returns and leaves the port sound,
and what the user asked for on the sockets is as a call says. -/

namespace MNet.Wepoll

open Lib Lib.Exec

variable {τ : Type} {p : Port τ} {e e' e'' : Epoll τ} {env : WinEnv} {s : SockId} {k : Nat} {ev : EpollEvent}
  {rest : List SockId} {closed : Prop}

namespace Epoll

/-- A socket is added to the set. -/
structure Adopts (e : Epoll τ) (s : SockId) (k : Nat) (ev : EpollEvent) (e' : Epoll τ) : Prop where
  iocpHandle : e'.iocpHandle = e.iocpHandle
  activePollCount : e'.activePollCount = e.activePollCount
  waiters : e'.waiters = e.waiters
  tree : e'.tree = s :: e.tree
  key : e'.key = Function.update e.key s k
  watch : e'.watch = Function.update e.watch s (some ev.armed)
  fresh : s ∉ e.tree
  free : ∀ z ∈ e.tree, e.key z ≠ k

/-- The user is told of the events `l`, one after the other, and sockets that were closed go. -/
inductive Tells (closed : Prop) : Epoll τ → List (SockId × EpollEvent) → Epoll τ → Prop
  | done {e e' : Epoll τ} : e.Shrinks closed e' → Tells closed e [] e'
  | tell {e e₁ e₂ e' : Epoll τ} {s : SockId} {ev : EpollEvent} {l : List (SockId × EpollEvent)} :
    e.Shrinks closed e₁ → e₁.Reports s ev e₂ → Tells closed e₂ l e' → Tells closed e ((s, ev) :: l) e'

theorem Tells.shrink {l : List (SockId × EpollEvent)} (hk : e.Shrinks closed e')
    (h : e'.Tells closed l e'') : e.Tells closed l e'' := by
  cases h with
  | done hk' => exact .done (hk.trans hk')
  | tell hk' hr h => exact .tell (hk.trans hk') hr h

theorem Tells.then_shrink {l : List (SockId × EpollEvent)} (h : e.Tells closed l e')
    (hk : e'.Shrinks closed e'') : e.Tells closed l e'' := by
  induction h with
  | done hk' => exact .done (hk'.trans hk)
  | tell hk' hr _ ih => exact .tell hk' hr (ih hk)

/-- The socket is removed from the set. -/
def Removes (e : Epoll τ) (s : SockId) (e' : Epoll τ) : Prop := e.Keeps True e' ∧ e'.tree = e.tree.erase s

/-- No socket waits to be looked at while threads wait for packets. -/
def Prompt (e : Epoll τ) : Prop := 0 < e.activePollCount → e.update = []

theorem Linked.update_le (h : e.Linked) : e.update.length ≤ e.allocated :=
  (List.subperm_of_subset h.nodupUpdate h.update).length_le.trans h.tree_le

end Epoll

namespace Port.Shows

/-! ## Updating -/

theorem portUpdateEventsLoop_ends {fuel : Nat} (h : p.Shows e) (hs : e.Sound closed rest) (hc : env.Closes → closed)
    (hfuel : e.update.length < fuel) :
    Ends (portUpdateEventsLoop env fuel) p fun r p' => ∃ e', p'.Shows e' ∧ e'.Sound closed rest ∧ e.Keeps closed e' ∧
      ((r = 0 ∧ e'.update = []) ∨ (r = -1 ∧ ¬ env.Answers)) := by
  induction fuel generalizing p e with
  | zero => omega
  | succ fuel ih =>
    simp only [portUpdateEventsLoop, ends_bind, ends_read, h.first_update]
    cases hu : e.update with
    | nil => exact ends_pure.mpr ⟨e, h, hs, .refl e, .inl ⟨rfl, hu⟩⟩
    | cons s l =>
      have hmem : s ∈ e.update := hu ▸ List.mem_cons_self
      simp only [List.head?_cons, Option.map_some, ends_bind, ends_sockStateFromQueueNode]
      refine (h.sockUpdate_ends hs hmem hc).mono fun r p₁ h₁ => ?_
      obtain ⟨e₁, h₁, hs₁, hk₁, ⟨rfl, hu₁⟩ | ⟨rfl, hno, _⟩⟩ := h₁
      · simp only [lt_irrefl, if_false]
        have hlen : e₁.update.length < fuel := by
          rw [hu₁, List.length_erase_of_mem hmem]
          have : 0 < e.update.length := List.length_pos_of_mem hmem
          omega
        refine (ih h₁ hs₁ hlen).mono fun r p₂ h₂ => ?_
        obtain ⟨e₂, h₂, hs₂, hk₂, hr⟩ := h₂
        exact ⟨e₂, h₂, hs₂, hk₁.trans hk₂, hr⟩
      · simp only [Int.reduceNeg, Int.reduceLT, if_true]
        exact ends_pure.mpr ⟨e₁, h₁, hs₁, hk₁, .inr ⟨rfl, hno⟩⟩

theorem portUpdateEvents_ends (h : p.Shows e) (hs : e.Sound closed rest) (hc : env.Closes → closed) :
    Ends (portUpdateEvents env) p fun r p' => ∃ e', p'.Shows e' ∧ e'.Sound closed rest ∧ e.Keeps closed e' ∧
      ((r = 0 ∧ e'.update = []) ∨ (r = -1 ∧ ¬ env.Answers)) := by
  simp only [portUpdateEvents, ends_bind, ends_read]
  refine h.portUpdateEventsLoop_ends hs hc ?_
  rw [Port.fuel, h.allocated]
  have := hs.linked.update_le
  omega

theorem portUpdateEventsIfPolling_ends (h : p.Shows e) (hs : e.Sound closed rest) (hc : env.Closes → closed) :
    Ends (portUpdateEventsIfPolling env) p fun _ p' => ∃ e', p'.Shows e' ∧ e'.Sound closed rest ∧ e.Keeps closed e' ∧
      (env.Answers → e'.Prompt) := by
  simp only [portUpdateEventsIfPolling, ends_bind, ends_read, h.activePollCount, ends_ite, ends_pure]
  refine ⟨fun hpos => ?_, fun hzero => ⟨e, h, hs, .refl e, fun _ hpos => absurd hpos hzero⟩⟩
  refine (h.portUpdateEvents_ends hs hc).mono fun r p' h' => ?_
  obtain ⟨e', h', hs', hk, hr⟩ := h'
  refine ⟨e', h', hs', hk, fun ha _ => ?_⟩
  rcases hr with ⟨_, hu⟩ | ⟨_, hno⟩
  · exact hu
  · exact absurd ha hno

/-! ## `epoll_ctl` -/

/-- The outcome of `epoll_ctl`: an error, because of `Q`, that changes nothing, or the change `P`, after
which sockets leave only when `loses`. -/
def Called (e : Epoll τ) (env : WinEnv) (closed loses Q : Prop) (P : Epoll τ → Prop) (r : Int) (p : Port τ) : Prop :=
  ∃ e', p.Shows e' ∧ e'.Sound closed [] ∧ (e.Prompt → env.Answers → e'.Prompt) ∧
    ((r = -1 ∧ Q ∧ e.Keeps False e') ∨ (r = 0 ∧ ∃ e₁, P e₁ ∧ e₁.Keeps loses e'))

theorem Called.error {loses Q : Prop} {P : Epoll τ → Prop} (h : p.Shows e') (hs : e'.Sound closed []) (hk : e.Keeps False e')
    (hu : e'.update = e.update) (hq : Q) : Called e env closed loses Q P (-1) p := by
  refine ⟨e', h, hs, ?_, .inl ⟨rfl, hq, hk⟩⟩
  intro hp _ hpos
  rw [hu]
  exact hp (hk.activePollCount ▸ hpos)

theorem portCtlAdd_ends (h : p.Shows e) (hs : e.Sound closed []) (hc : env.Closes → closed)
    (hopen : k ≠ 0 → k ≠ INVALID_SOCKET → env.baseSocket ≠ none →
      e.iocpHandle = true ∨ HasRoom e.groupQueue e.members) (hfit : env.Fits p) :
    Ends (portCtlAdd env k ev) p (Called e env closed closed True fun e₁ => ∃ s, e.Adopts s k ev e₁) := by
  simp only [portCtlAdd, ends_bind]
  refine (h.sockNew_ends hs hopen hfit).mono fun o p₁ h₁ => ?_
  rcases h₁ with ⟨rfl, e', h₁, hs₁, hk, hu⟩ | ⟨s, b, g, gs, q, rfl, hfree, hkey, hlen, hg, h₁⟩
  · exact ends_pure.mpr (.error h₁ hs₁ hk hu trivial)
  set v : SockState := { baseSocket := b, pollGroup := g } with hv
  have hsock : (e.adopt s v k gs q).socks s = some v := Function.update_self ..
  simp only [ends_bind]
  refine (h₁.sockSetEvent_put hsock).mono fun r p₂ h₂ => ?_
  obtain ⟨rfl, v', hv', h₂⟩ := h₂
  have hun : v'.unwatched ≠ 0 := unwatched_armed (congrArg SockState.userEvents hv') (congrArg SockState.pendingEvents hv')
  have hput : (e.adopt s v k gs q).put s v' = e.adopt s v' k gs q := by
    simp [Epoll.put, Epoll.onData, Epoll.adopt, PortData.setSock]
  rw [if_pos hun, hput] at h₂
  have hs₂ : ((e.adopt s v' k gs q).request s).Sound closed [] := by
    refine hs.adopt hfree (hv' ▸ rfl) (hv' ▸ rfl) hlen ?_
    rwa [show v'.pollGroup = g from hv' ▸ rfl]
  have hwatch : v'.watch = ev.armed := hv' ▸ rfl
  have hadopt : e.Adopts s k ev ((e.adopt s v' k gs q).request s) := by
    refine ⟨by simp; rfl, by simp; rfl, by simp; rfl, by simp; rfl, by simp; rfl, ?_, ?_, hkey⟩
    · exact hwatch ▸ Epoll.watch_update (by simp; rfl)
    · exact fun hin => (hs.linked.live s).mpr (List.mem_append_left _ hin) hfree
  simp only [lt_irrefl, if_false, ends_bind, ends_pure]
  refine (h₂.portUpdateEventsIfPolling_ends hs₂ hc).mono fun _ p₃ h₃ => ?_
  obtain ⟨e₃, h₃, hs₃, hk, ha⟩ := h₃
  exact ⟨e₃, h₃, hs₃, fun _ => ha, .inr ⟨rfl, _, ⟨s, hadopt⟩, hk⟩⟩

theorem portCtlMod_ends (h : p.Shows e) (hs : e.Sound closed []) (hc : env.Closes → closed) :
    Ends (portCtlMod env k ev) p (Called e env closed closed (∀ z ∈ e.tree, e.key z ≠ k) fun e₁ =>
      ∃ s ∈ e.tree, e.key s = k ∧ e.Arms s ev e₁) := by
  simp only [portCtlMod, ends_bind]
  refine (h.portFindSocket_ends hs.linked.tree_le).mono fun o p₁ h₁ => ?_
  obtain ⟨h₁, hfind⟩ := h₁
  cases o with
  | none => exact ends_pure.mpr (.error h₁ hs (.refl e) rfl fun z hz hk => absurd ((hfind z).mpr ⟨hz, hk⟩) (by simp))
  | some s =>
    obtain ⟨hst, hk⟩ := (hfind s).mp rfl
    simp only [ends_bind]
    refine (h₁.sockSetEvent_ends hs hst).mono fun r p₂ h₂ => ?_
    obtain ⟨rfl, e₂, h₂, hs₂, harm⟩ := h₂
    simp only [lt_irrefl, if_false, ends_bind, ends_pure]
    refine (h₂.portUpdateEventsIfPolling_ends hs₂ hc).mono fun _ p₃ h₃ => ?_
    obtain ⟨e₃, h₃, hs₃, hkeep, ha⟩ := h₃
    exact ⟨e₃, h₃, hs₃, fun _ => ha, .inr ⟨rfl, e₂, ⟨s, hst, hk, harm⟩, hkeep⟩⟩

theorem portCtlDel_ends (h : p.Shows e) (hs : e.Sound closed []) :
    Ends (portCtlDel env k) p (Called e env closed False (∀ z ∈ e.tree, e.key z ≠ k) fun e₁ =>
      ∃ s ∈ e.tree, e.key s = k ∧ e.Removes s e₁) := by
  simp only [portCtlDel, ends_bind]
  refine (h.portFindSocket_ends hs.linked.tree_le).mono fun o p₁ h₁ => ?_
  obtain ⟨h₁, hfind⟩ := h₁
  cases o with
  | none => exact ends_pure.mpr (.error h₁ hs (.refl e) rfl fun z hz hk => absurd ((hfind z).mpr ⟨hz, hk⟩) (by simp))
  | some s =>
    obtain ⟨hst, hk⟩ := (hfind s).mp rfl
    simp only [sockDelete, ends_bind, ends_pure]
    refine (h₁.sockDeleteWith_sound hs hst).mono fun r p₂ h₂ => ?_
    obtain ⟨rfl, e₂, h₂, hs₂, hkeep, htree, hu⟩ := h₂
    refine ⟨e₂, h₂, hs₂, ?_, .inr ⟨rfl, e₂, ⟨s, hst, hk, hkeep, htree⟩, .refl e₂⟩⟩
    intro hp _ hpos
    rw [hu, hp (hkeep.activePollCount ▸ hpos)]
    rfl

/-! ## `epoll_wait` -/

theorem portFeedEvents_ends {packets : List SockId} (h : p.Shows e) (hs : e.Sound closed packets) :
    Ends (portFeedEvents env packets) p fun evs p' => ∃ e' l, p'.Shows e' ∧ e'.Sound closed [] ∧ evs = l.map Prod.snd ∧
      (l.map Prod.fst).Sublist packets ∧ e.Tells closed l e' ∧ e'.waiters = e.waiters ∧
      e'.activePollCount = e.activePollCount ∧ e'.iocpHandle = e.iocpHandle := by
  induction packets generalizing p e with
  | nil =>
    exact ends_pure.mpr ⟨e, [], h, hs, rfl, .slnil, .done (.refl e), rfl, rfl, rfl⟩
  | cons s packets ih =>
    simp only [portFeedEvents, ends_bind, ends_pure]
    refine (h.sockFeedEvent_ends hs).mono fun o p₁ h₁ => ?_
    obtain ⟨e₁, h₁, hs₁, ⟨rfl, hk⟩ | ⟨ev, rfl, hr⟩⟩ := h₁
    · refine (ih h₁ hs₁).mono fun evs p₂ h₂ => ?_
      obtain ⟨e₂, l, h₂, hs₂, rfl, hsub, ht, hw, ha, hh⟩ := h₂
      exact ⟨e₂, l, h₂, hs₂, rfl, hsub.cons s, ht.shrink hk.shrinks, hw.trans hk.waiters,
        ha.trans hk.activePollCount, hh.trans hk.iocpHandle⟩
    · refine (ih h₁ hs₁).mono fun evs p₂ h₂ => ?_
      obtain ⟨e₂, l, h₂, hs₂, rfl, hsub, ht, hw, ha, hh⟩ := h₂
      exact ⟨e₂, (s, ev) :: l, h₂, hs₂, rfl, hsub.cons_cons s, .tell (.refl e) hr ht,
        hw.trans hr.waiters, ha.trans hr.activePollCount, hh.trans hr.iocpHandle⟩

section

variable [DecidableEq τ] {t : τ} {m : Nat}

/-- The outcome of a part of `epoll_wait`: the thread waits, or returns with the events `l`. -/
def Waited (e : Epoll τ) (env : WinEnv) (closed : Prop) (t : τ) (m : Nat) (r : WaitResult) (p : Port τ) : Prop :=
  ∃ e' l w, p.Shows e' ∧ e'.Sound closed [] ∧ (env.Answers → e'.Prompt) ∧ e.Tells closed l e' ∧
    e'.iocpHandle = e.iocpHandle ∧ e'.waiters = Function.update e.waiters t w ∧ (l.map Prod.fst).Nodup ∧
    ((r = .waiting ∧ l = [] ∧ w = .polling m) ∨
      ∃ n, r = .returned n (l.map Prod.snd) ∧ w = .out ∧ (n = l.length ∨ (n = -1 ∧ l = [])))

theorem portWaitEnd_ends {e₁ : Epoll τ} {n : Int} {l : List (SockId × EpollEvent)} (h : p.Shows e₁) (hs : e₁.Sound closed [])
    (ht : e.Tells closed l e₁) (hh : e₁.iocpHandle = e.iocpHandle) (hw : e₁.waiters = Function.update e.waiters t .out)
    (hl : (l.map Prod.fst).Nodup) (hc : env.Closes → closed)
    (hn : n = l.length ∨ (n = -1 ∧ l = [])) :
    Ends (portWaitEnd env n (l.map Prod.snd)) p fun r p' =>
      (∃ k : Int, r = .returned k (l.map Prod.snd) ∧ (k = -1 ∨ k = 0 ∨ k = n)) ∧ Waited e env closed t m r p' := by
  simp only [portWaitEnd, ends_bind, ends_ite, ends_pure]
  refine (h.portUpdateEventsIfPolling_ends hs hc).mono fun _ p₂ h₂ => ?_
  obtain ⟨e₂, h₂, hs₂, hk, ha⟩ := h₂
  have hall : ∀ k : Int, (k = l.length ∨ (k = -1 ∧ l = [])) →
      Waited e env closed t m (.returned k (l.map Prod.snd)) p₂ := fun k hkn =>
    ⟨e₂, l, .out, h₂, hs₂, ha, ht.then_shrink hk.shrinks, hk.iocpHandle.trans hh, hk.waiters.trans hw, hl,
      .inr ⟨k, rfl, rfl, hkn⟩⟩
  have hnil : ¬ 0 ≤ n → l = [] := fun hneg => (hn.resolve_left fun hlen => hneg (hlen ▸ Int.natCast_nonneg _)).2
  refine ⟨fun _ => ⟨⟨n, rfl, .inr (.inr rfl)⟩, hall n hn⟩, fun hneg => ⟨fun _ => ⟨⟨0, rfl, .inr (.inl rfl)⟩, ?_⟩,
    fun _ => ⟨⟨-1, rfl, .inl rfl⟩, hall (-1) (.inr ⟨rfl, hnil hneg⟩)⟩⟩⟩
  exact hall 0 (.inl (by rw [hnil hneg]; rfl))

theorem portWaitRound_ends {e₁ : Epoll τ} (h : p.Shows e₁) (hs : e₁.Sound closed []) (ht : e.Shrinks closed e₁)
    (hh : e₁.iocpHandle = e.iocpHandle) (hw : e₁.waiters = Function.update e.waiters t .out)
    (hc : env.Closes → closed) :
    Ends (portWaitRound env t m) p fun r p' => (r = .waiting ∨ ∃ k : Int, r = .returned k [] ∧ (k = -1 ∨ k = 0)) ∧
      Waited e env closed t m r p' := by
  simp only [portWaitRound, ends_bind]
  refine (h.portUpdateEvents_ends hs hc).mono fun r p₂ h₂ => ?_
  obtain ⟨e₂, h₂, hs₂, hk, ⟨rfl, hu⟩ | ⟨rfl, hno⟩⟩ := h₂
  · simp only [lt_irrefl, if_false, ends_bind, ends_onData, ends_pure]
    have h₃ := (h₂.onData fun d => { d with activePollCount := d.activePollCount + 1 }).onData
      fun d => d.setWaiter t (.polling m)
    set e₃ := (e₂.onData fun d => { d with activePollCount := d.activePollCount + 1 }).onData
      fun d => d.setWaiter t (.polling m) with he₃
    have hwait : e₂.waiters = Function.update e.waiters t .out := hk.waiters.trans hw
    have hout : e₂.waiters t = .out := by rw [hwait, Function.update_self]
    have hnew : e₃.waiters = Function.update e₂.waiters t (.polling m) := rfl
    have halike : e₂.Alike e₃ := ⟨rfl, rfl, rfl, rfl, rfl, rfl, rfl, rfl⟩
    obtain ⟨place, hp⟩ := hs₂.polled
    have hs₃ : e₃.Sound closed [] := by
      refine halike.sound hs₂ ⟨place, ?_⟩ rfl (hs₂.counted.enter hout hnew (by simp) rfl)
      exact hp.turn rfl rfl hnew (congrArg Waiter.taken hout) rfl halike.busy
    refine ⟨.inl trivial, e₃, [], .polling m, h₃, hs₃, fun _ _ => hu, .done ((ht.trans hk.shrinks).trans halike.shrinks),
      hk.iocpHandle.trans hh, ?_, .nil, .inl ⟨rfl, rfl, rfl⟩⟩
    rw [hnew, hwait, Function.update_idem]
  · simp only [Int.reduceNeg, Int.reduceLT, if_true]
    refine (h₂.portWaitEnd_ends (m := m) (l := []) hs₂ (.done (ht.trans hk.shrinks)) (hk.iocpHandle.trans hh)
      (hk.waiters.trans hw) .nil hc (.inr ⟨rfl, rfl⟩)).mono fun r p₃ h₃ => ?_
    obtain ⟨⟨k, hr, hk⟩, hw⟩ := h₃
    exact ⟨.inr ⟨k, hr, by omega⟩, hw⟩

theorem portWaitResume_ends {packets : Option (List SockId)} {again : Bool} (h : p.Shows e) (hs : e.Sound closed [])
    (hc : env.Closes → closed)
    (ht : e.waiters t = .woken m packets) :
    Ends (portWaitResume env t m packets again) p (Waited e env closed t m) := by
  have h₁ := (h.onData fun d => d.setWaiter t .out).onData
    fun d => { d with activePollCount := d.activePollCount - 1 }
  set e₁ := (e.onData fun d => d.setWaiter t .out).onData
    fun d => { d with activePollCount := d.activePollCount - 1 } with he₁
  have hnew : e₁.waiters = Function.update e.waiters t .out := rfl
  have halike : e.Alike e₁ := ⟨rfl, rfl, rfl, rfl, rfl, rfl, rfl, rfl⟩
  have hcount : e₁.Counted := hs.counted.leave (by simp [ht]) hnew rfl
  obtain ⟨place, hp⟩ := hs.polled
  have hs₁ : e₁.Sound closed (e.taken t) :=
    halike.sound hs ⟨_, hp.resume rfl rfl hnew rfl halike.busy⟩ rfl hcount
  have htaken : e.taken t = (Waiter.woken m packets).taken := congrArg Waiter.taken ht
  simp only [portWaitResume, ends_bind, ends_onData]
  cases packets with
  | none =>
    rw [htaken] at hs₁
    exact (h₁.portWaitEnd_ends (l := []) hs₁ (.done halike.shrinks) rfl hnew .nil hc (.inr ⟨rfl, rfl⟩)).mono
      fun r p₂ h₂ => h₂.2
  | some packets =>
    have hnd : packets.Nodup := by
      have := (hp.taken t).1
      rwa [htaken] at this
    rw [htaken] at hs₁
    rw [ends_bind]
    refine (h₁.portFeedEvents_ends hs₁).mono fun evs p₂ h₂ => ?_
    obtain ⟨e₂, l, h₂, hs₂, rfl, hsub, htell, hw₂, _, hh₂⟩ := h₂
    have htell : e.Tells closed l e₂ := htell.shrink halike.shrinks
    rw [ends_ite]
    refine ⟨fun hagain => ?_, fun _ => ?_⟩
    · obtain rfl : l = [] := by simpa using hagain.1
      cases htell with
      | done hshrink =>
        exact (h₂.portWaitRound_ends hs₂ hshrink hh₂ (hw₂.trans hnew) hc).mono fun r p₃ h₃ => h₃.2
    · rw [List.length_map]
      exact (h₂.portWaitEnd_ends hs₂ htell hh₂ (hw₂.trans hnew) (hnd.sublist hsub) hc (.inl rfl)).mono
        fun r p₃ h₃ => h₃.2

end

end Port.Shows

end MNet.Wepoll
