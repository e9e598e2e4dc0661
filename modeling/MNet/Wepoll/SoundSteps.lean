import MNet.Wepoll.Polled

/-! # What keeps a port sound

One lemma for each thing that the functions do to a port as a whole. `Keeps` says what they leave
alone: the handle, the threads, and what the user asked for on every socket that stays. -/

namespace MNet.Wepoll

variable {τ : Type}

/-- What the user asked for on a socket. -/
def SockState.watch (v : SockState) : EpollEvent := ⟨v.userEvents, v.userData⟩

/-- What is looked for after `epoll_ctl`: errors are always reported. -/
def EpollEvent.armed (ev : EpollEvent) : EpollEvent := ⟨ev.events ||| EPOLLERR ||| EPOLLHUP, ev.data⟩

/-- What is looked for after an event was reported. -/
def EpollEvent.told (w : EpollEvent) : EpollEvent := if w.events &&& EPOLLONESHOT ≠ 0 then ⟨0, w.data⟩ else w

namespace Epoll

variable {e e' e'' : Epoll τ} {s : SockId} {v v' : SockState} {rest : List SockId} {gs : GroupId → Option PollGroup}
  {q : List GroupId} {closed closed' : Prop}

def watch (e : Epoll τ) (s : SockId) : Option EpollEvent := (e.socks s).map SockState.watch

/-- The sockets of `e'` are in `e` too, and the user asked for the same. Only when `closed` may a socket
leave the tree. -/
structure Shrinks (closed : Prop) (e e' : Epoll τ) : Prop where
  watched : ∀ s ∈ e'.tree, s ∈ e.tree ∧ e'.key s = e.key s ∧ e'.watch s = e.watch s
  kept : ¬ closed → ∀ s ∈ e.tree, s ∈ e'.tree

namespace Shrinks

theorem refl (e : Epoll τ) : e.Shrinks closed e := ⟨fun _ hs => ⟨hs, rfl, rfl⟩, fun _ _ hs => hs⟩

theorem trans (h : e.Shrinks closed e') (h' : e'.Shrinks closed e'') : e.Shrinks closed e'' := by
  refine ⟨fun s hs => ?_, fun hc s hs => h'.kept hc s (h.kept hc s hs)⟩
  obtain ⟨hs', hk', hw'⟩ := h'.watched s hs
  obtain ⟨hs, hk, hw⟩ := h.watched s hs'
  exact ⟨hs, hk'.trans hk, hw'.trans hw⟩

end Shrinks

/-- The handle and the threads stay, too. -/
structure Keeps (closed : Prop) (e e' : Epoll τ) : Prop where
  iocpHandle : e'.iocpHandle = e.iocpHandle
  activePollCount : e'.activePollCount = e.activePollCount
  waiters : e'.waiters = e.waiters
  shrinks : e.Shrinks closed e'

namespace Keeps

theorem refl (e : Epoll τ) : e.Keeps closed e := ⟨rfl, rfl, rfl, .refl e⟩

theorem trans (h : e.Keeps closed e') (h' : e'.Keeps closed e'') : e.Keeps closed e'' where
  iocpHandle := h'.iocpHandle.trans h.iocpHandle
  activePollCount := h'.activePollCount.trans h.activePollCount
  waiters := h'.waiters.trans h.waiters
  shrinks := h.shrinks.trans h'.shrinks

theorem mono (h : e.Keeps closed e') (hc : closed → closed') : e.Keeps closed' e' :=
  ⟨h.iocpHandle, h.activePollCount, h.waiters, h.shrinks.watched, fun hn => h.shrinks.kept fun hcl => hn (hc hcl)⟩

theorem of_other (hhandle : e'.iocpHandle = e.iocpHandle) (hactive : e'.activePollCount = e.activePollCount)
    (hwaiters : e'.waiters = e.waiters) (hkey : e'.key = e.key)
    (hother : ∀ z ∈ e'.tree, z ∈ e.tree ∧ (z ≠ s → e'.socks z = e.socks z))
    (hs : s ∈ e'.tree → e'.watch s = e.watch s) (hkept : ¬ closed → ∀ z ∈ e.tree, z ∈ e'.tree) :
    e.Keeps closed e' := by
  refine ⟨hhandle, hactive, hwaiters, ?_, hkept⟩
  intro z hz
  obtain ⟨hz', hsock⟩ := hother z hz
  refine ⟨hz', congrFun hkey z, ?_⟩
  by_cases hzs : z = s
  · subst hzs
    exact hs hz
  · exact congrArg (Option.map SockState.watch) (hsock hzs)

/-- One socket is written, and the user asked for the same before. -/
theorem wrote (hv : e.socks s = some v) (hsocks : e'.socks = Function.update e.socks s (some v'))
    (hw : v'.watch = v.watch) (htree : e'.tree = e.tree) (hkey : e'.key = e.key)
    (hhandle : e'.iocpHandle = e.iocpHandle) (hactive : e'.activePollCount = e.activePollCount)
    (hwaiters : e'.waiters = e.waiters) : e.Keeps closed e' := by
  refine of_other (s := s) hhandle hactive hwaiters hkey ?_ ?_ ?_
  · intro z hz
    rw [hsocks]
    exact ⟨htree ▸ hz, fun hzs => Function.update_of_ne hzs ..⟩
  · intro _
    simp [watch, hsocks, hv, hw]
  · exact fun _ z hz => htree ▸ hz

end Keeps

/-- `epoll_ctl` says what the user wants of a socket. -/
structure Arms (e : Epoll τ) (s : SockId) (ev : EpollEvent) (e' : Epoll τ) : Prop where
  iocpHandle : e'.iocpHandle = e.iocpHandle
  activePollCount : e'.activePollCount = e.activePollCount
  waiters : e'.waiters = e.waiters
  tree : e'.tree = e.tree
  key : e'.key = e.key
  watch : e'.watch = Function.update e.watch s (some ev.armed)

/-- The user is told of events that he asked for. -/
structure Reports (e : Epoll τ) (s : SockId) (ev : EpollEvent) (e' : Epoll τ) : Prop where
  iocpHandle : e'.iocpHandle = e.iocpHandle
  activePollCount : e'.activePollCount = e.activePollCount
  waiters : e'.waiters = e.waiters
  tree : e'.tree = e.tree
  key : e'.key = e.key
  mem : s ∈ e.tree
  asked : ∃ w, e.watch s = some w ∧ ev.data = w.data ∧ ev.events ≠ 0 ∧ ev.events &&& ~~~w.events = 0 ∧
    e'.watch = Function.update e.watch s (some w.told)

theorem watch_update (h : e'.socks = Function.update e.socks s (some v)) :
    e'.watch = Function.update e.watch s (some v.watch) := by
  funext z
  by_cases hz : z = s
  · subst hz
    simp [watch, h]
  · simp [watch, h, hz]

/-! ## Lists -/

@[simp] theorem put_socks : (e.put s v).socks = Function.update e.socks s (some v) := rfl

@[simp] theorem put_put : (e.put s v).put s v' = e.put s v' := by
  simp [put, onData, PortData.setSock]

@[simp] theorem launch_put : ((e.put s v).launch s).put s v' = (e.put s v').launch s := by
  simp [put, launch, onData, PortData.setSock]

@[simp] theorem post_put : ((e.put s v).post s).put s v' = (e.put s v').post s := by
  simp [put, post, onData, PortData.setSock]

theorem put_eq {w : SockState} (hw : (e.put s v).socks s = some w) : v = w := by
  rw [put_socks, Function.update_self] at hw
  exact Option.some.inj hw

theorem put_self (hv : e.socks s = some v) : e.put s v = e := by
  simp [put, onData, PortData.setSock, ← hv]

@[simp] theorem request_data : (e.request s).toPortData = e.toPortData := by
  unfold request
  split <;> rfl

@[simp] theorem request_tree : (e.request s).tree = e.tree := by
  unfold request
  split <;> rfl

@[simp] theorem request_key : (e.request s).key = e.key := by
  unfold request
  split <;> rfl

@[simp] theorem request_deleted : (e.request s).deleted = e.deleted := by
  unfold request
  split <;> rfl

theorem request_put : (e.request s).put s v = (e.put s v).request s := by
  unfold request
  by_cases h : s ∈ e.update ∨ s ∈ e.deleted
  · rw [if_pos h]
    exact (if_pos h).symm
  · rw [if_neg h]
    exact (if_neg h).symm

theorem request_update {z : SockId} (hz : z ∈ e.update) : z ∈ (e.request s).update := by
  unfold request
  split
  · exact hz
  · exact List.mem_append_left _ hz

theorem request_self (hs : s ∉ e.deleted) : s ∈ (e.request s).update := by
  unfold request
  split
  · rename_i hin
    exact hin.resolve_right hs
  · exact List.mem_append_right _ List.mem_cons_self

theorem Tended.congr (h : e.Tended closed s v) (hup : s ∈ e.update → s ∈ e'.update)
    (hflight : s ∈ e'.inFlight ↔ s ∈ e.inFlight) : e'.Tended closed s v where
  looked := h.looked.imp hup id
  asks hpend hin := h.asks hpend (hflight.mp hin)
  open_ hbusy hout := h.open_ hbusy fun hin => hout (hflight.mpr hin)

/-- A socket without a poll operation that is looked at. -/
theorem Tended.of_idle (hup : s ∈ e.update) (hidle : v.pollStatus = .idle) : e.Tended closed s v where
  looked := .inl hup
  asks hpend := absurd (hidle.symm.trans hpend) (by simp)
  open_ hbusy := absurd hidle hbusy

/-- The sockets other than `s` are tended as before. -/
theorem tended_other (h : ∀ z ∈ e.tree, ∀ w, e.socks z = some w → e.Tended closed z w)
    (hother : ∀ z ∈ e'.tree, z ≠ s → z ∈ e.tree ∧ e'.socks z = e.socks z ∧ (z ∈ e.update → z ∈ e'.update) ∧
      (z ∈ e'.inFlight ↔ z ∈ e.inFlight))
    (hs : s ∈ e'.tree → ∀ w, e'.socks s = some w → e'.Tended closed s w) :
    ∀ z ∈ e'.tree, ∀ w, e'.socks z = some w → e'.Tended closed z w := by
  intro z hz
  by_cases hzs : z = s
  · subst hzs
    exact hs hz
  · obtain ⟨hz, hsock, hup, hflight⟩ := hother z hz hzs
    intro w hw
    rw [hsock] at hw
    exact (h z hz w hw).congr hup hflight

/-- `e'` differs from `e` in where poll operations are and in its threads, at most. -/
structure Alike (e e' : Epoll τ) : Prop where
  socks : e'.socks = e.socks
  groups : e'.groups = e.groups
  allocated : e'.allocated = e.allocated
  key : e'.key = e.key
  tree : e'.tree = e.tree
  update : e'.update = e.update
  deleted : e'.deleted = e.deleted
  groupQueue : e'.groupQueue = e.groupQueue

namespace Alike

theorem linked (ha : e.Alike e') (h : e.Linked) : e'.Linked := by
  have hlive : e'.live = e.live := by rw [live, live, ha.tree, ha.deleted]
  have hmem : e'.members = e.members := by rw [members, members, ha.socks, hlive]
  constructor
  · rw [ha.socks, hlive]
    exact h.live
  · exact hlive ▸ h.nodup
  · rw [ha.socks, ha.deleted]
    exact h.pending
  · rw [ha.update, ha.tree]
    exact h.update
  · exact ha.update ▸ h.nodupUpdate
  · rw [ha.groups, ha.groupQueue, hmem]
    exact h.grouped
  · rw [ha.allocated, hlive, ha.groupQueue]
    exact h.allocated

theorem busy (ha : e.Alike e') (z : SockId) : e'.Busy z ↔ e.Busy z := by
  rw [Busy, Busy, ha.socks]

theorem shrinks (ha : e.Alike e') : e.Shrinks closed e' := by
  refine ⟨fun s hs => ?_, fun _ s hs => ha.tree ▸ hs⟩
  rw [watch, watch, ha.socks, ha.key]
  exact ⟨ha.tree ▸ hs, rfl, rfl⟩

/-- A port stays sound when its poll operations are in their places and its threads are counted. -/
theorem sound {rest' : List SockId} (ha : e.Alike e') (h : e.Sound closed rest) (hp : ∃ place, e'.Polled rest' place)
    (hf : e'.inFlight = e.inFlight) (hc : e'.Counted) : e'.Sound closed rest' := by
  refine ⟨ha.linked h.linked, hp, ?_, ?_, hc⟩
  · intro z hz
    rw [ha.deleted] at hz
    exact (ha.busy z).mpr (h.awaited z hz)
  · intro z hz
    rw [ha.tree] at hz
    rw [ha.socks]
    intro w hw
    exact (h.tended z hz w hw).congr (fun hu => ha.update ▸ hu) (by rw [hf])

end Alike

namespace Sound

theorem mono (h : e.Sound closed rest) (hc : closed → closed') : e.Sound closed' rest :=
  ⟨h.linked, h.polled, h.awaited, fun s hs v hv =>
    have ht := h.tended s hs v hv
    ⟨ht.looked, ht.asks, fun hbusy hout hi => hc (ht.open_ hbusy hout hi)⟩, h.counted⟩

/-- A socket without a poll operation is in the update queue. -/
theorem idle_update (h : e.Sound closed rest) (hs : s ∈ e.tree) (hv : e.socks s = some v) (hidle : v.pollStatus = .idle) :
    s ∈ e.update := by
  rcases (h.tended s hs v hv).looked with hu | hc | hp
  · exact hu
  · exact absurd (hidle.symm.trans hc) (by simp)
  · exact absurd (hidle.symm.trans hp.1) (by simp)

/-- A socket in the tree changes, not whether it has a poll operation, and is looked at if need be. -/
theorem put (h : e.Sound closed rest) (hv : e.socks s = some v) (hgroup : v'.pollGroup = v.pollGroup)
    (hdel : v'.deletePending = v.deletePending) (hbusy : v'.pollStatus = .idle ↔ v.pollStatus = .idle)
    (ht : s ∈ e.tree → e.Tended closed s v → (e.put s v').Tended closed s v') : (e.put s v').Sound closed rest := by
  have hb : ∀ z, (e.put s v').Busy z ↔ e.Busy z := by
    intro z
    rw [busy_update (e := e) rfl rfl z]
    split
    · rename_i hz
      rw [hz, busy_iff hv, ne_eq, ne_eq, hbusy]
    · rfl
  obtain ⟨place, hp⟩ := h.polled
  refine ⟨h.linked.put hv hgroup hdel, ⟨place, hp.congr rfl rfl rfl hb⟩, ?_, ?_, h.counted.congr rfl rfl⟩
  · intro z hz
    exact (hb z).mpr (h.awaited z hz)
  · refine tended_other (s := s) h.tended ?_ ?_
    · intro z hz hzs
      exact ⟨hz, Function.update_of_ne hzs .., id, Iff.rfl⟩
    · intro hs w hw
      obtain rfl := put_eq hw
      exact ht hs (h.tended s hs v hv)

theorem request (h : e.Sound closed rest) (hs : s ∈ e.tree) : (e.request s).Sound closed rest := by
  have hb : ∀ z, (e.request s).Busy z ↔ e.Busy z := by
    intro z
    unfold Busy
    rw [request_data]
  obtain ⟨place, hp⟩ := h.polled
  refine ⟨h.linked.request hs, ⟨place, hp.congr (by simp) (by simp) (by simp) hb⟩, ?_, ?_,
    h.counted.congr (by simp) (by simp)⟩
  · intro z hz
    rw [request_deleted] at hz
    exact (hb z).mpr (h.awaited z hz)
  · intro z hz w hw
    rw [request_tree] at hz
    rw [request_data] at hw
    exact (h.tended z hz w hw).congr request_update (by rw [request_data])

/-- A socket that needs no poll operation now leaves the update queue. -/
theorem dequeue (h : e.Sound closed rest) (hs : s ∈ e.tree) (hv : e.socks s = some v)
    (ht : v.pollStatus = .cancelled ∨ (v.pollStatus = .pending ∧ v.unwatched = 0)) : (e.dequeue s).Sound closed rest := by
  obtain ⟨place, hp⟩ := h.polled
  refine ⟨h.linked.dequeue hs, ⟨place, hp.congr rfl rfl rfl fun z => Iff.rfl⟩, ?_, ?_, h.counted.congr rfl rfl⟩
  · intro z hz
    exact h.awaited z (List.mem_of_mem_erase hz)
  · refine tended_other (s := s) h.tended ?_ ?_
    · intro z hz hzs
      exact ⟨hz, rfl, (List.mem_erase_of_ne hzs).mpr, Iff.rfl⟩
    · intro _ w hw
      obtain rfl : v = w := Option.some.inj (hv.symm.trans hw)
      obtain ⟨_, hasks, hopen⟩ := h.tended s hs v hv
      exact ⟨.inr ht, hasks, hopen⟩

/-- A socket gets a poll operation, for all that the user asked for, and leaves the update queue. -/
theorem start {e₁ : Epoll τ} (h : e.Sound closed rest) (hs : s ∈ e.tree) (hv : e.socks s = some v)
    (hidle : v.pollStatus = .idle) (hgroup : v'.pollGroup = v.pollGroup) (hdel : v'.deletePending = v.deletePending)
    (hpend : v'.pollStatus = .pending) (hun : v'.unwatched = 0) (he₁ : e₁ = (e.put s v').dequeue s)
    (hgo : (e' = e₁.launch s ∧ v'.Asks) ∨ (e' = e₁.post s ∧ (v'.pollInfo.Closed → closed))) : e'.Sound closed rest := by
  have halike : e₁.Alike e' := by rcases hgo with ⟨rfl, _⟩ | ⟨rfl, _⟩ <;> exact ⟨rfl, rfl, rfl, rfl, rfl, rfl, rfl, rfl⟩
  have hwaiters : e'.waiters = e.waiters := by rcases hgo with ⟨rfl, _⟩ | ⟨rfl, _⟩ <;> rw [he₁] <;> rfl
  have hactive : e'.activePollCount = e.activePollCount := by
    rcases hgo with ⟨rfl, _⟩ | ⟨rfl, _⟩ <;> rw [he₁] <;> rfl
  have hsocks : e'.socks = Function.update e.socks s (some v') := halike.socks.trans (he₁ ▸ rfl)
  have hb : ∀ z, e'.Busy z ↔ z = s ∨ e.Busy z := by
    intro z
    rw [busy_update rfl hsocks z]
    split
    · rename_i hz
      simp [hz, hpend]
    · rename_i hz
      simp [hz]
  have hnot : ¬ e.Busy s := by
    rw [busy_iff hv, hidle]
    simp
  obtain ⟨place, hp⟩ := h.polled
  refine ⟨?_, hp.start hnot hwaiters hb ?_, ?_, ?_, h.counted.congr hwaiters hactive⟩
  · exact halike.linked (he₁ ▸ (h.linked.put hv hgroup hdel).dequeue hs)
  · rw [he₁] at hgo
    exact hgo.imp (by rintro ⟨rfl, _⟩; exact ⟨rfl, rfl⟩) (by rintro ⟨rfl, _⟩; exact ⟨rfl, rfl⟩)
  · intro z hz
    rw [halike.deleted, he₁] at hz
    exact (hb z).mpr (.inr (h.awaited z (List.mem_of_mem_erase hz)))
  · refine tended_other (s := s) h.tended ?_ ?_
    · intro z hz hzs
      rw [halike.tree, he₁] at hz
      rw [hsocks, halike.update, he₁]
      refine ⟨hz, Function.update_of_ne hzs .., (List.mem_erase_of_ne hzs).mpr, ?_⟩
      rcases hgo with ⟨rfl, _⟩ | ⟨rfl, _⟩
      · rw [he₁]
        exact List.mem_append.trans (or_iff_left fun hz => hzs (List.mem_singleton.mp hz))
      · rw [he₁]
        rfl
    · intro _ w hw
      rw [hsocks, Function.update_self] at hw
      cases hw
      refine ⟨.inr (.inr ⟨hpend, hun⟩), fun _ hin => ?_, fun _ hout hclosed => ?_⟩
      · rcases hgo with ⟨_, hask⟩ | ⟨rfl, _⟩
        · exact hask
        · rw [he₁] at hin
          exact absurd ((hp.busy s).mp (by rw [(hp.flight.2 s).mp hin]; simp)) hnot
      · rcases hgo with ⟨rfl, _⟩ | ⟨_, hc⟩
        · exact absurd (List.mem_append_right _ List.mem_cons_self) hout
        · exact hc hclosed

/-- AFD completes a poll operation and writes to its socket. -/
theorem complete (h : e.Sound closed rest) (hin : s ∈ e.inFlight) (hv : e.socks s = some v)
    (hgroup : v'.pollGroup = v.pollGroup) (hdel : v'.deletePending = v.deletePending)
    (hstatus : v'.pollStatus = v.pollStatus) (hun : v'.unwatched = v.unwatched) (hc : v'.pollInfo.Closed → closed) :
    ((e.put s v').finish s).Sound closed rest := by
  have halike : (e.put s v').Alike ((e.put s v').finish s) := ⟨rfl, rfl, rfl, rfl, rfl, rfl, rfl, rfl⟩
  have hb : ∀ z, ((e.put s v').finish s).Busy z ↔ e.Busy z := by
    intro z
    rw [busy_update (e := e) rfl rfl z]
    split
    · rename_i hz
      rw [hz, busy_iff hv, hstatus]
    · rfl
  obtain ⟨place, hp⟩ := h.polled
  have hmem := fun z => hp.flight.1.mem_erase_iff (a := z) (b := s)
  refine ⟨halike.linked (h.linked.put hv hgroup hdel), ⟨_, hp.complete hin rfl rfl rfl hb⟩, ?_, ?_,
    h.counted.congr rfl rfl⟩
  · intro z hz
    exact (hb z).mpr (h.awaited z hz)
  · refine tended_other (s := s) h.tended ?_ ?_
    · intro z hz hzs
      exact ⟨hz, Function.update_of_ne hzs .., id, (hmem z).trans (and_iff_right hzs)⟩
    · intro hs w hw
      obtain rfl := put_eq hw
      refine ⟨?_, fun _ hin => absurd rfl ((hmem s).mp hin).1, fun _ _ => hc⟩
      rw [hstatus, hun]
      exact (h.tended s hs v hv).looked

/-- A socket without a poll operation is freed. -/
theorem discard (h : e.Sound closed rest) (hv : e.socks s = some v) (hidle : v.pollStatus = .idle)
    (hlen : q.length = e.groupQueue.length)
    (hg : Grouped gs q (Function.update e.members v.pollGroup (e.members v.pollGroup - 1))) :
    (e.discard s gs q).Sound closed rest := by
  have hother : ∀ z, z ≠ s → (e.discard s gs q).socks z = e.socks z := fun z hz => Function.update_of_ne hz ..
  have hb : ∀ z, (e.discard s gs q).Busy z ↔ e.Busy z := by
    intro z
    by_cases hz : z = s
    · subst hz
      rw [busy_iff hv, hidle]
      exact iff_of_false (not_busy_of_none (Function.update_self ..)) (by simp)
    · unfold Busy
      rw [hother z hz]
  obtain ⟨place, hp⟩ := h.polled
  refine ⟨h.linked.discard hv hlen hg, ⟨place, hp.congr rfl rfl rfl hb⟩, ?_, ?_, h.counted.congr rfl rfl⟩
  · intro z hz
    exact (hb z).mpr (h.awaited z (List.mem_of_mem_erase hz))
  · refine tended_other (s := s) h.tended ?_ ?_
    · intro z hz hzs
      exact ⟨List.mem_of_mem_erase hz, hother z hzs, (List.mem_erase_of_ne hzs).mpr, Iff.rfl⟩
    · intro hs
      exact absurd rfl (h.linked.nodup_tree.mem_erase_iff.mp hs).1

/-- A socket with a poll operation is deleted. -/
theorem postpone (h : e.Sound closed rest) (hs : s ∈ e.tree) (hv : e.socks s = some v) (hgroup : v'.pollGroup = v.pollGroup)
    (hdel : v'.deletePending = true) (hbusy : v.pollStatus ≠ .idle) (hbusy' : v'.pollStatus ≠ .idle) :
    (e.postpone s v').Sound closed rest := by
  have hb : ∀ z, (e.postpone s v').Busy z ↔ e.Busy z := by
    intro z
    rw [busy_update (e := e) rfl rfl z]
    split
    · rename_i hz
      rw [hz, busy_iff hv]
      exact iff_of_true hbusy' hbusy
    · rfl
  obtain ⟨place, hp⟩ := h.polled
  refine ⟨h.linked.postpone hv hs hgroup hdel, ⟨place, hp.congr rfl rfl rfl hb⟩, ?_, ?_, h.counted.congr rfl rfl⟩
  · intro z hz
    rw [hb]
    rcases List.mem_append.mp hz with hz | hz
    · exact h.awaited z hz
    · rw [List.mem_singleton.mp hz, busy_iff hv]
      exact hbusy
  · refine tended_other (s := s) h.tended ?_ ?_
    · intro z hz hzs
      exact ⟨List.mem_of_mem_erase hz, Function.update_of_ne hzs .., (List.mem_erase_of_ne hzs).mpr, Iff.rfl⟩
    · intro hs
      exact absurd rfl (h.linked.nodup_tree.mem_erase_iff.mp hs).1

/-- A packet is fed to a socket in the tree, which is looked at next. -/
theorem feed (h : e.Sound closed (s :: rest)) (hs : s ∈ e.tree) (hv : e.socks s = some v) (hgroup : v'.pollGroup = v.pollGroup)
    (hdel : v'.deletePending = v.deletePending) (hidle : v'.pollStatus = .idle) :
    ((e.put s v').request s).Sound closed rest := by
  have hnd := h.linked.not_deleted hs
  have hsocks : ((e.put s v').request s).socks = Function.update e.socks s (some v') := by simp
  have hb : ∀ z, ((e.put s v').request s).Busy z ↔ z ≠ s ∧ e.Busy z := by
    intro z
    rw [busy_update rfl hsocks z]
    split
    · rename_i hz
      simp [hz, hidle]
    · rename_i hz
      simp [hz]
  obtain ⟨place, hp⟩ := h.polled
  refine ⟨(h.linked.put hv hgroup hdel).request hs, ⟨_, hp.feed ?_ ?_ ?_ hb⟩, ?_, ?_, h.counted.congr ?_ ?_⟩
  · rw [request_data]
    rfl
  · rw [request_data]
    rfl
  · rw [request_data]
    rfl
  · intro z hz
    rw [request_deleted] at hz
    exact (hb z).mpr ⟨fun he => hnd (he ▸ hz), h.awaited z hz⟩
  · refine tended_other (s := s) h.tended ?_ ?_
    · intro z hz hzs
      rw [request_tree] at hz
      rw [hsocks, request_data]
      exact ⟨hz, Function.update_of_ne hzs .., request_update (e := e.put s v'), Iff.rfl⟩
    · intro _ w hw
      rw [hsocks, Function.update_self] at hw
      cases hw
      exact .of_idle (request_self hnd) hidle
  · rw [request_data]
    rfl
  · rw [request_data]
    rfl

/-- A packet is fed to a socket that is freed then. -/
theorem feed_discard (h : e.Sound closed (s :: rest)) (hv : e.socks s = some v) (hlen : q.length = e.groupQueue.length)
    (hg : Grouped gs q (Function.update e.members v.pollGroup (e.members v.pollGroup - 1))) :
    (e.discard s gs q).Sound closed rest := by
  have hother : ∀ z, z ≠ s → (e.discard s gs q).socks z = e.socks z := fun z hz => Function.update_of_ne hz ..
  have hb : ∀ z, (e.discard s gs q).Busy z ↔ z ≠ s ∧ e.Busy z := by
    intro z
    by_cases hz : z = s
    · subst hz
      exact iff_of_false (not_busy_of_none (Function.update_self ..)) (by simp)
    · unfold Busy
      rw [hother z hz]
      simp [hz]
  obtain ⟨place, hp⟩ := h.polled
  refine ⟨h.linked.discard hv hlen hg, ⟨_, hp.feed rfl rfl rfl hb⟩, ?_, ?_, h.counted.congr rfl rfl⟩
  · intro z hz
    obtain ⟨hzs, hz⟩ := h.linked.nodup_deleted.mem_erase_iff.mp hz
    exact (hb z).mpr ⟨hzs, h.awaited z hz⟩
  · refine tended_other (s := s) h.tended ?_ ?_
    · intro z hz hzs
      exact ⟨List.mem_of_mem_erase hz, hother z hzs, (List.mem_erase_of_ne hzs).mpr, Iff.rfl⟩
    · intro hs
      exact absurd rfl (h.linked.nodup_tree.mem_erase_iff.mp hs).1

/-- A new socket, which is looked at next. -/
theorem adopt {k : Nat} (h : e.Sound closed rest) (hs : e.socks s = none) (hdel : v.deletePending = false)
    (hidle : v.pollStatus = .idle) (hlen : e.groupQueue.length ≤ q.length)
    (hg : Grouped gs q (Function.update e.members v.pollGroup (e.members v.pollGroup + 1))) :
    ((e.adopt s v k gs q).request s).Sound closed rest := by
  have hout : s ∉ e.deleted := fun hd => (h.linked.live s).mpr (List.mem_append_right _ hd) hs
  have hsocks : ((e.adopt s v k gs q).request s).socks = Function.update e.socks s (some v) := by
    rw [request_data]
    rfl
  have hb : ∀ z, ((e.adopt s v k gs q).request s).Busy z ↔ e.Busy z := by
    intro z
    rw [busy_update rfl hsocks z]
    split
    · rename_i hz
      rw [hz, hidle]
      exact iff_of_false (by simp) (not_busy_of_none hs)
    · rfl
  obtain ⟨place, hp⟩ := h.polled
  refine ⟨(h.linked.adopt hs hdel hlen hg).request List.mem_cons_self, ⟨place, hp.congr ?_ ?_ ?_ hb⟩, ?_, ?_,
    h.counted.congr ?_ ?_⟩
  · rw [request_data]
    rfl
  · rw [request_data]
    rfl
  · rw [request_data]
    rfl
  · intro z hz
    rw [request_deleted] at hz
    exact (hb z).mpr (h.awaited z hz)
  · refine tended_other (s := s) h.tended ?_ ?_
    · intro z hz hzs
      rw [request_tree] at hz
      rw [hsocks, request_data]
      exact ⟨(List.mem_cons.mp hz).resolve_left hzs, Function.update_of_ne hzs ..,
        request_update (e := e.adopt s v k gs q), Iff.rfl⟩
    · intro _ w hw
      rw [hsocks, Function.update_self] at hw
      cases hw
      exact .of_idle (request_self hout) hidle
  · rw [request_data]
    rfl
  · rw [request_data]
    rfl

theorem regroup (h : e.Sound closed rest) (hlen : e.groupQueue.length ≤ q.length) (hg : Grouped gs q e.members) :
    (e.regroup gs q).Sound closed rest := by
  obtain ⟨place, hp⟩ := h.polled
  exact ⟨h.linked.regroup hlen hg, ⟨place, hp.congr rfl rfl rfl fun z => Iff.rfl⟩, h.awaited,
    fun z hz w hw => (h.tended z hz w hw).congr id Iff.rfl, h.counted⟩

end Sound

end Epoll

end MNet.Wepoll
