import MNet.Wepoll.Groups

/-! # What holds of a port

`Linked` says where the objects are: a socket in memory is in the tree or was deleted and waits, and
its poll group counts it. `Polled` says that a socket has a poll operation exactly when it is not
idle, and that the operation is in one place; a deleted socket waits for its own. `Tended` says that
nothing the user asked for is forgotten. `Sound` is all of it, while the packets `rest` are being fed
to the port; no socket was found closed unless `closed`. -/

namespace MNet.Wepoll

variable {τ : Type} {e e' : Epoll τ} {s : SockId} {v v' : SockState} {g : GroupId}
  {groups : GroupId → Option PollGroup} {q : List GroupId}

/-- The packets of a thread that was woken. -/
def Waiter.taken : Waiter → List SockId
  | .woken _ (some packets) => packets
  | .woken _ none => []
  | .polling _ => []
  | .out => []

/-- AFD found that the socket was closed. -/
def AfdPollInfo.Closed (info : AfdPollInfo) : Prop := info.events &&& AFD_POLL_LOCAL_CLOSE ≠ 0

/-- AFD was asked for the pending events of the socket. -/
def SockState.Asks (v : SockState) : Prop :=
  v.pollInfo = ⟨1, v.baseSocket, sockEpollEventsToAfdEvents v.pendingEvents⟩

/-! ## Members of poll groups -/

/-- How many of the sockets `l` are in each poll group. -/
def membersOf (socks : SockId → Option SockState) (l : List SockId) (g : GroupId) : Nat :=
  l.countP fun s => (socks s).any fun v => v.pollGroup = g

theorem membersOf_perm {socks : SockId → Option SockState} {l l' : List SockId} (h : l.Perm l') :
    membersOf socks l = membersOf socks l' := funext fun _ => h.countP_eq _

theorem membersOf_congr {socks socks' : SockId → Option SockState} {l : List SockId}
    (h : ∀ s ∈ l, (socks' s).map SockState.pollGroup = (socks s).map SockState.pollGroup) :
    membersOf socks' l = membersOf socks l := by
  funext g
  refine List.countP_congr fun s hs => ?_
  have hs := h s hs
  cases h₁ : socks s <;> cases h₂ : socks' s <;> simp_all

theorem membersOf_cons {socks : SockId → Option SockState} {l : List SockId} (hv : socks s = some v) :
    membersOf socks (s :: l) = Function.update (membersOf socks l) v.pollGroup (membersOf socks l v.pollGroup + 1) := by
  funext g
  by_cases hg : g = v.pollGroup
  · subst hg
    simp [membersOf, hv]
  · rw [Function.update_of_ne hg]
    simp [membersOf, hv, Ne.symm hg]

namespace Epoll

/-- The sockets in memory. -/
def live (e : Epoll τ) : List SockId := e.tree ++ e.deleted

def members (e : Epoll τ) : GroupId → Nat := membersOf e.socks e.live

theorem mem_live : s ∈ e.live ↔ s ∈ e.tree ∨ s ∈ e.deleted := List.mem_append

structure Linked (e : Epoll τ) : Prop where
  live : ∀ s, e.socks s ≠ none ↔ s ∈ e.live
  nodup : e.live.Nodup
  pending : ∀ s v, e.socks s = some v → (v.deletePending = true ↔ s ∈ e.deleted)
  update : ∀ s ∈ e.update, s ∈ e.tree
  nodupUpdate : e.update.Nodup
  grouped : Grouped e.groups e.groupQueue e.members
  allocated : e.allocated = e.live.length + e.groupQueue.length

/-- Where a poll operation is: AFD has it, or the IOCP, or a thread that was woken, or it is being
fed to the port. -/
inductive Place (τ : Type) where
  | afd
  | iocp
  | thread (t : τ)
  | fed
  deriving DecidableEq

/-- The packets that a thread in `port_wait` has taken. -/
def taken (e : Epoll τ) (t : τ) : List SockId := (e.waiters t).taken

/-- The list has no repetitions, and exactly the sockets at one place. -/
def At (place : SockId → Option (Place τ)) (x : Place τ) (l : List SockId) : Prop :=
  l.Nodup ∧ ∀ s, s ∈ l ↔ place s = some x

/-- The socket has a poll operation. -/
def Busy (e : Epoll τ) (s : SockId) : Prop := ∃ v, e.socks s = some v ∧ v.pollStatus ≠ .idle

/-- The poll operations, of which those of `rest` are being fed. -/
structure Polled (e : Epoll τ) (rest : List SockId) (place : SockId → Option (Place τ)) : Prop where
  flight : At place .afd e.inFlight
  queued : At place .iocp e.packets
  taken : ∀ t, At place (.thread t) (e.taken t)
  fed : At place .fed rest
  busy : ∀ s, place s ≠ none ↔ e.Busy s

/-- The socket will be looked at, or its poll operation was cancelled and comes back, or it is polled
for everything that the user asked for. AFD looks for what the socket says, and it has not found that
the socket was closed unless `closed`. -/
structure Tended (closed : Prop) (e : Epoll τ) (s : SockId) (v : SockState) : Prop where
  looked : s ∈ e.update ∨ v.pollStatus = .cancelled ∨ (v.pollStatus = .pending ∧ v.unwatched = 0)
  asks : v.pollStatus = .pending → s ∈ e.inFlight → v.Asks
  open_ : v.pollStatus ≠ .idle → s ∉ e.inFlight → v.pollInfo.Closed → closed

/-- The threads in `port_wait` are counted. -/
def Counted (e : Epoll τ) : Prop :=
  ∃ ts : List τ, ts.Nodup ∧ (∀ t, t ∈ ts ↔ e.waiters t ≠ .out) ∧ e.activePollCount = ts.length

structure Sound (closed : Prop) (e : Epoll τ) (rest : List SockId) : Prop where
  linked : e.Linked
  polled : ∃ place, e.Polled rest place
  awaited : ∀ s ∈ e.deleted, e.Busy s
  tended : ∀ s ∈ e.tree, ∀ v, e.socks s = some v → e.Tended closed s v
  counted : e.Counted

/-! ## What the functions do -/

/-- A socket in memory changes. -/
def put (e : Epoll τ) (s : SockId) (v : SockState) : Epoll τ := e.onData fun d => d.setSock s (some v)

/-- AFD has the poll operation of a socket, and the IOCP has its packet. -/
def launch (e : Epoll τ) (s : SockId) : Epoll τ := e.onData fun d => { d with inFlight := d.inFlight ++ [s] }

def post (e : Epoll τ) (s : SockId) : Epoll τ := e.onData fun d => { d with packets := d.packets ++ [s] }

/-- A poll operation that AFD had is complete. -/
def finish (e : Epoll τ) (s : SockId) : Epoll τ :=
  e.onData fun d => { d with inFlight := d.inFlight.erase s, packets := d.packets ++ [s] }

/-- A socket is freed. -/
def discard (e : Epoll τ) (s : SockId) (groups : GroupId → Option PollGroup) (q : List GroupId) : Epoll τ :=
  { e with
    socks := Function.update e.socks s none, groups := groups, groupQueue := q, allocated := e.allocated - 1
    tree := e.tree.erase s, update := e.update.erase s, deleted := e.deleted.erase s }

/-- A socket is deleted while its poll operation is not back. -/
def postpone (e : Epoll τ) (s : SockId) (v : SockState) : Epoll τ :=
  { e with
    socks := Function.update e.socks s (some v)
    tree := e.tree.erase s, update := e.update.erase s, deleted := e.deleted ++ [s] }

/-- A socket is made and put into the tree. -/
def adopt (e : Epoll τ) (s : SockId) (v : SockState) (key : Nat) (groups : GroupId → Option PollGroup)
    (q : List GroupId) : Epoll τ :=
  { e with
    socks := Function.update e.socks s (some v), groups := groups, groupQueue := q
    allocated := e.allocated + 1 + q.length - e.groupQueue.length
    tree := s :: e.tree, key := Function.update e.key s key }

/-! ## Places of the objects -/

namespace Linked

theorem mem_live (h : e.Linked) (hv : e.socks s = some v) : s ∈ e.live := by
  rw [← h.live, hv]
  simp

theorem nodup_tree (h : e.Linked) : e.tree.Nodup := (List.nodup_append.mp h.nodup).1

theorem nodup_deleted (h : e.Linked) : e.deleted.Nodup := (List.nodup_append.mp h.nodup).2.1

theorem not_deleted (h : e.Linked) (hs : s ∈ e.tree) : s ∉ e.deleted := fun hd =>
  (List.nodup_append.mp h.nodup).2.2 s hs s hd rfl

theorem tree_iff (h : e.Linked) (hv : e.socks s = some v) : s ∈ e.tree ↔ v.deletePending = false := by
  rw [← Bool.not_eq_true, h.pending s v hv]
  refine ⟨h.not_deleted, fun hd => ?_⟩
  exact (Epoll.mem_live.mp (h.mem_live hv)).resolve_right hd

theorem exists_sock (h : e.Linked) (hs : s ∈ e.live) : ∃ v, e.socks s = some v :=
  Option.ne_none_iff_exists'.mp ((h.live s).mpr hs)

theorem tree_le (h : e.Linked) : e.tree.length ≤ e.allocated := by
  rw [h.allocated, Epoll.live, List.length_append]
  omega

theorem erase_live (h : e.Linked) (hs : s ∈ e.live) :
    e.tree.erase s ++ e.deleted.erase s = e.live.erase s := by
  rcases Epoll.mem_live.mp hs with ht | hd
  · rw [Epoll.live, List.erase_append_left _ ht, List.erase_of_not_mem (h.not_deleted ht)]
  · have ht : s ∉ e.tree := fun ht => h.not_deleted ht hd
    rw [Epoll.live, List.erase_append_right _ ht, List.erase_of_not_mem ht]

theorem put (h : e.Linked) (hv : e.socks s = some v) (hgroup : v'.pollGroup = v.pollGroup)
    (hdel : v'.deletePending = v.deletePending) : (e.put s v').Linked where
  live z := by
    have hz : (e.put s v').socks z ≠ none ↔ e.socks z ≠ none := by
      by_cases hzs : z = s
      · subst hzs
        simp [Epoll.put, Epoll.onData, PortData.setSock, hv]
      · simp [Epoll.put, Epoll.onData, PortData.setSock, hzs]
    rw [hz]
    exact h.live z
  nodup := h.nodup
  pending z w hz := by
    by_cases hzs : z = s
    · subst hzs
      obtain rfl : v' = w := by simpa [Epoll.put, Epoll.onData, PortData.setSock] using hz
      rw [hdel]
      exact h.pending z v hv
    · exact h.pending z w (by simpa [Epoll.put, Epoll.onData, PortData.setSock, hzs] using hz)
  update := h.update
  nodupUpdate := h.nodupUpdate
  grouped := by
    refine h.grouped.congr (membersOf_congr fun z _ => ?_).symm
    by_cases hzs : z = s
    · subst hzs
      simp [Epoll.put, Epoll.onData, PortData.setSock, hv, hgroup]
    · simp [Epoll.put, Epoll.onData, PortData.setSock, hzs]
  allocated := h.allocated

theorem request (h : e.Linked) (hs : s ∈ e.tree) : (e.request s).Linked := by
  unfold Epoll.request
  split
  · exact h
  · rename_i hout
    rw [not_or] at hout
    refine ⟨h.live, h.nodup, h.pending, fun z hz => ?_, ?_, h.grouped, h.allocated⟩
    · rcases List.mem_append.mp hz with hz | hz
      · exact h.update z hz
      · exact List.mem_singleton.mp hz ▸ hs
    · refine List.nodup_append.mpr ⟨h.nodupUpdate, List.nodup_singleton s, ?_⟩
      rintro a ha b hb rfl
      exact hout.1 (List.mem_singleton.mp hb ▸ ha)

theorem dequeue (h : e.Linked) (hs : s ∈ e.tree) : (e.dequeue s).Linked := by
  have hd : e.deleted.erase s = e.deleted := List.erase_of_not_mem (h.not_deleted hs)
  have hsame : e.dequeue s = { e with update := e.update.erase s } := by
    rw [Epoll.dequeue, hd]
  rw [hsame]
  exact ⟨h.live, h.nodup, h.pending, fun z hz => h.update z (List.mem_of_mem_erase hz), h.nodupUpdate.erase s,
    h.grouped, h.allocated⟩

/-- The other members of the group of a socket. -/
theorem members_erase (h : e.Linked) (hv : e.socks s = some v) :
    e.members = Function.update (membersOf e.socks (e.live.erase s)) v.pollGroup
      (membersOf e.socks (e.live.erase s) v.pollGroup + 1) := by
  rw [← membersOf_cons hv]
  exact membersOf_perm (List.perm_cons_erase (h.mem_live hv))

theorem members_pos (h : e.Linked) (hv : e.socks s = some v) : 0 < e.members v.pollGroup := by
  rw [h.members_erase hv, Function.update_self]
  omega

/-- The poll group of a socket is in memory. -/
theorem group (h : e.Linked) (hv : e.socks s = some v) : e.groups v.pollGroup = some ⟨e.members v.pollGroup⟩ :=
  h.grouped.get (h.grouped.mem_of_pos (h.members_pos hv))

theorem discard (h : e.Linked) (hv : e.socks s = some v) (hlen : q.length = e.groupQueue.length)
    (hg : Grouped groups q (Function.update e.members v.pollGroup (e.members v.pollGroup - 1))) :
    (e.discard s groups q).Linked := by
  have hs := h.mem_live hv
  have hlive : (e.discard s groups q).live = e.live.erase s := h.erase_live hs
  have hne : ∀ z, z ∈ e.live.erase s ↔ z ≠ s ∧ z ∈ e.live := fun z => h.nodup.mem_erase_iff
  refine ⟨fun z => ?_, ?_, fun z w hz => ?_, fun z hz => ?_, h.nodupUpdate.erase s, hg.congr ?_, ?_⟩
  · rw [hlive, hne]
    by_cases hzs : z = s
    · subst hzs
      simp [Epoll.discard]
    · simp only [Epoll.discard, Function.update_of_ne hzs, ne_eq, hzs, not_false_iff, true_and]
      exact h.live z
  · rw [hlive]
    exact h.nodup.erase s
  · by_cases hzs : z = s
    · subst hzs
      simp [Epoll.discard] at hz
    · rw [h.pending z w (by simpa [Epoll.discard, hzs] using hz)]
      exact (List.mem_erase_of_ne hzs).symm
  · obtain ⟨hzs, hz⟩ := h.nodupUpdate.mem_erase_iff.mp hz
    exact (List.mem_erase_of_ne hzs).mpr (h.update z hz)
  · have hmem : (e.discard s groups q).members = membersOf e.socks (e.live.erase s) := by
      refine (congrArg (membersOf _) hlive).trans (membersOf_congr fun z hz => ?_)
      simp [Epoll.discard, ((hne z).mp hz).1]
    rw [hmem, h.members_erase hv, Function.update_idem, Function.update_self, Nat.add_sub_cancel,
      Function.update_eq_self]
  · have hpos : 0 < e.live.length := List.length_pos_of_mem hs
    rw [hlive, List.length_erase_of_mem hs]
    simp only [Epoll.discard, h.allocated, hlen]
    omega

theorem postpone (h : e.Linked) (hv : e.socks s = some v) (hs : s ∈ e.tree) (hgroup : v'.pollGroup = v.pollGroup)
    (hdel : v'.deletePending = true) : (e.postpone s v').Linked := by
  have hd := h.not_deleted hs
  have hperm : (e.postpone s v').live.Perm e.live := by
    have h₁ : (e.tree.erase s ++ (e.deleted ++ [s])).Perm (s :: (e.tree.erase s ++ e.deleted)) := by
      rw [← List.append_assoc]
      exact List.perm_append_singleton s _
    exact h₁.trans ((List.perm_cons_erase hs).symm.append_right e.deleted)
  refine ⟨fun z => ?_, hperm.nodup_iff.mpr h.nodup, fun z w hz => ?_, fun z hz => ?_, h.nodupUpdate.erase s,
    h.grouped.congr ?_, ?_⟩
  · rw [hperm.mem_iff, ← h.live]
    by_cases hzs : z = s
    · subst hzs
      simp [Epoll.postpone, hv]
    · simp [Epoll.postpone, hzs]
  · by_cases hzs : z = s
    · subst hzs
      obtain rfl : v' = w := by simpa [Epoll.postpone] using hz
      simp [Epoll.postpone, hdel]
    · rw [h.pending z w (by simpa [Epoll.postpone, hzs] using hz)]
      simp [Epoll.postpone, hzs]
  · obtain ⟨hzs, hz⟩ := h.nodupUpdate.mem_erase_iff.mp hz
    exact (List.mem_erase_of_ne hzs).mpr (h.update z hz)
  · refine ((membersOf_perm hperm).trans (membersOf_congr fun z _ => ?_)).symm
    by_cases hzs : z = s
    · subst hzs
      simp [Epoll.postpone, hv, hgroup]
    · simp [Epoll.postpone, hzs]
  · rw [hperm.length_eq]
    exact h.allocated

theorem adopt {k : Nat} (h : e.Linked) (hs : e.socks s = none) (hdel : v.deletePending = false)
    (hlen : e.groupQueue.length ≤ q.length)
    (hg : Grouped groups q (Function.update e.members v.pollGroup (e.members v.pollGroup + 1))) :
    (e.adopt s v k groups q).Linked := by
  have hout : s ∉ e.live := fun hin => (h.live s).mpr hin hs
  have hlive : (e.adopt s v k groups q).live = s :: e.live := rfl
  have hother : ∀ z, z ≠ s → (e.adopt s v k groups q).socks z = e.socks z := fun z hz => Function.update_of_ne hz ..
  have hself : (e.adopt s v k groups q).socks s = some v := Function.update_self ..
  refine ⟨fun z => ?_, ?_, fun z w hz => ?_, fun z hz => List.mem_cons_of_mem s (h.update z hz), h.nodupUpdate,
    hg.congr ?_, ?_⟩
  · rw [hlive, List.mem_cons]
    by_cases hzs : z = s
    · subst hzs
      simp [hself]
    · rw [hother z hzs]
      simp only [hzs, false_or]
      exact h.live z
  · rw [hlive]
    exact List.nodup_cons.mpr ⟨hout, h.nodup⟩
  · by_cases hzs : z = s
    · subst hzs
      obtain rfl : v = w := Option.some.inj (hself.symm.trans hz)
      rw [hdel]
      exact ⟨by simp, fun hd => absurd (List.mem_append_right e.tree hd) hout⟩
    · exact h.pending z w ((hother z hzs).symm.trans hz)
  · have hmem : membersOf (e.adopt s v k groups q).socks e.live = e.members := by
      refine membersOf_congr fun z hz => ?_
      rw [hother z fun he => hout (he ▸ hz)]
    have hcons : (e.adopt s v k groups q).members = _ := membersOf_cons (l := e.live) hself
    rw [hcons, hmem]
  · rw [hlive, List.length_cons]
    simp only [Epoll.adopt, h.allocated]
    omega

theorem regroup (h : e.Linked) (hlen : e.groupQueue.length ≤ q.length) (hg : Grouped groups q e.members) :
    (e.regroup groups q).Linked where
  live := h.live
  nodup := h.nodup
  pending := h.pending
  update := h.update
  nodupUpdate := h.nodupUpdate
  grouped := hg
  allocated := by
    have hlive : (e.regroup groups q).live = e.live := rfl
    rw [hlive]
    simp only [Epoll.regroup, h.allocated]
    omega

end Linked

end Epoll

end MNet.Wepoll
