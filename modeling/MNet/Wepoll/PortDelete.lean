import MNet.Wepoll.PortLife

/-! # Deleting a port

`port_delete` frees the sockets in the tree, those that were deleted and wait, and then the poll
groups, which are empty by then. -/

namespace MNet.Wepoll

open Lib Lib.Exec

variable {τ : Type} {p : Port τ} {e : Epoll τ} {env : WinEnv} {s : SockId} {g : GroupId} {n : GroupId → Nat}
  {groups : GroupId → Option PollGroup} {q : List GroupId}

/-- An empty group is freed. -/
theorem Grouped.remove (hg : Grouped groups q n) (hzero : n g = 0) :
    Grouped (Function.update groups g none) (q.erase g) n := by
  refine ⟨fun a => ?_, hg.nodup.erase g, hg.bound, fun a ha => ?_, hg.full.sublist List.erase_sublist⟩
  · by_cases hag : a = g
    · subst hag
      rw [Function.update_self, if_neg fun hin => (hg.nodup.mem_erase_iff.mp hin).1 rfl]
    · rw [Function.update_of_ne hag, hg.groups]
      simp only [List.mem_erase_of_ne hag]
  · by_cases hag : a = g
    · exact hag ▸ hzero
    · exact hg.outside a fun hin => ha ((List.mem_erase_of_ne hag).mpr hin)

namespace Epoll

/-- A poll group is freed. -/
def dropGroup (e : Epoll τ) (g : GroupId) : Epoll τ :=
  (e.setGroupQueue (e.groupQueue.erase g)).onData fun d => d.freeGroup g

theorem Linked.dropGroup (h : e.Linked) (hq : g ∈ e.groupQueue) (hzero : e.members g = 0) : (e.dropGroup g).Linked where
  live := h.live
  nodup := h.nodup
  pending := h.pending
  update := h.update
  nodupUpdate := h.nodupUpdate
  grouped := h.grouped.remove hzero
  allocated := by
    have hpos : 0 < e.groupQueue.length := List.length_pos_of_mem hq
    have hlen : (e.groupQueue.erase g).length = e.groupQueue.length - 1 := List.length_erase_of_mem hq
    have hall : (e.dropGroup g).allocated = e.allocated - 1 := rfl
    have hlive : (e.dropGroup g).live = e.live := rfl
    have hqueue : (e.dropGroup g).groupQueue = e.groupQueue.erase g := rfl
    rw [hall, hlive, hqueue, hlen, h.allocated]
    omega

/-- Nothing is left in memory. -/
theorem Linked.gone (h : e.Linked) (htree : e.tree = []) (hdeleted : e.deleted = []) (hq : e.groupQueue = []) :
    (∀ s, e.socks s = none) ∧ (∀ g, e.groups g = none) ∧ e.allocated = 0 ∧ e.update = [] := by
  have hlive : e.live = [] := by rw [Epoll.live, htree, hdeleted, List.append_nil]
  refine ⟨fun s => ?_, fun g => ?_, ?_, ?_⟩
  · by_contra hne
    have hin := (h.live s).mp hne
    rw [hlive] at hin
    exact absurd hin List.not_mem_nil
  · rw [h.grouped.groups, hq, if_neg List.not_mem_nil]
  · rw [h.allocated, hlive, hq]
    rfl
  · refine List.eq_nil_iff_forall_not_mem.mpr fun s hs => ?_
    exact absurd (htree ▸ h.update s hs) List.not_mem_nil

end Epoll

namespace Port.Shows

/-- A socket is freed, wherever it is. -/
theorem sockForceDelete_ends (h : p.Shows e) (hl : e.Linked) (hs : s ∈ e.live) :
    Ends (sockForceDelete env s) p fun _ p' => ∃ e', p'.Shows e' ∧ e'.Linked ∧ e'.tree = e.tree.erase s ∧
      e'.deleted = e.deleted.erase s ∧ e'.groupQueue.length = e.groupQueue.length := by
  obtain ⟨v, hv⟩ := hl.exists_sock hs
  simp only [sockForceDelete, ends_bind, ends_pure]
  refine (h.sockDeleteWith_ends hl hv fun _ => .inl rfl).mono fun r p' h' => ?_
  obtain ⟨_, ⟨_, gs, q, hlen, hg, h'⟩ | ⟨hforce, _⟩⟩ := h'
  · exact ⟨_, h', hl.discard hv hlen hg, rfl, rfl, hlen⟩
  · exact absurd hforce (by simp)

theorem portDeleteTree_ends {fuel : Nat} (h : p.Shows e) (hl : e.Linked) (hfuel : e.tree.length < fuel) :
    Ends (portDeleteTree env fuel) p fun _ p' => ∃ e', p'.Shows e' ∧ e'.Linked ∧ e'.tree = [] ∧
      e'.deleted.length ≤ e.deleted.length ∧ e'.groupQueue.length = e.groupQueue.length := by
  induction fuel generalizing p e with
  | zero => omega
  | succ fuel ih =>
    simp only [portDeleteTree, ends_bind]
    refine h.treeRoot_ends.mono fun root p₁ h₁ => ?_
    obtain ⟨h₁, hnone, hsome⟩ := h₁
    cases root with
    | none => exact ends_pure.mpr ⟨e, h₁, hl, hnone rfl, le_rfl, rfl⟩
    | some s =>
      have hs : s ∈ e.tree := hsome s rfl
      simp only [ends_bind]
      refine (h₁.sockForceDelete_ends hl (List.mem_append_left _ hs)).mono fun _ p₂ h₂ => ?_
      obtain ⟨e₂, h₂, hl₂, htree, hdel, hgroup⟩ := h₂
      have hlen : e₂.tree.length < fuel := by
        rw [htree, List.length_erase_of_mem hs]
        have hpos : 0 < e.tree.length := List.length_pos_of_mem hs
        omega
      refine (ih h₂ hl₂ hlen).mono fun _ p₃ h₃ => ?_
      obtain ⟨e₃, h₃, hl₃, hnil, hle, hgroup₃⟩ := h₃
      exact ⟨e₃, h₃, hl₃, hnil, hle.trans (hdel ▸ List.length_erase_le), hgroup₃.trans hgroup⟩

theorem portDeleteDeleted_ends {fuel : Nat} (h : p.Shows e) (hl : e.Linked) (htree : e.tree = [])
    (hfuel : e.deleted.length < fuel) :
    Ends (portDeleteDeleted env fuel) p fun _ p' => ∃ e', p'.Shows e' ∧ e'.Linked ∧ e'.tree = [] ∧ e'.deleted = [] ∧
      e'.groupQueue.length = e.groupQueue.length := by
  induction fuel generalizing p e with
  | zero => omega
  | succ fuel ih =>
    simp only [portDeleteDeleted, ends_bind, ends_read, h.first_deleted]
    cases hd : e.deleted with
    | nil => exact ends_pure.mpr ⟨e, h, hl, htree, hd, rfl⟩
    | cons s l =>
      have hs : s ∈ e.deleted := hd ▸ List.mem_cons_self
      simp only [List.head?_cons, Option.map_some, ends_bind, ends_sockStateFromQueueNode]
      refine (h.sockForceDelete_ends hl (List.mem_append_right _ hs)).mono fun _ p₁ h₁ => ?_
      obtain ⟨e₁, h₁, hl₁, htree₁, hdel, hgroup⟩ := h₁
      have hlen : e₁.deleted.length < fuel := by
        rw [hdel, List.length_erase_of_mem hs]
        have hpos : 0 < e.deleted.length := List.length_pos_of_mem hs
        omega
      refine (ih h₁ hl₁ (by rw [htree₁, htree, List.erase_nil]) hlen).mono fun _ p₂ h₂ => ?_
      obtain ⟨e₂, h₂, hl₂, htree₂, hnil, hgroup₂⟩ := h₂
      exact ⟨e₂, h₂, hl₂, htree₂, hnil, hgroup₂.trans hgroup⟩

theorem pollGroupDelete_ends (h : p.Shows e) (hl : e.Linked) (hq : g ∈ e.groupQueue) (hzero : e.members g = 0) :
    Ends (pollGroupDelete g) p fun _ p' => p'.Shows (e.dropGroup g) := by
  simp only [pollGroupDelete, ends_bind, h.getGroup_ends (hl.grouped.get hq), ends_assert, ends_onQueues, ends_onData]
  exact ⟨hzero, h.removeGroup.onData fun d => d.freeGroup g⟩

theorem portDeleteGroups_ends {fuel : Nat} (h : p.Shows e) (hl : e.Linked) (htree : e.tree = []) (hdeleted : e.deleted = [])
    (hfuel : e.groupQueue.length < fuel) :
    Ends (portDeleteGroups fuel) p fun _ p' => ∃ e', p'.Shows e' ∧ e'.Linked ∧ e'.tree = [] ∧ e'.deleted = [] ∧
      e'.groupQueue = [] := by
  induction fuel generalizing p e with
  | zero => omega
  | succ fuel ih =>
    simp only [portDeleteGroups, ends_bind, ends_read, h.first_group]
    cases hgq : e.groupQueue with
    | nil => exact ends_pure.mpr ⟨e, h, hl, htree, hdeleted, hgq⟩
    | cons g l =>
      have hq : g ∈ e.groupQueue := hgq ▸ List.mem_cons_self
      have hzero : e.members g = 0 := by
        rw [Epoll.members, Epoll.live, htree, hdeleted]
        rfl
      simp only [List.head?_cons, Option.map_some, ends_bind, ends_pollGroupFromQueueNode]
      refine (h.pollGroupDelete_ends hl hq hzero).mono fun _ p₁ h₁ => ?_
      have hlen : (e.dropGroup g).groupQueue.length < fuel := by
        have herase : (e.dropGroup g).groupQueue.length = e.groupQueue.length - 1 := List.length_erase_of_mem hq
        have hpos : 0 < e.groupQueue.length := List.length_pos_of_mem hq
        omega
      exact ih h₁ (hl.dropGroup hq hzero) htree hdeleted hlen

theorem portDelete_ends (h : p.Shows e) (hl : e.Linked) (hclosed : p.iocpHandle = false) :
    Ends (portDelete env) p fun r p' => r = 0 ∧ (∀ s, p'.socks s = none) ∧ (∀ g, p'.groups g = none) ∧ p'.allocated = 0 := by
  have hsize : e.allocated = e.tree.length + e.deleted.length + e.groupQueue.length := by
    rw [hl.allocated, Epoll.live, List.length_append]
  have hfuel : p.fuel = e.allocated + 2 := by rw [Port.fuel, h.allocated]
  simp only [portDelete, ends_bind, ends_read, ends_assert]
  refine ⟨hclosed, ?_⟩
  refine (h.portDeleteTree_ends hl (by omega)).mono fun _ p₁ h₁ => ?_
  obtain ⟨e₁, h₁, hl₁, htree₁, hle₁, hgroup₁⟩ := h₁
  refine (h₁.portDeleteDeleted_ends hl₁ htree₁ (by omega)).mono fun _ p₂ h₂ => ?_
  obtain ⟨e₂, h₂, hl₂, htree₂, hdel₂, hgroup₂⟩ := h₂
  refine (h₂.portDeleteGroups_ends hl₂ htree₂ hdel₂ (by omega)).mono fun _ p₃ h₃ => ?_
  obtain ⟨e₃, h₃, hl₃, htree₃, hdel₃, hq₃⟩ := h₃
  obtain ⟨hsocks, hgroups, hall, hupdate⟩ := hl₃.gone htree₃ hdel₃ hq₃
  simp only [ends_pure]
  exact ⟨h₃.update_empty.mpr hupdate, trivial, h₃.socks ▸ hsocks, h₃.groups ▸ hgroups, h₃.allocated.trans hall⟩

end Port.Shows

section

variable [DecidableEq τ] {l : List (PortAction τ × PortAnswer)}

/-- After any run, `port_delete` of a closed port returns, no assertion fails, and nothing is left. -/
theorem delete_frees (h : Port.Runs l p) (hclosed : p.iocpHandle = false) :
    Ends (portDelete env) p fun r p' =>
      r = 0 ∧ (∀ s, p'.socks s = none) ∧ (∀ g, p'.groups g = none) ∧ p'.allocated = 0 := by
  obtain ⟨e, m, hs, _, _⟩ := h.serves
  exact hs.shows.portDelete_ends hs.sound.linked hclosed

theorem delete_frees_waiting : Ends (portDelete quietEnv) (PortAction.close.after (waitsOne.after (addsFive.after {})))
    fun r p' => r = 0 ∧ (∀ s, p'.socks s = none) ∧ (∀ g, p'.groups g = none) ∧ p'.allocated = 0 :=
  delete_frees (waiting_runs.step (a := .close) rfl rfl) rfl

end

end MNet.Wepoll
