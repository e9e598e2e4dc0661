import MNet.Wepoll.Port
import MNet.Wepoll.TreeMap

/-! # The port without its pointers

`Epoll` has the sockets and poll groups of a port and lists in place of its tree and its queues.
`Shows p e` says that the tree and the queues of `p` are these lists. Each function that follows
pointers has a lemma that says what it does to the lists. -/

namespace MNet.Wepoll

open Lib Lib.Exec

variable {τ α : Type}

/-- The sockets in the tree with their keys, those in the two queues, and the poll groups in their
queue. -/
structure Epoll (τ : Type) extends PortData τ where
  key : SockId → Nat := fun _ => 0
  tree : List SockId := []
  update : List SockId := []
  deleted : List SockId := []
  groupQueue : List GroupId := []

namespace Epoll

def onData (e : Epoll τ) (f : PortData τ → PortData τ) : Epoll τ :=
  ⟨f e.toPortData, e.key, e.tree, e.update, e.deleted, e.groupQueue⟩

def lists (e : Epoll τ) : Lists QueueNode
  | .updateQueue => e.update.map .sock
  | .deletedQueue => e.deleted.map .sock
  | .pollGroupQueue => e.groupQueue.map .group
  | .sock _ => []
  | .group _ => []

/-- `tree_add` and `tree_del`. -/
def enter (e : Epoll τ) (s : SockId) (key : Nat) : Epoll τ :=
  { e with tree := s :: e.tree, key := Function.update e.key s key }

def leave (e : Epoll τ) (s : SockId) : Epoll τ := { e with tree := e.tree.erase s }

/-- `queue_remove` of a socket. -/
def dequeue (e : Epoll τ) (s : SockId) : Epoll τ :=
  { e with update := e.update.erase s, deleted := e.deleted.erase s }

/-- `port_request_socket_update` and `port_add_deleted_socket`. -/
def request (e : Epoll τ) (s : SockId) : Epoll τ :=
  if s ∈ e.update ∨ s ∈ e.deleted then e else { e with update := e.update ++ [s] }

def retire (e : Epoll τ) (s : SockId) : Epoll τ :=
  if s ∈ e.update ∨ s ∈ e.deleted then e else { e with deleted := e.deleted ++ [s] }

def setGroupQueue (e : Epoll τ) (q : List GroupId) : Epoll τ := { e with groupQueue := q }

end Epoll

def QueueNode.heads : List QueueNode := [.updateQueue, .deletedQueue, .pollGroupQueue]

theorem QueueNode.mem_heads {x : QueueNode} :
    x ∈ QueueNode.heads ↔ x = .updateQueue ∨ x = .deletedQueue ∨ x = .pollGroupQueue := by
  simp [QueueNode.heads]

structure Port.Shows (p : Port τ) (e : Epoll τ) : Prop where
  data : p.toPortData = e.toPortData
  tree : ∃ l, l.Perm e.tree ∧ p.sockTree.Holds l
  key : ∀ s ∈ e.tree, p.sockTree.key s = e.key s
  queues : p.queues.Holds QueueNode.heads e.lists

variable {p : Port τ} {e : Epoll τ} {s : SockId} {g : GroupId} {v : SockState} {w : PollGroup}
  {P : α → Port τ → Prop}

/-! ## Steps of the model -/

@[simp] theorem ends_onTree {m : TreeM SockId α} :
    Ends (onTree m) p P ↔ Ends m p.sockTree fun a t => P a { p with sockTree := t } := by
  unfold Ends Returns onTree
  cases hm : m p.sockTree with
  | error f => simp
  | ok r =>
    obtain ⟨a, t⟩ := r
    constructor
    · rintro ⟨a', p', h, hp⟩
      cases h
      exact ⟨a, t, rfl, hp⟩
    · rintro ⟨a', t', h, hp⟩
      cases h
      exact ⟨a, _, rfl, hp⟩

@[simp] theorem ends_onData {f : PortData τ → PortData τ} {P : Unit → Port τ → Prop} :
    Ends (onData f) p P ↔ P () (p.setData (f p.toPortData)) := ends_modify

@[simp] theorem ends_onQueues {f : QueueMem QueueNode → QueueMem QueueNode} {P : Unit → Port τ → Prop} :
    Ends (onQueues f) p P ↔ P () { p with queues := f p.queues } := ends_modify

@[simp] theorem ends_assert {c : Prop} [Decidable c] {P : Unit → Port τ → Prop} :
    Ends (assert c) p P ↔ c ∧ P () p := by
  unfold assert
  by_cases h : c <;> simp [h]

@[simp] theorem ends_pollGroupFromQueueNode {P : GroupId → Port τ → Prop} :
    Ends (pollGroupFromQueueNode (.group g)) p P ↔ P g p := ends_pure

@[simp] theorem ends_sockStateFromQueueNode {P : SockId → Port τ → Prop} :
    Ends (sockStateFromQueueNode (.sock s)) p P ↔ P s p := ends_pure

/-! ## Data -/

namespace Port.Shows

theorem socks (h : p.Shows e) : p.socks = e.socks := congrArg PortData.socks h.data

theorem groups (h : p.Shows e) : p.groups = e.groups := congrArg PortData.groups h.data

theorem allocated (h : p.Shows e) : p.allocated = e.allocated := congrArg PortData.allocated h.data

theorem waiters (h : p.Shows e) : p.waiters = e.waiters := congrArg PortData.waiters h.data

theorem iocpHandle (h : p.Shows e) : p.iocpHandle = e.iocpHandle := congrArg PortData.iocpHandle h.data

theorem activePollCount (h : p.Shows e) : p.activePollCount = e.activePollCount :=
  congrArg PortData.activePollCount h.data

theorem onData (h : p.Shows e) (f : PortData τ → PortData τ) :
    (p.setData (f p.toPortData)).Shows (e.onData f) where
  data := congrArg f h.data
  tree := h.tree
  key := h.key
  queues := h.queues

theorem onTick (h : p.Shows e) (n : Nat) : Port.Shows { p with tick := n } e where
  data := h.data
  tree := h.tree
  key := h.key
  queues := h.queues

theorem getSock_ends {P : SockState → Port τ → Prop} (h : p.Shows e) (hv : e.socks s = some v) :
    Ends (getSock s) p P ↔ P v p := by
  simp [getSock, h.socks, hv]

theorem getGroup_ends {P : PollGroup → Port τ → Prop} (h : p.Shows e) (hw : e.groups g = some w) :
    Ends (getGroup g) p P ↔ P w p := by
  simp [getGroup, h.groups, hw]

theorem pollGroupGetAfdHelperHandle_ends {P : Unit → Port τ → Prop} (h : p.Shows e) (hw : e.groups g = some w) :
    Ends (pollGroupGetAfdHelperHandle g) p P ↔ P () p := by
  simp only [pollGroupGetAfdHelperHandle, ends_bind, h.getGroup_ends hw, ends_pure]

theorem updateSock_ends {P : Unit → Port τ → Prop} {f : SockState → SockState} (h : p.Shows e)
    (hv : e.socks s = some v) (hP : ∀ p', p'.Shows (e.onData fun d => d.setSock s (some (f v))) → P () p') :
    Ends (updateSock s f) p P := by
  simp only [updateSock, ends_bind, h.getSock_ends hv, ends_onData]
  exact hP _ (h.onData fun d => d.setSock s (some (f v)))

/-! ## Queues -/

/-- The queues of the port, changed as the lists are. -/
theorem onQueues {e' : Epoll τ} {f : QueueMem QueueNode → QueueMem QueueNode} {q : Lists QueueNode}
    (h : p.Shows e) (hdata : e'.toPortData = e.toPortData) (htree : e'.tree = e.tree) (hkey : e'.key = e.key)
    (hf : (f p.queues).Holds QueueNode.heads q) (hq : ∀ x ∈ QueueNode.heads, q x = e'.lists x) :
    Port.Shows { p with queues := f p.queues } e' where
  data := h.data.trans hdata.symm
  tree := htree ▸ h.tree
  key := by
    rw [htree, hkey]
    exact h.key
  queues := hf.congr hq

theorem sock_enqueued (h : p.Shows e) :
    queueIsEnqueued (.sock s) p.queues = true ↔ s ∈ e.update ∨ s ∈ e.deleted := by
  rw [h.queues.isEnqueued_iff (by simp [QueueNode.heads])]
  simp [QueueNode.heads, Epoll.lists]

theorem sock_free (hs : ¬ (s ∈ e.update ∨ s ∈ e.deleted)) :
    ∀ x ∈ QueueNode.heads, QueueNode.sock s ∉ e.lists x := by
  rw [not_or] at hs
  simpa [QueueNode.heads, Epoll.lists] using hs

theorem portRequestSocketUpdate_ends (h : p.Shows e) :
    Ends (portRequestSocketUpdate s) p fun _ p' => p'.Shows (e.request s) := by
  simp only [portRequestSocketUpdate, portAppendSocket, ends_bind, ends_read, h.sock_enqueued, ends_ite, ends_pure,
    ends_onQueues, Epoll.request]
  refine ⟨fun hin => by rwa [if_pos hin], fun hout => ?_⟩
  rw [if_neg hout]
  refine h.onQueues rfl rfl rfl
    (h.queues.append (by simp [QueueNode.heads]) (by simp [QueueNode.heads]) (sock_free hout)) fun x hx => ?_
  rcases QueueNode.mem_heads.mp hx with rfl | rfl | rfl <;> simp [Epoll.lists]

theorem portAddDeletedSocket_ends (h : p.Shows e) :
    Ends (portAddDeletedSocket s) p fun _ p' => p'.Shows (e.retire s) := by
  simp only [portAddDeletedSocket, portAppendSocket, ends_bind, ends_read, h.sock_enqueued, ends_ite, ends_pure,
    ends_onQueues, Epoll.retire]
  refine ⟨fun hin => by rwa [if_pos hin], fun hout => ?_⟩
  rw [if_neg hout]
  refine h.onQueues rfl rfl rfl
    (h.queues.append (by simp [QueueNode.heads]) (by simp [QueueNode.heads]) (sock_free hout)) fun x hx => ?_
  rcases QueueNode.mem_heads.mp hx with rfl | rfl | rfl <;> simp [Epoll.lists]

theorem sock_erase (l : List SockId) (s : SockId) :
    (l.map QueueNode.sock).erase (.sock s) = (l.erase s).map .sock :=
  (List.map_erase (fun _ _ h => QueueNode.sock.inj h) l).symm

theorem group_erase (l : List GroupId) (g : GroupId) :
    (l.map QueueNode.group).erase (.group g) = (l.erase g).map .group :=
  (List.map_erase (fun _ _ h => QueueNode.group.inj h) l).symm

theorem portRemoveSocket_ends (h : p.Shows e) :
    Ends (portRemoveSocket s) p fun _ p' => p'.Shows (e.dequeue s) := by
  simp only [portRemoveSocket, ends_bind, ends_read, Bool.not_eq_true', ends_ite, ends_pure, ends_onQueues]
  refine ⟨fun hout => ?_, fun _ => ?_⟩
  · rw [← Bool.not_eq_true, h.sock_enqueued, not_or] at hout
    have hsame : e.dequeue s = e := by
      simp [Epoll.dequeue, List.erase_of_not_mem hout.1, List.erase_of_not_mem hout.2]
    rwa [hsame]
  · refine h.onQueues rfl rfl rfl (h.queues.erase (x := .sock s) (by simp [QueueNode.heads])) fun x hx => ?_
    rcases QueueNode.mem_heads.mp hx with rfl | rfl | rfl
    · exact sock_erase e.update s
    · exact sock_erase e.deleted s
    · exact List.erase_of_not_mem (by simp [Epoll.lists])

/-- The first socket of a queue. -/
theorem first_update (h : p.Shows e) : queueFirst .updateQueue p.queues = e.update.head?.map .sock := by
  rw [h.queues.first_eq (by simp [QueueNode.heads])]
  simp [Epoll.lists]

theorem first_deleted (h : p.Shows e) : queueFirst .deletedQueue p.queues = e.deleted.head?.map .sock := by
  rw [h.queues.first_eq (by simp [QueueNode.heads])]
  simp [Epoll.lists]

theorem first_group (h : p.Shows e) : queueFirst .pollGroupQueue p.queues = e.groupQueue.head?.map .group := by
  rw [h.queues.first_eq (by simp [QueueNode.heads])]
  simp [Epoll.lists]

theorem last_group (h : p.Shows e) : queueLast .pollGroupQueue p.queues = e.groupQueue.getLast?.map .group := by
  rw [h.queues.last_eq (by simp [QueueNode.heads])]
  simp [Epoll.lists, List.getLast?_map]

theorem update_empty (h : p.Shows e) : queueIsEmpty .updateQueue p.queues = true ↔ e.update = [] := by
  rw [h.queues.isEmpty_iff (by simp [QueueNode.heads])]
  simp [Epoll.lists]

theorem appendGroup (h : p.Shows e) (hg : g ∉ e.groupQueue) :
    Port.Shows { p with queues := queueAppend .pollGroupQueue (.group g) (queueNodeInit (.group g) p.queues) }
      (e.setGroupQueue (e.groupQueue ++ [g])) := by
  have hfree : ∀ x ∈ QueueNode.heads, QueueNode.group g ∉ e.lists x := by
    simpa [QueueNode.heads, Epoll.lists] using hg
  rw [h.queues.nodeInit_eq (by simp [QueueNode.heads]) hfree]
  refine h.onQueues (f := queueAppend .pollGroupQueue (.group g)) rfl rfl rfl
    (h.queues.append (by simp [QueueNode.heads]) (by simp [QueueNode.heads]) hfree) fun x hx => ?_
  rcases QueueNode.mem_heads.mp hx with rfl | rfl | rfl <;> simp [Epoll.lists, Epoll.setGroupQueue]

theorem moveGroupToStart (h : p.Shows e) :
    Port.Shows { p with queues := queueMoveToStart .pollGroupQueue (.group g) p.queues }
      (e.setGroupQueue (g :: e.groupQueue.erase g)) := by
  refine h.onQueues rfl rfl rfl
    (h.queues.moveToStart (x := .group g) (by simp [QueueNode.heads]) (by simp [QueueNode.heads])) fun x hx => ?_
  rcases QueueNode.mem_heads.mp hx with rfl | rfl | rfl
  · exact List.erase_of_not_mem (by simp [Epoll.lists])
  · exact List.erase_of_not_mem (by simp [Epoll.lists])
  · simp [Epoll.lists, Epoll.setGroupQueue, group_erase]

theorem moveGroupToEnd (h : p.Shows e) :
    Port.Shows { p with queues := queueMoveToEnd .pollGroupQueue (.group g) p.queues }
      (e.setGroupQueue (e.groupQueue.erase g ++ [g])) := by
  refine h.onQueues rfl rfl rfl
    (h.queues.moveToEnd (x := .group g) (by simp [QueueNode.heads]) (by simp [QueueNode.heads])) fun x hx => ?_
  rcases QueueNode.mem_heads.mp hx with rfl | rfl | rfl
  · exact List.erase_of_not_mem (by simp [Epoll.lists])
  · exact List.erase_of_not_mem (by simp [Epoll.lists])
  · simp [Epoll.lists, Epoll.setGroupQueue, group_erase]

theorem removeGroup (h : p.Shows e) :
    Port.Shows { p with queues := queueRemove (.group g) p.queues }
      (e.setGroupQueue (e.groupQueue.erase g)) := by
  refine h.onQueues rfl rfl rfl (h.queues.erase (x := .group g) (by simp [QueueNode.heads])) fun x hx => ?_
  rcases QueueNode.mem_heads.mp hx with rfl | rfl | rfl
  · exact List.erase_of_not_mem (by simp [Epoll.lists])
  · exact List.erase_of_not_mem (by simp [Epoll.lists])
  · exact group_erase e.groupQueue g

/-! ## The tree -/

/-- The height of a red-black tree is below twice its logarithm, and so below the number of objects. -/
theorem log_lt {n m : Nat} (h : n ≤ m) : 2 * Nat.log 2 (n + 1) < m + 2 := by
  have htwo : ∀ j : Nat, 2 * j ≤ 2 ^ j := by
    intro j
    cases j with
    | zero => exact Nat.zero_le _
    | succ j =>
      have hj : j < 2 ^ j := Nat.lt_two_pow_self
      rw [Nat.pow_succ]
      omega
  have hpow : 2 ^ Nat.log 2 (n + 1) ≤ n + 1 := Nat.pow_log_le_self 2 (Nat.succ_ne_zero n)
  have := htwo (Nat.log 2 (n + 1))
  omega

theorem tree_fuel {l : List SockId} (h : p.Shows e) (hl : l.Perm e.tree) (hlen : e.tree.length ≤ e.allocated) :
    2 * Nat.log 2 (l.length + 1) < p.fuel := by
  rw [Port.fuel, h.allocated]
  exact log_lt (hl.length_eq ▸ hlen)

/-- The tree of the port, changed as the list is. -/
theorem setTree {e' : Epoll τ} {t : Tree SockId} {l : List SockId} (h : p.Shows e)
    (hdata : e'.toPortData = e.toPortData) (hlists : e'.lists = e.lists) (hl : l.Perm e'.tree) (ht : t.Holds l)
    (hkey : ∀ s ∈ e'.tree, t.key s = e'.key s) : Port.Shows { p with sockTree := t } e' where
  data := h.data.trans hdata.symm
  tree := ⟨l, hl, ht⟩
  key := hkey
  queues := hlists ▸ h.queues

/-- Two sockets in the tree have two keys. -/
theorem key_inj (h : p.Shows e) {s' : SockId} (hs : s ∈ e.tree) (hs' : s' ∈ e.tree) (hk : e.key s = e.key s') :
    s = s' := by
  obtain ⟨l, hl, ht⟩ := h.tree
  have hsymm : Std.Symm fun a b => p.sockTree.key a ≠ p.sockTree.key b := ⟨fun _ _ h => h.symm⟩
  have hne := (ht.sorted.imp fun {a b} hab => (Nat.ne_of_lt hab : p.sockTree.key a ≠ p.sockTree.key b)).forall
  by_contra hss
  refine hne (hl.mem_iff.mpr hs) (hl.mem_iff.mpr hs') hss ?_
  rw [h.key s hs, h.key s' hs', hk]

theorem portRegisterSocket_ends {k : Nat} (h : p.Shows e) (hlen : e.tree.length ≤ e.allocated)
    (hs : s ∉ e.tree) :
    Ends (portRegisterSocket s k) p fun r p' =>
      (r = -1 ∧ p'.Shows e ∧ ∃ z ∈ e.tree, e.key z = k) ∨
      (r = 0 ∧ p'.Shows (e.enter s k) ∧ ∀ z ∈ e.tree, e.key z ≠ k) := by
  obtain ⟨l, hl, ht⟩ := h.tree
  simp only [portRegisterSocket, ends_bind, ends_read, ends_onTree]
  have hsl : s ∉ l := fun hin => hs (hl.mem_iff.mp hin)
  refine (treeAdd_ends (h.tree_fuel hl hlen) ht hsl).mono fun r t h' => ?_
  rcases h' with ⟨rfl, rfl, z, hz, hkz⟩ | ⟨rfl, hkey, hne, a, b, rfl, ht'⟩
  · refine .inl ⟨rfl, h, z, hl.mem_iff.mp hz, ?_⟩
    rw [← h.key z (hl.mem_iff.mp hz), hkz]
  · refine .inr ⟨rfl, h.setTree rfl rfl (List.perm_middle.trans (hl.cons s)) ht' fun z hz => ?_, fun z hz => ?_⟩
    · rw [hkey]
      by_cases hzs : z = s
      · subst hzs
        have hz' : (e.enter z k).key z = k := Function.update_self ..
        exact (Function.update_self ..).trans hz'.symm
      · rw [Function.update_of_ne hzs]
        refine Eq.trans (h.key z ?_) (Function.update_of_ne hzs ..).symm
        exact (List.mem_cons.mp hz).resolve_left hzs
    · rw [← h.key z hz]
      exact hne z (hl.mem_iff.mpr hz)

theorem portUnregisterSocket_ends (h : p.Shows e) (hlen : e.tree.length ≤ e.allocated) (hs : s ∈ e.tree) :
    Ends (portUnregisterSocket s) p fun _ p' => p'.Shows (e.leave s) := by
  obtain ⟨l, hl, ht⟩ := h.tree
  simp only [portUnregisterSocket, ends_bind, ends_read, ends_onTree]
  refine (treeDel_ends (h.tree_fuel hl hlen) ht (hl.mem_iff.mpr hs)).mono fun _ t h' => ?_
  obtain ⟨hkey, ht'⟩ := h'
  refine h.setTree rfl rfl (hl.erase s) ht' fun z hz => ?_
  rw [hkey]
  exact h.key z (List.mem_of_mem_erase hz)

theorem portFindSocket_ends {k : Nat} (h : p.Shows e) (hlen : e.tree.length ≤ e.allocated) :
    Ends (portFindSocket k) p fun r p' => p'.Shows e ∧ ∀ z, r = some z ↔ z ∈ e.tree ∧ e.key z = k := by
  obtain ⟨l, hl, ht⟩ := h.tree
  simp only [portFindSocket, ends_bind, ends_read, ends_onTree]
  refine (treeFind_ends (h.tree_fuel hl hlen) ht).mono fun r t h' => ?_
  obtain ⟨rfl, hr⟩ := h'
  refine ⟨h, fun z => (hr z).trans ?_⟩
  rw [hl.mem_iff]
  exact and_congr_right fun hz => by rw [h.key z hz]

theorem treeRoot_ends (h : p.Shows e) :
    Ends (onTree treeRoot) p fun r p' => p'.Shows e ∧ (r = none → e.tree = []) ∧ ∀ z, r = some z → z ∈ e.tree := by
  obtain ⟨l, hl, ht⟩ := h.tree
  simp only [ends_onTree]
  refine (Wepoll.treeRoot_ends ht).mono fun r t h' => ?_
  obtain ⟨rfl, hnone, hsome⟩ := h'
  refine ⟨h, fun hr => ?_, fun z hz => hl.mem_iff.mp (hsome z hz)⟩
  rw [hnone hr] at hl
  exact List.nil_perm.mp hl

/-- The nodes of a socket that is in no list may be set up. -/
theorem sockAlloc_ends {b : Nat} (h : p.Shows e) (htree : s ∉ e.tree) (hq : ¬ (s ∈ e.update ∨ s ∈ e.deleted)) :
    Ends (sockAlloc s b g) p fun _ p' =>
      p'.Shows (e.onData fun d => d.allocSock s { baseSocket := b, pollGroup := g }) := by
  simp only [sockAlloc, ends_bind, ends_onData, ends_onTree, ends_modify, ends_onQueues]
  have h' := h.onData fun d => d.allocSock s { baseSocket := b, pollGroup := g }
  obtain ⟨l, hl, ht⟩ := h'.tree
  have hsl : s ∉ l := fun hin => htree (hl.mem_iff.mp hin)
  rw [h'.queues.nodeInit_eq (by simp [QueueNode.heads]) (sock_free hq)]
  refine h'.setTree rfl rfl hl (ht.update hsl) fun z hz => ?_
  have hzs : z ≠ s := fun he => htree (he ▸ hz)
  have hkey : (p.sockTree.update s fun _ => {}).key z = p.sockTree.key z :=
    congrArg TreeNode.key (Function.update_of_ne hzs ..)
  exact hkey.trans (h'.key z hz)

end Port.Shows

end MNet.Wepoll
