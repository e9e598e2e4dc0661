import MNet.Wepoll.Epoll

/-! # Poll groups

Each socket belongs to a poll group, and a group has place for 32. Full groups stand before those
with place in the queue, so that the last one has place when any has. `Grouped` says this of groups
that hold `n g` sockets each; a group is entered with `poll_group_acquire`, which keeps it for one
socket more, and left with `poll_group_release`. -/

namespace MNet.Wepoll

open Lib Lib.Exec

variable {τ : Type} {p : Port τ} {e : Epoll τ} {env : WinEnv} {g : GroupId} {n : GroupId → Nat}
  {groups : GroupId → Option PollGroup} {q : List GroupId}

structure Grouped (groups : GroupId → Option PollGroup) (q : List GroupId) (n : GroupId → Nat) : Prop where
  groups : ∀ g, groups g = if g ∈ q then some ⟨n g⟩ else none
  nodup : q.Nodup
  bound : ∀ g, n g ≤ POLL_GROUP_MAX_GROUP_SIZE
  outside : ∀ g, g ∉ q → n g = 0
  full : q.Pairwise fun a b => n b = POLL_GROUP_MAX_GROUP_SIZE → n a = POLL_GROUP_MAX_GROUP_SIZE

/-- Some group has place for a socket. -/
def HasRoom (q : List GroupId) (n : GroupId → Nat) : Prop := ∃ g ∈ q, n g < POLL_GROUP_MAX_GROUP_SIZE

namespace Grouped

theorem get (hg : Grouped groups q n) (hq : g ∈ q) : groups g = some ⟨n g⟩ := by
  rw [hg.groups, if_pos hq]

theorem mem (hg : Grouped groups q n) : g ∈ q ↔ groups g ≠ none := by
  rw [hg.groups]
  by_cases h : g ∈ q <;> simp [h]

theorem mem_of_pos (hg : Grouped groups q n) (h : 0 < n g) : g ∈ q := by
  by_contra hq
  have := hg.outside g hq
  omega

/-- The group at the end of the queue has place, when any has. -/
theorem room_last (hg : Grouped groups q n) (hroom : HasRoom q n) :
    ∃ g, q.getLast? = some g ∧ n g < POLL_GROUP_MAX_GROUP_SIZE := by
  obtain ⟨g, hgq, hlt⟩ := hroom
  obtain ⟨l, b, rfl⟩ := List.eq_nil_or_concat q |>.resolve_left (List.ne_nil_of_mem hgq)
  refine ⟨b, by simp, ?_⟩
  have hfull := hg.full
  simp only [List.concat_eq_append] at hgq hfull
  rcases List.mem_append.mp hgq with hgl | hgb
  · have hb := (List.pairwise_append.mp hfull).2.2 g hgl b List.mem_cons_self
    have := hg.bound b
    omega
  · rwa [List.mem_singleton.mp hgb] at hlt

/-- The size of one group is written, and the group goes to the end of the queue with place in it. -/
theorem toEnd {m : Nat} {l : List GroupId} (hg : Grouped groups q n) (hperm : (l ++ [g]).Perm q ∨ (g ∉ q ∧ l = q))
    (hl : l.Pairwise fun a b => n b = POLL_GROUP_MAX_GROUP_SIZE → n a = POLL_GROUP_MAX_GROUP_SIZE)
    (hm : m < POLL_GROUP_MAX_GROUP_SIZE) :
    Grouped (Function.update groups g (some ⟨m⟩)) (l ++ [g]) (Function.update n g m) := by
  have hnd : (l ++ [g]).Nodup := by
    rcases hperm with hperm | ⟨hout, rfl⟩
    · exact hperm.nodup_iff.mpr hg.nodup
    · exact List.nodup_append.mpr ⟨hg.nodup, List.nodup_singleton g, by
        rintro a ha b hb rfl
        exact hout (List.mem_singleton.mp hb ▸ ha)⟩
  have hmem : ∀ a, a ≠ g → (a ∈ l ++ [g] ↔ a ∈ q) := by
    intro a ha
    rcases hperm with hperm | ⟨_, rfl⟩
    · exact hperm.mem_iff
    · simp [ha]
  have hgl : ∀ a ∈ l, a ≠ g := by
    rintro a ha rfl
    exact (List.nodup_append.mp hnd).2.2 a ha a List.mem_cons_self rfl
  refine ⟨fun a => ?_, hnd, fun a => ?_, fun a ha => ?_, ?_⟩
  · by_cases ha : a = g
    · subst ha
      simp
    · rw [Function.update_of_ne ha, Function.update_of_ne ha, hg.groups]
      simp only [hmem a ha]
  · by_cases ha : a = g
    · subst ha
      rw [Function.update_self]
      exact Nat.le_of_lt hm
    · rw [Function.update_of_ne ha]
      exact hg.bound a
  · have hag : a ≠ g := by
      rintro rfl
      exact ha (List.mem_append_right _ List.mem_cons_self)
    rw [Function.update_of_ne hag]
    exact hg.outside a fun hq => ha ((hmem a hag).mpr hq)
  · refine List.pairwise_append.mpr ⟨hl.imp_of_mem fun {a b} ha hb hab => ?_, List.pairwise_singleton _ g, ?_⟩
    · rwa [Function.update_of_ne (hgl a ha), Function.update_of_ne (hgl b hb)]
    · intro a _ b hb hfull
      rw [List.mem_singleton.mp hb, Function.update_self] at hfull
      omega

/-- A group that is full now goes to the start of the queue. -/
theorem toStart (hg : Grouped groups q n) (hq : g ∈ q) :
    Grouped (Function.update groups g (some ⟨POLL_GROUP_MAX_GROUP_SIZE⟩)) (g :: q.erase g)
      (Function.update n g POLL_GROUP_MAX_GROUP_SIZE) := by
  have hperm : (g :: q.erase g).Perm q := (List.perm_cons_erase hq).symm
  have hgl : ∀ a ∈ q.erase g, a ≠ g := fun a ha => (hg.nodup.mem_erase_iff.mp ha).1
  refine ⟨fun a => ?_, hperm.nodup_iff.mpr hg.nodup, fun a => ?_, fun a ha => ?_, ?_⟩
  · by_cases ha : a = g
    · subst ha
      simp
    · rw [Function.update_of_ne ha, Function.update_of_ne ha, hg.groups]
      simp only [hperm.mem_iff]
  · by_cases ha : a = g
    · subst ha
      rw [Function.update_self]
    · rw [Function.update_of_ne ha]
      exact hg.bound a
  · have hag : a ≠ g := by
      rintro rfl
      exact ha List.mem_cons_self
    rw [Function.update_of_ne hag]
    exact hg.outside a fun hq => ha (hperm.mem_iff.mpr hq)
  · refine List.pairwise_cons.mpr ⟨fun b _ _ => Function.update_self .., ?_⟩
    refine (hg.full.sublist List.erase_sublist).imp_of_mem fun {a b} ha hb hab => ?_
    rwa [Function.update_of_ne (hgl a ha), Function.update_of_ne (hgl b hb)]

theorem congr {n' : GroupId → Nat} (hg : Grouped groups q n) (hn : n = n') : Grouped groups q n' := hn ▸ hg

end Grouped

/-! ## The functions -/

namespace Epoll

/-- Other poll groups in memory and in the queue. -/
def regroup (e : Epoll τ) (groups : GroupId → Option PollGroup) (q : List GroupId) : Epoll τ :=
  { e with groups := groups, groupQueue := q, allocated := e.allocated + q.length - e.groupQueue.length }

end Epoll

/-- The outcome of `poll_group_acquire`: no group, or one that is entered. -/
def Acquired (e : Epoll τ) (n : GroupId → Nat) (o : Option GroupId) (p : Port τ) : Prop :=
  (o = none ∧ p.Shows e) ∨ ∃ g groups q, o = some g ∧ p.Shows (e.regroup groups q) ∧
    e.groupQueue.length ≤ q.length ∧ Grouped groups q (Function.update n g (n g + 1))

namespace Port.Shows

theorem pollGroupNew_ends (h : p.Shows e) (hg : Grouped e.groups e.groupQueue n) (hopen : e.iocpHandle = true)
    (hfit : ∀ g, env.newGroup = some g → e.groups g = none) :
    Ends (pollGroupNew env) p fun o p' =>
      (o = none ∧ p'.Shows e) ∨ ∃ g, o = some g ∧ g ∉ e.groupQueue ∧
        p'.Shows ((e.onData fun d => d.allocGroup g).setGroupQueue (e.groupQueue ++ [g])) := by
  simp only [pollGroupNew, portGetIocpHandle, ends_bind, ends_read, ends_assert]
  refine ⟨h.iocpHandle.trans hopen, ?_⟩
  cases hnew : env.newGroup with
  | none => exact ends_pure.mpr (.inl ⟨rfl, h⟩)
  | some g =>
    have hout : g ∉ e.groupQueue := fun hin => hg.mem.mp hin (hfit g hnew)
    simp only [ends_bind, ends_onData, ends_onQueues, ends_pure]
    exact .inr ⟨g, rfl, hout, (h.onData fun d => d.allocGroup g).appendGroup hout⟩

/-- The group is entered for one socket more. -/
theorem pollGroupEnter_ends (h : p.Shows e) (hg : Grouped e.groups e.groupQueue n) (hlast : e.groupQueue.getLast? = some g)
    (hlt : n g < POLL_GROUP_MAX_GROUP_SIZE) :
    Ends (pollGroupEnter g) p fun _ p' => ∃ groups q, p'.Shows (e.regroup groups q) ∧
      q.length = e.groupQueue.length ∧ Grouped groups q (Function.update n g (n g + 1)) := by
  have hq : g ∈ e.groupQueue := List.mem_of_getLast? hlast
  simp only [pollGroupEnter, ends_bind, h.getGroup_ends (hg.get hq), ends_onData, ends_ite, ends_onQueues, ends_pure]
  have h' := h.onData fun d => d.setGroup g (some ⟨n g + 1⟩)
  have hsame : ∀ q, q.length = e.groupQueue.length →
      (e.onData fun d => d.setGroup g (some ⟨n g + 1⟩)).setGroupQueue q =
        e.regroup (Function.update e.groups g (some ⟨n g + 1⟩)) q := by
    intro q hlen
    simp [Epoll.onData, Epoll.setGroupQueue, Epoll.regroup, PortData.setGroup, hlen]
  refine ⟨fun hfull => ?_, fun hroom => ?_⟩
  · have hg' := hg.toStart hq
    rw [← hfull] at hg'
    have hlen : (g :: e.groupQueue.erase g).length = e.groupQueue.length := (List.perm_cons_erase hq).length_eq.symm
    refine ⟨_, g :: e.groupQueue.erase g, ?_, hlen, hg'⟩
    rw [← hsame _ hlen]
    exact h'.moveGroupToStart
  · obtain ⟨l, hl⟩ : ∃ l, e.groupQueue = l ++ [g] := List.getLast?_eq_some_iff.mp hlast
    have hpw := hg.full
    rw [hl] at hpw
    have hg' := hg.toEnd (g := g) (.inl (hl ▸ .refl _)) (List.pairwise_append.mp hpw).1
      (show n g + 1 < POLL_GROUP_MAX_GROUP_SIZE by omega)
    rw [← hl] at hg'
    exact ⟨_, _, hsame _ rfl ▸ h', rfl, hg'⟩

/-- No group has place: one more is made, and entered. -/
theorem pollGroupNew_take_ends (h : p.Shows e) (hg : Grouped e.groups e.groupQueue n) (hopen : e.iocpHandle = true)
    (hfit : ∀ g, env.newGroup = some g → e.groups g = none) :
    Ends (pollGroupNew env) p fun o p' => Ends (pollGroupTake o) p' (Acquired e n) := by
  refine (h.pollGroupNew_ends hg hopen hfit).mono fun o p' h' => ?_
  rcases h' with ⟨rfl, h'⟩ | ⟨g, rfl, hout, h'⟩
  · exact ends_pure.mpr (.inl ⟨rfl, h'⟩)
  have hzero : n g = 0 := hg.outside g hout
  have hg' := hg.toEnd (g := g) (.inr ⟨hout, rfl⟩) hg.full (show 0 < POLL_GROUP_MAX_GROUP_SIZE by decide)
  rw [show Function.update n g 0 = n from Function.update_eq_self_iff.mpr hzero.symm] at hg'
  simp only [pollGroupTake, ends_bind, ends_pure]
  refine (h'.pollGroupEnter_ends hg' (by simp [Epoll.setGroupQueue]) (hzero ▸ by decide)).mono fun _ p'' h'' => ?_
  obtain ⟨groups, q, h'', hlen, hg''⟩ := h''
  simp only [Epoll.setGroupQueue, List.length_append, List.length_cons, List.length_nil] at hlen
  refine .inr ⟨g, groups, q, rfl, ?_, by omega, hg''⟩
  have hall : e.allocated + 1 + q.length - (e.groupQueue.length + 1) = e.allocated + q.length - e.groupQueue.length := by
    omega
  have hsame : ((e.onData fun d => d.allocGroup g).setGroupQueue (e.groupQueue ++ [g])).regroup groups q =
      e.regroup groups q := by
    simp [Epoll.onData, Epoll.setGroupQueue, Epoll.regroup, PortData.allocGroup, PortData.setGroup, hall]
  rwa [hsame] at h''

theorem pollGroupLast_ends {P : Option GroupId → Port τ → Prop} (h : p.Shows e) :
    Ends pollGroupLast p P ↔ P e.groupQueue.getLast? p := by
  simp only [pollGroupLast, ends_bind, ends_read, h.last_group]
  cases hl : e.groupQueue.getLast? with
  | none => exact ends_pure
  | some g => simp

theorem pollGroupAcquire_ends (h : p.Shows e) (hg : Grouped e.groups e.groupQueue n)
    (hopen : e.iocpHandle = true ∨ HasRoom e.groupQueue n) (hfit : ∀ g, env.newGroup = some g → e.groups g = none) :
    Ends (pollGroupAcquire env) p (Acquired e n) := by
  have hnew : ¬ HasRoom e.groupQueue n → Ends (pollGroupNew env) p fun o p' => Ends (pollGroupTake o) p' (Acquired e n) :=
    fun hno => h.pollGroupNew_take_ends hg (hopen.resolve_right hno) hfit
  simp only [pollGroupAcquire, ends_bind, h.pollGroupLast_ends]
  cases hl : e.groupQueue.getLast? with
  | none =>
    simp only [pollGroupHasRoom, ends_pure, Bool.false_eq_true, if_false, ends_bind]
    refine hnew fun hroom => ?_
    obtain ⟨g, hlast, _⟩ := hg.room_last hroom
    rw [hl] at hlast
    cases hlast
  | some g =>
    have hq : g ∈ e.groupQueue := List.mem_of_getLast? hl
    simp only [pollGroupHasRoom, ends_bind, h.getGroup_ends (hg.get hq), ends_pure, decide_eq_true_eq, ends_ite]
    refine ⟨fun hlt => ?_, fun hge => hnew fun hroom => ?_⟩
    · simp only [pollGroupTake, ends_bind, ends_pure]
      refine (h.pollGroupEnter_ends hg hl hlt).mono fun _ p' h' => ?_
      obtain ⟨groups, q, h', hlen, hg'⟩ := h'
      exact .inr ⟨g, groups, q, rfl, h', hlen.ge, hg'⟩
    · obtain ⟨g', hlast, hlt⟩ := hg.room_last hroom
      rw [hl] at hlast
      cases hlast
      exact hge hlt

theorem pollGroupRelease_ends (h : p.Shows e) (hg : Grouped e.groups e.groupQueue n) (hpos : 0 < n g) :
    Ends (pollGroupRelease g) p fun _ p' => ∃ groups q, p'.Shows (e.regroup groups q) ∧
      q.length = e.groupQueue.length ∧ Grouped groups q (Function.update n g (n g - 1)) := by
  have hq := hg.mem_of_pos hpos
  have hle : n g ≤ 32 := hg.bound g
  have hsize : (n g + SIZE_MAX) % (SIZE_MAX + 1) = n g - 1 := by
    unfold SIZE_MAX
    omega
  have hlt : n g - 1 < POLL_GROUP_MAX_GROUP_SIZE := by
    unfold POLL_GROUP_MAX_GROUP_SIZE
    omega
  simp only [pollGroupRelease, ends_bind, h.getGroup_ends (hg.get hq), hsize, ends_onData, ends_assert, ends_onQueues]
  refine ⟨hlt, _, e.groupQueue.erase g ++ [g], ?_, ?_, hg.toEnd (.inl ?_) (hg.full.sublist List.erase_sublist) hlt⟩
  · have hlen : (e.groupQueue.erase g ++ [g]).length = e.groupQueue.length :=
      ((List.perm_append_singleton g _).trans (List.perm_cons_erase hq).symm).length_eq
    have hsame : (e.onData fun d => d.setGroup g (some ⟨n g - 1⟩)).setGroupQueue (e.groupQueue.erase g ++ [g]) =
        e.regroup (Function.update e.groups g (some ⟨n g - 1⟩)) (e.groupQueue.erase g ++ [g]) := by
      simp [Epoll.onData, Epoll.setGroupQueue, Epoll.regroup, PortData.setGroup, hlen]
    rw [← hsame]
    exact (h.onData fun d => d.setGroup g (some ⟨n g - 1⟩)).moveGroupToEnd
  · exact ((List.perm_append_singleton g _).trans (List.perm_cons_erase hq).symm).length_eq
  · exact (List.perm_append_singleton g _).trans (List.perm_cons_erase hq).symm

end Port.Shows

end MNet.Wepoll
