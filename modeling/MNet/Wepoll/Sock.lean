import MNet.Wepoll.SoundSteps

/-! # The functions of a socket

What `sock_new`, `sock_set_event`, `sock_update`, `sock_feed_event` and `sock_delete` do to the lists:
none of them touches an object that is gone, and each leaves the port sound. -/

namespace MNet.Wepoll

open Lib Lib.Exec

variable {τ : Type} {p : Port τ} {e : Epoll τ} {env : WinEnv} {s : SockId} {v : SockState} {force : Bool}
  {rest : List SockId} {n : GroupId → Nat} {closed : Prop}

/-- AFD does not fail for a reason of its own. -/
def WinEnv.Answers (env : WinEnv) : Prop := (∀ n, env.poll n ≠ .failure) ∧ ∀ n, env.cancel n = true

/-- AFD finds that a socket was closed. -/
def WinEnv.Closes (env : WinEnv) : Prop :=
  ∃ n, env.poll n = .invalidHandle ∨ ∃ info, env.poll n = .success info ∧ info.Closed

namespace Port.Shows

/-! ## AFD -/

theorem afdPoll_ends (h : p.Shows e) (hv : e.socks s = some v) :
    Ends (afdPoll env s) p fun r p' =>
      (r = .ok ∧ ∃ info, (info.Closed → env.Closes) ∧
        p'.Shows ((e.put s { v with ioStatus := .success, pollInfo := info }).post s)) ∨
      (r = .ioPending ∧ p'.Shows ((e.put s { v with ioStatus := .pending }).launch s)) ∨
      (r = .invalidHandle ∧ env.Closes ∧ p'.Shows (e.put s { v with ioStatus := .pending })) ∨
      (r = .failure ∧ ¬ env.Answers ∧ p'.Shows (e.put s { v with ioStatus := .pending })) := by
  simp only [afdPoll, ends_bind]
  refine h.updateSock_ends hv fun p₁ h₁ => ?_
  simp only [ends_read, ends_modify]
  have h₂ := h₁.onTick (p₁.tick + 1)
  have hv₂ : (e.put s { v with ioStatus := .pending }).socks s = some { v with ioStatus := .pending } :=
    Function.update_self ..
  cases hr : env.poll p₁.tick with
  | success info =>
    simp only [ends_bind]
    refine h₂.updateSock_ends hv₂ fun p₃ h₃ => ?_
    simp only [ends_onData, ends_pure]
    refine .inl ⟨trivial, info, fun hc => ⟨p₁.tick, .inr ⟨info, hr, hc⟩⟩, ?_⟩
    have hput : ((e.put s { v with ioStatus := .pending }).put s { v with ioStatus := .success, pollInfo := info }) =
        e.put s { v with ioStatus := .success, pollInfo := info } := Epoll.put_put
    have h₃ : p₃.Shows (e.put s { v with ioStatus := .success, pollInfo := info }) := hput ▸ h₃
    exact h₃.onData fun d => { d with packets := d.packets ++ [s] }
  | pending =>
    simp only [ends_bind, ends_onData, ends_pure]
    exact .inr (.inl ⟨trivial, h₂.onData fun d => { d with inFlight := d.inFlight ++ [s] }⟩)
  | invalidHandle => exact ends_pure.mpr (.inr (.inr (.inl ⟨rfl, ⟨_, .inl hr⟩, h₂⟩)))
  | failure => exact ends_pure.mpr (.inr (.inr (.inr ⟨rfl, fun ha => ha.1 _ hr, h₂⟩)))

theorem sockCancelPoll_ends (h : p.Shows e) (hl : e.Linked) (hv : e.socks s = some v) (hpend : v.pollStatus = .pending) :
    Ends (sockCancelPoll env s) p fun r p' =>
      (r = 0 ∧ p'.Shows (e.put s { v with pollStatus := .cancelled, pendingEvents := 0 })) ∨
      (r = -1 ∧ ¬ env.Answers ∧ p'.Shows e) := by
  have hdone : ∀ {p' : Port τ}, p'.Shows e → Ends (do
      updateSock s fun v => { v with pollStatus := .cancelled, pendingEvents := 0 }
      pure 0 : PortM τ Int) p' fun r p' =>
        (r = 0 ∧ p'.Shows (e.put s { v with pollStatus := .cancelled, pendingEvents := 0 })) ∨
        (r = -1 ∧ ¬ env.Answers ∧ p'.Shows e) := by
    intro p' h'
    rw [ends_bind]
    exact h'.updateSock_ends hv fun p'' h'' => ends_pure.mpr (.inl ⟨rfl, h''⟩)
  simp only [sockCancelPoll, afdCancelPoll, ends_bind, h.getSock_ends hv, ends_assert,
    h.pollGroupGetAfdHelperHandle_ends (hl.group hv), ends_ite]
  refine ⟨hpend, fun _ => ends_pure.mpr ?_, fun _ => ?_⟩
  · simpa using hdone h
  · simp only [ends_read, ends_modify]
    have h' := h.onTick (p.tick + 1)
    cases hc : env.cancel p.tick with
    | true => simpa using hdone h'
    | false =>
      have hno : ¬ env.Answers := fun ha => absurd (ha.2 p.tick) (by simp [hc])
      simpa [hno] using h'

/-! ## Deleting -/

theorem sockFree_ends (h : p.Shows e) (hv : e.socks s = some v) :
    Ends (sockFree s) p fun _ p' => p'.Shows (e.onData fun d => d.freeSock s) := by
  simp only [sockFree, ends_bind, h.getSock_ends hv, ends_onData]
  exact h.onData fun d => d.freeSock s

/-- The socket is freed now. -/
theorem sockRelease_free (h : p.Shows e) (hv : e.socks s = some v) (hnow : force = true ∨ v.pollStatus = .idle)
    (hg : Grouped e.groups e.groupQueue n) (hpos : 0 < n v.pollGroup) :
    Ends (sockRelease s force) p fun _ p' => ∃ gs q, q.length = e.groupQueue.length ∧
      Grouped gs q (Function.update n v.pollGroup (n v.pollGroup - 1)) ∧
      p'.Shows (((e.dequeue s).regroup gs q).onData fun d => d.freeSock s) := by
  simp only [sockRelease, ends_bind, h.getSock_ends hv, if_pos hnow]
  refine h.portRemoveSocket_ends.mono fun _ p₁ h₁ => ?_
  refine (h₁.pollGroupRelease_ends hg hpos).mono fun _ p₂ h₂ => ?_
  obtain ⟨gs, q, h₂, hlen, hg₂⟩ := h₂
  refine (h₂.sockFree_ends (v := v) hv).mono fun _ p₃ h₃ => ?_
  exact ⟨gs, q, hlen, hg₂, h₃⟩

/-- The socket is freed later. -/
theorem sockRelease_later (h : p.Shows e) (hv : e.socks s = some v) (hlater : ¬ (force = true ∨ v.pollStatus = .idle)) :
    Ends (sockRelease s force) p fun _ p' => p'.Shows (e.retire s) := by
  simp only [sockRelease, ends_bind, h.getSock_ends hv, if_neg hlater]
  exact h.portAddDeletedSocket_ends

theorem sockUnregister_ends (h : p.Shows e) (hl : e.Linked) (hs : s ∈ e.tree) (hv : e.socks s = some v) :
    Ends (sockUnregister env s) p fun _ p' => ∃ v', v'.deletePending = true ∧ v'.pollGroup = v.pollGroup ∧
      (v'.pollStatus = .idle ↔ v.pollStatus = .idle) ∧ p'.Shows (((e.dequeue s).leave s).put s v') := by
  -- the rest of the function, after the poll was cancelled or not
  have hrest : ∀ {p₁ : Port τ} {v₁ : SockState}, p₁.Shows (e.put s v₁) → v₁.pollGroup = v.pollGroup →
      (v₁.pollStatus = .idle ↔ v.pollStatus = .idle) → Ends (do
        portCancelSocketUpdate s
        portUnregisterSocket s
        updateSock s fun v => { v with deletePending := true } : PortM τ Unit) p₁ fun _ p' => ∃ v',
      v'.deletePending = true ∧ v'.pollGroup = v.pollGroup ∧ (v'.pollStatus = .idle ↔ v.pollStatus = .idle) ∧
        p'.Shows (((e.dequeue s).leave s).put s v') := by
    intro p₁ v₁ h₁ hgroup hidle
    simp only [ends_bind]
    refine h₁.portRemoveSocket_ends.mono fun _ p₂ h₂ => ?_
    refine (h₂.portUnregisterSocket_ends hl.tree_le hs).mono fun _ p₃ h₃ => ?_
    have hv₃ : (((e.put s v₁).dequeue s).leave s).socks s = some v₁ := Function.update_self ..
    refine h₃.updateSock_ends hv₃ fun p₄ h₄ => ⟨{ v₁ with deletePending := true }, rfl, hgroup, hidle, ?_⟩
    have hput : (((e.put s v₁).dequeue s).leave s).put s { v₁ with deletePending := true } =
        ((e.dequeue s).leave s).put s { v₁ with deletePending := true } := by
      simp [Epoll.put, Epoll.onData, PortData.setSock, Epoll.dequeue, Epoll.leave]
    exact hput ▸ h₄
  have hself : p.Shows (e.put s v) := (Epoll.put_self hv).symm ▸ h
  simp only [sockUnregister, ends_bind, h.getSock_ends hv] at hrest ⊢
  simp only [ends_ite, ends_bind]
  refine ⟨fun hpend => ?_, fun _ => hrest hself rfl Iff.rfl⟩
  refine (h.sockCancelPoll_ends hl hv hpend).mono fun r p₁ h₁ => ?_
  rcases h₁ with ⟨_, h₁⟩ | ⟨_, _, h₁⟩
  · exact hrest h₁ rfl (by simp [hpend])
  · exact hrest ((Epoll.put_self hv).symm ▸ h₁) rfl Iff.rfl

/-- What `sock__delete` leaves: the socket is gone, or waits for its poll operation. -/
def Deleted (e : Epoll τ) (s : SockId) (v : SockState) (force : Bool) (p : Port τ) : Prop :=
  ((force = true ∨ v.pollStatus = .idle) ∧ ∃ gs q, q.length = e.groupQueue.length ∧
    Grouped gs q (Function.update e.members v.pollGroup (e.members v.pollGroup - 1)) ∧
    p.Shows (e.discard s gs q)) ∨
  (force = false ∧ s ∈ e.tree ∧ v.pollStatus ≠ .idle ∧ ∃ v', v'.deletePending = true ∧
    v'.pollGroup = v.pollGroup ∧ v'.pollStatus ≠ .idle ∧ p.Shows (e.postpone s v'))

theorem sockDeleteWith_ends (h : p.Shows e) (hl : e.Linked) (hv : e.socks s = some v)
    (hdel : v.deletePending = true → force = true ∨ v.pollStatus = .idle) :
    Ends (sockDeleteWith env s force) p fun r p' => r = 0 ∧ Deleted e s v force p' := by
  have hpos := hl.members_pos hv
  simp only [sockDeleteWith, ends_bind, h.getSock_ends hv, ends_ite, ends_pure]
  refine ⟨fun hreg => ?_, fun hnot => ?_⟩
  · have hs : s ∈ e.tree := (hl.tree_iff hv).mpr hreg
    have hd : e.deleted.erase s = e.deleted := List.erase_of_not_mem (hl.not_deleted hs)
    have hu : s ∉ e.update.erase s := fun hin => (hl.nodupUpdate.mem_erase_iff.mp hin).1 rfl
    refine (h.sockUnregister_ends hl hs hv).mono fun _ p₁ h₁ => ?_
    obtain ⟨v', hdel', hgroup, hidle, h₁⟩ := h₁
    have hv₁ : (((e.dequeue s).leave s).put s v').socks s = some v' := Function.update_self ..
    by_cases hnow : force = true ∨ v'.pollStatus = .idle
    · refine (h₁.sockRelease_free hv₁ hnow hl.grouped (hgroup ▸ hpos)).mono fun _ p₂ h₂ => ⟨trivial, .inl ⟨hnow.imp id hidle.mp, ?_⟩⟩
      obtain ⟨gs, q, hlen, hg, h₂⟩ := h₂
      refine ⟨gs, q, hlen, hgroup ▸ hg, ?_⟩
      have hsame : (((((e.dequeue s).leave s).put s v').dequeue s).regroup gs q).onData (fun d => d.freeSock s) =
          e.discard s gs q := by
        have hlen' : e.allocated + q.length - e.groupQueue.length = e.allocated := by
          have : q.length = e.groupQueue.length := hlen
          omega
        simp [Epoll.dequeue, Epoll.leave, Epoll.put, Epoll.onData, Epoll.regroup, Epoll.discard, PortData.setSock,
          PortData.freeSock, hd, hlen', List.erase_of_not_mem hu]
      exact hsame ▸ h₂
    · refine (h₁.sockRelease_later hv₁ hnow).mono fun _ p₂ h₂ => ⟨trivial, .inr ⟨?_, hs, ?_, v', hdel', hgroup, ?_, ?_⟩⟩
      · exact Bool.not_eq_true _ ▸ fun hf => hnow (.inl hf)
      · exact fun hi => hnow (.inr (hidle.mpr hi))
      · exact fun hi => hnow (.inr hi)
      · have hsame : (((e.dequeue s).leave s).put s v').retire s = e.postpone s v' := by
          have hout : ¬ (s ∈ e.update.erase s ∨ s ∈ e.deleted.erase s) := by
            rw [hd, not_or]
            exact ⟨hu, hl.not_deleted hs⟩
          refine (if_neg hout).trans ?_
          simp [Epoll.dequeue, Epoll.leave, Epoll.put, Epoll.onData, Epoll.postpone, PortData.setSock, hd]
        exact hsame ▸ h₂
  · have hgone : v.deletePending = true := by simpa using hnot
    have hdead : s ∈ e.deleted := (hl.pending s v hv).mp hgone
    have ht : e.tree.erase s = e.tree := List.erase_of_not_mem fun hs => hl.not_deleted hs hdead
    refine (h.sockRelease_free hv (hdel hgone) hl.grouped hpos).mono fun _ p₂ h₂ => ⟨trivial, .inl ⟨hdel hgone, ?_⟩⟩
    obtain ⟨gs, q, hlen, hg, h₂⟩ := h₂
    refine ⟨gs, q, hlen, hg, ?_⟩
    have hsame : (((e.dequeue s).regroup gs q).onData fun d => d.freeSock s) = e.discard s gs q := by
      have hlen' : e.allocated + q.length - e.groupQueue.length = e.allocated := by omega
      simp [Epoll.dequeue, Epoll.onData, Epoll.regroup, Epoll.discard, PortData.setSock, PortData.freeSock, ht, hlen']
    exact hsame ▸ h₂

/-! ## Updating -/

/-- Deleting a socket of a sound port. -/
theorem sockDeleteWith_sound (h : p.Shows e) (hs : e.Sound closed rest) (hst : s ∈ e.tree) :
    Ends (sockDeleteWith env s false) p fun r p' => r = 0 ∧ ∃ e', p'.Shows e' ∧ e'.Sound closed rest ∧ e.Keeps True e' ∧
      e'.tree = e.tree.erase s ∧ e'.update = e.update.erase s := by
  obtain ⟨v, hv⟩ := hs.linked.exists_sock (List.mem_append_left _ hst)
  have hdel := (hs.linked.tree_iff hv).mp hst
  refine (h.sockDeleteWith_ends hs.linked hv fun ht => absurd (hdel.symm.trans ht) (by simp)).mono fun r p' h' => ?_
  obtain ⟨hr, h' | h'⟩ := h'
  · obtain ⟨hidle, gs, q, hlen, hg, h'⟩ := h'
    refine ⟨hr, _, h', hs.discard hv (hidle.resolve_left (by simp)) hlen hg, ?_, rfl, rfl⟩
    refine Epoll.Keeps.of_other (s := s) rfl rfl rfl rfl ?_ ?_ (fun hc => absurd trivial hc)
    · exact fun z hz => ⟨List.mem_of_mem_erase hz, fun hzs => Function.update_of_ne hzs ..⟩
    · exact fun hz => absurd rfl (hs.linked.nodup_tree.mem_erase_iff.mp hz).1
  · obtain ⟨_, _, hbusy, v', hdel', hgroup, hbusy', h'⟩ := h'
    refine ⟨hr, _, h', hs.postpone hst hv hgroup hdel' hbusy hbusy', ?_, rfl, rfl⟩
    refine Epoll.Keeps.of_other (s := s) rfl rfl rfl rfl ?_ ?_ (fun hc => absurd trivial hc)
    · exact fun z hz => ⟨List.mem_of_mem_erase hz, fun hzs => Function.update_of_ne hzs ..⟩
    · exact fun hz => absurd rfl (hs.linked.nodup_tree.mem_erase_iff.mp hz).1

/-- What `sock_update` leaves when the port was `e`. -/
def Updated (e : Epoll τ) (env : WinEnv) (closed : Prop) (s : SockId) (rest : List SockId) (r : Int) (p : Port τ) : Prop :=
  ∃ e', p.Shows e' ∧ e'.Sound closed rest ∧ e.Keeps closed e' ∧
    ((r = 0 ∧ e'.update = e.update.erase s) ∨ (r = -1 ∧ ¬ env.Answers ∧ e'.update = e.update))

/-- The last statements of `sock_update`. -/
theorem sockUpdated_ends {e₁ : Epoll τ} (h : p.Shows e₁) (hs : (e₁.dequeue s).Sound closed rest)
    (hk : e.Keeps closed (e₁.dequeue s)) (hu : e₁.update = e.update) :
    Ends (sockUpdated s) p (Updated e env closed s rest) := by
  simp only [sockUpdated, ends_bind, ends_pure]
  refine h.portRemoveSocket_ends.mono fun _ p' h' => ?_
  exact ⟨_, h', hs, hk, .inl ⟨rfl, congrArg (List.erase · s) hu⟩⟩

theorem unwatched_self {b : BitVec 32} : b &&& SOCK_KNOWN_EPOLL_EVENTS &&& ~~~b = 0 := by
  rw [BitVec.and_assoc, BitVec.and_comm SOCK_KNOWN_EPOLL_EVENTS, ← BitVec.and_assoc]
  simp

/-- AFD has the poll operation. -/
theorem sockSubmitted_ends {e₂ : Epoll τ} {v₂ : SockState} (h : p.Shows e₂) (hs : e.Sound closed rest) (hst : s ∈ e.tree)
    (hv : e.socks s = some v) (hidle : v.pollStatus = .idle) (hgroup : v₂.pollGroup = v.pollGroup)
    (hdel : v₂.deletePending = v.deletePending) (hw : v₂.watch = v.watch)
    (he₂ : (e₂ = (e.put s v₂).launch s ∧ v₂.pollInfo = ⟨1, v₂.baseSocket, sockEpollEventsToAfdEvents v₂.userEvents⟩) ∨
      (e₂ = (e.put s v₂).post s ∧ (v₂.pollInfo.Closed → closed))) :
    Ends (do
      updateSock s fun v => { v with pollStatus := .pending, pendingEvents := v.userEvents }
      sockUpdated s) p (Updated e env closed s rest) := by
  have hv₂ : e₂.socks s = some v₂ := by rcases he₂ with ⟨rfl, _⟩ | ⟨rfl, _⟩ <;> exact Function.update_self ..
  rw [ends_bind]
  refine h.updateSock_ends hv₂ fun p₃ h₃ => ?_
  set v₃ : SockState := { v₂ with pollStatus := .pending, pendingEvents := v₂.userEvents } with hv₃
  have hgo : ((e₂.put s v₃).dequeue s = ((e.put s v₃).dequeue s).launch s ∧ v₃.Asks) ∨
      ((e₂.put s v₃).dequeue s = ((e.put s v₃).dequeue s).post s ∧ (v₃.pollInfo.Closed → closed)) := by
    rcases he₂ with ⟨rfl, hinfo⟩ | ⟨rfl, hc⟩
    · exact .inl ⟨congrArg (Epoll.dequeue · s) Epoll.launch_put, hinfo⟩
    · exact .inr ⟨congrArg (Epoll.dequeue · s) Epoll.post_put, hc⟩
  have hsocks : ((e₂.put s v₃).dequeue s).socks = Function.update e.socks s (some v₃) := by
    rcases hgo with ⟨hgo, _⟩ | ⟨hgo, _⟩ <;> rw [hgo] <;> rfl
  have h₃ : p₃.Shows (e₂.put s v₃) := h₃
  refine h₃.sockUpdated_ends ?_ ?_ ?_
  · have hgroup : v₃.pollGroup = v.pollGroup := hgroup
    exact hs.start hst hv hidle hgroup hdel rfl unwatched_self rfl hgo
  · refine Epoll.Keeps.wrote hv hsocks hw ?_ ?_ ?_ ?_ ?_ <;> rcases he₂ with ⟨rfl, _⟩ | ⟨rfl, _⟩ <;> rfl
  · rcases he₂ with ⟨rfl, _⟩ | ⟨rfl, _⟩ <;> rfl

theorem sockSubmit_ends (h : p.Shows e) (hs : e.Sound closed rest) (hst : s ∈ e.tree) (hv : e.socks s = some v)
    (hidle : v.pollStatus = .idle) (hc : env.Closes → closed) : Ends (sockSubmit env s) p (Updated e env closed s rest) := by
  have hu := hs.idle_update hst hv hidle
  rw [sockSubmit, ends_bind]
  refine h.updateSock_ends hv fun p₁ h₁ => ?_
  set v₁ : SockState := { v with pollInfo := ⟨1, v.baseSocket, sockEpollEventsToAfdEvents v.userEvents⟩ } with hv₁
  have hsock : (e.put s v₁).socks s = some v₁ := Function.update_self ..
  rw [ends_bind, h₁.getSock_ends hsock, ends_bind, h₁.pollGroupGetAfdHelperHandle_ends (hs.linked.group hv), ends_bind]
  refine (h₁.afdPoll_ends hsock).mono fun r p₂ h₂ => ?_
  have hput : ∀ w, (e.onData fun d => d.setSock s (some v₁)).put s w = e.put s w := fun w => Epoll.put_put
  simp only [hput] at h₂
  -- a socket that AFD did not take is as before
  have hidle₂ : (e.put s { v₁ with ioStatus := .pending }).Sound closed rest := by
    exact hs.put hv rfl rfl Iff.rfl fun _ _ => .of_idle hu hidle
  rcases h₂ with ⟨rfl, info, hinfo, h₂⟩ | ⟨rfl, h₂⟩ | ⟨rfl, hcl, h₂⟩ | ⟨rfl, hno, h₂⟩
  · refine h₂.sockSubmitted_ends hs hst hv hidle ?_ ?_ ?_ (.inr ⟨rfl, fun hi => hc (hinfo hi)⟩) <;> rfl
  · refine h₂.sockSubmitted_ends hs hst hv hidle ?_ ?_ ?_ (.inl ⟨rfl, rfl⟩) <;> rfl
  · refine (h₂.sockDeleteWith_sound hidle₂ hst).mono fun r p₃ h₃ => ?_
    obtain ⟨rfl, e₃, h₃, hs₃, hk, _, hup⟩ := h₃
    refine ⟨e₃, h₃, hs₃, Epoll.Keeps.trans ?_ (hk.mono fun _ => hc hcl), .inl ⟨rfl, hup⟩⟩
    exact Epoll.Keeps.wrote hv rfl rfl rfl rfl rfl rfl rfl
  · refine ends_pure.mpr ⟨_, h₂, hidle₂, ?_, .inr ⟨rfl, hno, rfl⟩⟩
    exact Epoll.Keeps.wrote hv rfl rfl rfl rfl rfl rfl rfl

theorem sockUpdate_ends (h : p.Shows e) (hs : e.Sound closed rest) (hu : s ∈ e.update) (hc : env.Closes → closed) :
    Ends (sockUpdate env s) p (Updated e env closed s rest) := by
  have hst := hs.linked.update s hu
  obtain ⟨v, hv⟩ := hs.linked.exists_sock (List.mem_append_left _ hst)
  have hdel := (hs.linked.tree_iff hv).mp hst
  have hkeep : e.Keeps closed (e.dequeue s) :=
    Epoll.Keeps.wrote hv (Function.update_eq_self_iff.mpr hv.symm).symm rfl rfl rfl rfl rfl rfl
  simp only [sockUpdate, ends_bind, h.getSock_ends hv, ends_assert]
  refine ⟨hdel, ?_⟩
  cases hstatus : v.pollStatus with
  | idle => exact h.sockSubmit_ends hs hst hv hstatus hc
  | cancelled => exact h.sockUpdated_ends (hs.dequeue hst hv (.inl hstatus)) hkeep rfl
  | pending =>
    simp only [ends_ite]
    refine ⟨fun hun => h.sockUpdated_ends (hs.dequeue hst hv (.inr ⟨hstatus, hun⟩)) hkeep rfl, fun _ => ?_⟩
    rw [ends_bind]
    refine (h.sockCancelPoll_ends hs.linked hv hstatus).mono fun r p₁ h₁ => ?_
    rcases h₁ with ⟨rfl, h₁⟩ | ⟨rfl, hno, h₁⟩
    · have hsock : (e.put s { v with pollStatus := .cancelled, pendingEvents := 0 }).socks s =
          some { v with pollStatus := .cancelled, pendingEvents := 0 } := Function.update_self ..
      have hs₁ : (e.put s { v with pollStatus := .cancelled, pendingEvents := 0 }).Sound closed rest :=
        hs.put hv rfl rfl (by simp [hstatus]) fun _ ht => ⟨.inr (.inl rfl), by simp, fun _ => ht.open_ (by simp [hstatus])⟩
      refine h₁.sockUpdated_ends (hs₁.dequeue hst hsock (.inl rfl)) ?_ rfl
      exact Epoll.Keeps.wrote hv rfl rfl rfl rfl rfl rfl rfl
    · exact ends_pure.mpr ⟨e, h₁, hs, .refl e, .inr ⟨rfl, hno, rfl⟩⟩

/-! ## Asking -/

/-- `sock_set_event`, on a socket that need not be tended yet. -/
theorem sockSetEvent_put {ev : EpollEvent} (h : p.Shows e) (hv : e.socks s = some v) :
    Ends (sockSetEvent s ev) p fun r p' => r = 0 ∧ ∃ v', v' =
      { v with userEvents := ev.events ||| EPOLLERR ||| EPOLLHUP, userData := ev.data } ∧
      p'.Shows (if v'.unwatched ≠ 0 then (e.put s v').request s else e.put s v') := by
  simp only [sockSetEvent, ends_bind]
  refine h.updateSock_ends hv fun p₁ h₁ => ?_
  set v₁ : SockState := { v with userEvents := ev.events ||| EPOLLERR ||| EPOLLHUP, userData := ev.data } with hv₁
  have hsock : (e.put s v₁).socks s = some v₁ := Function.update_self ..
  have h₁ : p₁.Shows (e.put s v₁) := h₁
  simp only [ends_bind, h₁.getSock_ends hsock, ends_ite, ends_pure]
  refine ⟨fun hun => ?_, fun hun => ⟨trivial, v₁, rfl, ?_⟩⟩
  · refine h₁.portRequestSocketUpdate_ends.mono fun _ p₂ h₂ => ⟨trivial, v₁, rfl, ?_⟩
    exact (if_pos (show v₁.unwatched ≠ 0 from hun)).symm ▸ h₂
  · exact (if_neg (show ¬ v₁.unwatched ≠ 0 from hun)).symm ▸ h₁

theorem sockSetEvent_ends {ev : EpollEvent} (h : p.Shows e) (hs : e.Sound closed rest) (hst : s ∈ e.tree) :
    Ends (sockSetEvent s ev) p fun r p' => r = 0 ∧ ∃ e', p'.Shows e' ∧ e'.Sound closed rest ∧ e.Arms s ev e' := by
  obtain ⟨v, hv⟩ := hs.linked.exists_sock (List.mem_append_left _ hst)
  refine (h.sockSetEvent_put hv).mono fun r p' h' => ?_
  obtain ⟨rfl, v', hv', h'⟩ := h'
  have hsock : (e.put s v').socks s = some v' := Function.update_self ..
  have hwatch : v'.watch = ev.armed := hv' ▸ rfl
  have hgroup : v'.pollGroup = v.pollGroup := hv' ▸ rfl
  have hdel : v'.deletePending = v.deletePending := hv' ▸ rfl
  have hstatus : v'.pollStatus = v.pollStatus := hv' ▸ rfl
  refine ⟨rfl, _, h', ?_⟩
  split
  · -- the socket is looked at for the new events
    rename_i hun
    have hput : (e.request s).Sound closed rest := hs.request hst
    have hsound : ((e.request s).put s v').Sound closed rest := by
      refine hput.put (by rw [Epoll.request_data]; exact hv) hgroup hdel (by rw [hstatus]) fun _ ht => ?_
      exact ⟨.inl (Epoll.request_self (hs.linked.not_deleted hst)), hv' ▸ ht.asks, hv' ▸ ht.open_⟩
    rw [Epoll.request_put] at hsound
    refine ⟨hsound, by simp; rfl, by simp; rfl, by simp; rfl, by simp; rfl, by simp; rfl, ?_⟩
    exact hwatch ▸ Epoll.watch_update (by simp)
  · -- it is being polled for them already
    rename_i hun
    refine ⟨hs.put hv hgroup hdel (by rw [hstatus]) ?_, rfl, rfl, rfl, rfl, rfl, hwatch ▸ Epoll.watch_update rfl⟩
    intro _ ht
    refine ⟨?_, hv' ▸ ht.asks, hv' ▸ ht.open_⟩
    rw [hstatus]
    exact ht.looked.imp id (Or.imp id fun hp => ⟨hp.1, not_not.mp hun⟩)

/-- A socket that is not polled for anything is looked at. -/
theorem unwatched_armed {ev : EpollEvent} (hevents : v.userEvents = ev.events ||| EPOLLERR ||| EPOLLHUP)
    (hpend : v.pendingEvents = 0) : v.unwatched ≠ 0 := by
  intro hzero
  have hbit := congrArg (fun b => b.getLsbD 3) hzero
  have herr : EPOLLERR[3] = true := by decide
  have hknown : SOCK_KNOWN_EPOLL_EVENTS[3] = true := by decide
  simp [SockState.unwatched, hevents, hpend, herr, hknown] at hbit

/-! ## Feeding -/

/-- What `sock_feed_event` leaves, with what it returns. -/
def Fed (e : Epoll τ) (closed : Prop) (s : SockId) (rest : List SockId) (o : Option EpollEvent) (p : Port τ) : Prop :=
  ∃ e', p.Shows e' ∧ e'.Sound closed rest ∧ ((o = none ∧ e.Keeps closed e') ∨ ∃ ev, o = some ev ∧ e.Reports s ev e')

/-- The socket was deleted before, or is closed now. -/
theorem sockDelete_fed {v₁ : SockState} (h : p.Shows (e.put s v₁)) (hs : e.Sound closed (s :: rest)) (hv : e.socks s = some v)
    (hgroup : v₁.pollGroup = v.pollGroup) (hdel : v₁.deletePending = v.deletePending) (hidle : v₁.pollStatus = .idle)
    (hc : s ∈ e.tree → closed) : Ends (sockDelete env s) p fun _ p' => Fed e closed s rest none p' := by
  have hl : (e.put s v₁).Linked := hs.linked.put hv hgroup hdel
  have hsock : (e.put s v₁).socks s = some v₁ := Function.update_self ..
  have hmem : (e.put s v₁).members = e.members := by
    refine membersOf_congr fun z _ => ?_
    by_cases hz : z = s
    · subst hz
      simp [hv, hgroup]
    · simp [hz]
  simp only [sockDelete, ends_bind, ends_pure]
  refine (h.sockDeleteWith_ends hl hsock fun _ => .inr hidle).mono fun r p' h' => ?_
  obtain ⟨_, ⟨_, gs, q, hlen, hg, h'⟩ | ⟨_, _, hbusy, _⟩⟩ := h'
  · rw [hmem, hgroup] at hg
    have hsame : (e.put s v₁).discard s gs q = e.discard s gs q := by
      simp [Epoll.put, Epoll.onData, Epoll.discard, PortData.setSock]
    rw [hsame] at h'
    refine ⟨_, h', hs.feed_discard hv hlen hg, .inl ⟨rfl, ?_⟩⟩
    refine Epoll.Keeps.of_other (s := s) rfl rfl rfl rfl ?_ ?_ fun hopen z hz => ?_
    · exact fun z hz => ⟨List.mem_of_mem_erase hz, fun hzs => Function.update_of_ne hzs ..⟩
    · exact fun hz => absurd rfl (hs.linked.nodup_tree.mem_erase_iff.mp hz).1
    · have hzs : z ≠ s := by
        rintro rfl
        exact hopen (hc hz)
      exact (List.mem_erase_of_ne hzs).mpr hz
  · exact absurd hidle hbusy

/-- The socket goes on, and what was found is reported if it was asked for. -/
theorem sockReport_ends {v₁ : SockState} {b : BitVec 32} (h : p.Shows (e.put s v₁)) (hs : e.Sound closed (s :: rest))
    (hst : s ∈ e.tree) (hv : e.socks s = some v) (hgroup : v₁.pollGroup = v.pollGroup)
    (hdel : v₁.deletePending = v.deletePending) (hidle : v₁.pollStatus = .idle) (hw : v₁.watch = v.watch) :
    Ends (sockReport s b) p fun o p' => Fed e closed s rest o p' := by
  have hwatch : e.watch s = some v₁.watch := by simp [Epoll.watch, hv, hw]
  have hsub : b &&& v₁.userEvents &&& ~~~v₁.userEvents = 0 := by
    rw [BitVec.and_assoc]
    simp
  simp only [sockReport, ends_bind]
  refine h.portRequestSocketUpdate_ends.mono fun _ p₂ h₂ => ?_
  have hsock : ((e.put s v₁).request s).socks s = some v₁ := by simp
  simp only [h₂.getSock_ends hsock, ends_ite, ends_bind, ends_pure]
  refine ⟨fun _ => ?_, fun hne => ⟨fun hone => ?_, fun hmany => ?_⟩⟩
  · refine ⟨_, h₂, hs.feed hst hv hgroup hdel hidle, .inl ⟨rfl, ?_⟩⟩
    have hsocks : ((e.put s v₁).request s).socks = Function.update e.socks s (some v₁) := by simp
    refine Epoll.Keeps.wrote hv hsocks hw ?_ ?_ ?_ ?_ ?_ <;> simp <;> rfl
  · refine h₂.updateSock_ends hsock fun p₃ h₃ => ?_
    have hsame : ((e.put s v₁).request s).put s { v₁ with userEvents := 0 } =
        (e.put s { v₁ with userEvents := 0 }).request s := by rw [Epoll.request_put, Epoll.put_put]
    have h₃ : p₃.Shows ((e.put s { v₁ with userEvents := 0 }).request s) := hsame ▸ h₃
    have hsock₃ : ((e.put s { v₁ with userEvents := 0 }).request s).socks s = some { v₁ with userEvents := 0 } := by simp
    rw [h₃.getSock_ends hsock₃]
    refine ⟨_, h₃, hs.feed hst hv hgroup hdel hidle, .inr ⟨_, rfl, ?_⟩⟩
    refine ⟨by simp; rfl, by simp; rfl, by simp; rfl, by simp; rfl, by simp; rfl, hst, v₁.watch, hwatch, rfl, hne, hsub, ?_⟩
    have htold : v₁.watch.told = ({ v₁ with userEvents := 0 } : SockState).watch := if_pos hone
    exact htold ▸ Epoll.watch_update (by simp)
  · refine ⟨_, h₂, hs.feed hst hv hgroup hdel hidle, .inr ⟨_, rfl, ?_⟩⟩
    refine ⟨by simp; rfl, by simp; rfl, by simp; rfl, by simp; rfl, by simp; rfl, hst, v₁.watch, hwatch, rfl, hne, hsub, ?_⟩
    have htold : v₁.watch.told = v₁.watch := if_neg hmany
    exact htold.symm ▸ Epoll.watch_update (by simp)

theorem sockFeedEvent_ends (h : p.Shows e) (hs : e.Sound closed (s :: rest)) :
    Ends (sockFeedEvent env s) p (Fed e closed s rest) := by
  obtain ⟨place, hp⟩ := hs.polled
  have hplace : place s = some .fed := (hp.fed.2 s).mp List.mem_cons_self
  obtain ⟨v, hv, hbusy⟩ := (hp.busy s).mp (hplace ▸ by simp)
  have hout : s ∉ e.inFlight := fun hin => absurd (((hp.flight.2 s).mp hin).symm.trans hplace) (by simp)
  simp only [sockFeedEvent, ends_bind]
  refine h.updateSock_ends hv fun p₁ h₁ => ?_
  set v₁ : SockState := { v with pollStatus := .idle, pendingEvents := 0 } with hv₁
  have h₁ : p₁.Shows (e.put s v₁) := h₁
  have hsock : (e.put s v₁).socks s = some v₁ := Function.update_self ..
  have hdelete : (s ∈ e.tree → closed) → Ends (sockDelete env s) p₁ fun _ p' => Fed e closed s rest none p' :=
    h₁.sockDelete_fed hs hv rfl rfl rfl
  have hreport : v₁.deletePending ≠ true → ∀ b, Ends (sockReport s b) p₁ fun o p' => Fed e closed s rest o p' := by
    intro hdel b
    have hst : s ∈ e.tree := (hs.linked.tree_iff hv).mpr (by simpa using hdel)
    exact h₁.sockReport_ends hs hst hv rfl rfl rfl rfl
  simp only [h₁.getSock_ends hsock, ends_ite, ends_bind, ends_pure]
  refine ⟨fun hdel => hdelete fun hst => ?_, fun hdel => ⟨fun _ => hreport hdel _, fun _ => ⟨fun _ => hreport hdel _, fun _ =>
    ⟨fun _ => hreport hdel _, fun _ => ⟨fun hclosed => hdelete fun hst => ?_, fun _ => hreport hdel _⟩⟩⟩⟩⟩
  · exact absurd (((hs.linked.tree_iff hv).mp hst).symm.trans hdel) (by simp)
  · exact (hs.tended s hst v hv).open_ hbusy hout hclosed

/-! ## Making -/

/-- A group that was entered for nothing is left. -/
theorem pollGroupRelease_back {g : GroupId} {gs : GroupId → Option PollGroup} {q : List GroupId}
    (h : p.Shows (e.regroup gs q)) (hs : e.Sound closed rest) (hlen : e.groupQueue.length ≤ q.length)
    (hg : Grouped gs q (Function.update e.members g (e.members g + 1))) :
    Ends (pollGroupRelease g) p fun _ p' =>
      ∃ e', p'.Shows e' ∧ e'.Sound closed rest ∧ e.Keeps False e' ∧ e'.update = e.update := by
  refine (h.pollGroupRelease_ends hg (by simp)).mono fun _ p' h' => ?_
  obtain ⟨gs', q', h', hlen', hg'⟩ := h'
  have hlen' : q'.length = q.length := hlen'
  have hsame : (e.regroup gs q).regroup gs' q' = e.regroup gs' q' := by
    have hall : e.allocated + q.length - e.groupQueue.length + q'.length - q.length =
        e.allocated + q'.length - e.groupQueue.length := by omega
    simp [Epoll.regroup, hall]
  have hback : Function.update (Function.update e.members g (e.members g + 1)) g
      (Function.update e.members g (e.members g + 1) g - 1) = e.members := by simp
  rw [hsame] at h'
  exact ⟨_, h', hs.regroup (by omega) (hback ▸ hg'), ⟨rfl, rfl, rfl, fun _ hz => ⟨hz, rfl, rfl⟩, fun _ _ hz => hz⟩, rfl⟩

/-- A new socket is made, in a group that was entered for it. -/
theorem sockNew_ends {k : Nat} (h : p.Shows e) (hs : e.Sound closed rest)
    (hopen : k ≠ 0 → k ≠ INVALID_SOCKET → env.baseSocket ≠ none →
      e.iocpHandle = true ∨ HasRoom e.groupQueue e.members) (hfit : env.Fits p) :
    Ends (sockNew env k) p fun o p' =>
      (o = none ∧ ∃ e', p'.Shows e' ∧ e'.Sound closed rest ∧ e.Keeps False e' ∧ e'.update = e.update) ∨
      ∃ s b g gs q, o = some s ∧ e.socks s = none ∧ (∀ z ∈ e.tree, e.key z ≠ k) ∧
        e.groupQueue.length ≤ q.length ∧ Grouped gs q (Function.update e.members g (e.members g + 1)) ∧
        p'.Shows (e.adopt s { baseSocket := b, pollGroup := g } k gs q) := by
  have hsame : ∀ {p' : Port τ}, p'.Shows e → ∃ e', p'.Shows e' ∧ e'.Sound closed rest ∧ e.Keeps False e' ∧ e'.update = e.update :=
    fun h' => ⟨e, h', hs, .refl e, rfl⟩
  simp only [sockNew, ends_ite, ends_pure]
  refine ⟨fun _ => .inl ⟨trivial, hsame h⟩, fun hk => ?_⟩
  rw [not_or] at hk
  cases hb : env.baseSocket with
  | none => exact ends_pure.mpr (.inl ⟨rfl, hsame h⟩)
  | some b =>
    rw [ends_bind]
    have hnew : ∀ g, env.newGroup = some g → e.groups g = none := fun g hg => h.groups ▸ hfit.2 g hg
    refine (h.pollGroupAcquire_ends hs.linked.grouped (hopen hk.1 hk.2 (by simp [hb])) hnew).mono fun o p₁ h₁ => ?_
    rcases h₁ with ⟨rfl, h₁⟩ | ⟨g, gs, q, rfl, h₁, hlen, hg⟩
    · exact ends_pure.mpr (.inl ⟨rfl, hsame h₁⟩)
    cases hsock : env.newSock with
    | none =>
      simp only [ends_bind, ends_pure]
      exact (h₁.pollGroupRelease_back hs hlen hg).mono fun _ p₂ h₂ => .inl ⟨trivial, h₂⟩
    | some s =>
      have hfree : e.socks s = none := h.socks ▸ hfit.1 s hsock
      have hout : ¬ s ∈ e.live := fun hin => (hs.linked.live s).mpr hin hfree
      rw [Epoll.mem_live, not_or] at hout
      have hq : ¬ (s ∈ e.update ∨ s ∈ e.deleted) := by
        rw [not_or]
        exact ⟨fun hu => hout.1 (hs.linked.update s hu), hout.2⟩
      have hle := hs.linked.tree_le
      simp only [ends_bind]
      refine (h₁.sockAlloc_ends hout.1 hq).mono fun _ p₂ h₂ => ?_
      set v : SockState := { baseSocket := b, pollGroup := g } with hv
      refine (h₂.portRegisterSocket_ends (k := k) ?_ hout.1).mono fun r p₃ h₃ => ?_
      · show e.tree.length ≤ e.allocated + q.length - e.groupQueue.length + 1
        omega
      rcases h₃ with ⟨rfl, h₃, _⟩ | ⟨rfl, h₃, hkey⟩
      · -- the socket was there already
        have hsock₃ : ((e.regroup gs q).onData fun d => d.allocSock s v).socks s = some v := Function.update_self ..
        have hundo : ((e.regroup gs q).onData fun d => d.allocSock s v).onData (fun d => d.freeSock s) =
            e.regroup gs q := by
          simp [Epoll.onData, Epoll.regroup, PortData.allocSock, PortData.freeSock, PortData.setSock, ← hfree]
        simp only [Int.reduceNeg, Int.reduceLT, if_true, ends_bind, ends_pure]
        refine (h₃.sockFree_ends hsock₃).mono fun _ p₄ h₄ => ?_
        rw [hundo] at h₄
        exact (h₄.pollGroupRelease_back hs hlen hg).mono fun _ p₅ h₅ => .inl ⟨trivial, h₅⟩
      · have hadopt : ((e.regroup gs q).onData fun d => d.allocSock s v).enter s k = e.adopt s v k gs q := by
          have hall : e.allocated + q.length - e.groupQueue.length + 1 = e.allocated + 1 + q.length - e.groupQueue.length := by
            omega
          simp [Epoll.onData, Epoll.regroup, PortData.allocSock, PortData.setSock, Epoll.enter, Epoll.adopt, hall]
        rw [hadopt] at h₃
        exact ends_pure.mpr (.inr ⟨s, b, g, gs, q, rfl, hfree, hkey, hlen, hg, h₃⟩)

end Port.Shows

end MNet.Wepoll
