import MNet.Stale
import MNet.Masks

/-! # Records and freed channels

A channel is freed at the start of a poll, before the records of the next batch are there. What
`epoll_wait` reports is registered, and what is registered is a channel with a socket. So no
record that is fetched refers to a channel that was freed in between, whatever the handlers
do. -/

namespace MNet
open MNet.Lib MNet.Lib.Exec

variable {ε : Type} {x : ExtTable ε} {s t u : Sys ε} {n : ChannId} {kev : Kev}

/-- The event array holds the records of the last batch, and none without a queue. -/
structure Loaded (k : Core) : Prop where
  index : -1 ≤ k.fdIndex
  filled : k.fdCount ≤ k.evtArray.length
  unqueued : k.kq = false → k.evtArray = [] ∧ ∀ fd, k.epoll fd = none

/-- Every record that waits refers to a channel that is there. -/
def Alive (k : Core) : Prop := ∀ kev ∈ k.pending, ∃ n, kev.ptr = some n ∧ k.heap n ≠ none

section Act

variable {k k' : Core} {a : Act}

/-- Without a queue nothing is registered, and there are no records. -/
theorem CStep.unqueued (hs : CStep k a k') (h : k.kq = false → k.evtArray = [] ∧ ∀ fd, k.epoll fd = none) :
    k'.kq = false → k'.evtArray = [] ∧ ∀ fd, k'.epoll fd = none := by
  intro hkq
  have hclose : ∀ fd, (k.kq = false → ∀ i, k.epoll i = none) → k.kq = false →
      ∀ i, Function.update k.epoll fd none i = none := by
    intro fd he hk i
    by_cases hi : i = fd
    · rw [hi, Function.update_self]
    · rw [Function.update_of_ne hi, he hk]
  have hwire : ∀ {c bytes}, (k.onWire c bytes).kq = k.kq ∧ (k.onWire c bytes).evtArray = k.evtArray ∧
      (k.onWire c bytes).epoll = k.epoll := by
    intro c bytes
    obtain ⟨w, hw⟩ := k.onWire_eq c bytes
    rw [hw]
    exact ⟨rfl, rfl, rfl⟩
  cases hs with
  | bounce | disconnect => exact ⟨(h hkq).1, hclose _ (fun hk => (h hk).2) hkq⟩
  | watch _ _ hk | unwatch _ _ hk | mute _ _ hk | rewatch _ hk =>
    have hkq : k.kq = false := hkq
    rw [hk] at hkq
    cases hkq
  | openQueue => cases hkq
  | closeQueue => exact ⟨rfl, fun _ => rfl⟩
  | write | flush =>
    obtain ⟨hq, ha, he⟩ := @hwire _ _
    exact ⟨ha.trans (h (hq.symm.trans hkq)).1, fun fd => (congrFun he fd).trans ((h (hq.symm.trans hkq)).2 fd)⟩
  | batch hrep =>
    refine ⟨List.eq_nil_iff_forall_not_mem.mpr fun e he => ?_, (h hkq).2⟩
    obtain ⟨fd, reg, hreg, _⟩ := hrep e he
    rw [(h hkq).2 fd] at hreg
    cases hreg
  | shutdown =>
    refine ⟨rfl, fun fd => ?_⟩
    show (if k.kq then fun _ => none else k.epoll) fd = none
    split
    · rfl
    · exact (h (Bool.eq_false_iff.mpr ‹_›)).2 fd
  | _ => exact h hkq

theorem CStep.loaded (hs : CStep k a k') (h : Loaded k) (ha : a ≠ .closeQueue) : Loaded k' := by
  refine ⟨hs.index h.index, ?_, hs.unqueued h.unqueued⟩
  have hwire : ∀ {c bytes}, (k.onWire c bytes).fdCount ≤ (k.onWire c bytes).evtArray.length := by
    intro c bytes
    obtain ⟨w, hw⟩ := k.onWire_eq c bytes
    rw [hw]
    exact h.filled
  cases hs with
  | batch => exact Int.le_refl _
  | noBatch => exact Int.le_trans (by decide : (-1 : Int) ≤ 0) (Int.natCast_nonneg _)
  | openQueue hkq =>
    have hfilled := h.filled
    rw [(h.unqueued hkq).1] at hfilled
    exact hfilled
  | closeQueue => exact absurd rfl ha
  | shutdown => exact Int.le_refl _
  | write | flush => exact hwire
  | _ => exact h.filled

/-- What is reported is registered, for a channel that is there. -/
theorem CStep.alive_batch (hs : CStep k .batch k') (hw : Watchers k.heap k.epoll) : Alive k' := by
  intro kev hkev
  cases hs with
  | noBatch => simp [Core.pending] at hkev
  | batch hrep =>
    obtain ⟨fd, reg, hreg, hptr, _⟩ := hrep kev (List.mem_of_mem_take (List.mem_of_mem_drop hkev))
    obtain ⟨c, hc, _⟩ := hw fd reg hreg
    exact ⟨reg.ptr, hptr, by rw [hc]; simp⟩

theorem CStep.alive_shutdown (hs : CStep k .shutdown k') : Alive k' := by
  cases hs with
  | shutdown => exact fun kev hkev => absurd hkev (by simp [Core.pending, Core.wiped])

theorem CStep.alive (hs : CStep k a k') (hb : Base k) (hl : Loaded k) (h : Alive k) (hbatch : a ≠ .batch)
    (hd : ∀ n, a ≠ .destroy n) : Alive k' := by
  intro kev hkev
  obtain ⟨n, hptr, hn⟩ := h kev (hs.pending hl.index hbatch hkev)
  obtain ⟨c, hc⟩ := Option.ne_none_iff_exists'.mp hn
  obtain ⟨hdes, _⟩ | ⟨c', hc', _⟩ := hs.at hb hc
  · exact absurd hdes (hd n)
  · exact ⟨n, hptr, by rw [hc']; simp⟩

/-- What every act of a call without a reset keeps. -/
structure Tracked (k : Core) : Prop where
  base : Base k
  watchers : Watchers k.heap k.epoll
  loaded : Loaded k

theorem CStep.tracked (hs : CStep k a k') (h : Tracked k) (hq : a ≠ .closeQueue)
    (hw : ∀ m, a ≠ .rewatch m) : Tracked k' where
  base := h.base.step hs
  watchers := hs.watchers h.base h.watchers fun m _ he => absurd he (hw m)
  loaded := hs.loaded h.loaded hq

theorem Steps.tracked {A : Set Act} (hs : Steps A k k') (h : Tracked k)
    (hA : ∀ a ∈ A, a ≠ .closeQueue ∧ ∀ m, a ≠ .rewatch m) : Tracked k' :=
  hs.keeps (fun _ _ _ ha hs h => hs.tracked h (hA _ ha).1 (hA _ ha).2) h

/-- Acts that bring no records and free no channel. -/
theorem Steps.alive {A : Set Act} (hs : Steps A k k') (h : Tracked k) (hk : Alive k)
    (hA : ∀ a ∈ A, (a ≠ .closeQueue ∧ ∀ m, a ≠ .rewatch m) ∧ a ≠ .batch ∧ ∀ n, a ≠ .destroy n) :
    Tracked k' ∧ Alive k' := by
  refine hs.keeps (I := fun j => Tracked j ∧ Alive j) (fun a j j' ha hs hj => ?_) ⟨h, hk⟩
  obtain ⟨⟨hq, hw⟩, hbatch, hd⟩ := hA a ha
  exact ⟨hs.tracked hj.1 hq hw, hs.alive hj.1.base hj.1.loaded hj.2 hbatch hd⟩

end Act

/-! ## Calls -/

theorem Call.batch_acts {c : Call} (h : .batch ∈ c.acts) : c = .poll := by
  cases c with
  | poll => rfl
  | channActiveEvent m | channConnect m | channListen m | channClose m | channDisconnect m
  | channSend m | dgramSend m | channRecv m | dgramRecv m =>
    cases m <;> simp [Call.acts, connectActs, listenActs, sendActs, activeActs, activeSendActs,
      activeTimerActs] at h
  | _ => simp [Call.acts, finiActs, reapActs, resetActs, loopActs, timerActs, recordActs] at h

/-- After a poll the records that wait are those of its batch. -/
theorem evtPoll_alive {r : Int} (h : Returns evtPoll s r t) (hs : Tracked s.core) :
    Tracked t.core ∧ Alive t.core := by
  obtain ⟨k, k', k'', hreap, hreaped, hsched, hbatch⟩ := evtPoll_spec hs.base h
  have hk : Tracked k := hreap.tracked hs fun a ha => by
    obtain ⟨_, rfl | rfl⟩ := ha <;> simp
  have hk' := hreaped.tracked hk (by simp) (by simp)
  have hk'' := hsched.tracked hk' (by simp) (by simp)
  exact ⟨hbatch.tracked hk'' (by simp) (by simp), hbatch.alive_batch hk''.watchers⟩

theorem mnetFini_alive (hx : Tame x) {v : Unit} (h : Returns (mnetFini x) s v t)
    (hs : Tracked s.core) (ha : Alive s.core) : Tracked t.core ∧ Alive t.core := by
  obtain ⟨_, ht⟩ | ⟨_, k, hdown, hshut⟩ := mnetFini_spec hx hs.base h
  · rw [ht]
    exact ⟨hs, ha⟩
  · have hk : Tracked k := hdown.tracked hs fun a ha => by
      obtain ⟨_, rfl | rfl⟩ | ⟨_, rfl | rfl⟩ := ha <;> simp
    exact ⟨hshut.tracked hk (by simp) (by simp), hshut.alive_shutdown⟩

theorem Step.alive (hx : Tame x) {i : Call × Ret} (h : Step x s i t) (hp : NoReset s i.1)
    (hs : Tracked s.core) (ha : Alive s.core) : Tracked t.core ∧ Alive t.core := by
  obtain ⟨c, r⟩ := i
  by_cases hpoll : c = .poll
  · subst hpoll
    obtain ⟨_, _, h⟩ := returns_ret.mp h
    exact evtPoll_alive h hs
  by_cases hfini : c = .mnetFini
  · subst hfini
    obtain ⟨_, _, h⟩ := returns_ret.mp h
    exact mnetFini_alive hx h hs ha
  refine (apiCall_steps hx hs.base h).alive hs ha fun a hact => ⟨?_, fun he => ?_, fun n he => ?_⟩
  · have hkeep := Call.keepsMask_acts hp hact
    exact ⟨fun he => by rw [he] at hkeep; exact hkeep, fun m he => by rw [he] at hkeep; exact hkeep⟩
  · exact hpoll (Call.batch_acts (he ▸ hact))
  · obtain hc | hc := Call.destroy_acts (.inl (he ▸ hact))
    · exact hpoll hc
    · exact hfini hc

/-! ## Runs -/

theorem tracked_start (o : Oracle) (e : ε) : Tracked (Sys.start o e).core ∧ Alive (Sys.start o e).core where
  left := ⟨base_start o e, (watched_start o e).watchers, show (-1 : Int) ≤ 0 by decide, Int.le_refl _,
    fun _ => ⟨rfl, fun _ => rfl⟩⟩
  right := by
    intro kev h
    simp [Core.pending, Sys.start, Sys.core] at h

theorem InsideWhere.alive (hx : Tame x) (h : InsideWhere x NoReset s) :
    Tracked s.core ∧ Alive s.core := by
  induction h with
  | @call o e l s h =>
    exact Path.keeps (I := fun s : Sys ε => Tracked s.core ∧ Alive s.core) h
      (fun _ _ _ hs ha => hs.1.alive hx hs.2 ha.1 ha.2) (tracked_start o e)
  | next _ hp ih =>
    refine (evtPass_steps hx ih.1.base hp).alive ih.1 ih.2 fun a ha => ?_
    obtain (rfl | ⟨_, rfl | rfl | rfl⟩) | ⟨_, rfl⟩ | rfl | ⟨_, _, rfl | rfl | rfl | rfl | rfl | ⟨_, rfl⟩ |
      ⟨_, rfl⟩ | ⟨_, rfl⟩ | rfl | rfl⟩ := ha <;> simp

/-- Every channel pointer taken from the event array, in any round of the message loop, is that of
a channel that has not been freed. -/
theorem record_alive (hx : Tame x) {fuel : Nat} (hs : InsideWhere x NoReset s)
    (hf : Fetches x fuel s u kev) : ∃ n c, kev.ptr = some n ∧ u.heap n = some c := by
  obtain ⟨ht, ha⟩ := hs.alive hx
  obtain ⟨a, htm, _, rfl⟩ := hf.quiet
  obtain ⟨ht, ha⟩ := (tmNext_steps hx ht.base htm).alive ht ha fun b hb => by
    obtain rfl | ⟨_, rfl | rfl | rfl⟩ := hb <;> simp
  have hi : -1 ≤ a.core.fdIndex := ht.loaded.index
  have hlt : a.core.fdIndex + 1 < a.core.fdCount := hf.lt
  have hfilled : a.core.fdCount ≤ a.core.evtArray.length := ht.loaded.filled
  obtain ⟨n, hptr, hn⟩ := ha _ (Core.mem_pending hi hlt (by omega))
  have hrec : kev = a.core.evtArray.getD (a.core.fdIndex + 1).toNat {} := hf.record
  rw [← hrec] at hptr
  obtain ⟨c, hc⟩ := Option.ne_none_iff_exists'.mp hn
  rw [core_heap, Option.map_eq_some_iff] at hc
  obtain ⟨c, hc, _⟩ := hc
  exact ⟨n, c, hptr, hc⟩

set_option synthInstance.maxSize 1000 in
/-- The channel was closed by the handler of the record before. -/
theorem record_alive_closed : ∃ (u : Sys Unit) (kev : Kev) (n : ChannId) (c : Chann),
    kev.sock = some 0 ∧ u.heap 0 ≠ none ∧ kev.ptr = some n ∧ u.heap n = some c := by
  have hrun : AfterWhere noExt NoReset (staleCalls ++ [.channClose (some 0)]) (Sys.start staleOracle ())
      fun s => (s.mnet.tmPos = none ∧ s.mnet.disChanns = none ∧ s.mnet.fdIndex = 0 ∧ s.mnet.fdCount = 2) ∧
        (s.mnet.evtArray.getD 1 {}).sock = some 0 ∧
        (s.heap 0).map (fun c => c.state) = some .closed := by decide +kernel
  obtain ⟨_, s, hs, ⟨hpos, hdis, hidx, hcount⟩, hsock, hclosed⟩ := hrun.run
  have hf : Fetches noExt 1 s _ _ := fetches_idle hpos hdis (by rw [hidx, hcount]; decide)
  obtain ⟨n, c, hptr, hc⟩ := record_alive tame_noExt (.call hs) hf
  refine ⟨_, _, n, c, by rw [hidx]; exact hsock, fun hnone => ?_, hptr, hc⟩
  have hnone : s.heap 0 = none := hnone
  rw [hnone] at hclosed
  cases hclosed

end MNet
