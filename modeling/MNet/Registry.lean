import MNet.Teardown

/-! # The channel registry

`ss->channs` holds every allocated channel and `ss->del_channs` the closed ones, which the
next poll frees. The base invariant has the first; here are the second, and the life of a
closed channel. -/

namespace MNet
open MNet.Lib MNet.Lib.Exec

variable {ε : Type} {x : ExtTable ε} {s t : Sys ε} {o : Oracle} {e : ε}

def delOf (heap : Heap) (n : ChannId) : Option ChannId := (heap n).bind CChann.delNext

def Core.closedAt (k : Core) (n : ChannId) : Prop := ∃ c, k.heap n = some c ∧ c.state = .closed

/-- `del_channs` with `del_next` lists exactly the closed channels. -/
def Core.delOk (k : Core) : Prop :=
  ∃ l, Chain (delOf k.heap) k.delChanns l ∧ ∀ n, n ∈ l ↔ k.closedAt n

section Act

variable {k k' : Core} {a : Act} {n : ChannId} {c : CChann}

/-- Only closing a channel makes it CLOSED, and nothing makes it anything else after. -/
theorem CStep.life (hs : CStep k a k') (hb : Base k) (hn : k.heap n = some c) (hc : a ≠ .close n)
    (hd : a ≠ .destroy n) : ∃ c', k'.heap n = some c' ∧ (c'.state = .closed ↔ c.state = .closed) ∧
      c'.delNext = c.delNext := by
  obtain ⟨rfl, _⟩ | ⟨c', hc', ht⟩ := hs.at hb hn
  · exact absurd rfl hd
  have hne : ∀ {st st' : ChannState}, st ≠ .closed → st' ≠ .closed → (st = .closed ↔ st' = .closed) :=
    fun h h' => ⟨fun e => absurd e h, fun e => absurd e h'⟩
  refine ⟨c', hc', ?_⟩
  cases ht with
  | close => exact absurd rfl hc
  | attach hst _ _ hact => exact ⟨hne hact.ne_closed (by rw [hst]; decide), rfl⟩
  | established hst => exact ⟨hne (show ChannState.connected ≠ .closed by decide) (by rw [hst]; decide), rfl⟩
  | disconnect hact => exact ⟨hne (show ChannState.disconnect ≠ .closed by decide) hact.ne_closed, rfl⟩
  | links | refuse | interest | write | flush | sendFlag | slot | report | timer =>
    exact ⟨Iff.rfl, rfl⟩

/-- New channels are not closed. -/
theorem CStep.closedAt_iff (hs : CStep k a k') (hb : Base k) (hc : a ≠ .close n)
    (hd : a ≠ .destroy n) : k'.closedAt n ↔ k.closedAt n := by
  cases hn : k.heap n with
  | none =>
    refine ⟨?_, fun ⟨d, hd, _⟩ => by rw [hn] at hd; cases hd⟩
    intro ⟨d, hd, hst⟩
    obtain ⟨_, ⟨_, _, rfl⟩ | ⟨_, _, _, _, _, _, _, _, rfl⟩⟩ := hs.appears hb hn hd <;> cases hst
  | some c =>
    obtain ⟨c', hc', hst, _⟩ := hs.life hb hn hc hd
    constructor
    · intro ⟨d, hd, hcl⟩
      rw [hc'] at hd
      cases hd
      exact ⟨c, hn, hst.mp hcl⟩
    · intro ⟨d, hd, hcl⟩
      rw [hn] at hd
      cases hd
      exact ⟨c', hc', hst.mpr hcl⟩

theorem CStep.delOf_eq (hs : CStep k a k') (hb : Base k) (hn : k.closedAt n) (hc : a ≠ .close n)
    (hd : a ≠ .destroy n) : delOf k'.heap n = delOf k.heap n := by
  obtain ⟨c, hn, _⟩ := hn
  obtain ⟨c', hc', _, hdel⟩ := hs.life hb hn hc hd
  simp [delOf, hc', hn, hdel]

theorem CStep.delChanns_eq (hs : CStep k a k') (hc : ∀ n, a ≠ .close n) (hr : a ≠ .reaped)
    (hd : a ≠ .shutdown) : k'.delChanns = k.delChanns := by
  cases hs with
  | close => exact absurd rfl (hc _)
  | reaped => exact absurd rfl hr
  | shutdown => exact absurd rfl hd
  | @write n c data i =>
    obtain ⟨w, hw⟩ := k.onWire_eq c (data.take i)
    rw [hw]
    rfl
  | @flush n c i =>
    obtain ⟨w, hw⟩ := k.onWire_eq c ((rwbDrainParam c.rwbSend).take i)
    rw [hw]
    rfl
  | _ => rfl

/-- Every act but those that free channels keeps `del_channs` the list of the closed ones. -/
theorem CStep.delOk (hs : CStep k a k') (hb : Base k) (hk : k.delOk) (hd : ∀ n, a ≠ .destroy n)
    (hr : a ≠ .reaped) (hdown : a ≠ .shutdown) : k'.delOk := by
  obtain ⟨l, hl, hmem⟩ := hk
  by_cases hc : ∃ n, a = .close n
  · obtain ⟨n, rfl⟩ := hc
    cases hs with
    | @close _ c hn hst =>
      -- the channel is not on the list yet, as it is not CLOSED
      have hnl : n ∉ l := by
        intro hm
        obtain ⟨d, hd, hcl⟩ := (hmem n).mp hm
        rw [hn] at hd
        cases hd
        rw [hst] at hcl
        cases hcl
      have hdel : delOf (Function.update k.heap n
          (some { c with delNext := k.delChanns, state := .closed })) =
            Function.update (delOf k.heap) n k.delChanns := by
        funext i
        by_cases hi : i = n
        · subst hi
          simp [delOf]
        · simp [delOf, Function.update_of_ne hi]
      refine ⟨n :: l, ?_, fun m => ?_⟩
      · show Chain (delOf (Function.update k.heap n _)) (some n) (n :: l)
        rw [hdel]
        exact hl.push hnl
      · show _ ↔ ∃ d, Function.update k.heap n _ m = some d ∧ _
        by_cases hm : m = n
        · subst hm
          simp
        · rw [Function.update_of_ne hm, List.mem_cons, hmem]
          simp [hm, Core.closedAt]
  · have hc' : ∀ n, a ≠ .close n := fun n e => hc ⟨n, e⟩
    refine ⟨l, ?_, fun n => (hmem n).trans (hs.closedAt_iff hb (hc' n) (hd n)).symm⟩
    rw [hs.delChanns_eq hc' hr hdown]
    exact hl.congr fun n hn => hs.delOf_eq hb ((hmem n).mp hn) (hc' n) (hd n)

/-- A channel that was freed does not come back. -/
theorem CStep.gone (hs : CStep k a k') (hb : Base k) (hn : k.heap n = none) (hlt : n < k.nextChann) :
    k'.heap n = none ∧ n < k'.nextChann := by
  refine ⟨?_, Nat.lt_of_lt_of_le hlt hs.nextChann_le⟩
  by_contra hc
  obtain ⟨c, hc⟩ := Option.ne_none_iff_exists'.mp hc
  exact absurd (hs.appears hb hn hc).1 (Nat.ne_of_lt hlt)

end Act

/-! ## Freeing the closed channels -/

/-- What an act on another channel leaves of the life of `n`. -/
theorem Steps.life {A : Set Act} {k k' : Core} {n : ChannId} {c : CChann} (h : Steps A k k')
    (hb : Base k) (hn : k.heap n = some c) (hA : ∀ a ∈ A, a ≠ .close n ∧ a ≠ .destroy n) :
    ∃ c', k'.heap n = some c' ∧ (c'.state = .closed ↔ c.state = .closed) ∧
      c'.delNext = c.delNext := by
  refine (h.keeps (I := fun k => Base k ∧ ∃ c', k.heap n = some c' ∧
    (c'.state = .closed ↔ c.state = .closed) ∧ c'.delNext = c.delNext) ?_
    ⟨hb, c, hn, Iff.rfl, rfl⟩).2
  intro a k k' ha hs ⟨hb, d, hd, hst, hdel⟩
  obtain ⟨d', hd', hst', hdel'⟩ := hs.life hb hd (hA a ha).1 (hA a ha).2
  exact ⟨hb.step hs, d', hd', hst'.trans hst, hdel'.trans hdel⟩

theorem Steps.gone {A : Set Act} {k k' : Core} {n : ChannId} (h : Steps A k k') (hb : Base k)
    (hn : k.heap n = none) (hlt : n < k.nextChann) : k'.heap n = none ∧ n < k'.nextChann := by
  refine (h.keeps (I := fun k => Base k ∧ k.heap n = none ∧ n < k.nextChann) ?_ ⟨hb, hn, hlt⟩).2
  intro a k k' _ hs ⟨hb, hn, hlt⟩
  exact ⟨hb.step hs, hs.gone hb hn hlt⟩

theorem Steps.nextChann_le {A : Set Act} {k k' : Core} (h : Steps A k k') :
    k.nextChann ≤ k'.nextChann :=
  h.keeps (I := fun i => k.nextChann ≤ i.nextChann)
    (fun _ _ _ _ hs hle => Nat.le_trans hle hs.nextChann_le) (Nat.le_refl _)

/-- What freeing the closed channel `a` leaves of the others, of which `l` are to be freed next. -/
structure Reaped (s t : Sys ε) (a : ChannId) (p : Option ChannId) (l : List ChannId) : Prop where
  base : Base t.core
  gone : t.core.heap a = none
  nextChann : s.core.nextChann ≤ t.core.nextChann
  others : ∀ n c, n ≠ a → s.core.heap n = some c →
    ∃ c', t.core.heap n = some c' ∧ (c'.state = .closed ↔ c.state = .closed)
  rest : Chain (delOf t.core.heap) p l
  closed : ∀ n ∈ l, t.core.closedAt n

theorem channDestroy_reaped {a : ChannId} {c : CChann} {l : List ChannId} {u : Unit} (hb : Base s.core)
    (ha : s.core.heap a = some c) (hl : Chain (delOf s.core.heap) (some a) (a :: l))
    (hmem : ∀ n ∈ a :: l, s.core.closedAt n) (h : Returns (channDestroy a) s u t) :
    Reaped s t a c.delNext l := by
  have hnd := hl.nodup
  cases hl with
  | cons hl =>
  have hnext : delOf s.core.heap a = c.delNext := by
    rw [delOf, ha]
    rfl
  rw [hnext] at hl
  obtain ⟨d, hd, hcl⟩ := hmem a (by simp)
  obtain ⟨d', hd', ⟨hopen, _⟩ | ⟨_, hgone, _, hsteps⟩⟩ := channDestroy_spec hb h
  · rw [hd] at hd'
    cases hd'
    exact absurd hcl hopen
  -- the other channels live on
  have hother : ∀ n d, n ≠ a → s.core.heap n = some d → ∃ d', t.core.heap n = some d' ∧
      (d'.state = .closed ↔ d.state = .closed) ∧ d'.delNext = d.delNext := by
    intro n d hn hd
    refine hsteps.life hb hd ?_
    intro act hact
    rcases hact with rfl | rfl
    · exact ⟨by simp, by simp⟩
    · exact ⟨by simp, by simpa using fun e => hn e.symm⟩
  have hne : ∀ n ∈ l, n ≠ a := fun n hn e => (List.nodup_cons.mp hnd).1 (e ▸ hn)
  refine ⟨hsteps.base hb, hgone, hsteps.nextChann_le, ?_, ?_, ?_⟩
  · intro n d hn hd
    obtain ⟨d', hd', hst, _⟩ := hother n d hn hd
    exact ⟨d', hd', hst⟩
  · refine hl.congr fun n hn => ?_
    obtain ⟨e, he, _⟩ := hmem n (List.mem_cons_of_mem _ hn)
    obtain ⟨e', he', _, hdel⟩ := hother n e (hne n hn) he
    show (t.core.heap n).bind _ = (s.core.heap n).bind _
    rw [he', he]
    exact hdel
  · intro n hn
    obtain ⟨e, he, hecl⟩ := hmem n (List.mem_cons_of_mem _ hn)
    obtain ⟨e', he', hst, _⟩ := hother n e (hne n hn) he
    exact ⟨e', he', hst.mpr hecl⟩

/-- The walk of `_evt_del_channs` frees the closed channels, and no others. -/
theorem evtDelLoop_reaps {fuel : Nat} {p : Option ChannId} {l : List ChannId} {u : Unit}
    (hb : Base s.core) (hl : Chain (delOf s.core.heap) p l)
    (hmem : ∀ n ∈ l, s.core.closedAt n) (h : Returns (evtDelLoop fuel p) s u t) :
    Base t.core ∧ (∀ n ∈ l, t.core.heap n = none) ∧ ∀ n c, n ∉ l → s.core.heap n = some c →
      ∃ c', t.core.heap n = some c' ∧ (c'.state = .closed ↔ c.state = .closed) := by
  induction l generalizing s p fuel with
  | nil =>
    cases hl
    have ht : t = s := by cases fuel <;> exact (returns_pure.mp h).2
    rw [ht]
    exact ⟨hb, by simp, fun n c _ hn => ⟨c, hn, Iff.rfl⟩⟩
  | cons a l ih =>
    have hchain := hl
    cases hl with
    | cons =>
    cases fuel with
    | zero => exact absurd h returns_fail
    | succ fuel =>
      simp only [evtDelLoop, returns_bind, returns_deref, and_assoc, exists_and_left,
        exists_eq_left] at h
      obtain ⟨c, hc, _, b, hdes, h⟩ := h
      have hsp := channDestroy_reaped hb (core_heap_some hc) hchain hmem hdes
      obtain ⟨hbt, hfreed, hkept⟩ := ih hsp.base hsp.rest hsp.closed h
      refine ⟨hbt, fun n hn => ?_, fun n e hn he => ?_⟩
      · rcases List.mem_cons.mp hn with rfl | hn
        · have hlt : n < b.core.nextChann :=
            Nat.lt_of_lt_of_le (hb.reg.lt n (by rw [core_heap_some hc]; simp)) hsp.nextChann
          exact ((evtDelLoop_steps hsp.base h).gone hsp.base hsp.gone hlt).1
        · exact hfreed n hn
      · obtain ⟨e', he', hst⟩ := hsp.others n e (fun e => hn (e ▸ List.mem_cons_self)) he
        obtain ⟨e'', he'', hst'⟩ := hkept n e' (fun h => hn (List.mem_cons_of_mem _ h)) he'
        exact ⟨e'', he'', hst'.trans hst⟩

/-- Nothing is cached for a closed channel. -/
theorem Base.closed_nil {k : Core} {n : ChannId} {c : CChann} (hb : Base k) (hn : k.heap n = some c)
    (hcl : c.state = .closed) : c.rwbSend = [] := by
  refine (hb.cache n c hn).2 ?_
  rw [hcl]
  decide

/-- The walk comes to its end, as each closed channel can be freed. -/
theorem evtDelLoop_terminates {fuel : Nat} {p : Option ChannId} {l : List ChannId} (hb : Base s.core)
    (hl : Chain (delOf s.core.heap) p l) (hmem : ∀ n ∈ l, s.core.closedAt n) (hlen : l.length ≤ fuel) :
    Terminates (evtDelLoop fuel p) s := by
  induction l generalizing s p fuel with
  | nil =>
    cases hl
    cases fuel <;> exact halts_pure () s
  | cons a l ih =>
    have hchain := hl
    cases hl with
    | cons =>
    cases fuel with
    | zero => simp at hlen
    | succ fuel =>
      obtain ⟨c, hc, hcl⟩ := hmem a (by simp)
      refine (terminates_deref hc).bind fun d b hd => ?_
      obtain ⟨hd, rfl⟩ := returns_deref.mp hd
      rw [core_heap_some hd] at hc
      cases hc
      have hn := core_heap_some hd
      refine (channDestroy_terminates hb.reg hb.timed hn (hb.closed_nil hn hcl)).bind fun _ e hdes => ?_
      have hsp := channDestroy_reaped hb hn hchain hmem hdes
      exact ih hsp.base hsp.rest hsp.closed (by simpa using hlen)

theorem Steps.reap_none {k k' : Core} {n : ChannId} (h : Steps reapActs k k') (hb : Base k)
    (hn : k.heap n = none) : k'.heap n = none := by
  refine (h.keeps (I := fun k => Base k ∧ k.heap n = none) ?_ ⟨hb, hn⟩).2
  intro a k k' ha hs ⟨hb, hn⟩
  refine ⟨hb.step hs, ?_⟩
  by_contra hc
  obtain ⟨c, hc⟩ := Option.ne_none_iff_exists'.mp hc
  obtain ⟨m, rfl | rfl⟩ := ha <;>
    obtain ⟨_, ⟨_, he, _⟩ | ⟨_, _, _, he, _⟩⟩ := hs.appears hb hn hc <;> cases he

/-- Afterwards the channels that were not closed are left. -/
theorem evtDelChanns_reaps {u : Unit} (hb : Base s.core) (hd : s.core.delOk)
    (h : Returns evtDelChanns s u t) : t.core.delChanns = none ∧ (∀ n, ¬ t.core.closedAt n) ∧
      ∀ n, t.core.heap n ≠ none ↔ s.core.heap n ≠ none ∧ ¬ s.core.closedAt n := by
  obtain ⟨l, hl, hmem⟩ := hd
  simp only [evtDelChanns, walkFuel, returns_bind, returns_readMnet, returns_read, and_assoc,
    exists_and_left, exists_eq_left] at h
  obtain ⟨_, a, hloop, hdel⟩ := h
  obtain ⟨_, _, _, ht⟩ := core_modifyMnet hdel
  obtain ⟨_, hfreed, hkept⟩ := evtDelLoop_reaps hb hl (fun n hn => (hmem n).mp hn) hloop
  have hsteps := evtDelLoop_steps hb hloop
  have hopen : ∀ n, a.core.heap n ≠ none →
      ∃ c, s.core.heap n = some c ∧ n ∉ l ∧ c.state ≠ .closed := by
    intro n hn
    have hs : s.core.heap n ≠ none := fun he => hn (hsteps.reap_none hb he)
    obtain ⟨c, hc⟩ := Option.ne_none_iff_exists'.mp hs
    have hnl : n ∉ l := fun hl => hn (hfreed n hl)
    exact ⟨c, hc, hnl, fun hcl => hnl ((hmem n).mpr ⟨c, hc, hcl⟩)⟩
  rw [ht]
  refine ⟨rfl, fun n hn => ?_, fun n => ⟨fun hn => ?_, fun hn => ?_⟩⟩
  · obtain ⟨d, hd, hdcl⟩ := hn
    have hd : a.core.heap n = some d := hd
    obtain ⟨c, hc, hnl, hcl⟩ := hopen n (by rw [hd]; simp)
    obtain ⟨d', hd', hst⟩ := hkept n c hnl hc
    rw [hd] at hd'
    cases hd'
    exact hcl (hst.mp hdcl)
  · obtain ⟨c, hc, hnl, hcl⟩ := hopen n hn
    refine ⟨by rw [hc]; simp, fun hgone => hcl ?_⟩
    obtain ⟨d, hd, hdcl⟩ := hgone
    rw [hc] at hd
    cases hd
    exact hdcl
  · obtain ⟨hn, hcl⟩ := hn
    obtain ⟨c, hc⟩ := Option.ne_none_iff_exists'.mp hn
    obtain ⟨d, hd, _⟩ := hkept n c (fun hl => hcl ((hmem n).mp hl)) hc
    show a.core.heap n ≠ none
    rw [hd]
    simp

/-- What a poll does after freeing channels leaves them alone. -/
theorem CStep.poll_heap {k k' k'' : Core} (hs : CStep k .schedule k') (hb : CStep k' .batch k'') :
    k''.heap = k.heap ∧ k''.delChanns = k.delChanns := by
  cases hs with
  | schedule => cases hb <;> exact ⟨rfl, rfl⟩

theorem evtPoll_reaps {r : Int} (hb : Base s.core) (hd : s.core.delOk) (h : Returns evtPoll s r t) :
    t.core.delChanns = none ∧ (∀ n, ¬ t.core.closedAt n) ∧
      (∀ n, t.core.heap n ≠ none ↔ s.core.heap n ≠ none ∧ ¬ s.core.closedAt n) ∧
      (r = -1 ∨ r = t.core.channCount) := by
  obtain ⟨a, k, hdel, hsched, hbatch, hr⟩ := evtPoll_parts h
  obtain ⟨hnone, hcl, hmem⟩ := evtDelChanns_reaps hb hd hdel
  obtain ⟨hheap, hdels⟩ := hsched.poll_heap hbatch
  unfold Core.closedAt at *
  rw [hheap, hdels]
  exact ⟨hnone, hcl, hmem, hr⟩

theorem evtDelChanns_terminates (hb : Base s.core) (hd : s.core.delOk) : Terminates evtDelChanns s := by
  obtain ⟨l, hl, hmem⟩ := hd
  have hlen : l.length ≤ s.nextChann + 1 := by
    have hsub : l ⊆ List.range s.nextChann := by
      intro n hn
      obtain ⟨c, hc, _⟩ := (hmem n).mp hn
      exact List.mem_range.mpr (hb.reg.lt n (by rw [hc]; simp))
    have hle := hl.nodup.length_le_of_subset hsub
    rw [List.length_range] at hle
    exact Nat.le_succ_of_le hle
  refine (halts_read _ _).bind fun p a hp => ?_
  obtain ⟨rfl, rfl⟩ := returns_readMnet.mp hp
  refine (halts_read _ _).bind fun fuel b hf => ?_
  obtain ⟨rfl, rfl⟩ := returns_read.mp hf
  refine (evtDelLoop_terminates hb hl (fun n hn => (hmem n).mp hn) hlen).bind fun _ _ _ => ?_
  exact halts_modifyMnet _ _

theorem tmSchedule_terminates {clock : List TmNode} (h : s.core.tmClock = some clock) :
    Terminates (tmSchedule : M ε Unit) s := by
  refine (derefClock_terminates h).bind fun l a _ => ?_
  cases l with
  | nil => exact halts_modifyMnet _ _
  | cons node rest =>
    have hclock : Halts (sysClock : M ε Int) := (halts_read _).bind fun _ => .bind halts_nextTick fun _ => halts_pure _
    exact (hclock.bind fun _ => .ite (halts_modifyMnet _) (halts_modifyMnet _)) a

/-- While the library is initialised there is a timer list. -/
def Core.clockOk (k : Core) : Prop := k.isInit = true → k.tmClock ≠ none

theorem CStep.clockOk {k k' : Core} {a : Act} (hs : CStep k a k') (h : k.clockOk) : k'.clockOk := by
  intro hi
  cases hs with
  | arm | rearm | disarm | fire | boot => exact Option.some_ne_none _
  | shutdown => exact absurd hi (by simp [Core.wiped])
  | @write n c data i =>
    obtain ⟨w, hw⟩ := k.onWire_eq c (data.take i)
    rw [hw] at hi ⊢
    exact h hi
  | @flush n c i =>
    obtain ⟨w, hw⟩ := k.onWire_eq c ((rwbDrainParam c.rwbSend).take i)
    rw [hw] at hi ⊢
    exact h hi
  | _ => exact h hi

theorem Steps.clockOk {A : Set Act} {k k' : Core} (h : Steps A k k') (hk : k.clockOk) : k'.clockOk :=
  h.keeps (I := Core.clockOk) (fun _ _ _ _ hs hk => hs.clockOk hk) hk

/-- Freeing channels does not touch what `mnet_init` sets up. -/
theorem evtDelChanns_isInit {u : Unit} (hb : Base s.core) (h : Returns evtDelChanns s u t) :
    Base t.core ∧ t.core.isInit = s.core.isInit ∧ (s.core.clockOk → t.core.clockOk) := by
  obtain ⟨k, hsteps, hreap⟩ := evtDelChanns_spec hb h
  have hi : k.isInit = s.core.isInit := by
    refine hsteps.keeps (I := fun k => k.isInit = s.core.isInit) ?_ rfl
    intro a i j ha hs hi
    rw [← hi]
    obtain ⟨n, rfl | rfl⟩ := ha <;> cases hs <;> rfl
  have hr : ∀ {i j : Core}, CStep i .reaped j → j.isInit = i.isInit := by
    intro i j hs
    cases hs
    rfl
  exact ⟨(hsteps.base hb).step hreap, (hr hreap).trans hi, fun hk => hreap.clockOk (hsteps.clockOk hk)⟩

theorem halts_sysEpollWait (size : Nat) : Halts (sysEpollWait size : M ε (Option (List Kev))) :=
  (halts_read _).bind fun _ => .bind halts_sysRet fun _ => halts_pure _

/-- A poll comes to its end exactly when the library is initialised: otherwise there is no timer
list to read. -/
theorem evtPoll_terminates_iff (hb : Base s.core) (hd : s.core.delOk) (hk : s.core.clockOk) :
    Terminates evtPoll s ↔ s.mnet.isInit = true := by
  constructor
  · rintro ⟨r, t, h⟩
    obtain ⟨a, k, hdel, hsched, _⟩ := evtPoll_parts h
    obtain ⟨hba, hi, _⟩ := evtDelChanns_isInit hb hdel
    by_contra hno
    have hoff : a.core.isInit = false := hi.trans (Bool.not_eq_true _ ▸ hno)
    have hnone := hba.timed.booted hoff
    cases hsched with
    | schedule hclock =>
      rw [hnone] at hclock
      cases hclock
  · intro hinit
    refine (evtDelChanns_terminates hb hd).bind fun _ a hdel => ?_
    obtain ⟨_, hi, hka⟩ := evtDelChanns_isInit hb hdel
    obtain ⟨clock, hclock⟩ := Option.ne_none_iff_exists'.mp (hka hk (hi.trans hinit))
    refine (tmSchedule_terminates hclock).bind fun _ b _ => ?_
    refine (halts_sysEpollWait _ _).bind fun recs c _ => ?_
    refine (halts_read _ _).bind fun _ e _ => ?_
    cases recs with
    | none =>
      exact (halts_modifyMnet _ _).bind fun _ _ _ => .ite (fun _ => halts_pure _ _) fun _ => halts_read _ _
    | some evts => exact (halts_modifyMnet _ _).bind fun _ _ _ => halts_read _ _

/-! ## Runs -/

/-- A call that frees the closed channels. -/
def Reaps (s : Sys ε) (c : Call) : Prop := c = .poll ∨ (c = .mnetFini ∧ s.mnet.isInit = true)

theorem Call.destroy_acts {c : Call} {n : ChannId}
    (h : .destroy n ∈ c.acts ∨ .reaped ∈ c.acts ∨ .shutdown ∈ c.acts) :
    c = .poll ∨ c = .mnetFini := by
  cases c with
  | channActiveEvent m | channConnect m | channListen m | channClose m | channDisconnect m
  | channSend m | dgramSend m | channRecv m | dgramRecv m =>
    cases m <;> simp [Call.acts, connectActs, listenActs, sendActs, activeActs, activeSendActs,
      activeTimerActs] at h
  | mnetFini | poll => simp
  | _ => simp [Call.acts, resetActs, loopActs, timerActs, recordActs] at h

/-- The other calls consist of acts that free nothing. -/
theorem Step.spares (hx : Tame x) {i : Call × Ret} (h : Step x s i t) (hp : ¬ Reaps s i.1)
    (hb : Base s.core) : ∃ A, Steps A s.core t.core ∧
      ∀ a ∈ A, (∀ n, a ≠ .destroy n) ∧ a ≠ .reaped ∧ a ≠ .shutdown := by
  obtain ⟨c, r⟩ := i
  by_cases hno : ∀ n, .destroy n ∉ c.acts ∧ .reaped ∉ c.acts ∧ .shutdown ∉ c.acts
  · refine ⟨c.acts, apiCall_steps hx hb h, fun a ha => ⟨fun n e => ?_, fun e => ?_, fun e => ?_⟩⟩
    · exact (hno n).1 (e ▸ ha)
    · exact (hno 0).2.1 (e ▸ ha)
    · exact (hno 0).2.2 (e ▸ ha)
  · obtain ⟨n, hn⟩ := not_forall.mp hno
    have hn' : .destroy n ∈ c.acts ∨ .reaped ∈ c.acts ∨ .shutdown ∈ c.acts := by
      by_contra hc
      rw [not_or, not_or] at hc
      exact hn hc
    obtain rfl | rfl := Call.destroy_acts hn'
    · exact absurd (.inl rfl) hp
    · obtain ⟨_, _, h⟩ := returns_ret.mp h
      obtain ⟨_, ht⟩ | ⟨hinit, k, hsteps, hdown⟩ := mnetFini_spec hx hb h
      · exact ⟨∅, .of_eq ht, by simp⟩
      · exact absurd (.inr ⟨rfl, hinit⟩) hp

theorem Core.delOk_nil {k : Core} (hd : k.delChanns = none) (hc : ∀ n, ¬ k.closedAt n) : k.delOk :=
  ⟨[], by rw [hd]; exact .nil, fun n => by simp [hc n]⟩

/-- A shutdown leaves no channel. -/
theorem CStep.shutdown_empty {k k' : Core} (hs : CStep k .shutdown k') (hb : Base k) :
    (∀ n, k'.heap n = none) ∧ k'.delChanns = none := by
  cases hs with
  | shutdown hc =>
    have hr : Registered k.heap none k.channCount k.nextChann := hc ▸ hb.reg
    exact ⟨hr.all_none, rfl⟩

theorem mnetFini_empty (hx : Tame x) {r : Ret} (hb : Base s.core) (hi : s.mnet.isInit = true)
    (h : Step x s (.mnetFini, r) t) : (∀ n, t.core.heap n = none) ∧ t.core.delChanns = none := by
  obtain ⟨_, _, h⟩ := returns_ret.mp h
  obtain ⟨hno, _⟩ | ⟨_, k, hsteps, hdown⟩ := mnetFini_spec hx hb h
  · exact absurd (hno.symm.trans hi) (by simp)
  · exact hdown.shutdown_empty (hsteps.base hb)

theorem Step.delOk (hx : Tame x) {i : Call × Ret} (h : Step x s i t) (hb : Base s.core)
    (hd : s.core.delOk) : t.core.delOk := by
  by_cases hp : Reaps s i.1
  · obtain ⟨c, r⟩ := i
    obtain rfl | ⟨rfl, hi⟩ := hp
    · obtain ⟨_, _, h⟩ := returns_ret.mp h
      obtain ⟨hnone, hcl, _⟩ := evtPoll_reaps hb hd h
      exact Core.delOk_nil hnone hcl
    · obtain ⟨hempty, hnone⟩ := mnetFini_empty hx hb hi h
      refine Core.delOk_nil hnone fun n ⟨c, hc, _⟩ => ?_
      rw [hempty n] at hc
      cases hc
  · obtain ⟨A, hsteps, hA⟩ := h.spares hx hp hb
    refine (hsteps.keeps (I := fun k => Base k ∧ k.delOk) ?_ ⟨hb, hd⟩).2
    intro a k k' ha hs ⟨hb, hd⟩
    exact ⟨hb.step hs, hs.delOk hb hd (hA a ha).1 (hA a ha).2.1 (hA a ha).2.2⟩

theorem Reachable.delOk (hx : Tame x) (h : Reachable x s) : s.core.delOk := by
  obtain ⟨o, e, l, h⟩ := h
  refine (Path.keeps (I := fun s => Base s.core ∧ s.core.delOk) h ?_ ⟨base_start o e, ?_⟩).2
  · intro a i b hs ⟨hb, hd⟩
    exact ⟨Step.base hx hs hb, Step.delOk hx hs hb hd⟩
  · refine Core.delOk_nil rfl fun n ⟨c, hc, _⟩ => ?_
    cases hc

theorem Reachable.clockOk (hx : Tame x) (h : Reachable x s) : s.core.clockOk := by
  obtain ⟨o, e, l, h⟩ := h
  refine (Path.keeps (I := fun s => Base s.core ∧ s.core.clockOk) h ?_ ⟨base_start o e, ?_⟩).2
  · intro a i b hs ⟨hb, hk⟩
    exact ⟨Step.base hx hs hb, (apiCall_steps hx hb hs).clockOk hk⟩
  · intro hi
    cases hi

/-! ## The registry of a process -/

def Sys.Closed (s : Sys ε) (n : ChannId) : Prop := ∃ c, s.heap n = some c ∧ c.state = .closed

/-- A channel that existed and was freed. -/
def Sys.Freed (s : Sys ε) (n : ChannId) : Prop := n < s.nextChann ∧ s.heap n = none

structure RegistryOk (s : Sys ε) : Prop where
  channs : ∃ l, DChain (fun n => (s.heap n).bind Chann.next) (fun n => (s.heap n).bind Chann.prev)
    none s.mnet.channs l ∧ l.Nodup ∧ (∀ n, n ∈ l ↔ s.heap n ≠ none) ∧ s.mnet.channCount = l.length
  delChanns : ∃ l, Chain (fun n => (s.heap n).bind Chann.delNext) s.mnet.delChanns l ∧ l.Nodup ∧
    ∀ n, n ∈ l ↔ s.Closed n

theorem closedAt_core {n : ChannId} : s.core.closedAt n ↔ s.Closed n := by
  simp [Core.closedAt, Sys.Closed, Chann.core]

theorem Reachable.registryOk (hx : Tame x) (hs : Reachable x s) : RegistryOk s where
  channs := by
    obtain ⟨l, hl, hmem, hcount⟩ := (hs.base hx).reg.list
    have hl' := hl
    unfold nextOf prevOf at hl'
    rw [bind_core s (g := Chann.next) fun _ => rfl, bind_core s (g := Chann.prev) fun _ => rfl] at hl'
    refine ⟨l, hl', hl.nodup, fun n => ?_, hcount⟩
    rw [← hmem n]
    simp
  delChanns := by
    obtain ⟨l, hl, hmem⟩ := hs.delOk hx
    have hl' := hl
    unfold delOf at hl'
    rw [bind_core s (g := Chann.delNext) fun _ => rfl] at hl'
    exact ⟨l, hl', hl.nodup, fun n => (hmem n).trans closedAt_core⟩

/-- A closed channel stays closed until it is freed. -/
theorem Step.closed (hx : Tame x) {i : Call × Ret} {n : ChannId} (h : Step x s i t)
    (hp : ¬ Reaps s i.1) (hb : Base s.core) (hn : s.core.closedAt n) : t.core.closedAt n := by
  obtain ⟨A, hsteps, hA⟩ := h.spares hx hp hb
  refine (hsteps.keeps (I := fun k => Base k ∧ k.closedAt n) ?_ ⟨hb, hn⟩).2
  intro a k k' ha hs ⟨hb, hn⟩
  refine ⟨hb.step hs, (hs.closedAt_iff hb ?_ ((hA a ha).1 n)).mpr hn⟩
  -- a closed channel is not closed again
  rintro rfl
  obtain ⟨c, hc, hcl⟩ := hn
  cases hs with
  | close hc' hst =>
    rw [hc] at hc'
    cases hc'
    rw [hcl] at hst
    cases hst

theorem Step.freed (hx : Tame x) {i : Call × Ret} {n : ChannId} (h : Step x s i t)
    (hb : Base s.core) (hn : s.Freed n) : t.Freed n := by
  obtain ⟨hlt, hnone⟩ := hn
  obtain ⟨hnone', hlt'⟩ := (apiCall_steps hx hb h).gone (n := n) hb (by simp [hnone]) hlt
  refine ⟨hlt', ?_⟩
  simpa using hnone'

/-- What such a call needs to come to its end: a poll the initialised library, a shutdown that
nothing is cached for any channel. -/
def CanReap (s : Sys ε) (c : Call) : Prop :=
  (c = .poll → s.mnet.isInit = true) ∧ (c = .mnetFini → ∀ n, Emptied s.core.heap n)

theorem terminates_ret {α : Type} {f : α → Ret} {m : M ε α} : Terminates (ret f m) s ↔ Terminates m s := by
  constructor
  · rintro ⟨r, t, h⟩
    obtain ⟨a, _, h⟩ := returns_ret.mp h
    exact ⟨a, t, h⟩
  · rintro ⟨a, t, h⟩
    exact ⟨f a, t, returns_ret.mpr ⟨a, rfl, h⟩⟩

theorem reaps_terminates_iff (hx : Tame x) (hr : Releasing x) {c : Call} (hb : Base s.core)
    (hd : s.core.delOk) (hk : s.core.clockOk) (hp : Reaps s c) :
    Terminates (apiCall x c) s ↔ CanReap s c := by
  obtain rfl | ⟨rfl, hi⟩ := hp
  · rw [show apiCall x .poll = ret Ret.int evtPoll from rfl, terminates_ret,
      evtPoll_terminates_iff hb hd hk]
    exact ⟨fun h => ⟨fun _ => h, nofun⟩, fun h => h.1 rfl⟩
  · have hempty : (∀ n ∈ {n | s.heap n ≠ none}, Emptied s.core.heap n) ↔ ∀ n, Emptied s.core.heap n := by
      refine ⟨fun h n c hc => h n (fun h0 => ?_) c hc, fun h n _ => h n⟩
      rw [core_heap, h0] at hc
      cases hc
    have hfini := fini_finishes hx hr hb hi
    rw [hempty] at hfini
    rw [show apiCall x .mnetFini = ret (fun _ => Ret.unit) (mnetFini x) from rfl, terminates_ret]
    constructor
    · rintro ⟨_, t, h⟩
      exact ⟨nofun, fun _ => mnetFini_emptied hx hb hi h⟩
    · exact fun h => (hfini.mpr (h.2 rfl)).1

/-- A call that frees the closed channels frees each of them. -/
theorem Step.reaped (hx : Tame x) {i : Call × Ret} {n : ChannId} (h : Step x s i t) (hp : Reaps s i.1)
    (hb : Base s.core) (hd : s.core.delOk) (hn : s.Closed n) : t.Freed n := by
  have halloc : s.core.heap n ≠ none := by
    obtain ⟨c, hc, _⟩ := hn
    simp [hc]
  have hlt : n < t.nextChann :=
    Nat.lt_of_lt_of_le (hb.reg.lt n halloc) (apiCall_steps hx hb h).nextChann_le
  refine ⟨hlt, ?_⟩
  obtain ⟨c, r⟩ := i
  obtain rfl | ⟨rfl, hi⟩ := hp
  · obtain ⟨_, _, h⟩ := returns_ret.mp h
    obtain ⟨_, _, hmem, _⟩ := evtPoll_reaps hb hd h
    by_contra hc
    have hc' : t.core.heap n ≠ none := by simpa using hc
    exact ((hmem n).mp hc').2 (closedAt_core.mpr hn)
  · have hnone := (mnetFini_empty hx hb hi h).1 n
    simpa using hnone

/-- The registry in every state between calls, and the life of a closed channel: CLOSED until
the next poll or shutdown, which frees it for good if it comes to its end, as it does exactly
when it can. -/
theorem registry_sound (hx : Tame x) (hr : Releasing x) (hs : Reachable x s) :
    RegistryOk s ∧
    (∀ l t, RunWhere x (fun s c => ¬ Reaps s c) s l t → ∀ n, s.Closed n → t.Closed n) ∧
    (∀ c, Reaps s c →
      (Ends (apiCall x c) s (fun _ t => ∀ n, s.Closed n → t.Freed n) ↔ CanReap s c)) ∧
    (∀ l t, Run x s l t → ∀ n, s.Freed n → t.Freed n) ∧
    ∀ r t, Step x s (.poll, .int r) t → r = -1 ∨ ∃ l : List ChannId, l.Nodup ∧
      (∀ n, n ∈ l ↔ s.heap n ≠ none ∧ ¬ s.Closed n) ∧ r = l.length := by
  have hb := hs.base hx
  have hd := hs.delOk hx
  have hk := hs.clockOk hx
  refine ⟨hs.registryOk hx, fun l t h n hn => ?_, fun c hp => ?_, fun l t h n hn => ?_,
    fun r t h => ?_⟩
  · refine closedAt_core.mp (Path.keeps (I := fun s => Base s.core ∧ s.core.closedAt n) h ?_
      ⟨hb, closedAt_core.mpr hn⟩).2
    intro a i b hstep ⟨hb, hn⟩
    exact ⟨hstep.1.base hx hb, hstep.1.closed hx hstep.2 hb hn⟩
  · rw [← reaps_terminates_iff hx hr hb hd hk hp]
    constructor
    · rintro ⟨r, t, h, _⟩
      exact ⟨r, t, h⟩
    · rintro ⟨r, t, h⟩
      exact ⟨r, t, h, fun n hn => Step.reaped (i := (c, r)) hx h hp hb hd hn⟩
  · exact (Path.keeps (I := fun s => Base s.core ∧ s.Freed n) h
      (fun a i b hstep ⟨hb, hn⟩ => ⟨Step.base hx hstep hb, Step.freed hx hstep hb hn⟩) ⟨hb, hn⟩).2
  · have hb' := Step.base hx h hb
    obtain ⟨_, hr, h⟩ := returns_ret.mp h
    cases hr
    obtain ⟨_, _, hmem, hcount⟩ := evtPoll_reaps hb hd h
    refine hcount.imp_right fun hr => ?_
    obtain ⟨l, hl, hlist, hlen⟩ := hb'.reg.list
    refine ⟨l, hl.nodup, fun n => ?_, hr.trans hlen⟩
    rw [← hlist n, hmem n, closedAt_core]
    simp

set_option synthInstance.maxSize 1000 in
/-- Of two channels one is closed and freed by a poll, and the other one, which is closed later,
by the shutdown. -/
theorem registry_sound_close : ∃ s t u v : Sys Unit, s.Closed 0 ∧ Step noExt s (.poll, .int 1) t ∧
    t.Freed 0 ∧ u.Closed 1 ∧ Step noExt u (.mnetFini, .unit) v ∧ v.Freed 0 ∧ v.Freed 1 := by
  have hrun : After noExt [.mnetInit, .channOpen 1, .channOpen 1, .channClose (some 0)]
      (Sys.start quietOracle ()) fun _ s =>
        ((s.heap 0).map Chann.state = some .closed ∧ s.mnet.isInit = true) ∧
        After noExt [.poll] s fun rs t => rs = [.int 1] ∧
          After noExt [.channClose (some 1)] t fun _ u =>
            ((u.heap 1).map (fun c => (c.state, c.rwbSend)) = some (.closed, []) ∧ u.heap 0 = none ∧
              u.nextChann = 2 ∧ u.mnet.isInit = true) ∧
            After noExt [.mnetFini] u fun rs _ => rs = [.unit] := by decide +kernel
  obtain ⟨_, s, hs, ⟨hcl, hi⟩, hpoll⟩ := hrun.run
  obtain ⟨r, t, ht, hr, hclose⟩ := hpoll.step
  obtain ⟨_, u, hu, ⟨hcl', hnone, hnext, hi'⟩, hfini⟩ := hclose.step
  obtain ⟨r', v, hv, hr'⟩ := hfini.step
  obtain rfl : r = .int 1 := by simpa using hr
  obtain rfl : r' = .unit := by simpa using hr'
  have hruns : Reachable noExt s := ⟨_, _, _, hs⟩
  have hrunu : Reachable noExt u := ⟨_, _, _, (hs.snoc ht).snoc hu⟩
  have hsound := registry_sound tame_noExt releasing_noExt hruns
  have hsound' := registry_sound tame_noExt releasing_noExt hrunu
  have hclosed : s.Closed 0 := Option.map_eq_some_iff.mp hcl
  obtain ⟨c, hc, hstate⟩ := Option.map_eq_some_iff.mp hcl'
  obtain ⟨hst, hnil⟩ : c.state = .closed ∧ c.rwbSend = [] := by simpa using hstate
  have hempty : ∀ n, Emptied u.core.heap n := by
    intro n d hd
    have hlt : n < 2 := hnext ▸ (hrunu.base tame_noExt).reg.lt n (by rw [hd]; simp)
    rw [core_heap, Option.map_eq_some_iff] at hd
    obtain ⟨e, he, rfl⟩ := hd
    obtain rfl | rfl := Nat.le_one_iff_eq_zero_or_eq_one.mp (Nat.le_of_lt_succ hlt)
    · rw [hnone] at he
      cases he
    · rw [hc] at he
      cases he
      exact hnil
  obtain ⟨_, t', ht', hfreed⟩ := (hsound.2.2.1 .poll (.inl rfl)).mpr ⟨fun _ => hi, nofun⟩
  obtain ⟨_, rfl⟩ := ht.det ht'
  obtain ⟨_, v', hv', hfreed'⟩ := (hsound'.2.2.1 .mnetFini (.inr ⟨rfl, hi'⟩)).mpr ⟨nofun, fun _ => hempty⟩
  obtain ⟨_, rfl⟩ := hv.det hv'
  have hkept := (registry_sound tame_noExt releasing_noExt ⟨_, _, _, hs.snoc ht⟩).2.2.2.1
  have hgone : v.Freed 0 := hkept _ _ ((Path.single hu).snoc hv) 0 (hfreed 0 hclosed)
  exact ⟨s, t, u, v, hclosed, ht, hfreed 0 hclosed, ⟨c, hc, hst⟩, hv, hgone, hfreed' 1 ⟨c, hc, hst⟩⟩

/-- With a datagram cached for the channel 1, the shutdown hangs before it comes to the closed
channel 0. -/
theorem not_registry_sound_cached : ∃ s : Sys Unit, Reachable noExt s ∧ Reaps s .mnetFini ∧ s.Closed 0 ∧
    s.mnet.channs = some 1 ∧ ¬ Terminates (channDisconnectSocket (opsOf noExt) 1) s ∧
    ¬ Ends (apiCall noExt .mnetFini) s fun _ t => ∀ n, s.Closed n → t.Freed n := by
  have hrun : After noExt [.mnetInit, .channOpen 1, .channClose (some 0), .channOpen 2,
      .channConnect (some 1) (some 0) 80, .channSend (some 1) (some [1])] (Sys.start blockedOracle ())
      fun _ t => (t.mnet.isInit = true ∧ t.mnet.channs = some 1 ∧
        (t.heap 0).map Chann.state = some .closed) ∧
        fault (channDisconnectSocket (opsOf noExt) 1) t = some .hang ∧
        fault (apiCall noExt .mnetFini) t = some .hang := by decide +kernel
  obtain ⟨_, t, h, ⟨hi, hhead, hcl⟩, hdown, hfini⟩ := hrun.run
  rw [Option.map_eq_some_iff] at hcl
  refine ⟨t, ⟨_, _, _, h⟩, .inr ⟨rfl, hi⟩, hcl, hhead, not_terminates_of_fault hdown, ?_⟩
  rintro ⟨r, u, hret, _⟩
  exact not_terminates_of_fault hfini ⟨r, u, hret⟩

end MNet
