import Mathlib.Data.List.Perm.Subperm
import MNet.Core.Progress
import MNet.Masks

/-! # The reset of the event queue

`mnet_multi_reset_event` makes a new queue and registers the listed channels in it, each for
reading, whatever it was registered for. The first channel of a descriptor gets it, and a channel
that never had a socket has descriptor 0. The batch keeps its size and its cursor. -/

namespace MNet
open MNet.Lib MNet.Lib.Exec

variable {ε : Type} {x : ExtTable ε} {s t : Sys ε} {n : ChannId} {c : CChann} {k k' : Core} {u : Unit}

/-- What the walk registers every channel for. -/
def readMask : BitVec 32 := addedMask 0 .read

theorem readMask_ne_zero : readMask ≠ 0 := by decide

theorem readMask_in : readMask &&& EPOLLIN ≠ 0 := by decide

theorem readMask_out : readMask &&& EPOLLOUT = 0 := by decide

/-- A channel less the mask it keeps. -/
def CChann.unmasked (c : CChann) : CChann := { c with epollEvents := 0 }

/-! ## The walk -/

/-- The channels `l` were registered for reading, as far as their descriptors were free. -/
structure Rewatched (l : List ChannId) (k k' : Core) : Prop where
  heap : ∀ n, (k'.heap n).map CChann.unmasked = (k.heap n).map CChann.unmasked
  kept : ∀ fd reg, k.epoll fd = some reg → k'.epoll fd = some reg
  made : ∀ fd reg, k'.epoll fd = some reg → k.epoll fd = some reg ∨
    (reg.events = readMask ∧ 0 ≤ fd ∧ ∃ c, k.heap reg.ptr = some c ∧ c.fd = fd)
  added : ∀ n ∈ l, ∀ c, k.heap n = some c → 0 ≤ c.fd → k'.epoll c.fd ≠ none
  queue : k'.kq = k.kq ∧ k'.ctl = k.ctl
  batch : k'.fdIndex = k.fdIndex ∧ k'.fdCount = k.fdCount

namespace Rewatched

variable {l l' : List ChannId}

theorem refl (k : Core) : Rewatched [] k k :=
  ⟨fun _ => rfl, fun _ _ h => h, fun _ _ h => .inl h, fun _ h => by simp at h, ⟨rfl, rfl⟩, ⟨rfl, rfl⟩⟩

/-- A channel that is there, before and after. -/
theorem was (h : Rewatched l k k') (hn : k'.heap n = some c) :
    ∃ d, k.heap n = some d ∧ d.unmasked = c.unmasked := by
  have he := h.heap n
  rw [hn] at he
  exact Option.map_eq_some_iff.mp he.symm

theorem stays (h : Rewatched l k k') (hn : k.heap n = some c) :
    ∃ d, k'.heap n = some d ∧ d.unmasked = c.unmasked := by
  have he := h.heap n
  rw [hn] at he
  exact Option.map_eq_some_iff.mp he

theorem nextOf (h : Rewatched l k k') : nextOf k'.heap = nextOf k.heap := by
  funext n
  have hnext : ∀ heap : Heap, MNet.nextOf heap n = ((heap n).map CChann.unmasked).bind CChann.next := by
    intro heap
    rw [MNet.nextOf]
    cases heap n <;> rfl
  rw [hnext, hnext, h.heap n]

theorem trans {k'' : Core} (h : Rewatched l k k') (h' : Rewatched l' k' k'') : Rewatched (l ++ l') k k'' where
  heap n := (h'.heap n).trans (h.heap n)
  kept fd reg hreg := h'.kept fd reg (h.kept fd reg hreg)
  made fd reg hreg := by
    obtain hold | ⟨he, hfd, c, hc, hcfd⟩ := h'.made fd reg hreg
    · exact h.made fd reg hold
    · obtain ⟨d, hd, hdc⟩ := h.was hc
      exact .inr ⟨he, hfd, d, hd, (congrArg (·.fd) hdc).trans hcfd⟩
  added n hn c hc hfd := by
    obtain hn | hn := List.mem_append.mp hn
    · obtain ⟨reg, hreg⟩ := Option.ne_none_iff_exists'.mp (h.added n hn c hc hfd)
      rw [h'.kept _ _ hreg]
      exact Option.some_ne_none reg
    · obtain ⟨d, hd, hdc⟩ := h.stays hc
      have he : d.fd = c.fd := congrArg (·.fd) hdc
      rw [← he] at hfd ⊢
      exact h'.added n hn d hd hfd
  queue := ⟨h'.queue.1.trans h.queue.1, h'.queue.2.trans h.queue.2⟩
  batch := ⟨h'.batch.1.trans h.batch.1, h'.batch.2.trans h.batch.2⟩

/-- What the walk does to one channel. -/
theorem single {a : Sys ε} {r : Int} (hq : s.core.kq = true) (hctl : ∀ i, s.core.ctl i = true)
    (hmod : Returns (modifyChann n fun c => { c with epollEvents := 0 }) s u a)
    (hadd : Returns (evtAdd n .read) a r t) : Rewatched [n] s.core t.core := by
  obtain ⟨c, hc, _, _, _, ha⟩ := core_modifyChann hmod
  have hn : s.core.heap n = some c.core := core_heap_some hc
  have hcase := evtAdd_spec (by simp) hadd
  rw [ha] at hcase
  obtain ⟨d, hd, hcase⟩ := hcase
  rw [Core.set_heap, Function.update_self, Option.some.injEq] at hd
  subst hd
  have hheap : ∀ e : CChann, e.unmasked = c.core.unmasked → ∀ m,
      (Function.update s.core.heap n (some e) m).map CChann.unmasked = (s.core.heap m).map CChann.unmasked := by
    intro e he m
    by_cases hm : m = n
    · rw [hm, Function.update_self, hn, Option.map_some, Option.map_some, he]
    · rw [Function.update_of_ne hm]
  obtain ⟨_, _, hfd, hfree, ht⟩ | ⟨_, ht, hno⟩ := hcase
  · -- the descriptor was free
    have hnone : s.core.epoll c.fd = none := hfree.mp rfl
    have hepoll : t.core.epoll = Function.update s.core.epoll c.fd (some ⟨readMask, n⟩) := by
      rw [ht]
      show Function.update s.core.epoll c.fd (if readMask = 0 then none else some ⟨readMask, n⟩) = _
      rw [if_neg readMask_ne_zero]
    refine ⟨fun m => ?_, fun fd reg hreg => ?_, fun fd reg hreg => ?_, fun m hm d hd _ => ?_, ?_, ?_⟩
    · rw [ht]
      show (Function.update (Function.update s.core.heap n _) n _ m).map _ = _
      rw [Function.update_idem]
      refine hheap _ ?_ m
      rfl
    · rw [hepoll, Function.update_of_ne fun he => by rw [he, hnone] at hreg; cases hreg]
      exact hreg
    · rw [hepoll] at hreg
      by_cases hcfd : fd = c.fd
      · rw [hcfd, Function.update_self, Option.some.injEq] at hreg
        subst hreg
        exact .inr ⟨rfl, by rw [hcfd]; exact hfd, c.core, hn, hcfd.symm⟩
      · rw [Function.update_of_ne hcfd] at hreg
        exact .inl hreg
    · rw [List.mem_singleton.mp hm, hn, Option.some.injEq] at hd
      rw [hepoll, ← hd]
      exact fun hnil => absurd ((Function.update_self ..).symm.trans hnil) (Option.some_ne_none _)
    · rw [ht]
      exact ⟨rfl, rfl⟩
    · rw [ht]
      exact ⟨rfl, rfl⟩
  · refine ⟨fun m => ?_, fun fd reg hreg => ?_, fun fd reg hreg => ?_, fun m hm d hd hfd => ?_, ?_, ?_⟩
    · rw [ht]
      refine hheap _ ?_ m
      rfl
    · rw [ht]
      exact hreg
    · rw [ht] at hreg
      exact .inl hreg
    · rw [List.mem_singleton.mp hm, hn, Option.some.injEq] at hd
      rw [ht]
      intro hnone
      rw [← hd] at hfd hnone
      exact hno ⟨hq, hfd, ⟨fun _ => hnone, fun _ => rfl⟩, hctl _⟩
    · rw [ht]
      exact ⟨rfl, rfl⟩
    · rw [ht]
      exact ⟨rfl, rfl⟩

end Rewatched

theorem resetLoop_spec {l : List ChannId} {fuel : Nat} {p : Option ChannId}
    (hl : Chain (nextOf s.core.heap) p l) (hq : s.core.kq = true) (hctl : ∀ i, s.core.ctl i = true)
    (h : Returns (resetLoop fuel p) s u t) : Rewatched l s.core t.core := by
  induction l generalizing s p fuel with
  | nil =>
    cases hl
    cases fuel <;> (rw [(returns_pure.mp h).2]; exact .refl _)
  | cons n l ih =>
    cases hl with
    | cons hl =>
      cases fuel with
      | zero => exact absurd h returns_fail
      | succ fuel =>
        simp only [resetLoop, returns_bind, returns_deref, and_assoc, exists_and_left, exists_eq_left] at h
        obtain ⟨_, a, hmod, _, b, hadd, c, hc, h⟩ := h
        have hstep := Rewatched.single hq hctl hmod hadd
        have hnext : c.next = nextOf b.core.heap n := by
          rw [nextOf, core_heap_some hc]
          rfl
        rw [hnext] at h
        rw [← hstep.nextOf] at hl
        exact hstep.trans (ih hl (hstep.queue.1.trans hq) (fun i => by rw [hstep.queue.2]; exact hctl i) h)

theorem resetLoop_terminates {l : List ChannId} {fuel : Nat} {p : Option ChannId}
    (hl : Chain (nextOf s.core.heap) p l) (hmem : ∀ n ∈ l, s.core.heap n ≠ none) (hfuel : l.length ≤ fuel)
    (hq : s.core.kq = true) (hctl : ∀ i, s.core.ctl i = true) : Terminates (resetLoop fuel p) s := by
  induction l generalizing s p fuel with
  | nil =>
    cases hl
    cases fuel <;> exact halts_pure () s
  | cons n l ih =>
    cases hl with
    | cons hl =>
      obtain ⟨fuel, rfl⟩ : ∃ f, fuel = f + 1 := ⟨fuel - 1, by simp at hfuel; omega⟩
      obtain ⟨c, hc⟩ := Option.ne_none_iff_exists'.mp (hmem n (by simp))
      refine (terminates_modifyChann hc _).bind fun _ a hmod => ?_
      obtain ⟨_, _, _, _, _, ha⟩ := core_modifyChann hmod
      have hna : a.core.heap n ≠ none := by
        rw [ha]
        simp [Core.set]
      obtain ⟨d, hd⟩ := Option.ne_none_iff_exists'.mp hna
      refine (evtAdd_terminates hd _).bind fun r b hadd => ?_
      have hstep := Rewatched.single hq hctl hmod hadd
      obtain ⟨e, he, hec⟩ := hstep.stays hc
      refine (terminates_deref he).bind fun f b' hf => ?_
      obtain ⟨hbf, rfl⟩ := returns_deref.mp hf
      have hnext : f.next = nextOf b'.core.heap n := by
        rw [nextOf, core_heap_some hbf]
        rfl
      rw [hnext]
      rw [← hstep.nextOf] at hl
      refine ih hl (fun m hm => ?_) (by simp at hfuel; omega) (hstep.queue.1.trans hq)
        fun i => by rw [hstep.queue.2]; exact hctl i
      obtain ⟨g, hg⟩ := Option.ne_none_iff_exists'.mp (hmem m (List.mem_cons_of_mem _ hm))
      obtain ⟨g', hg', _⟩ := hstep.stays hg
      rw [hg']
      exact Option.some_ne_none g'

/-! ## The call -/

/-- The state after the new queue is there, before the walk. -/
def Sys.requeued (s : Sys ε) : Sys ε :=
  { s with
    mnet := { s.mnet with kq := true, evtArray := [] }
    kernel := { s.kernel with epoll := fun _ => none } }

theorem returns_mnetMultiResetEvent :
    Returns mnetMultiResetEvent s u t ↔ Returns (resetLoop (s.nextChann + 1) s.mnet.channs) s.requeued u t := by
  have hqueue : ∃ a, Returns evtFini s () a ∧ Returns evtInit a () s.requeued := by
    simp only [evtFini, evtInit, returns_modify]
    refine ⟨_, rfl, ?_⟩
    cases hkq : s.mnet.kq <;> simp [Sys.requeued, hkq]
  obtain ⟨a, hfini, hinit⟩ := hqueue
  rw [mnetMultiResetEvent, hfini.bind_iff, hinit.bind_iff, (returns_readMnet.mpr ⟨rfl, rfl⟩).bind_iff, walkFuel,
    (returns_read.mpr ⟨rfl, rfl⟩).bind_iff]
  rfl

/-- The call comes to an end, and has registered the first listed channel of each descriptor. -/
theorem mnetMultiResetEvent_spec (hb : Base s.core) (hctl : ∀ i, s.kernel.oracle.ctl i = true) :
    ∃ t, Returns mnetMultiResetEvent s () t ∧ ∃ l, (∀ n, s.heap n ≠ none ↔ n ∈ l) ∧
      Rewatched l s.requeued.core t.core := by
  obtain ⟨l, hl, hmem, _⟩ := hb.reg.list
  have hchain : Chain (nextOf s.requeued.core.heap) s.mnet.channs l := hl.chain
  have hfuel : l.length ≤ s.nextChann + 1 := by
    have hsub : l ⊆ List.range s.nextChann := fun n hn => List.mem_range.mpr (hb.reg.lt n ((hmem n).mpr hn))
    have hle := (List.subperm_of_subset hl.nodup hsub).length_le
    rw [List.length_range] at hle
    exact Nat.le_succ_of_le hle
  obtain ⟨_, t, h⟩ := resetLoop_terminates hchain (fun n hn => (hmem n).mpr hn) hfuel rfl hctl
  refine ⟨t, returns_mnetMultiResetEvent.mpr h, l, fun n => ?_, resetLoop_spec hchain rfl hctl h⟩
  rw [← hmem n, core_heap, ne_eq, ne_eq, Option.map_eq_none_iff]

/-! ## What the reset keeps -/

/-- A state of the library in which the batch and its cursor are those of `s`. -/
structure SameBatch (s a : Sys ε) : Prop where
  base : Base a.core
  index : a.mnet.fdIndex = s.mnet.fdIndex
  count : a.mnet.fdCount = s.mnet.fdCount

/-- What timers do has nothing to do with the batch. -/
theorem Steps.same_batch (h : Steps timerActs k k') : k'.fdIndex = k.fdIndex ∧ k'.fdCount = k.fdCount := by
  refine h.keeps (I := fun j => j.fdIndex = k.fdIndex ∧ j.fdCount = k.fdCount) (fun a i j ha hs hi => ?_) ⟨rfl, rfl⟩
  obtain rfl | ⟨n, rfl | rfl | rfl⟩ := ha <;> (cases hs; exact hi)

theorem Fetches.more {fuel : Nat} {a b : Sys ε} {kev : Kev} (hx : Tame x) (h : SameBatch s a)
    (hf : Fetches x fuel a b kev) : s.mnet.fdIndex + 1 < s.mnet.fdCount := by
  obtain ⟨k, hk, _, hc⟩ := hf.steps hx h.base
  obtain ⟨hi, hn⟩ := hk.same_batch
  have hlt : b.core.fdIndex < b.core.fdCount := hf.lt
  generalize b.core = kb at hc hlt
  cases hc
  replace hlt : k.fdIndex + 1 < k.fdCount := hlt
  rw [hi, hn] at hlt
  rw [← h.index, ← h.count]
  exact hlt

/-- A channel with a socket is registered after the reset as before it, and for what its state
needs. -/
structure KeptInterest (s t : Sys ε) (n : ChannId) (c : Chann) : Prop where
  same : ∃ events, s.kernel.epoll c.fd = some ⟨events, n⟩ ∧ t.kernel.epoll c.fd = some ⟨events, n⟩
  writes : c.state = .connecting ∨ c.state = .connected ∧ (c.rwbSend ≠ [] ∨ c.activeSendEvent = true) →
    ∃ reg, t.kernel.epoll c.fd = some reg ∧ reg.events &&& EPOLLOUT ≠ 0
  reads : c.state = .connected ∨ c.state = .listening →
    ∃ reg, t.kernel.epoll c.fd = some reg ∧ reg.events &&& EPOLLIN ≠ 0

/-- The reset that led from `s` to `t` kept the interest of all channels with a socket and
registered nothing else. No round of the loop that finds the batch as it was left, whatever timers
and reports came first, fetches a record. -/
structure ResetKeeps (x : ExtTable ε) (s t : Sys ε) : Prop where
  interest : ∀ n c, s.heap n = some c → c.state.active → KeptInterest s t n c
  own : ∀ fd reg, t.kernel.epoll fd = some reg → t.Holds reg.ptr fd
  batch : ∀ a fuel b kev, SameBatch t a → ¬ Fetches x fuel a b kev

/-- The batch is used up, every channel with a descriptor has a socket and is registered for
reading, and none needs more. -/
structure Resettable (s : Sys ε) : Prop where
  drained : s.mnet.fdCount ≤ s.mnet.fdIndex + 1
  owned : ∀ n c, s.heap n = some c → 0 ≤ c.fd → c.state.active
  reading : ∀ n c, s.heap n = some c → c.state.active → s.kernel.epoll c.fd = some ⟨readMask, n⟩
  sent : ∀ n c, s.heap n = some c → ¬ (c.state = .connecting ∨
    c.state = .connected ∧ (c.rwbSend ≠ [] ∨ c.activeSendEvent = true))

/-- What the walk left registered, when the queue was empty before it. -/
theorem Rewatched.registered {l : List ChannId} {fd : Int} {reg : EpollReg}
    (h : Rewatched l s.requeued.core k) (hreg : k.epoll fd = some reg) :
    reg.events = readMask ∧ 0 ≤ fd ∧ ∃ c, s.heap reg.ptr = some c ∧ c.fd = fd := by
  obtain hold | ⟨he, hfd, c, hc, hcfd⟩ := h.made fd reg hreg
  · cases hold
  · obtain ⟨d, hd, rfl⟩ := Option.map_eq_some_iff.mp hc
    exact ⟨he, hfd, d, hd, hcfd⟩

/-- A channel with a socket is registered for reading, unless one without a socket shares its
descriptor. -/
theorem Rewatched.active {l : List ChannId} {c : Chann} (h : Rewatched l s.requeued.core k) (hb : Base s.core)
    (howned : ∀ n c, s.heap n = some c → 0 ≤ c.fd → c.state.active) (hl : n ∈ l) (hc : s.heap n = some c)
    (hact : c.state.active) : k.epoll c.fd = some ⟨readMask, n⟩ := by
  have hpos := (hb.own.opened n _ (core_heap_some hc) hact).1
  obtain ⟨reg, hreg⟩ := Option.ne_none_iff_exists'.mp
    (h.added n hl _ (core_heap_some (s := s.requeued) hc) (Int.le_of_lt hpos))
  obtain ⟨he, hfd, d, hd, hdfd⟩ := h.registered hreg
  have hdact := howned _ d hd (hdfd ▸ hfd)
  have hptr : reg.ptr = n := hb.own.inj _ n _ _ (core_heap_some hd) (core_heap_some hc) hdact hact hdfd
  obtain ⟨ev, p⟩ := reg
  exact hreg.trans (by rw [show ev = readMask from he, show p = n from hptr])

/-- The call comes to an end, and exactly in such states it keeps what it should. -/
theorem reset_keeps_iff (hx : Tame x) (h : Reachable x s) (hctl : ∀ i, s.kernel.oracle.ctl i = true) :
    ∃ t, Returns mnetMultiResetEvent s () t ∧ (ResetKeeps x s t ↔ Resettable s) := by
  have hb : Base s.core := h.base hx
  have hidle : s.core.idle := h.keeps hx (fun _ _ n c hc => by cases hc) fun _ _ _ hs hb hk => hs.idle hb hk
  obtain ⟨t, hr, l, hl, hw⟩ := mnetMultiResetEvent_spec hb hctl
  have ht : Base t.core := Step.base hx (l := (.multiResetEvent, .unit)) (returns_ret.mpr ⟨(), rfl, hr⟩) hb
  have hindex : t.mnet.fdIndex = s.mnet.fdIndex := hw.batch.1
  have hcount : t.mnet.fdCount = s.mnet.fdCount := hw.batch.2
  refine ⟨t, hr, fun hk => ?_, fun hres => ?_⟩
  · have howned : ∀ n c, s.heap n = some c → 0 ≤ c.fd → c.state.active := by
      intro n c hc hfd
      by_contra hno
      obtain ⟨reg, hreg⟩ := Option.ne_none_iff_exists'.mp
        (hw.added n ((hl n).mp (by rw [hc]; simp)) _ (core_heap_some (s := s.requeued) hc) hfd)
      obtain ⟨d, hd, hdact, hdfd⟩ := ht.holds_iff.mp (hk.own _ _ hreg)
      -- the channel that is registered had its socket before the reset
      obtain ⟨e, he, hed⟩ := hw.was hd
      have heact : e.state.active := by rw [show e.state = d.state from congrArg (·.state) hed]; exact hdact
      have hefd : e.fd = c.fd := (congrArg (·.fd) hed).trans hdfd
      have hpos : 0 < c.fd := hefd ▸ (hb.own.opened _ e he heact).1
      have hlost := hidle n _ (core_heap_some hc) hno hpos
      exact (Accounted.lost (h.accounted hx) _ hlost).2 ⟨_, e, he, heact, hefd⟩
    have hread : ∀ n c, s.heap n = some c → c.state.active → t.kernel.epoll c.fd = some ⟨readMask, n⟩ :=
      fun n c hc hact => hw.active hb howned ((hl n).mp (by rw [hc]; simp)) hc hact
    refine ⟨?_, howned, fun n c hc hact => ?_, fun n c hc hneed => ?_⟩
    · by_contra hmore
      have hbatch : SameBatch t { t with mnet := { t.mnet with tmPos := none, disChanns := none } } :=
        ⟨⟨ht.reg, ht.own, ht.cache, ht.timed⟩, rfl, rfl⟩
      refine hk.batch _ 1 _ _ hbatch (fetches_idle rfl rfl ?_)
      show t.mnet.fdIndex + 1 < t.mnet.fdCount
      omega
    · obtain ⟨events, hold, hnew⟩ := (hk.interest n c hc hact).same
      rw [hold, ← hnew, hread n c hc hact]
    · have hact : c.state.active := by
        obtain hst | ⟨hst, _⟩ := hneed <;> (rw [hst]; trivial)
      obtain ⟨reg, hreg, hout⟩ := (hk.interest n c hc hact).writes hneed
      rw [hread n c hc hact, Option.some.injEq] at hreg
      subst hreg
      exact hout readMask_out
  · have hread : ∀ n c, s.heap n = some c → c.state.active → t.kernel.epoll c.fd = some ⟨readMask, n⟩ :=
      fun n c hc hact => hw.active hb hres.owned ((hl n).mp (by rw [hc]; simp)) hc hact
    refine ⟨fun n c hc hact => ⟨⟨readMask, hres.reading n c hc hact, hread n c hc hact⟩, fun hneed => ?_, fun _ => ?_⟩,
      fun fd reg hreg => ?_, fun a fuel b kev hbatch hf => ?_⟩
    · exact absurd hneed (hres.sent n c hc)
    · exact ⟨_, hread n c hc hact, readMask_in⟩
    · obtain ⟨_, hfd, c, hc, hcfd⟩ := hw.registered hreg
      have hact := hres.owned _ c hc (hcfd ▸ hfd)
      obtain ⟨d, hd, hdc⟩ := hw.stays (core_heap_some (s := s.requeued) hc)
      refine ht.holds_iff.mpr ⟨d, hd, ?_, (congrArg (·.fd) hdc).trans hcfd⟩
      rw [show d.state = c.state from congrArg (·.state) hdc]
      exact hact
    · have hmore := hf.more hx hbatch
      have hdrained := hres.drained
      omega

theorem Run.ctl (hx : Tame x) {l : List (Call × Ret)} (h : Run x s l t) (hb : Base s.core) :
    t.core.ctl = s.core.ctl :=
  (Path.keeps (I := fun a => Base a.core ∧ a.core.ctl = s.core.ctl) h
    (fun _ _ _ hs hi => ⟨Step.base hx hs hi.1, (Step.ctl hx hs hi.1).trans hi.2⟩) ⟨hb, rfl⟩).2

/-- A listener is registered for reading only. -/
theorem reset_keeps_listener : ∃ s t : Sys Unit, s.heap 0 ≠ none ∧ ResetKeeps noExt s t := by
  have hrun : After noExt [.mnetInit, .channOpen CHANN_TYPE_STREAM, .channListen (some 0) none 80 1]
      (Sys.start quietOracle ()) fun _ s => s.nextChann = 1 ∧ s.mnet.fdCount ≤ s.mnet.fdIndex + 1 ∧
        (s.heap 0).map (fun c => (c.fd, c.state)) = some (4, .listening) ∧
          s.kernel.epoll 4 = some ⟨readMask, 0⟩ := by decide +kernel
  obtain ⟨_, s, h, hnext, hdrained, hvals, hepoll⟩ := hrun.run
  obtain ⟨c, hc, hcv⟩ := Option.map_eq_some_iff.mp hvals
  obtain ⟨hfd, hst⟩ : c.fd = 4 ∧ c.state = .listening := by simpa using hcv
  have hreach : Reachable noExt s := ⟨_, _, _, h⟩
  have honly : ∀ n d, s.heap n = some d → n = 0 ∧ d = c := by
    intro n d hd
    have hlt : n < s.nextChann := (hreach.base tame_noExt).reg.lt n (by rw [core_heap_some hd]; simp)
    rw [hnext] at hlt
    obtain rfl : n = 0 := Nat.lt_one_iff.mp hlt
    exact ⟨rfl, Option.some.inj (hd.symm.trans hc)⟩
  have hres : Resettable s := by
    refine ⟨hdrained, fun n d hd _ => ?_, fun n d hd _ => ?_, fun n d hd hneed => ?_⟩ <;>
      obtain ⟨rfl, rfl⟩ := honly n d hd
    · rw [hst]
      trivial
    · rw [hfd, hepoll]
    · rw [hst] at hneed
      simp at hneed
  have hctl : s.kernel.oracle.ctl = fun _ => true := Run.ctl tame_noExt h (base_start _ _)
  obtain ⟨t, _, hiff⟩ := reset_keeps_iff tame_noExt hreach fun i => congrFun hctl i
  exact ⟨s, t, by rw [hc]; simp, hiff.mpr hres⟩

/-- A connection that is under way is not told when it is there. -/
theorem not_reset_keeps : ¬ ∀ s t : Sys Unit, Reachable noExt s → (∀ i, s.kernel.oracle.ctl i = true) →
    Returns mnetMultiResetEvent s () t → ResetKeeps noExt s t := by
  intro hall
  have hrun : After noExt [.mnetInit, .channOpen CHANN_TYPE_STREAM, .channConnect (some 0) (some 0) 80]
      (Sys.start quietOracle ()) fun _ s => (s.heap 0).map (fun c => (c.fd, c.state)) = some (4, .connecting) ∧
        After noExt [.multiResetEvent] s fun _ t => t.kernel.epoll 4 = some ⟨readMask, 0⟩ := by decide +kernel
  obtain ⟨_, s, h, hvals, hreset⟩ := hrun.run
  obtain ⟨c, hc, hcv⟩ := Option.map_eq_some_iff.mp hvals
  obtain ⟨hfd, hst⟩ : c.fd = 4 ∧ c.state = .connecting := by simpa using hcv
  obtain ⟨_, t, hstep, hepoll⟩ := hreset.step
  obtain ⟨_, _, hr⟩ := returns_ret.mp hstep
  have hctl : s.kernel.oracle.ctl = fun _ => true := Run.ctl tame_noExt h (base_start _ _)
  have hkeeps := hall s t ⟨_, _, _, h⟩ (fun i => congrFun hctl i) hr
  obtain ⟨reg, hreg, hout⟩ := (hkeeps.interest 0 c hc (by rw [hst]; trivial)).writes (.inl hst)
  rw [hfd, hepoll, Option.some.injEq] at hreg
  subst hreg
  exact hout readMask_out

end MNet
