import MNet.Messages
import MNet.Protocol

/-! # Reports

A report waits in the queue until it is given out. What was true of its message and its channel's
user pointer when it was filed stays true, unless the message loop or a call writes to the slot. -/

namespace MNet
open MNet.Lib MNet.Lib.Exec

variable {ε : Type} {x : ExtTable ε} {gone : Prop} {s t : Sys ε} {n : ChannId} {c d : Chann} {event : ChannEvent}
  {P : ChannId → ChannMsg → Nat → Prop}

/-- The channel a report is behind that of another one. -/
def Behind (s : Sys ε) (n m : ChannId) : Prop := ∃ c, s.heap n = some c ∧ c.disNext = some m

/-- A report of the channel is in the queue. -/
def Waiting (s : Sys ε) (n : ChannId) : Prop :=
  ∃ h, s.mnet.disChanns = some h ∧ Relation.ReflTransGen (Behind s) h n

/-- What holds the head and whatever is behind one of its members holds the queue. -/
theorem Waiting.mem {S : Set ChannId} (h : Waiting s n) (hhead : ∀ h, s.mnet.disChanns = some h → h ∈ S)
    (hnext : ∀ m ∈ S, ∀ k, Behind s m k → k ∈ S) : n ∈ S := by
  obtain ⟨a, ha, hpath⟩ := h
  induction hpath with
  | refl => exact hhead a ha
  | tail _ hb ih => exact hnext _ ih _ hb

theorem Waiting.next {m : ChannId} (h : Waiting s n) (hb : Behind s n m) : Waiting s m := by
  obtain ⟨a, ha, hpath⟩ := h
  exact ⟨a, ha, hpath.tail hb⟩

/-- What is said of a message and the user pointer of its channel is true of all reports in the queue. -/
structure Filed (P : ChannId → ChannMsg → Nat → Prop) (s : Sys ε) : Prop where
  fresh : Fresh s
  waiting : ∀ n, Waiting s n → n < s.nextChann ∧ ∀ c, s.heap n = some c → P n c.msg c.opaquePtr

theorem Filed.of {Q : ChannId → ChannMsg → Nat → Prop} (hf : Filed Q s)
    (hP : ∀ n, Waiting s n → ∀ c, s.heap n = some c → P n c.msg c.opaquePtr) : Filed P s :=
  ⟨hf.fresh, fun n hn => ⟨(hf.waiting n hn).1, hP n hn⟩⟩

/-- Nothing is said while the queue is empty. -/
theorem Filed.of_empty (hs : Fresh s) (hd : s.mnet.disChanns = none) : Filed P s := by
  refine ⟨hs, fun n hn => ?_⟩
  obtain ⟨a, ha, _⟩ := hn
  rw [hd] at ha
  cases ha

/-- A report that waits after a discreet step waited before it. -/
theorem Discreet.waiting (h : Discreet gone s t) (hlt : ∀ n, Waiting s n → n < s.nextChann)
    (hn : Waiting t n) : Waiting s n := by
  refine hn.mem (S := {n | Waiting s n}) (fun a ha => ⟨a, h.disChanns ▸ ha, .refl⟩) fun m hm k hk => ?_
  obtain ⟨c, hc, hk⟩ := hk
  obtain ⟨d, hd, hshown⟩ := h.kept (hlt m hm) hc
  have hnext : d.disNext = c.disNext := congrArg (·.2.2) hshown
  exact hm.next ⟨d, hd, hnext.trans hk⟩

theorem Filed.discreet (hf : Filed P s) (h : Discreet gone s t) : Filed P t := by
  refine ⟨h.fresh hf.fresh, fun n hn => ?_⟩
  obtain ⟨hlt, hold⟩ := hf.waiting n (h.waiting (fun m hm => (hf.waiting m hm).1) hn)
  refine ⟨Nat.lt_of_lt_of_le hlt h.nextChann, fun c hc => ?_⟩
  obtain ⟨d, hd, hshown⟩ := h.kept hlt hc
  have hmsg : d.msg = c.msg := congrArg (·.1) hshown
  have hptr : d.opaquePtr = c.opaquePtr := congrArg (·.2.1) hshown
  rw [← hmsg, ← hptr]
  exact hold d hd

/-- A write that leaves a report in the queue as it would be given out. -/
theorem Filed.write (hf : Filed P s) (hc : s.heap n = some c) (hdis : d.disNext = c.disNext)
    (hp : Waiting s n → P n d.msg d.opaquePtr) (hheap : t.heap = Function.update s.heap n (some d))
    (hnext : t.nextChann = s.nextChann) (hhead : t.mnet.disChanns = s.mnet.disChanns) : Filed P t := by
  refine ⟨hf.fresh.update hc hheap hnext, fun m hm => ?_⟩
  have hold : Waiting s m := hm.mem (S := {m | Waiting s m})
    (fun a ha => ⟨a, hhead ▸ ha, .refl⟩) fun m hm k ⟨e, he, hk⟩ => by
      rw [hheap] at he
      by_cases hmn : m = n
      · rw [hmn, Function.update_self, Option.some.injEq] at he
        exact hm.next ⟨c, hmn ▸ hc, by rw [← hdis, he, hk]⟩
      · rw [Function.update_of_ne hmn] at he
        exact hm.next ⟨e, he, hk⟩
  obtain ⟨hlt, hold'⟩ := hf.waiting m hold
  refine ⟨hnext ▸ hlt, fun e he => ?_⟩
  rw [hheap] at he
  by_cases hmn : m = n
  · rw [hmn, Function.update_self, Option.some.injEq] at he
    rw [← he, hmn]
    exact hp (hmn ▸ hold)
  · rw [Function.update_of_ne hmn] at he
    exact hold' e he

/-- A report is put in the queue. -/
theorem Filed.push {u : Unit} (hf : Filed P s) (hc : s.heap n = some c) (hp : P n c.msg c.opaquePtr)
    (h : Returns (pushDis n) s u t) : Filed P t := by
  obtain ⟨c', hc', hheap, hnext, hhead, _⟩ := pushDis_cases h
  rw [hc, Option.some.injEq] at hc'
  subst hc'
  have hlt := hf.fresh.lt hc
  refine ⟨hf.fresh.update hc hheap hnext, fun m hm => ?_⟩
  have hold : m = n ∨ Waiting s m := hm.mem (S := {m | m = n ∨ Waiting s m})
    (fun a ha => .inl (by rw [hhead] at ha; exact (Option.some.inj ha).symm)) fun m hm k ⟨e, he, hk⟩ => by
      rw [hheap] at he
      by_cases hmn : m = n
      · rw [hmn, Function.update_self, Option.some.injEq] at he
        subst he
        exact .inr ⟨k, hk, .refl⟩
      · rw [Function.update_of_ne hmn] at he
        exact .inr ((hm.resolve_left hmn).next ⟨e, he, hk⟩)
  rw [hheap, hnext]
  by_cases hmn : m = n
  · rw [hmn]
    refine ⟨hlt, fun e he => ?_⟩
    rw [Function.update_self, Option.some.injEq] at he
    subst he
    exact hp
  · obtain ⟨hmlt, hold⟩ := hf.waiting m (hold.resolve_left hmn)
    refine ⟨hmlt, fun e he => hold e ?_⟩
    rwa [Function.update_of_ne hmn] at he

/-- The head of the queue is taken. -/
theorem Filed.pop {q : Option ChannId} (hf : Filed P s) (h : Returns disNext s q t) :
    Filed P t ∧ ∀ n, q = some n → ∃ c, t.heap n = some c ∧ P n c.msg c.opaquePtr := by
  simp only [disNext, returns_bind, returns_readMnet, and_assoc, exists_and_left, exists_eq_left] at h
  cases hd : s.mnet.disChanns with
  | none =>
    rw [hd] at h
    obtain ⟨rfl, rfl⟩ := returns_pure.mp h
    exact ⟨hf, fun _ hq => by cases hq⟩
  | some n =>
    rw [hd] at h
    simp only [returns_bind, returns_deref, returns_modifyMnet, returns_pure, and_assoc,
      exists_and_left, exists_eq_left] at h
    obtain ⟨c, hc, rfl, _, rfl⟩ := h
    have hn : Waiting s n := ⟨n, hd, .refl⟩
    refine ⟨⟨hf.fresh, fun m hm => hf.waiting m ?_⟩, fun m hm => ?_⟩
    · exact hm.mem (S := {m | Waiting s m}) (fun a ha => hn.next ⟨c, hc, ha⟩) fun m hm k hk => hm.next hk
    · obtain rfl := Option.some.inj hm
      exact ⟨c, hc, (hf.waiting n hn).2 c hc⟩

/-- A message is rewritten that is given out before any report, or suits its report. -/
theorem Filed.reworded (hf : Filed P s) (h : Reworded n s t)
    (hP : Waiting s n → ∀ d, t.heap n = some d → P n d.msg d.opaquePtr) : Filed P t := by
  have hkept : ∀ {m : ChannId} {e : Chann}, Waiting s m → t.heap m = some e →
      ∃ c, s.heap m = some c ∧ c.tag = e.tag ∧ (m ≠ n → c.msg = e.msg) := by
    intro m e hm he
    obtain ⟨hlt, _⟩ := hf.waiting m hm
    by_cases hmn : m = n
    · subst hmn
      have htag := h.own hlt
      rw [he, Option.map_some] at htag
      obtain ⟨c, hc, htag⟩ := Option.map_eq_some_iff.mp htag.symm
      exact ⟨c, hc, htag, fun hno => absurd rfl hno⟩
    · have hshown := h.others m hlt hmn
      rw [he, Option.map_some] at hshown
      obtain ⟨c, hc, hshown⟩ := Option.map_eq_some_iff.mp hshown.symm
      exact ⟨c, hc, congrArg (·.2) hshown, fun _ => congrArg (·.1) hshown⟩
  refine ⟨h.fresh hf.fresh, fun m hm => ?_⟩
  have hold : Waiting s m := hm.mem (S := {m | Waiting s m}) (fun a ha => ⟨a, h.disChanns ▸ ha, .refl⟩)
    fun m hm k ⟨e, he, hk⟩ => by
      obtain ⟨c, hc, htag, _⟩ := hkept hm he
      have hnext : c.disNext = e.disNext := congrArg (·.2) htag
      exact hm.next ⟨c, hc, hnext.trans hk⟩
  obtain ⟨hlt, hold'⟩ := hf.waiting m hold
  refine ⟨Nat.lt_of_lt_of_le hlt h.nextChann, fun e he => ?_⟩
  by_cases hmn : m = n
  · subst hmn
    exact hP hold e he
  · obtain ⟨c, hc, htag, hmsg⟩ := hkept hold he
    have hptr : c.opaquePtr = e.opaquePtr := congrArg (·.1) htag
    rw [← hmsg hmn, ← hptr]
    exact hold' c hc

/-- It is true of every message of `n` made for `event`, as the filter leaves it. -/
def SaysOf (x : ExtTable ε) (P : ChannId → ChannMsg → Nat → Prop) (n : ChannId) (event : ChannEvent) : Prop :=
  ∀ {s q err pass t}, Fresh s → Returns (channMsg x n event q err) s pass t →
    ∀ d, t.heap n = some d → P n d.msg d.opaquePtr

/-- It is true of every message made for `event`. -/
def Says (x : ExtTable ε) (P : ChannId → ChannMsg → Nat → Prop) (event : ChannEvent) : Prop := ∀ n, SaysOf x P n event

/-- It is true of every message made for a queued report, a timer or a flush. -/
structure Fits (x : ExtTable ε) (P : ChannId → ChannMsg → Nat → Prop) : Prop where
  disconnect : Says x P .disconnect
  timer : Says x P .timer
  send : Says x P .send

section

variable (hp : Polite x)
include hp

/-! ## The message loop -/

theorem Filed.channFail {v : Unit} (hP : SaysOf x P n .disconnect) (hf : Filed P s)
    (h : Returns (channFail x n) s v t) : Filed P t := by
  obtain ⟨a, err, pass, b, ha, hmsg, hpush⟩ := hp.failed h
  have hfa := hf.discreet ha
  have hb : Filed P b := hfa.reworded (hp.rewords _ _ hmsg) fun _ => hP hfa.fresh hmsg
  obtain ⟨_, hpush⟩ | ⟨_, rfl⟩ := hpush
  · obtain ⟨_, c, hc⟩ := hp.channMsg_stays hfa.fresh hmsg
    exact hb.push hc (hP hfa.fresh hmsg c hc) hpush
  · exact hb

theorem Filed.faults {N : Set ChannId} (hP : ∀ n ∈ N, SaysOf x P n .disconnect) (hf : Filed P s) (h : Faults x N s t) :
    Filed P t := by
  induction h with
  | refl => exact hf
  | tail _ hstep ih =>
    rcases hstep with hd | ⟨n, hn, v, hfail⟩
    · exact ih.discreet hd
    · exact ih.channFail hp (hP n hn) hfail

/-- Without a timer that is due. -/
theorem Filed.quiet {fuel : Nat} (hf : Filed P s) (h : Returns (tmNext x fuel) s none t) : Filed P t := by
  obtain ⟨_, ht⟩ | ⟨_, _, hno, _⟩ := hp.tmNext_emits h
  · exact hf.discreet ht
  · cases hno

omit hp in
/-- Nothing of the queue depends on the event array. -/
theorem Filed.indexed (hf : Filed P s) (hheap : t.heap = s.heap) (hnext : t.nextChann = s.nextChann)
    (hdis : t.mnet.disChanns = s.mnet.disChanns) (htrace : t.kernel.trace = s.kernel.trace) : Filed P t := by
  have hd : Discreet False s t := .of_heap hheap hnext hdis (htrace ▸ List.suffix_refl _)
  exact hf.discreet hd

theorem Filed.fetched {fuel : Nat} {kev : Kev} (hf : Filed P s) (h : Fetches x fuel s t kev) : Filed P t := by
  obtain ⟨a, htm, _, rfl⟩ := h.quiet
  exact (hf.quiet hp htm).indexed rfl rfl rfl rfl

/-- A round leaves the queue in order if the timer that goes off and the flush do. -/
theorem evtPass_files {fuel : Nat} {p : Pass}
    (hflush : ∀ u kev, Fetches x fuel s u kev → ∀ n ∈ kev.flushed u, SaysOf x P n .disconnect ∧ SaysOf x P n .send)
    (htimer : ∀ n a, Returns (tmNext x fuel) s (some n) a → Waiting s n →
      ∀ d, a.heap n = some d → P n d.msg d.opaquePtr) (hf : Filed P s)
    (h : Returns (evtPass x fuel) s p t) : Filed P t := by
  obtain ⟨n, rfl, htm⟩ | ⟨n, a, rfl, htm, hpop⟩ | ⟨a, rfl, htm, _, rfl, _⟩ | ⟨u, kev, hfetch, hdisp⟩ :=
    evtPass_cases h
  · obtain ⟨hno, _⟩ | ⟨m, v, hm, hv, hmsg⟩ := hp.tmNext_emits htm
    · cases hno
    obtain rfl := Option.some.inj hm
    refine (hf.discreet hv).reworded (hp.rewords _ _ hmsg) fun hw => htimer n t htm ?_
    exact hv.waiting (fun m hm => (hf.waiting m hm).1) hw
  · exact ((hf.quiet hp htm).pop hpop).1
  · exact (hf.quiet hp htm).indexed rfl rfl rfl rfl
  have hfu := hf.fetched hp hfetch
  obtain ⟨rfl, hfaults⟩ | ⟨n, c, v, event, q, err, hn, hc, hfaults, hemit, _, hev, _⟩ := hp.evtDispatch_emits hdisp
  · exact hfu.faults hp (fun m hm => (hflush u kev hfetch m hm).1) hfaults
  obtain ⟨pass, b, hmsg, hret⟩ := returns_bind.mp hemit
  rw [(returns_pure.mp hret).2]
  have hrewords := hp.rewords _ _ hmsg
  by_cases hcached : n ∈ kev.flushed u ∧ event = .send
  · obtain ⟨hmem, rfl⟩ := hcached
    have hv := hfu.faults hp (fun m hm => (hflush u kev hfetch m hm).1) hfaults
    exact hv.reworded hrewords fun _ => (hflush u kev hfetch n hmem).2 hv.fresh hmsg
  · have huv : Discreet False u v := by
      obtain rfl | huv := hev
      · refine hfaults.discreet fun m hm => hcached ⟨?_, rfl⟩
        obtain rfl := Option.some.inj (hn.symm.trans hm.1)
        exact hm
      · exact huv
    refine .of_empty (hrewords.fresh (huv.fresh hfu.fresh)) ?_
    rw [hrewords.disChanns, huv.disChanns, hfetch.queue]

theorem evtPass_filed {fuel : Nat} {p : Pass} (hP : Fits x P) (hf : Filed P s)
    (h : Returns (evtPass x fuel) s p t) : Filed P t := by
  refine evtPass_files hp (fun _ _ _ n _ => ⟨hP.disconnect n, hP.send n⟩) (fun n a htm _ => ?_) hf h
  obtain ⟨hno, _⟩ | ⟨m, v, hm, hv, hmsg⟩ := hp.tmNext_emits htm
  · cases hno
  obtain rfl := Option.some.inj hm
  exact hP.timer n (hv.fresh hf.fresh) hmsg

theorem evtLoop_filed {fuel rounds : Nat} {q : Option ChannId} (hP : Fits x P) (hf : Filed P s)
    (h : Returns (evtLoop x fuel rounds) s q t) : Filed P t :=
  evtLoop_keeps hf (fun _ _ _ ha hpass => evtPass_filed hp hP ha hpass) h

/-! ## Calls -/

omit hp in
theorem mnetFini_filed {v : Unit} (hx : Obedient x) (hf : Filed P s) (ho : Ordered s) (h : Returns (mnetFini x) s v t) :
    Filed P t := by
  have hfresh := (mnetFini_ordered hx h ho).1.fresh
  simp only [mnetFini, returns_bind, returns_readMnet, and_assoc, exists_and_left, exists_eq_left] at h
  rcases returns_ite.mp h with ⟨_, h⟩ | ⟨_, h⟩
  · simp only [returns_bind, returns_modifyMnet] at h
    obtain ⟨_, _, _, _, _, _, _, _, _, _, _, _, rfl⟩ := h
    exact .of_empty hfresh rfl
  · rw [(returns_pure.mp h).2]
    exact hf

/-- A close drops the user pointer. -/
theorem mnetChannClose_filed {v : Unit} (hf : Filed P s)
    (hP : Waiting s n → ∀ c, s.heap n = some c → c.state ≠ .closed → P n c.msg 0)
    (h : Returns (mnetChannClose x (some n)) s v t) : Filed P t := by
  simp only [mnetChannClose, returns_bind, returns_deref, and_assoc, exists_and_left, exists_eq_left] at h
  obtain ⟨c, hc, h⟩ := h
  rcases returns_ite.mp h with ⟨hopen, h⟩ | ⟨_, h⟩
  swap
  · rw [(returns_pure.mp h).2]
    exact hf
  obtain ⟨_, a, hdis, h⟩ := returns_bind.mp h
  have ha : Discreet False s a := hp.channDisconnectSocket _ _ hdis
  obtain ⟨d, hd, ⟨_, rfl⟩ | ⟨_, b, e, w, hcb, he, rfl⟩⟩ := channCloseSocket_cases h
  · exact hf.discreet ha
  rw [opsConfig_opsOf] at hcb
  have hb : Discreet False s b := ha.trans ((discreet_recorded _ _).trans
    (hp.cb d.ctype .closeCb n _ _ _ hcb))
  have hlt : ∀ m, Waiting s m → m < s.nextChann := fun m hm => (hf.waiting m hm).1
  refine (hf.discreet hb).write he ?_ (fun hw => ?_) rfl rfl rfl
  · rfl
  -- the report was there before
  have hold : Waiting s n := hb.waiting hlt hw
  obtain ⟨g, hg, hshown⟩ := hb.kept (hlt n hold) he
  rw [hc, Option.some.injEq] at hg
  subst hg
  have hmsg : c.msg = e.msg := congrArg (·.1) hshown
  show P n e.msg 0
  rw [← hmsg]
  refine hP hold c hc ?_
  intro hcl
  rw [hcl] at hopen
  exact absurd hopen (by decide)

/-- A change of a user pointer suits the reports of the channel. -/
def SuitsReports (P : ChannId → ChannMsg → Nat → Prop) (s : Sys ε) : Call → Prop
  | .channSetOpaque (some n) p => Waiting s n → ∀ c, s.heap n = some c → P n c.msg p
  | .channClose (some n) => Waiting s n → ∀ c, s.heap n = some c → c.state ≠ .closed → P n c.msg 0
  | _ => True

/-- A call leaves the queue in order if the message loop does. -/
theorem Step.files {i : Call × Ret} (hx : Obedient x) (hdis : ∀ n, i.1.transfers = some n → SaysOf x P n .disconnect)
    (h : Step x s i t) (hloop : ∀ fuel, i.1 = .resultNext fuel → Filed P t) (hs : SuitsReports P s i.1) (ho : Ordered s)
    (hf : Filed P s) : Filed P t := by
  obtain ⟨call, r⟩ := i
  by_cases hd : call.discreet
  · exact hf.discreet (hp.apiCall hd _ _ h)
  cases hn : call.transfers with
  | some n =>
    cases hp.transfer hn h with
    | fine h => exact hf.discreet h
    | @failed a b e _ ha _ hfail hb =>
      exact ((hf.discreet (ha.trans (discreet_recorded _ _))).channFail hp (hdis n hn) hfail).discreet hb
  | none =>
    obtain rfl | ⟨fuel, rfl⟩ | ⟨n, rfl⟩ | ⟨n, p, rfl⟩ := transfer_null hd hn h
    · obtain ⟨_, _, h⟩ := returns_ret.mp h
      exact mnetFini_filed hx hf ho h
    · exact hloop fuel rfl
    · obtain ⟨_, _, h⟩ := returns_ret.mp h
      cases n with
      | none =>
        rw [(returns_pure.mp h).2]
        exact hf
      | some n => exact mnetChannClose_filed hp hf hs h
    · obtain ⟨_, _, h⟩ := returns_ret.mp h
      cases n with
      | none =>
        rw [(returns_pure.mp h).2]
        exact hf
      | some n =>
        obtain ⟨c, hc, rfl⟩ := returns_modifyChann.mp h
        refine hf.write hc ?_ (fun hw => hs hw c hc) rfl rfl rfl
        rfl

theorem Step.filed {i : Call × Ret} (hx : Obedient x) (hP : Fits x P) (h : Step x s i t) (hs : SuitsReports P s i.1)
    (ho : Ordered s) (hf : Filed P s) : Filed P t := by
  refine h.files hp hx (fun n _ => hP.disconnect n) (fun fuel hcall => ?_) hs ho hf
  obtain ⟨call, r⟩ := i
  subst hcall
  obtain ⟨_, _, h⟩ := returns_ret.mp h
  exact evtLoop_filed hp hP hf h

omit hp in
theorem filed_start (o : Oracle) (e : ε) : Filed P (Sys.start o e) := .of_empty (fun _ _ => rfl) rfl

/-- Whatever waits in a run is a channel. -/
theorem Step.queued {i : Call × Ret} (hx : Obedient x) (h : Step x s i t) (ho : Ordered s)
    (hf : Filed (fun _ _ _ => True) s) : Filed (fun _ _ _ => True) t := by
  have hall : ∀ {event : ChannEvent}, Says x (fun _ _ _ => True) event := fun _ => fun _ _ _ _ => trivial
  refine h.filed hp hx ⟨hall, hall, hall⟩ ?_ ho hf
  obtain ⟨call, r⟩ := i
  cases call with
  | channSetOpaque n p => cases n <;> simp [SuitsReports]
  | channClose n => cases n <;> simp [SuitsReports]
  | _ => trivial

end

end MNet
