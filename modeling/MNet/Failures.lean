import MNet.Delivery
import MNet.Cursor

/-! # Every failure is reported once

A failed transfer leaves its report in the slot of the channel and the channel in the queue.
The ledger of a run notes each failure, and each message given for a queued channel. While no
other message is written to the slot of a queued channel, what was noted on the one side and
not yet on the other is in the queue. -/

namespace MNet
open MNet.Lib MNet.Lib.Exec

variable {ε : Type} {x : ExtTable ε} {s t : Sys ε} {n : ChannId}

/-- What a message tells: its channel, event and error. -/
abbrev Report := Option ChannId × Option ChannEvent × Int

def ChannMsg.report (m : ChannMsg) : Report := (m.n, m.event, m.err)

/-- The report of a failure. -/
def failure (n : ChannId) (err : Int) : Report := (some n, some .disconnect, err)

/-- The next message of a call of `mnet_result_next` comes from the queue. -/
def FromQueue (s : Sys ε) (c : Call) : Prop :=
  (∃ fuel, c = .resultNext fuel) ∧ (∀ m, ¬ s.core.timerDue m) ∧ s.mnet.disChanns ≠ none

/-- The failures of a run whose calls are as `P` says, and what the messages given for queued
channels told, each in order. -/
inductive Ledger (x : ExtTable ε) (P : Sys ε → Call → Prop) :
    Sys ε → List Report → List Report → Prop
  | start (o : Oracle) (e : ε) : Ledger x P (Sys.start o e) [] []
  | fails {s t : Sys ε} {failed told : List Report} {i : Call × Ret} {n : ChannId} :
    Ledger x P s failed told → P s i.1 → Step x s i t → TransferFails x s n i.1 →
    Ledger x P t (failed ++ [failure n t.kernel.errno]) told
  | tells {s t : Sys ε} {failed told : List Report} {c : Call} {p : ChannId} {d : Chann} :
    Ledger x P s failed told → P s c → Step x s (c, .msg (some p)) t → FromQueue s c →
    t.heap p = some d → Ledger x P t failed (told ++ [d.msg.report])
  | other {s t : Sys ε} {failed told : List Report} {i : Call × Ret} :
    Ledger x P s failed told → P s i.1 → Step x s i t → (∀ n, ¬ TransferFails x s n i.1) →
    ¬ FromQueue s i.1 → Ledger x P t failed told

/-- No transfer fails on a queued channel, no queued channel is freed, and no timer of a queued
channel is due when a message is asked for. -/
structure SparesReports (x : ExtTable ε) (s : Sys ε) (c : Call) : Prop where
  builtin : BuiltinOpen s c
  queue : SparesQueue x s c
  timer : ∀ fuel n, c = .resultNext fuel → s.core.timerDue n → ¬ s.Queued n
  fini : c = .mnetFini → s.mnet.disChanns = none

/-- The queue `q`, with the reports `ms` in the slots of its channels. -/
structure Core.owes (k : Core) (q : List ChannId) (ms : List Report) : Prop where
  queue : k.queue q
  slots : List.Forall₂ (fun n m => ∃ c, k.heap n = some c ∧ c.msg.report = m) q ms

section Act

variable {k k' : Core} {a : Act} {q : List ChannId} {ms : List Report}

theorem CStep.slots (hs : CStep k a k') (hb : Base k)
    (h : List.Forall₂ (fun n m => ∃ c, k.heap n = some c ∧ c.msg.report = m) q ms)
    (ha : ∀ n ∈ q, a ≠ .slot n ∧ a ≠ .destroy n) :
    List.Forall₂ (fun n m => ∃ c, k'.heap n = some c ∧ c.msg.report = m) q ms := by
  induction h with
  | nil => exact .nil
  | @cons n m q ms hn _ ih =>
    obtain ⟨c, hc, hm⟩ := hn
    obtain ⟨hslot, hdes⟩ := ha n (by simp)
    obtain ⟨c', hc', _, hmsg⟩ := hs.queued hb hc hdes
    refine .cons ⟨c', hc', ?_⟩ (ih fun i hi => ha i (List.mem_cons_of_mem _ hi))
    rw [hmsg hslot]
    exact hm

/-- Acts elsewhere leave what is owed. -/
theorem Steps.owes {A : Set Act} (h : Steps A k k') (hb : Base k) (ho : k.owes q ms)
    (hA : ∀ a ∈ A, a.requeue q = q ∧
      ∀ n ∈ q, a ≠ .slot n ∧ a ≠ .report n ∧ a ≠ .destroy n) : k'.owes q ms := by
  refine (h.keeps (I := fun k => Base k ∧ k.owes q ms) ?_ ⟨hb, ho⟩).2
  intro a k k' ha hs ⟨hb, ho⟩
  obtain ⟨hsame, hno⟩ := hA a ha
  have hq := hs.queue hb ho.queue (fun n hn => (hno n hn).2.1) fun n hn => (hno n hn).2.2
  rw [hsame] at hq
  exact ⟨hb.step hs, hq, hs.slots hb ho.slots fun n hn => ⟨(hno n hn).1, (hno n hn).2.2⟩⟩

theorem Act.unqueued.spares {a : Act} (h : a.unqueued) (q : List ChannId) : a.requeue q = q ∧
    ∀ n ∈ q, a ≠ .slot n ∧ a ≠ .report n ∧ a ≠ .destroy n := by
  cases a <;> first | exact h.elim | exact ⟨rfl, fun n _ => ⟨by simp, by simp, by simp⟩⟩

/-- A failure is owed from then on. -/
theorem Fails.owes {r : Int} {c : CChann} (h : Fails n k k' r) (hb : Base k)
    (hn : k.heap n = some c) (hty : c.ctype ≤ CHANN_TYPE_BROADCAST) (ho : k.owes q ms)
    (hnq : n ∉ q) : k'.owes (n :: q) (failure n r :: ms) := by
  obtain ⟨j, d, hj, hr, hd, hev, herr, hmn⟩ := h.builtin c hn hty
  have hne : ∀ m ∈ q, m ≠ n := fun m hm e => hnq (e ▸ hm)
  have hoj : j.owes q ms := by
    refine hj.owes hb ho fun a ha => ?_
    rcases ha with rfl | rfl
    · exact ⟨rfl, fun m hm => ⟨by simpa using fun e => hne m hm e.symm, by simp, by simp⟩⟩
    · exact ⟨rfl, fun m _ => ⟨by simp, by simp, by simp⟩⟩
  have hbj := hj.base hb
  have hq := hr.queue hbj hoj.queue (fun m hm e => hne m hm (Act.report.inj e).symm) (by simp)
  refine ⟨hq, .cons ?_ (hr.slots hbj hoj.slots fun m _ => ⟨by simp, by simp⟩)⟩
  obtain ⟨d', hd', _, hmsg⟩ := hr.queued hbj hd (by simp)
  refine ⟨d', hd', ?_⟩
  rw [hmsg (by simp), ChannMsg.report, failure, hev, herr, hmn]

end Act

/-! ## Calls -/

section Call

variable {q : List ChannId} {ms : List Report}

/-- A message from the queue is the first one owed. -/
theorem Delivers.tells {k k' : Core} {p : Option ChannId} (h : Delivers k p k') (hb : Base k)
    (ho : k.owes q ms) (hno : ∀ m, ¬ k.timerDue m) (hhead : k.disChanns ≠ none) :
    ∃ n m q' ms', p = some n ∧ q = n :: q' ∧ ms = m :: ms' ∧ k'.owes q' ms' ∧
      ∃ c, k'.heap n = some c ∧ c.msg.report = m := by
  cases h with
  | timer hdue => exact absurd hdue (hno _)
  | record _ hnone => exact absurd hnone hhead
  | @queued n j k' _ hn hj hdel =>
    have hoj : j.owes q ms := by
      rcases hj with rfl | hj
      · exact ho
      · refine (Steps.single (A := {.park}) hj rfl).owes hb ho fun a ha => ?_
        obtain rfl : a = .park := ha
        exact ⟨rfl, fun m _ => ⟨by simp, by simp, by simp⟩⟩
    have hbj : Base j := by
      rcases hj with rfl | hj
      · exact hb
      · exact hb.step hj
    have hheadj : j.disChanns = some n := by
      rcases hj with rfl | hj
      · exact hn
      · cases hj
        exact hn
    have hl := hoj.queue.1
    rw [hheadj] at hl
    obtain ⟨q', rfl, _⟩ := hl.eq_cons
    have hslots := hdel.slots hbj hoj.slots fun m _ => ⟨by simp, by simp⟩
    have hq := hdel.queue hbj hoj.queue (by simp) (by simp)
    cases hslots with
    | @cons _ m _ ms' hc hslots => exact ⟨n, m, q', ms', rfl, rfl, rfl, ⟨hq, hslots⟩, hc⟩

/-- Other messages leave what is owed. -/
theorem Delivers.owes {k k' : Core} {p : Option ChannId} (h : Delivers k p k') (hb : Base k)
    (ho : k.owes q ms) (htimer : ∀ n, k.timerDue n → n ∉ q)
    (hno : ¬ ((∀ m, ¬ k.timerDue m) ∧ k.disChanns ≠ none)) : k'.owes q ms := by
  cases h with
  | @timer n j c msg hdue hfire hc _ hmn =>
    have hnq := htimer n hdue
    have hslot : CStep j (.slot n) (j.set n { c with msg := msg }) := .slot msg hc fun _ => hmn
    refine ((Steps.single hfire (.inl rfl)).trans (.single hslot (.inr rfl)) :
      Steps {a | a = .fire n ∨ a = .slot n} k _).owes hb ho fun a ha => ?_
    rcases ha with rfl | rfl
    · exact ⟨rfl, fun m _ => ⟨by simp, by simp, by simp⟩⟩
    · refine ⟨rfl, fun m hm => ⟨fun e => ?_, by simp, by simp⟩⟩
      cases e
      exact hnq hm
  | queued hidle hhead => exact absurd ⟨hidle, by rw [hhead]; simp⟩ hno
  | record _ hnone hnone' _ _ =>
    -- nothing is queued, before or after
    have hl := ho.queue.1
    rw [hnone] at hl
    obtain rfl := hl.eq_nil
    have hms := ho.slots
    cases hms
    exact ⟨⟨by rw [hnone']; exact .nil, by simp⟩, .nil⟩

/-- A call that neither fails nor takes a message from the queue leaves what is owed. -/
theorem Step.owes (hx : Tame x) {i : Call × Ret} (h : Step x s i t) (hp : SparesReports x s i.1)
    (hf : ∀ n, ¬ TransferFails x s n i.1) (hq : ¬ FromQueue s i.1) (hb : Base s.core)
    (hty : s.core.builtin) (ho : s.core.owes q ms) : t.core.owes q ms := by
  obtain ⟨c, r⟩ := i
  by_cases hpoll : c = .poll
  · subst hpoll
    obtain ⟨_, _, h⟩ := returns_ret.mp h
    have hcl : ∀ n ∈ q, ¬ s.core.closedAt n := fun n hn hc =>
      hp.queue.2 rfl n (closedAt_core.mp hc) ((queued_iff ho.queue).mpr hn)
    refine (evtPoll_spares hb hcl h).owes hb ho fun a ha => ?_
    rcases ha with ⟨⟨m, rfl | rfl⟩, hno⟩ | rfl | rfl | rfl
    · exact ⟨rfl, fun n hn => ⟨by simp, by simp, hno n hn⟩⟩
    · exact ⟨rfl, fun n hn => ⟨by simp, by simp, hno n hn⟩⟩
    all_goals exact ⟨rfl, fun n _ => ⟨by simp, by simp, by simp⟩⟩
  by_cases hfini : c = .mnetFini
  · subst hfini
    obtain ⟨_, _, h⟩ := returns_ret.mp h
    obtain ⟨_, ht⟩ | ⟨_, k, _, hdown⟩ := mnetFini_spec hx hb h
    · rw [ht]
      exact ho
    · have hl := ho.queue.1
      rw [show s.core.disChanns = none from hp.fini rfl] at hl
      obtain rfl := hl.eq_nil
      have hms := ho.slots
      cases hms
      generalize t.core = k' at hdown
      cases hdown
      exact ⟨⟨.nil, by simp⟩, .nil⟩
  by_cases hnext : ∃ fuel, c = .resultNext fuel
  · obtain ⟨fuel, rfl⟩ := hnext
    obtain ⟨_, _, h⟩ := returns_ret.mp h
    refine (evtLoop_delivers hx hb hty h).owes hb ho (fun n hdue hn => ?_) fun hidle => ?_
    · exact hp.timer fuel n rfl hdue ((queued_iff ho.queue).mpr hn)
    · exact hq ⟨⟨fuel, rfl⟩, hidle⟩
  obtain hs | ⟨n, _, hfail, _⟩ := h.fails hx hb hpoll hfini fun fuel e => hnext ⟨fuel, e⟩
  · exact hs.owes hb ho fun a ha => Act.unqueued.spares ha q
  · exact absurd hfail (hf n)

end Call

theorem TransferFails.alloc {c : Call} (h : TransferFails x s n c) : ∃ d, s.heap n = some d := by
  cases c with
  | channSend | channRecv =>
    obtain ⟨_, d, hd, _⟩ := h
    exact ⟨d, hd⟩
  | dgramSend | dgramRecv =>
    obtain ⟨_, ⟨d, hd, _⟩, _⟩ := h
    exact ⟨d, hd⟩
  | _ => exact h.elim

/-- What the ledger lists as failed and not as told is owed. -/
theorem Ledger.owes (hx : Tame x) {failed told : List Report}
    (h : Ledger x (SparesReports x) s failed told) :
    Base s.core ∧ s.core.builtin ∧ ∃ q ms, s.core.owes q ms ∧ failed.Perm (told ++ ms) := by
  induction h with
  | start o e =>
    refine ⟨base_start o e, fun n c hc => ?_, [], [], ⟨⟨.nil, by simp⟩, .nil⟩, .refl _⟩
    cases hc
  | @fails s t failed told i n _ hp hs hf ih =>
    obtain ⟨hb, hty, q, ms, ho, hperm⟩ := ih
    refine ⟨hs.base hx hb, hs.builtin hx hp.builtin hb hty, n :: q, failure n t.kernel.errno :: ms, ?_, ?_⟩
    · obtain ⟨k, hk, hfails⟩ := hf.step hx hs hb
      have hok := hk.owes hb ho fun a ha => Act.unqueued.spares ha q
      have hbk := hk.base hb
      have hnq : n ∉ q := fun hm => hp.queue.1 n hf ((queued_iff ho.queue).mpr hm)
      obtain ⟨d, hd⟩ := hf.alloc
      have hdes : .destroy n ∉ {a : Act | a.unqueued} := id
      obtain ⟨c, hc, hct⟩ := hk.same_type hb hdes (core_heap_some hd)
      exact hfails.owes hbk hc (hct ▸ hty n _ (core_heap_some hd)) hok hnq
    · refine (List.perm_append_singleton _ _).trans (List.Perm.trans ?_ List.perm_middle.symm)
      exact hperm.cons _
  | @tells s t failed told c p d _ hp hs hq hd ih =>
    obtain ⟨hb, hty, q, ms, ho, hperm⟩ := ih
    have hbt := hs.base hx hb
    have htyt := hs.builtin hx hp.builtin hb hty
    obtain ⟨⟨fuel, rfl⟩, hno, hhead⟩ := hq
    obtain ⟨r, hr, hs⟩ := returns_ret.mp hs
    obtain rfl : r = some p := (Ret.msg.inj hr).symm
    obtain ⟨n, m, q', ms', hn, rfl, rfl, ho', e, he, hm⟩ :=
      (evtLoop_delivers hx hb hty hs).tells hb ho hno hhead
    cases hn
    have hed : e = d.core := Option.some.inj (he.symm.trans (core_heap_some hd))
    have hdm : d.msg.report = m := by
      rw [← hm, hed]
      rfl
    refine ⟨hbt, htyt, q', ms', ho', ?_⟩
    rw [hdm, List.append_assoc]
    exact hperm
  | @other s t failed told i _ hp hs hf hq ih =>
    obtain ⟨hb, hty, q, ms, ho, hperm⟩ := ih
    exact ⟨hs.base hx hb, hs.builtin hx hp.builtin hb hty, q, ms, hs.owes hx hp hf hq hb hty ho, hperm⟩

/-! ## Messages to come -/

theorem tmNext_idle (hcur : CursorOk s.mnet.tmClock s.mnet.tmPos) (hno : ∀ m, ¬ s.core.timerDue m)
    (fuel : Nat) : ∃ a, Returns (tmNext x (fuel + 1)) s none a ∧ a.heap = s.heap ∧
      a.mnet.disChanns = s.mnet.disChanns := by
  have hread : Returns (readMnet Mnet.tmPos : M ε _) s s.mnet.tmPos s :=
    returns_readMnet.mpr ⟨rfl, rfl⟩
  rw [tmNext]
  rcases hpos : s.mnet.tmPos with _ | _ | id
  · rw [hpos] at hread
    exact ⟨s, hread.bind_iff.mpr (returns_pure.mpr ⟨rfl, rfl⟩), rfl, rfl⟩
  · rw [hpos] at hread
    exact ⟨s, hread.bind_iff.mpr (returns_pure.mpr ⟨rfl, rfl⟩), rfl, rfl⟩
  · rw [hpos] at hread
    obtain ⟨l, hl, hh | ⟨node, hnode, hid⟩⟩ := hcur _ hpos
    · cases hh
    obtain ⟨m, hm⟩ := Option.isSome_iff_exists.mp
      (skiplistFind_isSome.mpr ⟨node, hnode, (TmLink.node.inj hid).symm⟩)
    have hmid := (skiplistFind_some hm).2
    -- the node is there, and not due
    have hlate : ¬ m.tm.time ≤ s.mnet.tmCurrent := fun hdue =>
      hno _ ⟨l, m, hl, by rw [hmid]; exact hpos, by rw [hmid]; exact hm, hdue, rfl⟩
    have hclock : Returns (derefClock : M ε _) s l s := by
      simp only [derefClock, returns_bind, returns_readMnet, returns_require]
      exact ⟨_, s, ⟨rfl, rfl⟩, hl, rfl⟩
    have hnode' : Returns (derefNode id : M ε _) s m s := by
      rw [derefNode, hclock.bind_iff]
      exact returns_require.mpr ⟨hm, rfl⟩
    refine ⟨{ s with mnet := { s.mnet with tmPos := none } }, ?_, rfl, rfl⟩
    rw [hread.bind_iff]
    simp only
    rw [hclock.bind_iff, hnode'.bind_iff, setTmPos,
      (returns_modifyMnet (u := ()) |>.mpr rfl).bind_iff, (returns_readMnet.mpr ⟨rfl, rfl⟩).bind_iff,
      if_neg hlate, setTmPos, (returns_modifyMnet (u := ()) |>.mpr rfl).bind_iff]
    exact returns_pure.mpr ⟨rfl, rfl⟩

/-- With no timer due, the next message is that of the queued channel. -/
theorem queued_next {c : Chann} (hcur : CursorOk s.mnet.tmClock s.mnet.tmPos)
    (hno : ∀ m, ¬ s.core.timerDue m) (hhead : s.mnet.disChanns = some n) (hn : s.heap n = some c)
    (fuel : Nat) : ∃ t, Step x s (.resultNext (fuel + 1), .msg (some n)) t ∧ t.heap n = some c := by
  obtain ⟨a, htm, hheap, hdis⟩ := tmNext_idle (x := x) hcur hno fuel
  have hq : Returns (disNext : M ε _) a (some n)
      { a with mnet := { a.mnet with disChanns := c.disNext } } := by
    rw [disNext, (returns_readMnet.mpr ⟨rfl, rfl⟩).bind_iff, hdis, hhead]
    simp only
    rw [(returns_deref.mpr ⟨hheap ▸ hn, rfl⟩).bind_iff,
      (returns_modifyMnet (u := ()) |>.mpr rfl).bind_iff]
    exact returns_pure.mpr ⟨rfl, rfl⟩
  have hpass : Returns (evtPass x (fuel + 1)) s (.ret (some n))
      { a with mnet := { a.mnet with disChanns := c.disNext } } := by
    rw [evtPass, htm.bind_iff]
    simp only
    rw [hq.bind_iff]
    exact returns_pure.mpr ⟨rfl, rfl⟩
  refine ⟨{ a with mnet := { a.mnet with disChanns := c.disNext } },
    returns_ret.mpr ⟨some n, rfl, ?_⟩, hheap ▸ hn⟩
  rw [evtResultNext, evtLoop, hpass.bind_iff]
  exact returns_pure.mpr ⟨rfl, rfl⟩

/-- Each failure is told once: the reports given for queued channels and those still owed are
those of the failures. Nothing is owed any more when the loop ends, and when no timer is due, and
the cursor is at none that is gone, the next message is what is owed first. -/
theorem failures_told_once (hx : Tame x) {failed told : List Report}
    (h : Ledger x (SparesReports x) s failed told) : ∃ owed, failed.Perm (told ++ owed) ∧
      (∀ fuel t, Step x s (.resultNext fuel, .msg none) t → owed = []) ∧
      (owed ≠ [] → (∀ m, ¬ s.core.timerDue m) → CursorOk s.mnet.tmClock s.mnet.tmPos → ∀ fuel, ∃ p t d,
        Step x s (.resultNext (fuel + 1), .msg (some p)) t ∧ t.heap p = some d ∧
          owed.head? = some d.msg.report) := by
  obtain ⟨hb, hty, q, ms, ho, hperm⟩ := h.owes hx
  refine ⟨ms, hperm, fun fuel t hs => ?_, fun hne hno hcur fuel => ?_⟩
  · obtain ⟨r, hr, hs⟩ := returns_ret.mp hs
    obtain rfl : r = none := (Ret.msg.inj hr).symm
    have hdel := evtLoop_delivers hx hb hty hs
    generalize t.core = k at hdel
    cases hdel with
    | record _ hnone =>
      have hl := ho.queue.1
      rw [hnone] at hl
      obtain rfl := hl.eq_nil
      have hms := ho.slots
      cases hms
      rfl
  · have hslots := ho.slots
    cases hslots with
    | nil => exact absurd rfl hne
    | @cons n m q ms hc _ =>
      obtain ⟨c, hc, hm⟩ := hc
      rw [core_heap, Option.map_eq_some_iff] at hc
      obtain ⟨d, hd, rfl⟩ := hc
      obtain ⟨t, hs, ht⟩ := queued_next (x := x) hcur hno (ho.queue.1.head_eq.symm) hd fuel
      exact ⟨n, t, d, hs, ht, by rw [← hm]; rfl⟩

/-- A run of calls that neither transfer nor ask for messages. -/
theorem Ledger.setup {P : Sys ε → Call → Prop} {o : Oracle} {e : ε} {l : List (Call × Ret)}
    (h : RunWhere x (fun s c => P s c ∧ (∀ n, ¬ TransferFails x s n c) ∧ ∀ fuel, c ≠ .resultNext fuel)
      (Sys.start o e) l s) : Ledger x P s [] [] :=
  Path.keeps (I := fun s => Ledger x P s [] []) h
    (fun _ _ _ hs hl => .other hl hs.2.1 hs.1 hs.2.2.1 fun hq => hs.2.2.2 _ hq.1.choose_spec)
    (.start o e)

/-- The calls that set a connection up. -/
def Call.setsUp : Call → Prop
  | .mnetInit | .poll => True
  | .channOpen ctype => ctype ≤ CHANN_TYPE_BROADCAST
  | .channConnect _ _ _ => True
  | .channActiveEvent _ et _ => et = .timer
  | _ => False

instance : (c : Call) → Decidable c.setsUp
  | .mnetInit | .poll | .channConnect .. => instDecidableTrue
  | .channOpen ctype => inferInstanceAs (Decidable (ctype ≤ CHANN_TYPE_BROADCAST))
  | .channActiveEvent _ et _ => inferInstanceAs (Decidable (et = .timer))
  | .mnetFini | .multiAcceptBalancer .. | .multiResetEvent | .extRegister .. |
    .resultNext .. | .channClose .. | .channDisconnect .. | .channListen .. |
    .channSetOpaque .. | .channRecv .. | .channSend .. | .dgramRecv .. | .dgramSend .. |
    .socketSetBufsize .. => instDecidableFalse

theorem Call.setsUp.opens {c : Call} (h : c.setsUp) : BuiltinOpen s c := by
  cases c <;> first | exact h.elim | exact h | trivial

theorem Call.setsUp.calm {c : Call} (h : c.setsUp) :
    (∀ n, ¬ TransferFails x s n c) ∧ ∀ fuel, c ≠ .resultNext fuel := by
  cases c <;> first | exact h.elim | exact ⟨fun _ h => h, by simp⟩

theorem SparesReports.of_idle {c : Call} (hc : BuiltinOpen s c) (hdis : s.mnet.disChanns = none)
    (hpos : s.mnet.tmPos = none) : SparesReports x s c where
  builtin := hc
  queue := by
    have hq : ∀ n, ¬ s.Queued n := by
      intro n hn
      rw [Sys.Queued, hdis] at hn
      exact not_visits_none hn
    exact ⟨fun n _ => hq n, fun _ n _ => hq n⟩
  timer fuel n _ hdue := by
    refine absurd hdue (not_timerDue (fun id he => ?_) n)
    rw [show s.core.tmPos = none from hpos] at he
    cases he
  fini _ := hdis

set_option synthInstance.maxSize 1000 in
/-- A failed send is told by the next message. -/
theorem failures_told_once_send : ∃ (failed told owed : List Report), failed.Perm (told ++ owed) ∧
    told = [failure 0 32] := by
  have hrun : AfterWhere noExt (fun s c => c.setsUp ∧ s.mnet.disChanns = none ∧ s.mnet.tmPos = none)
      [.mnetInit, .channOpen 2, .channConnect (some 0) (some 0) 80] (Sys.start (failingOracle [8]) ())
      fun a => (SendFails noExt a 0 (some [1]) ∧ a.mnet.disChanns = none ∧ a.mnet.tmPos = none) ∧
        After noExt [.channSend (some 0) (some [1])] a fun _ b =>
          (b.kernel.errno = 32 ∧ b.mnet.disChanns = some 0 ∧ b.mnet.tmPos = none) ∧
          After noExt [.resultNext 5] b fun rs t => rs = [.msg (some 0)] ∧
            (t.heap 0).map (fun d => d.msg.report) = some (failure 0 32) := by decide +kernel
  obtain ⟨l, a, h, ⟨hfail, hdis, hpos⟩, hsend⟩ := hrun.run
  obtain ⟨_, b, hs, ⟨herr, hdis', hpos'⟩, hnext⟩ := hsend.step
  obtain ⟨r, t, ht, hr, hslot⟩ := hnext.step
  obtain rfl : r = .msg (some 0) := by simpa using hr
  obtain ⟨d, hd, hdm⟩ := Option.map_eq_some_iff.mp hslot
  have ha : Ledger noExt (SparesReports noExt) a [] [] :=
    Ledger.setup (Path.mono h fun s i _ hs =>
      ⟨hs.1, .of_idle hs.2.1.opens hs.2.2.1 hs.2.2.2, hs.2.1.calm⟩)
  have hb := ha.fails (i := (.channSend (some 0) (some [1]), _)) (.of_idle trivial hdis hpos) hs
    ⟨rfl, hfail⟩
  have hno : ∀ m, ¬ b.core.timerDue m := not_timerDue fun id he => by
    rw [show b.core.tmPos = none from hpos'] at he
    cases he
  have hspare : SparesReports noExt b (.resultNext 5) :=
    ⟨trivial, ⟨fun _ h => h.elim, by simp⟩, fun _ n _ hdue => absurd hdue (hno n), by simp⟩
  have htold := hb.tells hspare ht ⟨⟨5, rfl⟩, hno, by simp [hdis']⟩ hd
  obtain ⟨owed, hperm, _⟩ := failures_told_once tame_noExt htold
  exact ⟨_, _, owed, hperm, by rw [hdm]; rfl⟩

/-- An environment in which the twelfth call fails, and a millisecond passes between ticks. -/
def lateFailingOracle : Oracle := { failingOracle [11] with clock := fun tick => 1000 * tick }

set_option synthInstance.maxSize 1000 in
/-- The timer of the failed channel is due: it is told twice, and the failure never. -/
theorem not_failures_told_timer : ∃ (s t : Sys Unit),
    Ledger noExt (fun s c => BuiltinOpen s c ∧ (∀ n, c ≠ .channClose n) ∧ c ≠ .mnetFini) s
      [failure 0 32] [(some 0, some .timer, 0)] ∧
    Step noExt s (.resultNext 5, .msg none) t := by
  have hrun : AfterWhere noExt (fun _ c => c.setsUp)
      [.mnetInit, .channOpen 2, .channActiveEvent (some 0) .timer 1,
        .channConnect (some 0) (some 0) 80, .poll] (Sys.start lateFailingOracle ())
      fun a => SendFails noExt a 0 (some [1]) ∧
        After noExt [.channSend (some 0) (some [1])] a fun _ b =>
          (b.kernel.errno = 32 ∧ b.mnet.tmClock = some [⟨0, 2000, ⟨1000, 2000, 0⟩⟩] ∧
            b.mnet.tmPos = some (.node 0) ∧ b.mnet.tmCurrent = 9000) ∧
          After noExt [.resultNext 5] b fun _ c =>
            (c.mnet.disChanns = some 0 ∧ c.mnet.tmPos = some .head) ∧
            After noExt [.resultNext 5] c fun rs d => (rs = [.msg (some 0)] ∧
                (d.heap 0).map (fun d => d.msg.report) = some (some 0, some .timer, 0)) ∧
              After noExt [.resultNext 5] d fun rs _ => rs = [.msg none] := by decide +kernel
  obtain ⟨l, a, h, hfail, hsend⟩ := hrun.run
  obtain ⟨_, b, hs, ⟨herr, hclock, hpos, hcur⟩, htimer⟩ := hsend.step
  obtain ⟨_, c, ht, ⟨hdis, hpos'⟩, hqueue⟩ := htimer.step
  obtain ⟨r, d, hd, ⟨hr, hslot⟩, hlast⟩ := hqueue.step
  obtain ⟨r', e, he, hr'⟩ := hlast.step
  obtain rfl : r = .msg (some 0) := by simpa using hr
  obtain rfl : r' = .msg none := by simpa using hr'
  obtain ⟨p, hp, hpm⟩ := Option.map_eq_some_iff.mp hslot
  have ha : Ledger noExt (fun s c => BuiltinOpen s c ∧ (∀ n, c ≠ .channClose n) ∧ c ≠ .mnetFini) a
      [] [] := Ledger.setup (Path.mono h fun s i _ hs => by
    refine ⟨hs.1, ⟨hs.2.opens, ?_, ?_⟩, hs.2.calm⟩
    · intro n hn
      rw [hn] at hs
      exact hs.2
    · intro hn
      rw [hn] at hs
      exact hs.2)
  have hb := ha.fails (i := (.channSend (some 0) (some [1]), _)) ⟨trivial, by simp, by simp⟩ hs
    ⟨rfl, hfail⟩
  rw [herr] at hb
  have hdue : b.core.timerDue 0 := ⟨_, ⟨0, 2000, ⟨1000, 2000, 0⟩⟩, hclock, hpos, rfl, by
    rw [show b.core.tmCurrent = 9000 from hcur]
    decide, rfl⟩
  have hc := hb.other (i := (.resultNext 5, _)) ⟨trivial, by simp, by simp⟩ ht (fun _ h => h)
    fun hq => hq.2.1 0 hdue
  have hno : ∀ m, ¬ c.core.timerDue m := not_timerDue fun id he => by
    rw [show c.core.tmPos = some .head from hpos'] at he
    cases he
  have hdt := hc.tells (c := .resultNext 5) ⟨trivial, by simp, by simp⟩ hd ⟨⟨5, rfl⟩, hno, by simp [hdis]⟩ hp
  rw [hpm] at hdt
  exact ⟨d, e, hdt, he⟩

end MNet
