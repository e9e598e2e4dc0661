import MNet.Registry

/-! # The queue of failed channels

A failed send or receive pushes its channel on `ss->dis_channs` without looking whether it is
there already, and a poll frees closed channels without taking them off. Apart from these two
the queue stays a list of allocated channels. -/

namespace MNet
open MNet.Lib MNet.Lib.Exec

variable {ε : Type} {x : ExtTable ε} {s t : Sys ε} {o : Oracle} {e : ε}

def disOf (heap : Heap) (n : ChannId) : Option ChannId := (heap n).bind CChann.disNext

theorem disOf_push {heap : Heap} {n : ChannId} {c : CChann} {p : Option ChannId} :
    disOf (Function.update heap n (some { c with disNext := p })) =
      Function.update (disOf heap) n p := by
  funext i
  by_cases hi : i = n
  · subst hi
    simp [disOf]
  · simp [disOf, Function.update_of_ne hi]

/-- `dis_channs` with `dis_next` lists the channels `q`, all of them allocated. -/
def Core.queue (k : Core) (q : List ChannId) : Prop :=
  Chain (disOf k.heap) k.disChanns q ∧ ∀ n ∈ q, k.heap n ≠ none

/-- What an act makes of the queue. -/
def Act.requeue : Act → List ChannId → List ChannId
  | .report n, q => n :: q
  | .deliver _, q => q.tail
  | .shutdown, _ => []
  | _, q => q

section Act

variable {k k' : Core} {a : Act} {n : ChannId} {c : CChann} {q : List ChannId}

/-- Only queueing a channel changes its place in the queue, and only a message its slot. -/
theorem CStep.queued (hs : CStep k a k') (hb : Base k) (hn : k.heap n = some c)
    (hd : a ≠ .destroy n) : ∃ c', k'.heap n = some c' ∧ (a ≠ .report n → c'.disNext = c.disNext) ∧
      (a ≠ .slot n → c'.msg = c.msg) := by
  obtain ⟨rfl, _⟩ | ⟨c', hc', ht⟩ := hs.at hb hn
  · exact absurd rfl hd
  refine ⟨c', hc', ?_⟩
  cases ht with
  | report => exact ⟨fun h => absurd rfl h, fun _ => rfl⟩
  | slot => exact ⟨fun _ => rfl, fun h => absurd rfl h⟩
  | _ => exact ⟨fun _ => rfl, fun _ => rfl⟩

theorem CStep.disChanns_eq (hs : CStep k a k') (hr : ∀ n, a ≠ .report n) (hd : ∀ n, a ≠ .deliver n)
    (hdown : a ≠ .shutdown) : k'.disChanns = k.disChanns := by
  cases hs with
  | report => exact absurd rfl (hr _)
  | deliver => exact absurd rfl (hd _)
  | shutdown => exact absurd rfl hdown
  | @write n c data i =>
    obtain ⟨w, hw⟩ := k.onWire_eq c (data.take i)
    rw [hw]
    rfl
  | @flush n c i =>
    obtain ⟨w, hw⟩ := k.onWire_eq c ((rwbDrainParam c.rwbSend).take i)
    rw [hw]
    rfl
  | _ => rfl

/-- An act that neither queues a channel twice nor frees a queued one keeps the queue. -/
theorem CStep.queue (hs : CStep k a k') (hb : Base k) (hq : k.queue q)
    (hr : ∀ n ∈ q, a ≠ .report n) (hd : ∀ n ∈ q, a ≠ .destroy n) : k'.queue (a.requeue q) := by
  obtain ⟨hl, halloc⟩ := hq
  have hkept : ∀ n ∈ q, ∃ c c', k.heap n = some c ∧ k'.heap n = some c' ∧ c'.disNext = c.disNext := by
    intro n hn
    obtain ⟨c, hc⟩ := Option.ne_none_iff_exists'.mp (halloc n hn)
    obtain ⟨c', hc', hdis, _⟩ := hs.queued hb hc (hd n hn)
    exact ⟨c, c', hc, hc', hdis (hr n hn)⟩
  have hsame : ∀ n ∈ q, disOf k'.heap n = disOf k.heap n := by
    intro n hn
    obtain ⟨c, c', hc, hc', hdis⟩ := hkept n hn
    simp [disOf, hc, hc', hdis]
  have halloc' : ∀ n ∈ q, k'.heap n ≠ none := by
    intro n hn
    obtain ⟨_, c', _, hc', _⟩ := hkept n hn
    simp [hc']
  have hrest : (∀ n, a ≠ .report n) → (∀ n, a ≠ .deliver n) → a ≠ .shutdown → k'.queue q := by
    intro h1 h2 h3
    refine ⟨?_, halloc'⟩
    rw [hs.disChanns_eq h1 h2 h3]
    exact hl.congr hsame
  cases hs with
  | @report n c hn =>
    have hnq : n ∉ q := fun hm => hr n hm rfl
    refine ⟨?_, fun m hm => ?_⟩
    · show Chain (disOf (Function.update k.heap n _)) (some n) (n :: q)
      rw [disOf_push]
      exact hl.push hnq
    · rcases List.mem_cons.mp hm with rfl | hm
      · show Function.update k.heap m _ m ≠ none
        simp
      · exact halloc' m hm
  | @deliver n c hhead hn =>
    rw [hhead] at hl
    obtain ⟨q', rfl, hl'⟩ := hl.eq_cons
    have hnext : disOf k.heap n = c.disNext := by simp [disOf, hn]
    rw [hnext] at hl'
    exact ⟨hl', fun m hm => halloc m (List.mem_cons_of_mem _ hm)⟩
  | shutdown => exact ⟨.nil, by simp [Act.requeue]⟩
  | slot => exact hrest (by simp) (by simp) (by simp)
  | _ => exact hrest (by simp) (by simp) (by simp)

end Act

/-! ## Transfers that fail -/

/-- The call is a transfer on `n` that reaches the socket and is told of an error. -/
def TransferFails (x : ExtTable ε) (s : Sys ε) (n : ChannId) : Call → Prop
  | .channSend m buf => m = some n ∧ SendFails x s n buf
  | .channRecv m buf len => m = some n ∧ RecvFails x s n buf len
  | .dgramRecv m buf len => m = some n ∧ (∃ c, s.heap n = some c ∧ isDgram c.ctype = true) ∧
      RecvFails x s n buf len
  | .dgramSend m addr buf => m = some n ∧ (∃ c, s.heap n = some c ∧ isDgram c.ctype = true) ∧
      ∃ host port a, addr = some (host, port) ∧ Returns (dgramAim x n host port) s () a ∧
        SendFails x a n buf
  | _ => False

instance {n : ChannId} {buf : Option (List UInt8)} : Decidable (SendFails x s n buf) :=
  match hc : s.heap n with
  | none => isFalse fun ⟨c, hc', _⟩ => by
      rw [hc] at hc'
      cases hc'
  | some c =>
    match hr : channSend x n (buf.getD []) s with
    | .ok (r, a) => decidable_of_iff (channState x s n c ≥ ChannState.connected.val ∧
        buf.getD [] ≠ [] ∧ c.rwbSend = [] ∧ r < 0)
      ⟨fun ⟨hst, hdata, hnil, hneg⟩ => ⟨c, hc, hst, hdata, hnil, r, a, hr, hneg⟩,
       fun ⟨c', hc', hst, hdata, hnil, r', a', hr', hneg⟩ => by
        rw [hc] at hc'
        cases hc'
        obtain ⟨rfl, rfl⟩ := Returns.det hr hr'
        exact ⟨hst, hdata, hnil, hneg⟩⟩
    | .error _ => isFalse fun ⟨c', _, _, _, _, r', a', hr', _⟩ => by
        rw [Returns, hr] at hr'
        cases hr'

/-- Acts that leave the queue and the slots alone. -/
def Act.unqueued : Act → Prop
  | .slot _ | .report _ | .deliver _ | .destroy _ | .shutdown => False
  | _ => True

/-- What a failing transfer on `n` comes to: the channel torn down, its slot written, and
queued unless a filter objects. -/
structure Fails (n : ChannId) (k k' : Core) (errno : Int) : Prop where
  queues : ∃ j, Steps {.slot n, .disconnect n} k j ∧ (k' = j ∨ CStep j (.report n) k')
  builtin : ∀ c, k.heap n = some c → c.ctype ≤ CHANN_TYPE_BROADCAST → ∃ j d,
    Steps {.slot n, .disconnect n} k j ∧ CStep j (.report n) k' ∧ j.heap n = some d ∧
      d.msg.event = some .disconnect ∧ d.msg.err = errno ∧ d.msg.n = some n

theorem channFail_fails (hx : Tame x) (hb : Base s.core) {n : ChannId} {u : Unit}
    (h : Returns (channFail x n) s u t) : Fails n s.core t.core t.kernel.errno := by
  obtain ⟨c, j, hc, hj, hq, hbuiltin⟩ := channFail_spec hx hb h
  refine ⟨⟨j, hj, hq⟩, fun c' hc' hle => ?_⟩
  rw [hc] at hc'
  cases hc'
  obtain ⟨hr, d, hd, hev, herr, hn, _⟩ := hbuiltin hle
  exact ⟨j, d, hj, hr, hd, hev, herr, hn⟩

theorem Fails.of_core {n : ChannId} {k k' : Core} {r : Int} (h : Fails n s.core k r)
    (he : t.core = s.core) (hk : k' = k) : Fails n t.core k' r := by
  rw [he, hk]
  exact h

theorem mnetChannSend_fails (hx : Tame x) {n : ChannId} {buf : Option (List UInt8)} {r : Int}
    (hb : Base s.core) (h : Returns (mnetChannSend x (some n) buf) s r t) :
    Steps {a | a.unqueued} s.core t.core ∨
      (SendFails x s n buf ∧ Fails n s.core t.core t.kernel.errno) := by
  obtain ⟨_, rfl⟩ | ⟨c, i, k, hn, _, _, hw, hk⟩ | ⟨hf, _, a, ha, hfail, _⟩ := mnetChannSend_spec hx h
  · exact .inl (.refl _)
  · have hs : Steps {a | a.unqueued} s.core k := .single hw trivial
    rcases hk with ⟨ht, _⟩ | ⟨_, b, q, hbk, hadd, _⟩
    · rw [ht]
      exact .inl hs
    · have hd : ∃ d, k.heap n = some d ∧ d.state.active := by
        cases hw with
        | write hn hst => exact ⟨_, Function.update_self .., ChannState.active_of_connected hst⟩
      obtain ⟨d, hd, hact⟩ := hd
      subst hbk
      refine .inl (hs.trans ((evtAdd_steps (by simp) hd hact hadd).mono ?_))
      rintro _ rfl
      trivial
  · exact .inr ⟨hf, (channFail_fails hx (ha ▸ hb) hfail).of_core ha.symm rfl⟩

theorem mnetChannRecv_fails (hx : Tame x) {n : ChannId} {buf : Bool} {len r : Int}
    (hb : Base s.core) (h : Returns (mnetChannRecv x (some n) buf len) s r t) :
    t.core = s.core ∨ (RecvFails x s n buf len ∧ Fails n s.core t.core t.kernel.errno) := by
  obtain ht | ⟨hf, _, a, b, ha, hfail, ht, hker⟩ := mnetChannRecv_spec hx h
  · exact .inl ht
  · rw [hker]
    exact .inr ⟨hf, (channFail_fails hx (ha ▸ hb) hfail).of_core ha.symm ht⟩

theorem connectActs_unqueued (n : ChannId) : ∀ a ∈ connectActs n, a.unqueued := by
  intro a ha
  cases a <;> first | exact trivial | simp [connectActs] at ha

/-- Apart from polls, shutdowns and the message loop, only failing transfers touch the queue. -/
theorem Step.fails (hx : Tame x) {i : Call × Ret} (h : Step x s i t) (hb : Base s.core)
    (hpoll : i.1 ≠ .poll) (hfini : i.1 ≠ .mnetFini) (hnext : ∀ fuel, i.1 ≠ .resultNext fuel) :
    Steps {a | a.unqueued} s.core t.core ∨ ∃ n k, TransferFails x s n i.1 ∧
      Steps {a | a.unqueued} s.core k ∧ Fails n k t.core t.kernel.errno := by
  obtain ⟨c, r⟩ := i
  have hcalm : (∀ a ∈ c.acts, a.unqueued) → Steps {a | a.unqueued} s.core t.core :=
    fun ha => (apiCall_steps hx hb h).mono ha
  cases c with
  | poll => exact absurd rfl hpoll
  | mnetFini => exact absurd rfl hfini
  | resultNext fuel => exact absurd rfl (hnext fuel)
  | channSend m buf =>
    cases m with
    | none => exact .inl (hcalm (by simp [Call.acts]))
    | some n =>
      obtain ⟨_, _, h⟩ := returns_ret.mp h
      obtain hs | ⟨hf, hfails⟩ := mnetChannSend_fails hx hb h
      · exact .inl hs
      · exact .inr ⟨n, s.core, ⟨rfl, hf⟩, .refl _, hfails⟩
  | channRecv m buf len =>
    cases m with
    | none => exact .inl (hcalm (by simp [Call.acts]))
    | some n =>
      obtain ⟨_, _, h⟩ := returns_ret.mp h
      obtain ht | ⟨hf, hfails⟩ := mnetChannRecv_fails hx hb h
      · exact .inl (.of_eq ht)
      · exact .inr ⟨n, s.core, ⟨rfl, hf⟩, .refl _, hfails⟩
  | dgramRecv m buf len =>
    cases m with
    | none => exact .inl (hcalm (by simp [Call.acts]))
    | some n =>
      obtain ⟨_, _, h⟩ := returns_ret.mp h
      obtain rfl | ⟨hty, h⟩ := mnetDgramRecv_cases h
      · exact .inl (.refl _)
      obtain ht | ⟨hf, hfails⟩ := mnetChannRecv_fails hx hb h
      · exact .inl (.of_eq ht)
      · exact .inr ⟨n, s.core, ⟨rfl, hty, hf⟩, .refl _, hfails⟩
  | dgramSend m addr buf =>
    cases m with
    | none => exact .inl (hcalm (by simp [Call.acts]))
    | some n =>
      obtain ⟨_, _, h⟩ := returns_ret.mp h
      obtain ⟨rfl, _⟩ | ⟨c, host, port, a, hc, hty, ha, _, haim, hsend⟩ := mnetDgramSend_cases h
      · exact .inl (.refl _)
      have hs := (dgramAim_steps hx hb haim).mono (B := {a | a.unqueued})
        (connectActs_unqueued n)
      obtain hs' | ⟨hf, hfails⟩ := mnetChannSend_fails hx (hs.base hb) hsend
      · exact .inl (hs.trans hs')
      · exact .inr ⟨n, a.core, ⟨rfl, ⟨c, hc, hty⟩, host, port, a, ha, haim, hf⟩, hs, hfails⟩
  | channConnect m | channListen m | channClose m | channDisconnect m | channActiveEvent m =>
    refine .inl (hcalm fun a ha => ?_)
    cases m <;> cases a <;> first | exact trivial | simp [Call.acts, connectActs, listenActs,
      activeActs, activeSendActs, activeTimerActs] at ha
  | _ =>
    refine .inl (hcalm fun a ha => ?_)
    cases a <;> first | exact trivial | simp [Call.acts, resetActs] at ha

theorem RecvFails.fails (hx : Tame x) {n : ChannId} {buf : Bool} {len r : Int}
    (hf : RecvFails x s n buf len) (hb : Base s.core)
    (h : Returns (mnetChannRecv x (some n) buf len) s r t) :
    Fails n s.core t.core t.kernel.errno := by
  obtain ⟨a, q, ha, hcall⟩ := hf.call hx
  obtain ⟨_, b, hfail, hmod⟩ := (hcall _ _).mp h
  have ht : t.core = b.core ∧ t.kernel = b.kernel := by
    obtain ⟨c, hc, rfl⟩ := returns_modifyChann.mp hmod
    exact ⟨core_setChann_same hc rfl, rfl⟩
  rw [ht.2]
  exact (channFail_fails hx (ha ▸ hb) hfail).of_core ha.symm ht.1

/-- A datagram channel that is ready receives. -/
theorem mnetDgramRecv_reaches {n : ChannId} {buf : Bool} {len : Int} {q : Int × Option SockAddr}
    {c : Chann} (hf : RecvFails x s n buf len) (hc : s.heap n = some c)
    (hty : isDgram c.ctype = true) (h : Returns (mnetDgramRecv x (some n) buf len) s q t) :
    Returns (mnetChannRecv x (some n) buf len) s q.1 t := by
  obtain ⟨c', hc', hst, hbuf, hlen, _⟩ := hf
  have hreq : Returns (Exec.require Fault.nullDeref (some n)) s n s := rfl
  rw [mnetDgramRecv, hreq.bind_iff, (returns_deref.mpr ⟨hc, rfl⟩).bind_iff, if_pos ⟨hty, hbuf, hlen⟩,
    (channReady_of hc' hst).bind_iff, if_pos rfl] at h
  simp only [returns_bind, returns_deref, returns_pure, and_assoc, exists_and_left,
    exists_eq_left] at h
  obtain ⟨r, b, hrecv, _, _, rfl, rfl⟩ := h
  exact hrecv

/-- A call that fails on `n` tears it down and reports it. -/
theorem TransferFails.step (hx : Tame x) {i : Call × Ret} {n : ChannId}
    (hf : TransferFails x s n i.1) (h : Step x s i t) (hb : Base s.core) :
    ∃ k, Steps {a | a.unqueued} s.core k ∧ Fails n k t.core t.kernel.errno := by
  obtain ⟨c, r⟩ := i
  cases c with
  | channSend m buf =>
    obtain ⟨rfl, hf⟩ := hf
    obtain ⟨_, _, h⟩ := returns_ret.mp h
    obtain ⟨a, ha, hcall⟩ := hf.call hx
    exact ⟨s.core, .refl _, (channFail_fails hx (ha ▸ hb) ((hcall _ _).mp h).2).of_core ha.symm rfl⟩
  | channRecv m buf len =>
    obtain ⟨rfl, hf⟩ := hf
    obtain ⟨_, _, h⟩ := returns_ret.mp h
    exact ⟨s.core, .refl _, hf.fails hx hb h⟩
  | dgramRecv m buf len =>
    obtain ⟨rfl, ⟨c, hc, hty⟩, hf⟩ := hf
    obtain ⟨q, _, h⟩ := returns_ret.mp h
    exact ⟨s.core, .refl _, hf.fails hx hb (mnetDgramRecv_reaches hf hc hty h)⟩
  | dgramSend m addr buf =>
    obtain ⟨rfl, ⟨c, hc, hty⟩, host, port, a, rfl, haim, hf⟩ := hf
    obtain ⟨q, _, h⟩ := returns_ret.mp h
    have hs := (dgramAim_steps hx hb haim).mono (B := {a | a.unqueued}) (connectActs_unqueued n)
    obtain ⟨b, hb', hcall⟩ := hf.call hx
    have hsend : Returns (mnetChannSend x (some n) buf) a q t := by
      obtain ⟨_, hdata, _⟩ := hf.choose_spec.2
      have hreq : Returns (Exec.require Fault.nullDeref (some n)) s n s := rfl
      rw [mnetDgramSend, hreq.bind_iff, (returns_deref.mpr ⟨hc, rfl⟩).bind_iff] at h
      simp only at h
      rw [if_pos ⟨hty, hdata⟩, haim.bind_iff] at h
      exact h
    have hfail := channFail_fails hx (hb' ▸ hs.base hb) ((hcall _ _).mp hsend).2
    exact ⟨a.core, hs, hfail.of_core hb'.symm rfl⟩
  | _ => exact hf.elim

/-! ## Runs -/

/-- Acts on other channels than those of the queue. -/
theorem Steps.queue {A : Set Act} {k k' : Core} {q : List ChannId} (h : Steps A k k') (hb : Base k)
    (hq : k.queue q) (hA : ∀ a ∈ A, a.requeue q = q ∧ ∀ n ∈ q, a ≠ .report n ∧ a ≠ .destroy n) :
    k'.queue q := by
  refine (h.keeps (I := fun k => Base k ∧ k.queue q) ?_ ⟨hb, hq⟩).2
  intro a k k' ha hs ⟨hb, hq⟩
  have hq' := hs.queue hb hq (fun n hn => ((hA a ha).2 n hn).1) fun n hn => ((hA a ha).2 n hn).2
  rw [(hA a ha).1] at hq'
  exact ⟨hb.step hs, hq'⟩

theorem Act.unqueued.same {a : Act} (h : a.unqueued) (q : List ChannId) :
    a.requeue q = q ∧ ∀ n ∈ q, a ≠ .report n ∧ a ≠ .destroy n := by
  cases a <;> first | exact h.elim | exact ⟨rfl, fun n _ => ⟨by simp, by simp⟩⟩

theorem Fails.queue {n : ChannId} {k k' : Core} {r : Int} {q : List ChannId} (h : Fails n k k' r)
    (hb : Base k) (hq : k.queue q) (hn : n ∉ q) : k'.queue q ∨ k'.queue (n :: q) := by
  obtain ⟨j, hj, hk⟩ := h.queues
  have hjq : j.queue q := by
    refine hj.queue hb hq fun a ha => ?_
    rcases ha with rfl | rfl <;> exact ⟨rfl, fun m _ => ⟨by simp, by simp⟩⟩
  obtain rfl | hk := hk
  · exact .inl hjq
  · refine .inr (hk.queue (hj.base hb) hjq (fun m hm => ?_) (by simp))
    intro e
    rw [Act.report.injEq] at e
    exact hn (e ▸ hm)

/-- Freeing closed channels spares a queue without closed ones. -/
theorem Steps.reap_spares {k k' : Core} {q : List ChannId} (h : Steps reapActs k k') (hb : Base k)
    (hcl : ∀ n ∈ q, ¬ k.closedAt n) :
    Steps {a | a ∈ reapActs ∧ ∀ n ∈ q, a ≠ .destroy n} k k' := by
  refine (h.keeps (I := fun i => Base i ∧ (∀ n ∈ q, ¬ i.closedAt n) ∧
    Steps {a | a ∈ reapActs ∧ ∀ n ∈ q, a ≠ .destroy n} k i) ?_ ⟨hb, hcl, .refl _⟩).2.2
  intro a i j ha hs ⟨hb, hcl, hsteps⟩
  have hno : ∀ n ∈ q, a ≠ .destroy n := by
    intro n hn he
    subst he
    cases hs with
    | destroy hm hst => exact hcl n hn ⟨_, hm, hst⟩
  refine ⟨hb.step hs, fun n hn hc => ?_, hsteps.trans (.single hs ⟨ha, hno⟩)⟩
  refine hcl n hn ((hs.closedAt_iff hb ?_ (hno n hn)).mp hc)
  obtain ⟨m, rfl | rfl⟩ := ha <;> simp

/-- What a poll does when no closed channel is in `q`. -/
def pollActs (q : List ChannId) : Set Act :=
  {a | (a ∈ reapActs ∧ ∀ n ∈ q, a ≠ .destroy n) ∨ a = .reaped ∨ a = .schedule ∨ a = .batch}

theorem evtPoll_spares {r : Int} {q : List ChannId} (hb : Base s.core)
    (hcl : ∀ n ∈ q, ¬ s.core.closedAt n) (h : Returns evtPoll s r t) :
    Steps (pollActs q) s.core t.core := by
  obtain ⟨k, k', k'', hd, hreap, hsched, hbatch⟩ := evtPoll_spec hb h
  refine ((hd.reap_spares hb hcl).mono fun a ha => .inl ha).trans ((Steps.single hreap ?_).trans
    ((Steps.single hsched ?_).trans (.single hbatch ?_))) <;> simp [pollActs]

def Sys.Queued (s : Sys ε) (n : ChannId) : Prop :=
  Visits (fun n => (s.heap n).bind Chann.disNext) s.mnet.disChanns n

/-- A finite list of allocated channels. -/
def QueueOk (s : Sys ε) : Prop :=
  ∃ q, Chain (fun n => (s.heap n).bind Chann.disNext) s.mnet.disChanns q ∧ q.Nodup ∧
    ∀ n ∈ q, s.heap n ≠ none ∧ Visits (fun n => (s.heap n).bind Chann.next) s.mnet.channs n

/-- No transfer fails on a channel that is queued, and no poll frees one. -/
def SparesQueue (x : ExtTable ε) (s : Sys ε) (c : Call) : Prop :=
  (∀ n, TransferFails x s n c → ¬ s.Queued n) ∧ (c = .poll → ∀ n, s.Closed n → ¬ s.Queued n)

theorem disOf_core (s : Sys ε) : disOf s.core.heap = fun n => (s.heap n).bind Chann.disNext :=
  bind_core s (g := Chann.disNext) fun _ => rfl

theorem queued_iff {q : List ChannId} {n : ChannId} (hq : s.core.queue q) : s.Queued n ↔ n ∈ q := by
  have hl := hq.1
  rw [disOf_core] at hl
  exact hl.visits_iff

/-- Message loop acts never queue a channel, and free none. -/
theorem loopActs_queue {k k' : Core} {q : List ChannId} (h : Steps loopActs k k') (hb : Base k)
    (hq : k.queue q) : ∃ q', k'.queue q' := by
  refine (h.keeps (I := fun k => Base k ∧ ∃ q, k.queue q) ?_ ⟨hb, q, hq⟩).2
  intro a k k' ha hs ⟨hb, q, hq⟩
  refine ⟨hb.step hs, _, hs.queue hb hq (fun n _ => ?_) fun n _ => ?_⟩ <;>
  · rintro rfl
    simp [loopActs, timerActs, recordActs] at ha

theorem Step.queue (hx : Tame x) {i : Call × Ret} (h : Step x s i t) (hp : SparesQueue x s i.1)
    (hb : Base s.core) (hq : ∃ q, s.core.queue q) : ∃ q, t.core.queue q := by
  obtain ⟨c, r⟩ := i
  obtain ⟨q, hq⟩ := hq
  by_cases hpoll : c = .poll
  · subst hpoll
    obtain ⟨_, _, h⟩ := returns_ret.mp h
    have hcl : ∀ n ∈ q, ¬ s.core.closedAt n := fun n hn hc =>
      hp.2 rfl n (closedAt_core.mp hc) ((queued_iff hq).mpr hn)
    refine ⟨q, (evtPoll_spares hb hcl h).queue hb hq fun a ha => ?_⟩
    rcases ha with ⟨⟨m, rfl | rfl⟩, hno⟩ | rfl | rfl | rfl
    · exact ⟨rfl, fun n hn => ⟨by simp, hno n hn⟩⟩
    · exact ⟨rfl, fun n hn => ⟨by simp, hno n hn⟩⟩
    all_goals exact ⟨rfl, fun n _ => ⟨by simp, by simp⟩⟩
  by_cases hfini : c = .mnetFini
  · subst hfini
    obtain ⟨_, _, h⟩ := returns_ret.mp h
    obtain ⟨_, ht⟩ | ⟨_, k, _, hdown⟩ := mnetFini_spec hx hb h
    · exact ⟨q, ht ▸ hq⟩
    · generalize t.core = k' at hdown
      cases hdown
      exact ⟨[], .nil, by simp⟩
  by_cases hnext : ∃ fuel, c = .resultNext fuel
  · obtain ⟨fuel, rfl⟩ := hnext
    obtain ⟨_, _, h⟩ := returns_ret.mp h
    exact loopActs_queue (evtLoop_steps hx hb h) hb hq
  obtain hs | ⟨n, k, hfail, hs, hfails⟩ := h.fails hx hb hpoll hfini fun fuel e => hnext ⟨fuel, e⟩
  · exact ⟨q, hs.queue hb hq fun a ha => Act.unqueued.same ha q⟩
  · have hqk := hs.queue hb hq fun a ha => Act.unqueued.same ha q
    have hn : n ∉ q := fun hm => hp.1 n hfail ((queued_iff hq).mpr hm)
    obtain hq' | hq' := hfails.queue (hs.base hb) hqk hn <;> exact ⟨_, hq'⟩

/-- In a run in which no transfer fails on a queued channel and no poll frees one, the queue is
always a finite list of allocated channels, without duplicates. -/
theorem queue_valid (hx : Tame x) {l : List (Call × Ret)}
    (h : RunWhere x (SparesQueue x) (Sys.start o e) l s) : QueueOk s := by
  obtain ⟨q, hq⟩ := RunWhere.keeps (I := fun k => ∃ q, k.queue q) hx h ⟨[], .nil, by simp⟩
    fun _ _ _ hs hp hb hq => hs.queue hx hp hb hq
  have hl := hq.1
  rw [disOf_core] at hl
  obtain ⟨l', hl', _, hmem, _⟩ := (Reachable.registryOk hx ⟨o, e, l, h.run⟩).channs
  refine ⟨q, hl, hl.nodup, fun n hn => ?_⟩
  have halloc : s.heap n ≠ none := by simpa using hq.2 n hn
  exact ⟨halloc, hl'.chain.visits_iff.mpr ((hmem n).mpr halloc)⟩

/-- A first failure is queued. -/
theorem queue_valid_once : ∃ s : Sys Unit, QueueOk s ∧ s.mnet.disChanns = some 0 := by
  have hrun : AfterWhere noExt (fun s c => s.mnet.disChanns = none ∧ c ≠ .poll)
      [.mnetInit, .channOpen 2, .channConnect (some 0) (some 0) 80, .channSend (some 0) (some [1])]
      (Sys.start (failingOracle [8]) ()) fun t => t.mnet.disChanns = some 0 := by decide +kernel
  obtain ⟨l, s, h, hdis⟩ := hrun.run
  refine ⟨s, queue_valid tame_noExt (Path.mono h fun a i b hs => ⟨hs.1, fun n _ hq => ?_, ?_⟩), hdis⟩
  · rw [Sys.Queued, hs.2.1] at hq
    exact not_visits_none hq
  · intro hpoll
    exact absurd hpoll hs.2.2

/-- A channel that fails, reconnects and fails again follows itself in the queue. -/
theorem not_queue_valid_twice : ∃ l s, Run noExt (Sys.start (failingOracle [8, 17]) ()) l s ∧
    ¬ QueueOk s := by
  have hrun : After noExt [.mnetInit, .channOpen 2, .channConnect (some 0) (some 0) 80,
      .channSend (some 0) (some [1]), .channConnect (some 0) (some 0) 80,
      .channSend (some 0) (some [1])] (Sys.start (failingOracle [8, 17]) ()) fun _ t =>
        t.mnet.disChanns = some 0 ∧ (t.heap 0).bind Chann.disNext = some 0 := by decide +kernel
  obtain ⟨_, s, h, hhead, hnext⟩ := hrun.run
  refine ⟨_, s, h, fun ⟨q, hq, _⟩ => ?_⟩
  rw [hhead] at hq
  exact not_chain_of_self hnext hq

end MNet
