import MNet.Interest
import MNet.Stream

/-! # Stale records

A record holds the channel it is for, not the socket it was reported for. While the records of
a batch are handled, a channel that gets another socket is still the one they point to. -/

namespace MNet
open MNet.Lib MNet.Lib.Exec

variable {ε : Type} {x : ExtTable ε} {s t u : Sys ε} {n : ChannId} {kev : Kev}

/-! ## Records that wait -/

/-- The records of the last batch that have not been handled. -/
def Core.pending (k : Core) : List Kev := (k.evtArray.take k.fdCount.toNat).drop (k.fdIndex + 1).toNat

/-- The record that is fetched next. -/
theorem Core.mem_pending {k : Core} (hi : -1 ≤ k.fdIndex) (hlt : k.fdIndex + 1 < k.fdCount)
    (hlen : (k.fdIndex + 1).toNat < k.evtArray.length) :
    k.evtArray.getD (k.fdIndex + 1).toNat {} ∈ k.pending := by
  have hcount : (k.fdIndex + 1).toNat < k.fdCount.toNat := by omega
  refine List.mem_of_getElem? (i := 0) ?_
  show ((k.evtArray.take k.fdCount.toNat).drop (k.fdIndex + 1).toNat)[0]? = some _
  rw [List.getElem?_drop, Nat.add_zero, List.getElem?_take_of_lt hcount, List.getElem?_eq_getElem hlen,
    List.getD_eq_getElem?_getD, List.getElem?_eq_getElem hlen]
  rfl

/-- A waiting record is of the socket its channel has now, or of a channel that has none. -/
structure Current (k : Core) : Prop where
  index : -1 ≤ k.fdIndex
  lt : ∀ kev ∈ k.pending, ∀ n, kev.ptr = some n → n < k.nextChann
  sock : ∀ kev ∈ k.pending, ∀ n c, kev.ptr = some n → k.heap n = some c → c.state.active →
    kev.sock = k.socks c.fd
  down : ∀ kev ∈ k.pending, ∀ n c, kev.ptr = some n → k.heap n = some c → ¬ c.state.active →
    c.state = .closed ∨ c.fd < 0

section Act

variable {k k' : Core} {a : Act}

theorem CStep.index (hs : CStep k a k') (h : -1 ≤ k.fdIndex) : -1 ≤ k'.fdIndex := by
  have hwire : ∀ {c bytes}, (k.onWire c bytes).fdIndex = k.fdIndex := by
    intro c bytes
    obtain ⟨w, hw⟩ := k.onWire_eq c bytes
    rw [hw]
  cases hs with
  | batch | noBatch => exact Int.le_refl _
  | consume => exact Int.le_trans h (Int.le_add_one (Int.le_refl _))
  | shutdown => exact (by decide : (-1 : Int) ≤ 0)
  | write | flush => exact hwire ▸ h
  | _ => exact h

/-- Only `epoll_wait` brings records. -/
theorem CStep.pending (hs : CStep k a k') (hi : -1 ≤ k.fdIndex) (ha : a ≠ .batch) (h : kev ∈ k'.pending) :
    kev ∈ k.pending := by
  have hwire : ∀ {c bytes}, (k.onWire c bytes).pending = k.pending := by
    intro c bytes
    obtain ⟨w, hw⟩ := k.onWire_eq c bytes
    rw [hw]
    rfl
  have hnil : ∀ i j, kev ∉ (([] : List Kev).take i).drop j := by simp
  cases hs with
  | batch | noBatch => exact absurd rfl ha
  | consume =>
    have he : (k.fdIndex + 1 + 1).toNat = (k.fdIndex + 1).toNat + 1 := by omega
    have h : kev ∈ (k.evtArray.take k.fdCount.toNat).drop (k.fdIndex + 1 + 1).toNat := h
    rw [he, ← List.tail_drop] at h
    exact List.mem_of_mem_tail h
  | openQueue | closeQueue | shutdown => exact absurd h (hnil _ _)
  | write | flush => exact hwire ▸ h
  | _ => exact h

theorem Steps.index {A : Set Act} (h : Steps A k k') (hi : -1 ≤ k.fdIndex) : -1 ≤ k'.fdIndex :=
  h.keeps (I := fun j => -1 ≤ j.fdIndex) (fun _ _ _ _ hs hj => hs.index hj) hi

/-- A fetched record is one that was waiting. -/
theorem Fetches.pending {fuel : Nat} (hx : Tame x) (hb : Base s.core) (hi : -1 ≤ s.core.fdIndex)
    (hf : Fetches x fuel s u kev) (hp : kev.ptr ≠ none) : ∃ k, Steps timerActs s.core k ∧
      kev ∈ k.pending ∧ u.core = { k with fdIndex := k.fdIndex + 1 } := by
  obtain ⟨a, htm, _, rfl⟩ := hf.quiet
  have hs := tmNext_steps hx hb htm
  refine ⟨a.core, hs, ?_, rfl⟩
  have hrec : kev = a.mnet.evtArray.getD (a.mnet.fdIndex + 1).toNat {} := hf.record
  have hlen : (a.mnet.fdIndex + 1).toNat < a.mnet.evtArray.length := by
    by_contra hge
    rw [List.getD_eq_getElem?_getD, List.getElem?_eq_none (Nat.not_lt.mp hge)] at hrec
    exact hp (by rw [hrec]; rfl)
  rw [hrec]
  exact Core.mem_pending (hs.index hi) hf.lt hlen

/-- The acts that open a socket for `n`. -/
def Act.opens (n : ChannId) (a : Act) : Prop := (∃ fd st, a = .attach n fd st) ∨ ∃ fd, a = .refuse n fd

theorem CStep.current (hs : CStep k a k') (hb : Base k) (hw : Watchers k.heap k.epoll) (hk : Current k)
    (ha : ∀ kev ∈ k.pending, ∀ n, kev.ptr = some n → ¬ a.opens n) : Current k' := by
  by_cases hbatch : a = .batch
  · subst hbatch
    cases hs with
    | noBatch => exact ⟨Int.le_refl _, by simp [Core.pending], by simp [Core.pending], by simp [Core.pending]⟩
    | @batch evts hrep =>
      -- the registrations are those of channels with a socket
      have hall : ∀ kev ∈ evts, ∀ n, kev.ptr = some n → ∃ c, k.heap n = some c ∧ c.state.active ∧
          kev.sock = k.socks c.fd := by
        intro kev hkev n hn
        obtain ⟨fd, reg, hreg, hptr, hsock⟩ := hrep kev hkev
        obtain ⟨c, hc, hact, hfd⟩ := hw fd reg hreg
        rw [hptr, Option.some.injEq] at hn
        exact ⟨c, hn ▸ hc, hact, by rw [hsock, hfd]⟩
      have hsub : ∀ kev, kev ∈ Core.pending { k with
          evtArray := evts, fdCount := (evts.length : Int), fdIndex := -1 } → kev ∈ evts :=
        fun kev h => List.mem_of_mem_take (List.mem_of_mem_drop h)
      refine ⟨Int.le_refl _, fun kev h n hn => ?_, fun kev h n c hn hc _ => ?_,
        fun kev h n c hn hc hact => ?_⟩
      · obtain ⟨c, hc, _⟩ := hall kev (hsub kev h) n hn
        exact hb.reg.lt n (by rw [hc]; simp)
      · obtain ⟨d, hd, _, hsock⟩ := hall kev (hsub kev h) n hn
        have hc : k.heap n = some c := hc
        rw [hd, Option.some.injEq] at hc
        exact hc ▸ hsock
      · obtain ⟨d, hd, hdact, _⟩ := hall kev (hsub kev h) n hn
        have hc : k.heap n = some c := hc
        rw [hd, Option.some.injEq] at hc
        exact absurd (hc ▸ hdact) hact
  have hold : ∀ kev ∈ k'.pending, kev ∈ k.pending := fun kev h => hs.pending hk.index hbatch h
  -- the channel of a waiting record is no new one
  have hwas : ∀ kev ∈ k.pending, ∀ n c', kev.ptr = some n → k'.heap n = some c' →
      ∃ c, k.heap n = some c ∧ Touch k n c a c' := by
    intro kev h n c' hn hc'
    cases hc : k.heap n with
    | none =>
      obtain ⟨rfl, _⟩ := hs.appears hb hc hc'
      exact absurd (hk.lt kev h _ hn) (Nat.lt_irrefl _)
    | some c =>
      obtain ⟨_, _, hnone⟩ | ⟨d, hd, ht⟩ := hs.at hb hc
      · rw [hnone] at hc'
        cases hc'
      · rw [hd, Option.some.injEq] at hc'
        exact ⟨c, rfl, hc' ▸ ht⟩
  refine ⟨hs.index hk.index, fun kev h n hn => ?_, fun kev h n c' hn hc' hact => ?_,
    fun kev h n c' hn hc' hact => ?_⟩
  · exact Nat.lt_of_lt_of_le (hk.lt kev (hold kev h) n hn) hs.nextChann_le
  · obtain ⟨c, hc, ht⟩ := hwas kev (hold kev h) n c' hn hc'
    have hkeep : c.state.active → c'.fd = c.fd → a ≠ .disconnect n → kev.sock = k'.socks c'.fd := by
      intro hca hfd hne
      obtain ⟨i, hi⟩ := Option.ne_none_iff_exists'.mp (hb.own.opened n c hc hca).2
      rw [hk.sock kev (hold kev h) n c hn hc hca, hfd, hi, hs.keeps_sock hb hc hca hi hne]
    cases ht with
    | links hne => exact hkeep hact rfl fun he => hne (by rw [he]; rfl)
    | attach => exact absurd (.inl ⟨_, _, rfl⟩) (ha kev (hold kev h) n hn)
    | refuse => exact absurd (.inr ⟨_, rfl⟩) (ha kev (hold kev h) n hn)
    | established hst => exact hkeep (by rw [hst]; trivial) rfl (by simp)
    | disconnect => exact hact.elim
    | close => exact hact.elim
    | interest ho =>
      refine hkeep hact rfl fun he => ?_
      rw [he] at ho
      simp at ho
    | write | flush | sendFlag | slot | report => exact hkeep hact rfl (by simp)
    | timer ho =>
      refine hkeep hact rfl fun he => ?_
      rw [he] at ho
      simp at ho
  · obtain ⟨c, hc, ht⟩ := hwas kev (hold kev h) n c' hn hc'
    have hdown := hk.down kev (hold kev h) n c hn hc
    cases ht with
    | attach => exact absurd (.inl ⟨_, _, rfl⟩) (ha kev (hold kev h) n hn)
    | refuse => exact absurd (.inr ⟨_, rfl⟩) (ha kev (hold kev h) n hn)
    | established => exact absurd trivial hact
    | disconnect => exact .inr (show (-1 : Int) < 0 by decide)
    | close => exact .inl rfl
    | links | interest | write | flush | sendFlag | slot | report | timer => exact hdown hact

/-- Acts that register nothing without a socket, and open none for a channel with a record
waiting. -/
theorem Steps.current {A : Set Act} (h : Steps A k k') (hb : Base k) (hw : Watchers k.heap k.epoll)
    (hk : Current k) (hA : ∀ a ∈ A, (∀ m, a ≠ .rewatch m) ∧
      ∀ m, a.opens m → .batch ∉ A ∧ ∀ kev ∈ k.pending, kev.ptr ≠ some m) :
    Watchers k'.heap k'.epoll ∧ Current k' := by
  refine (h.keeps (I := fun j => Base j ∧ (.batch ∉ A → ∀ kev ∈ j.pending, kev ∈ k.pending) ∧
    Watchers j.heap j.epoll ∧ Current j) ?_ ⟨hb, fun _ _ h => h, hw, hk⟩).2.2
  intro a j j' ha hs ⟨hb, hsub, hw, hk⟩
  obtain ⟨hreg, hopen⟩ := hA a ha
  refine ⟨hb.step hs, fun hno kev hkev => ?_, hs.watchers hb hw fun m _ he => absurd he (hreg m),
    hs.current hb hw hk fun kev hkev m hm ho => ?_⟩
  · exact hsub hno kev (hs.pending hk.index (fun he => hno (he ▸ ha)) hkev)
  · obtain ⟨hno, hfree⟩ := hopen m ho
    exact hfree kev (hsub hno kev hkev) hm

end Act

/-! ## Calls -/

/-- If `n` can be opened, no waiting record is for it. -/
def Sys.unawaited (s : Sys ε) (n : ChannId) : Prop :=
  ∀ c ∈ s.heap n, c.state = .disconnect → ∀ kev ∈ s.core.pending, kev.ptr ≠ some n

/-- No call that may open a socket is made for a channel with a record waiting, and the
registrations are made anew only for channels in use. -/
def SparesPending (s : Sys ε) : Call → Prop
  | .channConnect (some n) host port => host ≠ none → 0 < port → s.unawaited n
  | .channListen (some n) _ port _ => 0 < port → s.unawaited n
  | .dgramSend (some n) addr buf => ∀ a ∈ addr, 0 < a.2 → buf.getD [] ≠ [] →
    (∀ c ∈ s.heap n, isDgram c.ctype = true) → s.unawaited n
  | .multiResetEvent => ∀ n < s.nextChann, ∀ c ∈ s.heap n, c.state.active ∨ c.fd < 0
  | _ => True

instance (s : Sys ε) (n : ChannId) : Decidable (s.unawaited n) := by
  unfold Sys.unawaited
  infer_instance

instance (s : Sys ε) (c : Call) : Decidable (SparesPending s c) := by
  unfold SparesPending
  split <;> infer_instance

section Calls

variable {r : Int}

/-- What a call that may open a socket for `n` keeps. -/
theorem current_of_aim {A : Set Act} (hb : Base s.core) (hw : Watchers s.core.heap s.core.epoll)
    (hk : Current s.core) {c : Chann} (hc : s.heap n = some c) (hp : s.unawaited n)
    (hA : ∀ a ∈ A, (∀ m, a ≠ .rewatch m) ∧ a ≠ .batch ∧ ∀ m, a.opens m → m = n)
    (hidle : c.state = .disconnect → Steps A s.core t.core)
    (hbusy : c.state ≠ .disconnect → Steps {a | ∃ fd, a = .bounce fd} s.core t.core) :
    Watchers t.core.heap t.core.epoll ∧ Current t.core := by
  by_cases hst : c.state = .disconnect
  · refine (hidle hst).current hb hw hk fun a ha => ⟨(hA a ha).1, fun m hm => ?_⟩
    rw [(hA a ha).2.2 m hm]
    exact ⟨fun hbatch => (hA _ hbatch).2.1 rfl, hp c hc hst⟩
  · refine (hbusy hst).current hb hw hk fun a ha => ?_
    obtain ⟨fd, rfl⟩ := ha
    exact ⟨by simp, fun m hm => by simp [Act.opens] at hm⟩

theorem mnetChannConnect_current (hx : Tame x) {host : Option Nat} {port : Int} (hb : Base s.core)
    (hw : Watchers s.core.heap s.core.epoll) (hk : Current s.core)
    (hp : host ≠ none → 0 < port → s.unawaited n)
    (h : Returns (mnetChannConnect x (some n) host port) s r t) :
    Watchers t.core.heap t.core.epoll ∧ Current t.core := by
  have hcall := h
  have hsame : t = s → Watchers t.core.heap t.core.epoll ∧ Current t.core := by
    intro he
    rw [he]
    exact ⟨hw, hk⟩
  cases host with
  | none => exact hsame (returns_pure.mp h).2
  | some host =>
    simp only [mnetChannConnect] at h
    rcases returns_ite.mp h with ⟨hport, h⟩ | ⟨_, h⟩
    · simp only [returns_bind] at h
      obtain ⟨fd, a, hopen, _⟩ := h
      obtain ⟨c, hc, _⟩ := channOpenSocket_spec hopen
      rw [core_heap, Option.map_eq_some_iff] at hc
      obtain ⟨d, hd, rfl⟩ := hc
      refine current_of_aim hb hw hk hd (hp (by simp) hport) (A := connectActs n) (fun a ha => ?_)
        (fun _ => mnetChannConnect_steps hx hb hcall)
        fun hst => mnetChannConnect_busy (core_heap_some hd) hst hcall
      obtain ⟨fd, rfl⟩ | ⟨fd, rfl⟩ | ⟨fd, st, rfl⟩ | rfl | rfl | rfl := ha <;> simp [Act.opens, eq_comm]
    · exact hsame (returns_pure.mp h).2

theorem mnetChannListen_current (hx : Tame x) {host : Option Nat} {port : Int} {backlog : BitVec 32}
    (hb : Base s.core) (hw : Watchers s.core.heap s.core.epoll) (hk : Current s.core)
    (hp : 0 < port → s.unawaited n)
    (h : Returns (mnetChannListen x (some n) host port backlog) s r t) :
    Watchers t.core.heap t.core.epoll ∧ Current t.core := by
  have hcall := h
  simp only [mnetChannListen] at h
  rcases returns_ite.mp h with ⟨hport, h⟩ | ⟨_, h⟩
  · simp only [returns_bind] at h
    obtain ⟨fd, a, hopen, _⟩ := h
    obtain ⟨c, hc, _⟩ := channOpenSocket_spec hopen
    rw [core_heap, Option.map_eq_some_iff] at hc
    obtain ⟨d, hd, rfl⟩ := hc
    refine current_of_aim hb hw hk hd (hp hport) (A := listenActs n) (fun a ha => ?_)
      (fun _ => mnetChannListen_steps hx hcall)
      fun hst => mnetChannListen_busy (core_heap_some hd) hst hcall
    obtain ⟨fd, rfl⟩ | ⟨fd, st, rfl⟩ | rfl := ha <;> simp [Act.opens, eq_comm]
  · rw [(returns_pure.mp h).2]
    exact ⟨hw, hk⟩

theorem mnetDgramSend_current (hx : Tame x) {addr : Option (Nat × Int)} {buf : Option (List UInt8)}
    (hb : Base s.core) (hw : Watchers s.core.heap s.core.epoll) (hk : Current s.core)
    (hp : SparesPending s (.dgramSend (some n) addr buf))
    (h : Returns (mnetDgramSend x (some n) addr buf) s r t) :
    Watchers t.core.heap t.core.epoll ∧ Current t.core := by
  obtain ⟨rfl, _⟩ | ⟨c, host, port, a, hc, hty, rfl, hdata, haim, hsend⟩ := mnetDgramSend_cases h
  · exact ⟨hw, hk⟩
  have hfree : 0 < port → s.unawaited n := fun hport =>
    hp (host, port) rfl hport hdata fun d hd => by
      rw [hc] at hd
      exact Option.some.inj hd ▸ hty
  have ha : Base a.core ∧ Watchers a.core.heap a.core.epoll ∧ Current a.core := by
    refine ⟨(dgramAim_steps hx hb haim).base hb, ?_⟩
    obtain hsame | ⟨r, hconn⟩ := dgramAim_cases hx haim
    · rw [hsame]
      exact ⟨hw, hk⟩
    · exact mnetChannConnect_current hx hb hw hk (fun _ hport => hfree hport) hconn
  refine (mnetChannSend_steps hx ha.1 hsend).current ha.1 ha.2.1 ha.2.2 fun a ha => ?_
  obtain ⟨_, _, rfl⟩ | rfl | rfl | rfl | rfl := ha <;> simp [Act.opens]

/-- A reset while every descriptor is in use registers channels in use only. -/
theorem Steps.current_reset {k k' : Core} (h : Steps resetActs k k') (hb : Base k)
    (hw : Watchers k.heap k.epoll) (hk : Current k)
    (hp : ∀ n c, k.heap n = some c → c.state.active ∨ c.fd < 0) :
    Watchers k'.heap k'.epoll ∧ Current k' := by
  refine (h.keeps (I := fun j => Base j ∧ (∀ n c, j.heap n = some c → c.state.active ∨ c.fd < 0) ∧
    Watchers j.heap j.epoll ∧ Current j) ?_ ⟨hb, hp, hw, hk⟩).2.2
  intro a j j' ha hs ⟨hb, hp, hw, hk⟩
  have hopen : ∀ m, ¬ a.opens m := by
    obtain rfl | rfl | ⟨m, rfl | rfl⟩ := ha <;> simp [Act.opens]
  refine ⟨hb.step hs, fun m c' hc' => ?_, hs.watchers hb hw fun m c he hc => ?_,
    hs.current hb hw hk fun _ _ m _ => hopen m⟩
  · cases hc : j.heap m with
    | none =>
      obtain ⟨_, ⟨ctype, rfl, _⟩ | ⟨fd, q, l, rfl, _⟩⟩ := hs.appears hb hc hc'
      · simp [resetActs] at ha
      · simp [resetActs] at ha
    | some c =>
      have hold := hp m c hc
      cases hs with
      | closeQueue | openQueue =>
        have hc' : j.heap m = some c' := hc'
        rw [hc, Option.some.injEq] at hc'
        exact hc' ▸ hold
      | rewatch hn | forget hn =>
        rcases update_some hc' with ⟨rfl, rfl⟩ | ⟨_, hc'⟩
        · rw [hc, Option.some.injEq] at hn
          exact hn ▸ hold
        · rw [hc, Option.some.injEq] at hc'
          exact hc' ▸ hold
      | _ => simp [resetActs] at ha
  · rw [he] at hs
    cases hs with
    | rewatch hn _ hfd =>
      rw [hc, Option.some.injEq] at hn
      exact (hp m c hc).resolve_right (Int.not_lt.mpr (hn ▸ hfd))

theorem Call.opens_acts {c : Call} {a : Act} (ha : a ∈ c.acts) (h : a.opens n) :
    (∃ host port, c = .channConnect (some n) host port) ∨
      (∃ host port backlog, c = .channListen (some n) host port backlog) ∨
      ∃ addr buf, c = .dgramSend (some n) addr buf := by
  obtain ⟨fd, st, rfl⟩ | ⟨fd, rfl⟩ := h
  · exact Call.attach_acts ha
  · cases c with
    | channConnect m | channListen m | dgramSend m =>
      cases m <;> simp_all [Call.acts, connectActs, listenActs, sendActs]
    | channClose m | channDisconnect m | channActiveEvent m | channRecv m | dgramRecv m | channSend m =>
      cases m <;> simp [Call.acts, activeActs, activeSendActs, activeTimerActs, sendActs] at ha
    | _ =>
      simp [Call.acts, finiActs, reapActs, resetActs, loopActs, timerActs, recordActs] at ha

theorem Step.current (hx : Tame x) {i : Call × Ret} (h : Step x s i t) (hp : SparesPending s i.1)
    (hb : Base s.core) (hw : Watchers s.core.heap s.core.epoll) (hk : Current s.core) :
    Watchers t.core.heap t.core.epoll ∧ Current t.core := by
  obtain ⟨c, r⟩ := i
  by_cases hopens : ∃ m a, a ∈ c.acts ∧ a.opens m
  · obtain ⟨m, a, ha, hm⟩ := hopens
    obtain ⟨host, port, rfl⟩ | ⟨host, port, backlog, rfl⟩ | ⟨addr, buf, rfl⟩ := Call.opens_acts ha hm
    · obtain ⟨_, _, h⟩ := returns_ret.mp h
      exact mnetChannConnect_current hx hb hw hk hp h
    · obtain ⟨_, _, h⟩ := returns_ret.mp h
      exact mnetChannListen_current hx hb hw hk hp h
    · obtain ⟨_, _, h⟩ := returns_ret.mp h
      exact mnetDgramSend_current hx hb hw hk hp h
  by_cases hreset : c = .multiResetEvent
  · subst hreset
    refine (apiCall_steps hx hb h).current_reset hb hw hk fun m d hd => ?_
    have hlt : m < s.nextChann := hb.reg.lt m (by rw [hd]; simp)
    rw [core_heap, Option.map_eq_some_iff] at hd
    obtain ⟨e, he, rfl⟩ := hd
    exact hp m hlt e he
  · refine (apiCall_steps hx hb h).current hb hw hk fun a ha => ⟨fun m he => ?_, fun m hm => ?_⟩
    · have hkeep := Call.keepsMask_acts hreset ha
      rw [he] at hkeep
      exact hkeep
    · exact absurd ⟨m, a, ha, hm⟩ hopens

end Calls

/-! ## The message loop -/

theorem current_start (o : Oracle) (e : ε) : Current (Sys.start o e).core where
  index := show (-1 : Int) ≤ 0 by decide
  lt := by intro kev h; simp [Core.pending, Sys.start, Sys.core] at h
  sock := by intro kev h; simp [Core.pending, Sys.start, Sys.core] at h
  down := by intro kev h; simp [Core.pending, Sys.start, Sys.core] at h

theorem loopActs_current {a : Act} (ha : a ∈ loopActs) :
    (∀ m, a ≠ .rewatch m) ∧ ∀ m, ¬ a.opens m := by
  obtain (rfl | ⟨_, rfl | rfl | rfl⟩) | ⟨_, rfl⟩ | rfl | ⟨_, _, rfl | rfl | rfl | rfl | rfl | ⟨_, rfl⟩ |
    ⟨_, rfl⟩ | ⟨_, rfl⟩ | rfl | rfl⟩ := ha <;> simp [Act.opens]

theorem InsideWhere.current (hx : Tame x) (h : InsideWhere x SparesPending s) :
    Base s.core ∧ Watchers s.core.heap s.core.epoll ∧ Current s.core := by
  induction h with
  | @call o e l s h =>
    refine Path.keeps (I := fun s : Sys ε =>
      Base s.core ∧ Watchers s.core.heap s.core.epoll ∧ Current s.core) h ?_
      ⟨base_start o e, (watched_start o e).watchers, current_start o e⟩
    intro a i b ⟨hs, hp⟩ ⟨hb, hw, hk⟩
    exact ⟨hs.base hx hb, hs.current hx hp hb hw hk⟩
  | next _ hp ih =>
    obtain ⟨hb, hw, hk⟩ := ih
    have hs := evtPass_steps hx hb hp
    refine ⟨hs.base hb, hs.current hb hw hk fun a ha => ?_⟩
    exact ⟨(loopActs_current ha).1, fun m hm => absurd hm ((loopActs_current ha).2 m)⟩

/-- A fetched record was waiting, and the channels and their sockets are those of `u`. -/
theorem Fetches.current {fuel : Nat} (hx : Tame x) (hb : Base s.core)
    (hw : Watchers s.core.heap s.core.epoll) (hk : Current s.core) (hf : Fetches x fuel s u kev)
    (hp : kev.ptr ≠ none) : ∃ k, Current k ∧ kev ∈ k.pending ∧ k.heap = u.core.heap ∧
      k.socks = u.core.socks := by
  obtain ⟨k, hs, hmem, hu⟩ := hf.pending hx hb hk.index hp
  refine ⟨k, (hs.current hb hw hk fun b hb => ?_).2, hmem, by rw [hu], by rw [hu]⟩
  exact ⟨(loopActs_current (.inl hb)).1, fun m hm => absurd hm ((loopActs_current (.inl hb)).2 m)⟩

/-! ## Records and channels -/

/-- A channel less its place in the list. -/
def CChann.contents (c : CChann) : CChann := { c with next := none, prev := none }

/-- Handling the record changes the channel `n`, or gives a message of it. -/
def Affected (u t : Sys ε) (p : Pass) (n : ChannId) : Prop :=
  p = .ret (some n) ∨
    (t.core.heap n).map CChann.contents ≠ (u.core.heap n).map CChann.contents

theorem Steps.elsewhere {A : Set Act} {k k' : Core} {c : CChann} (h : Steps A k k') (hb : Base k)
    (hn : k.heap n = some c) (hA : ∀ a ∈ A, a.target ≠ some n) :
    (k'.heap n).map CChann.contents = some c.contents := by
  refine (h.keeps (I := fun j => Base j ∧ (j.heap n).map CChann.contents = some c.contents) ?_
    ⟨hb, by rw [hn]; rfl⟩).2
  intro a j j' ha hs ⟨hb, hj⟩
  obtain ⟨d, hd, hdc⟩ := Option.map_eq_some_iff.mp hj
  refine ⟨hb.step hs, ?_⟩
  obtain ⟨rfl, _⟩ | ⟨d', hd', ht⟩ := hs.at hb hd
  · exact absurd rfl (hA _ ha)
  · obtain ⟨nx, pv, rfl⟩ := ht.elsewhere (hA a ha)
    rw [hd', ← hdc]
    rfl

/-- A record affects the channel it points to, and no other that exists. -/
theorem Affected.ptr (hx : Tame x) (hb : Base u.core) {p : Pass} {c : Chann}
    (hd : Returns (evtDispatch x kev) u p t) (hc : u.heap n = some c) (ha : Affected u t p n) :
    kev.ptr = some n := by
  obtain rfl | hne := ha
  · obtain ⟨m, _, hm, _, _, hq⟩ := evtDispatch_ret hd
    rw [hm, hq]
  · obtain ⟨m, hm, hs⟩ := evtDispatch_steps hx hb hd
    by_contra hnm
    have hmn : m ≠ n := fun he => hnm (he ▸ hm)
    have hcore := core_heap_some hc
    have hlt := hb.reg.lt n (by rw [hcore]; simp)
    have hfresh : u.core.nextChann ≠ n := Nat.ne_of_gt hlt
    refine hne ?_
    rw [hs.elsewhere hb hcore fun a ha => ?_, hcore, Option.map_some]
    obtain rfl | rfl | rfl | rfl | rfl | ⟨_, rfl⟩ | ⟨_, rfl⟩ | ⟨_, rfl⟩ | rfl | rfl := ha <;>
      simp [Act.target, hmn, hfresh]

/-- While no socket is opened for a channel with a record waiting, a record affects only the
channel that still has the socket it was reported for. -/
theorem record_of_current_socket (hx : Tame x) {fuel : Nat} {p : Pass} {c : Chann}
    (hs : InsideWhere x SparesPending s) (hf : Fetches x fuel s u kev)
    (hd : Returns (evtDispatch x kev) u p t) (hc : u.heap n = some c) (ha : Affected u t p n) :
    kev.ptr = some n ∧ kev.sock = u.kernel.socks c.fd := by
  obtain ⟨hb, hw, hk⟩ := hs.current hx
  have hptr := ha.ptr hx ((hf.idle_steps hx hb).base hb) hd hc
  refine ⟨hptr, ?_⟩
  obtain ⟨k, hcur, hmem, hheap, hsocks⟩ := hf.current hx hb hw hk (by rw [hptr]; simp)
  have hkc : k.heap n = some c.core := by
    rw [hheap]
    exact core_heap_some hc
  by_cases hact : c.core.state.active
  · rw [hcur.sock kev hmem n _ hptr hkc hact, hsocks]
    rfl
  -- without a socket the record is dropped
  · have hdown := hcur.down kev hmem n _ hptr hkc hact
    obtain ⟨m, d, hm, hmd, ⟨_, rfl, rfl⟩ | ⟨hst, hfd, _⟩ | ⟨hst, hfd, _⟩⟩ := evtDispatch_cases hd
    · obtain h | h := ha
      · cases h
      · exact absurd rfl h
    all_goals
      obtain rfl : m = n := Option.some.inj (hm.symm.trans hptr)
      obtain rfl : d = c := Option.some.inj (hmd.symm.trans hc)
      obtain hcl | hneg := hdown
      · exact absurd hcl hst
      · exact absurd hneg (Int.not_lt.mpr hfd)

/-- A loop of one round. -/
theorem evtResultNext_one {q : Option ChannId} (h : Returns (evtResultNext x 1) s q t) :
    Returns (evtPass x 1) s (.ret q) t := by
  obtain ⟨p, a, hpass, h⟩ := (returns_bind (m := evtPass x 1)).mp h
  cases p with
  | next => exact absurd h returns_fail
  | ret q =>
    obtain ⟨rfl, rfl⟩ := returns_pure.mp h
    exact hpass

/-- An environment that reports the descriptors 13 and 4 as writable, in this order. -/
def staleOracle : Oracle :=
  { quietOracle with events := fun _ => [(13, EPOLLOUT), (4, EPOLLOUT)] }

def staleCalls : List Call :=
  [.mnetInit, .channOpen 1, .channOpen 1, .channConnect (some 0) (some 0) 80,
    .channConnect (some 1) (some 0) 80, .poll, .resultNext 5]

set_option synthInstance.maxSize 1000 in
/-- The second record of a batch, for the socket its channel still has. -/
theorem record_of_current_socket_second : ∃ (u t : Sys Unit) (kev : Kev) (c : Chann),
    Affected u t (.ret (some 0)) 0 ∧ u.heap 0 = some c ∧ kev.ptr = some 0 ∧
      kev.sock = u.kernel.socks c.fd := by
  have hrun : AfterWhere noExt SparesPending staleCalls (Sys.start staleOracle ()) fun s =>
      (s.mnet.tmPos = none ∧ s.mnet.disChanns = none ∧ s.mnet.fdIndex = 0 ∧ s.mnet.fdCount = 2) ∧
        s.heap 0 ≠ none ∧ After noExt [.resultNext 1] s fun rs _ => rs = [.msg (some 0)] := by
    decide +kernel
  obtain ⟨_, s, hs, ⟨hpos, hdis, hidx, hcount⟩, hheap, hnext⟩ := hrun.run
  obtain ⟨c, hc⟩ := Option.ne_none_iff_exists'.mp hheap
  obtain ⟨r, t, hcall, hmsg⟩ := hnext.step
  obtain ⟨q, rfl, hret⟩ := returns_ret.mp hcall
  obtain rfl : q = some 0 := by simpa using hmsg
  have hf : Fetches noExt 1 s _ _ := fetches_idle hpos hdis (by rw [hidx, hcount]; decide)
  have hd := (hf.pass _ _).mp (evtResultNext_one hret)
  have hsock := record_of_current_socket tame_noExt (.call hs) hf hd hc (.inl rfl)
  refine ⟨_, t, _, c, ?_, ?_, hsock⟩
  · exact .inl rfl
  · exact hc

/-- A channel that was connected anew while a record of its old socket was waiting. -/
theorem not_record_of_current_socket : ¬ ∀ (s u t : Sys Unit) (fuel : Nat) (kev : Kev) (p : Pass)
    (n : ChannId) (c : Chann), Inside noExt s → Fetches noExt fuel s u kev →
    Returns (evtDispatch noExt kev) u p t → u.heap n = some c → Affected u t p n →
    kev.sock = u.kernel.socks c.fd := by
  intro hall
  have hrun : After noExt (staleCalls ++ [.channDisconnect (some 0), .channConnect (some 0) (some 0) 80])
      (Sys.start staleOracle ()) fun _ s =>
      (s.mnet.tmPos = none ∧ s.mnet.disChanns = none ∧ s.mnet.fdIndex = 0 ∧ s.mnet.fdCount = 2 ∧
        s.mnet.evtArray = [⟨EPOLLOUT, some 1, some 1⟩, ⟨EPOLLOUT, some 0, some 0⟩] ∧
        (s.heap 0).map (fun c => s.kernel.socks c.fd) = some (some 2)) ∧
      After noExt [.resultNext 1] s fun rs t => rs = [.msg (some 0)] ∧
        (t.heap 0).map (fun c => c.msg.event) = some (some .connected) := by
    decide +kernel
  obtain ⟨_, s, hs, ⟨hpos, hdis, hidx, hcount, hevts, hsock⟩, hnext⟩ := hrun.run
  obtain ⟨c, hc, hcs⟩ := Option.map_eq_some_iff.mp hsock
  obtain ⟨r, t, hcall, hmsg, _⟩ := hnext.step
  obtain ⟨q, rfl, hret⟩ := returns_ret.mp hcall
  obtain rfl : q = some 0 := by simpa using hmsg
  have hf : Fetches noExt 1 s _ _ := fetches_idle hpos hdis (by rw [hidx, hcount]; decide)
  have hd := (hf.pass _ _).mp (evtResultNext_one hret)
  have hold := hall s _ t 1 _ _ 0 c (.call ⟨_, _, _, hs⟩) hf hd hc (.inl rfl)
  rw [hevts, hidx] at hold
  have hzero : (some 0 : Option SockId) = s.kernel.socks c.fd := hold
  rw [hcs] at hzero
  cases hzero

end MNet
