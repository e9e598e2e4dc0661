import MNet.Delivery

/-! # Registered interest

A channel keeps the mask it asked for in `epoll_events`, the kernel what it was granted. While
no call resets the queue the two agree, and only channels with a socket are registered. So
`_evt_add` works whenever the kernel grants it. -/

namespace MNet
open MNet.Lib MNet.Lib.Exec

variable {ε : Type} {x : ExtTable ε} {s t : Sys ε} {n : ChannId}

/-- Registrations are those of channels with a socket, for their descriptors. -/
def Watchers (heap : Heap) (epoll : Int → Option EpollReg) : Prop :=
  ∀ fd reg, epoll fd = some reg → ∃ c, heap reg.ptr = some c ∧ c.state.active ∧ c.fd = fd

/-- What is registered for a channel is the mask it keeps. -/
structure Mirrored (heap : Heap) (epoll : Int → Option EpollReg) : Prop where
  mask : ∀ n c, heap n = some c → c.state.active →
    epoll c.fd = if c.epollEvents = 0 then none else some ⟨c.epollEvents, n⟩
  idle : ∀ n c, heap n = some c → ¬ c.state.active → c.epollEvents = 0

namespace Watchers

variable {heap : Heap} {epoll : Int → Option EpollReg} {c c' : CChann} {v : Option CChann}

theorem of_write (h : Watchers heap epoll) (hn : heap n = some c) (hfd : c'.fd = c.fd)
    (hst : c.state.active → c'.state.active) :
    Watchers (Function.update heap n (some c')) epoll := by
  intro fd reg hreg
  obtain ⟨d, hd, hact, hdf⟩ := h fd reg hreg
  by_cases hm : reg.ptr = n
  · rw [hm, hn] at hd
    cases hd
    exact ⟨c', by rw [hm]; exact Function.update_self .., hst hact, hfd.trans hdf⟩
  · exact ⟨d, by rw [Function.update_of_ne hm]; exact hd, hact, hdf⟩

/-- What had no socket was not registered. -/
theorem place (h : Watchers heap epoll) (hn : ∀ c, heap n = some c → ¬ c.state.active) :
    Watchers (Function.update heap n v) epoll := by
  intro fd reg hreg
  obtain ⟨d, hd, hact, hdf⟩ := h fd reg hreg
  have hm : reg.ptr ≠ n := fun he => hn d (he ▸ hd) hact
  exact ⟨d, by rw [Function.update_of_ne hm]; exact hd, hact, hdf⟩

theorem alterAt (h : Watchers heap epoll) {p : Option ChannId} {f : CChann → CChann}
    (hfd : ∀ c, (f c).fd = c.fd) (hst : ∀ c, (f c).state = c.state) :
    Watchers (alterAt heap p f) epoll := by
  cases p with
  | none => exact h
  | some m =>
    cases hm : heap m with
    | none =>
      refine h.place fun c hc => ?_
      rw [hm] at hc
      cases hc
    | some c =>
      show Watchers (Function.update heap m ((heap m).map f)) epoll
      rw [hm]
      exact h.of_write hm (hfd c) fun ha => by rw [hst]; exact ha

/-- Closing a descriptor drops its registration. -/
theorem release (h : Watchers heap epoll) (hn : heap n = some c) :
    Watchers (Function.update heap n v) (Function.update epoll c.fd none) := by
  intro fd reg hreg
  have hfd : fd ≠ c.fd := by
    rintro rfl
    rw [Function.update_self] at hreg
    cases hreg
  rw [Function.update_of_ne hfd] at hreg
  obtain ⟨d, hd, hact, hdf⟩ := h fd reg hreg
  have hm : reg.ptr ≠ n := by
    intro he
    rw [he, hn] at hd
    cases hd
    exact hfd hdf.symm
  exact ⟨d, by rw [Function.update_of_ne hm]; exact hd, hact, hdf⟩

theorem interest (h : Watchers heap epoll) (hn : heap n = some c) (ha : c.state.active)
    (events : BitVec 32) :
    Watchers (Function.update heap n (some { c with epollEvents := events }))
      (Function.update epoll c.fd (if events = 0 then none else some ⟨events, n⟩)) := by
  intro fd reg hreg
  by_cases hfd : fd = c.fd
  · subst hfd
    rw [Function.update_self] at hreg
    split at hreg
    · cases hreg
    · cases hreg
      exact ⟨_, Function.update_self .., ha, rfl⟩
  · rw [Function.update_of_ne hfd] at hreg
    have hw : Watchers (Function.update heap n (some { c with epollEvents := events })) epoll :=
      h.of_write hn rfl id
    exact hw fd reg hreg

/-- Nothing is registered for a descriptor that is not open. -/
theorem unregistered (h : Watchers heap epoll) {socks : Int → Option SockId} {fresh : SockId}
    (ho : Owning heap socks fresh) {fd : Int} (hfd : socks fd = none) : epoll fd = none := by
  cases hreg : epoll fd with
  | none => rfl
  | some reg =>
    obtain ⟨d, hd, hact, hdf⟩ := h fd reg hreg
    exact absurd (hdf ▸ hfd) (ho.opened _ d hd hact).2

end Watchers

namespace Mirrored

variable {heap : Heap} {epoll : Int → Option EpollReg} {c c' : CChann} {socks : Int → Option SockId}
  {fresh : SockId}

theorem of_write (h : Mirrored heap epoll) (hn : heap n = some c) (hfd : c'.fd = c.fd)
    (hst : c'.state.active ↔ c.state.active) (he : c'.epollEvents = c.epollEvents) :
    Mirrored (Function.update heap n (some c')) epoll := by
  refine ⟨fun m d hd hact => ?_, fun m d hd hact => ?_⟩
  · obtain ⟨rfl, rfl⟩ | ⟨_, hd⟩ := update_some hd
    · rw [hfd, he]
      exact h.mask m c hn (hst.mp hact)
    · exact h.mask m d hd hact
  · obtain ⟨rfl, rfl⟩ | ⟨_, hd⟩ := update_some hd
    · rw [he]
      exact h.idle m c hn fun ha => hact (hst.mpr ha)
    · exact h.idle m d hd hact

/-- A channel that has asked for nothing, with an unregistered descriptor or no socket. -/
theorem place (h : Mirrored heap epoll) (he : c'.epollEvents = 0)
    (hfree : c'.state.active → epoll c'.fd = none) :
    Mirrored (Function.update heap n (some c')) epoll := by
  refine ⟨fun m d hd hact => ?_, fun m d hd hact => ?_⟩
  · obtain ⟨rfl, rfl⟩ | ⟨_, hd⟩ := update_some hd
    · rw [if_pos he]
      exact hfree hact
    · exact h.mask m d hd hact
  · obtain ⟨rfl, rfl⟩ | ⟨_, hd⟩ := update_some hd
    · exact he
    · exact h.idle m d hd hact

theorem alterAt (h : Mirrored heap epoll) {p : Option ChannId} {f : CChann → CChann}
    (hfd : ∀ c, (f c).fd = c.fd) (hst : ∀ c, (f c).state = c.state)
    (he : ∀ c, (f c).epollEvents = c.epollEvents) : Mirrored (alterAt heap p f) epoll := by
  refine ⟨fun m d hd hact => ?_, fun m d hd hact => ?_⟩
  · obtain ⟨_, c, hc, rfl⟩ | ⟨_, hd⟩ := alterAt_some hd
    · rw [hfd, he]
      exact h.mask m c hc (hst c ▸ hact)
    · exact h.mask m d hd hact
  · obtain ⟨_, c, hc, rfl⟩ | ⟨_, hd⟩ := alterAt_some hd
    · rw [he]
      exact h.idle m c hc (hst c ▸ hact)
    · exact h.idle m d hd hact

theorem free (h : Mirrored heap epoll) : Mirrored (Function.update heap n none) epoll := by
  have hback : ∀ m d, Function.update heap n none m = some d → heap m = some d := by
    intro m d hd
    by_cases hm : m = n
    · subst hm
      simp at hd
    · rwa [Function.update_of_ne hm] at hd
  exact ⟨fun m d hd => h.mask m d (hback m d hd), fun m d hd => h.idle m d (hback m d hd)⟩

/-- A channel loses its socket, and with it what was registered. -/
theorem release (h : Mirrored heap epoll) (ho : Owning heap socks fresh) (hn : heap n = some c)
    (ha : c.state.active) (ha' : ¬ c'.state.active) (he : c'.epollEvents = 0) :
    Mirrored (Function.update heap n (some c')) (Function.update epoll c.fd none) := by
  refine ⟨fun m d hd hact => ?_, fun m d hd hact => ?_⟩
  · obtain ⟨rfl, rfl⟩ | ⟨hm, hd⟩ := update_some hd
    · exact absurd hact ha'
    · have hfd : d.fd ≠ c.fd := fun hf => hm (ho.inj m n d c hd hn hact ha hf)
      rw [Function.update_of_ne hfd]
      exact h.mask m d hd hact
  · obtain ⟨rfl, rfl⟩ | ⟨_, hd⟩ := update_some hd
    · exact he
    · exact h.idle m d hd hact

theorem interest (h : Mirrored heap epoll) (ho : Owning heap socks fresh) (hn : heap n = some c)
    (ha : c.state.active) (events : BitVec 32) :
    Mirrored (Function.update heap n (some { c with epollEvents := events }))
      (Function.update epoll c.fd (if events = 0 then none else some ⟨events, n⟩)) := by
  refine ⟨fun m d hd hact => ?_, fun m d hd hact => ?_⟩
  · obtain ⟨rfl, rfl⟩ | ⟨hm, hd⟩ := update_some hd
    · exact Function.update_self ..
    · have hfd : d.fd ≠ c.fd := fun hf => hm (ho.inj m n d c hd hn hact ha hf)
      rw [Function.update_of_ne hfd]
      exact h.mask m d hd hact
  · obtain ⟨rfl, rfl⟩ | ⟨_, hd⟩ := update_some hd
    · exact absurd ha hact
    · exact h.idle m d hd hact

end Mirrored

/-- The masks agree, and there is a queue as soon as there are channels. -/
structure Watched (k : Core) : Prop where
  watchers : Watchers k.heap k.epoll
  mirrored : Mirrored k.heap k.epoll
  queue : ∀ n, k.heap n ≠ none → k.kq = true

section Act

variable {k k' : Core} {a : Act} {c : CChann}

theorem ChannState.not_active_disconnect {st : ChannState} (h : st = .disconnect) : ¬ st.active := by
  rw [h]
  exact id

theorem ChannState.not_active_closed {st : ChannState} (h : st = .closed) : ¬ st.active := by
  rw [h]
  exact id

/-- Only a reset may register a channel without a socket. -/
theorem CStep.watchers (hs : CStep k a k') (hb : Base k) (hw : Watchers k.heap k.epoll)
    (ha : ∀ m c, a = .rewatch m → k.heap m = some c → c.state.active) :
    Watchers k'.heap k'.epoll := by
  have hfresh : ∀ v, Watchers (Function.update k.heap k.nextChann v) k.epoll := fun v =>
    hw.place fun c hc => by
      rw [hb.heap_fresh] at hc
      cases hc
  cases hs with
  | create => exact (hfresh _).alterAt (fun _ => rfl) fun _ => rfl
  | accept => exact (hfresh _).alterAt (fun _ => rfl) fun _ => rfl
  | leak | deliver | schedule | park | batch | noBatch | consume | reaped | boot => exact hw
  | bounce _ hfd =>
    show Watchers k.heap (Function.update k.epoll _ none)
    rw [Function.update_eq_self_iff.mpr (hw.unregistered hb.own hfd).symm]
    exact hw
  | attach hn hst | refuse hn hst =>
    refine hw.place fun c hc => ?_
    rw [hn] at hc
    cases hc
    exact ChannState.not_active_disconnect hst
  | established hn => exact hw.of_write hn rfl fun _ => trivial
  | disconnect hn => exact hw.release hn
  | close hn hst => exact hw.of_write hn rfl fun ha => absurd ha (ChannState.not_active_disconnect hst)
  | @destroy m c hn hst =>
    have hself : ∀ i, c.next = some i ∨ c.prev = some i → i ≠ m :=
      fun i hi => (hb.reg.neighbours hn hi).1
    have hlinks : Watchers (k.unlinked c).heap k.epoll := by
      refine Watchers.alterAt (Watchers.alterAt hw ?_ ?_) ?_ ?_ <;> exact fun _ => rfl
    refine hlinks.place fun d hd => ?_
    rw [Core.unlinked_heap hself, hn] at hd
    cases hd
    exact ChannState.not_active_closed hst
  | watch hn hact | unwatch hn hact | mute hn hact => exact hw.interest hn hact _
  | rewatch hn => exact hw.interest hn (ha _ _ rfl hn) _
  | openQueue | closeQueue => intro fd reg hreg; cases hreg
  | @write m c data i hn =>
    obtain ⟨w, hwire⟩ := k.onWire_eq c (data.take i)
    rw [hwire]
    exact hw.of_write hn rfl id
  | @flush m c i hn =>
    obtain ⟨w, hwire⟩ := k.onWire_eq c ((rwbDrainParam c.rwbSend).take i)
    rw [hwire]
    exact hw.of_write hn rfl id
  | slot msg hn => exact hw.of_write hn rfl id
  | forget hn | sendFlag hn | report hn | arm hn | rearm hn | disarm hn | fire hn =>
    exact hw.of_write hn rfl id
  | shutdown hc =>
    intro fd reg hreg
    have hnone : k.epoll fd = some reg := by
      simp only [Core.wiped] at hreg
      split at hreg
      · cases hreg
      · exact hreg
    obtain ⟨d, hd, _⟩ := hw fd reg hnone
    have hr : Registered k.heap none k.channCount k.nextChann := hc ▸ hb.reg
    rw [hr.all_none] at hd
    cases hd

/-- The acts that keep a mask and its registration equal. -/
def Act.keepsMask : Act → Prop
  | .rewatch _ | .forget _ | .closeQueue => False
  | _ => True

theorem CStep.mirrored (hs : CStep k a k') (hb : Base k) (hw : Watchers k.heap k.epoll)
    (hm : Mirrored k.heap k.epoll) (hq : ∀ n, k.heap n ≠ none → k.kq = true)
    (ha : a.keepsMask) : Mirrored k'.heap k'.epoll := by
  have hempty : (∀ n, k.heap n = none) → ∀ epoll, Mirrored k.heap epoll := by
    intro hno epoll
    constructor
    all_goals
      intro n c hc
      rw [hno] at hc
      cases hc
  cases hs with
  | create => exact (hm.place rfl fun h => absurd h id).alterAt (fun _ => rfl) (fun _ => rfl) fun _ => rfl
  | accept _ _ hfd =>
    exact (hm.place rfl fun _ => hw.unregistered hb.own hfd).alterAt (fun _ => rfl) (fun _ => rfl)
      fun _ => rfl
  | leak | deliver | schedule | park | batch | noBatch | consume | reaped | boot => exact hm
  | bounce _ hfd =>
    show Mirrored k.heap (Function.update k.epoll _ none)
    rw [Function.update_eq_self_iff.mpr (hw.unregistered hb.own hfd).symm]
    exact hm
  | attach hn hst _ hfd =>
    have hzero := hm.idle _ _ hn (ChannState.not_active_disconnect hst)
    exact hm.place hzero fun _ => hw.unregistered hb.own hfd
  | refuse hn hst =>
    have hzero := hm.idle _ _ hn (ChannState.not_active_disconnect hst)
    exact hm.place hzero fun h => absurd h (ChannState.not_active_disconnect hst)
  | established hn hst =>
    exact hm.of_write hn rfl ⟨fun _ => by rw [hst]; trivial, fun _ => trivial⟩ rfl
  | disconnect hn _ hact => exact hm.release hb.own hn hact (by exact id) rfl
  | close hn hst =>
    exact hm.of_write hn rfl ⟨fun h => absurd h id, fun h => absurd h (ChannState.not_active_disconnect hst)⟩ rfl
  | destroy =>
    refine Mirrored.free (Mirrored.alterAt (Mirrored.alterAt hm ?_ ?_ ?_) ?_ ?_ ?_) <;>
      exact fun _ => rfl
  | watch hn hact | unwatch hn hact | mute hn hact => exact hm.interest hb.own hn hact _
  | rewatch | forget | closeQueue => exact ha.elim
  | openQueue hkq =>
    refine hempty (fun n => ?_) _
    by_contra hn
    rw [hq n hn] at hkq
    cases hkq
  | @write m c data i hn =>
    obtain ⟨w, hwire⟩ := k.onWire_eq c (data.take i)
    rw [hwire]
    exact hm.of_write hn rfl Iff.rfl rfl
  | @flush m c i hn =>
    obtain ⟨w, hwire⟩ := k.onWire_eq c ((rwbDrainParam c.rwbSend).take i)
    rw [hwire]
    exact hm.of_write hn rfl Iff.rfl rfl
  | slot msg hn => exact hm.of_write hn rfl Iff.rfl rfl
  | sendFlag hn | report hn | arm hn | rearm hn | disarm hn | fire hn =>
    exact hm.of_write hn rfl Iff.rfl rfl
  | shutdown hc =>
    have hr : Registered k.heap none k.channCount k.nextChann := hc ▸ hb.reg
    exact hempty hr.all_none _

/-- Only channels that are accepted or opened are new, and only a reset takes the queue away. -/
theorem CStep.has_queue (hs : CStep k a k') (hb : Base k) (hq : ∀ n, k.heap n ≠ none → k.kq = true)
    (ha : a.keepsMask) (hnew : ∀ n ctype, a = .create n ctype → k.kq = true) (hn : k'.heap n ≠ none) :
    k'.kq = true := by
  have hold : k.kq = true ∨ a = .openQueue := by
    cases hc : k.heap n with
    | some c => exact .inl (hq n (by rw [hc]; simp))
    | none =>
      obtain ⟨c, hc'⟩ := Option.ne_none_iff_exists'.mp hn
      obtain ⟨_, ⟨ctype, rfl, _⟩ | ⟨_, m, l, _, _, _, _, hl, _⟩⟩ := hs.appears hb hc hc'
      · exact .inl (hnew n ctype rfl)
      · exact .inl (hq m (by rw [hl]; simp))
  cases hs with
  | openQueue => rfl
  | closeQueue => exact ha.elim
  | shutdown hc =>
    have hr : Registered k.heap none k.channCount k.nextChann := hc ▸ hb.reg
    exact absurd (hr.all_none n) hn
  | @write m c data i =>
    obtain ⟨w, hwire⟩ := k.onWire_eq c (data.take i)
    rw [hwire]
    exact hold.resolve_right (by simp)
  | @flush m c i =>
    obtain ⟨w, hwire⟩ := k.onWire_eq c ((rwbDrainParam c.rwbSend).take i)
    rw [hwire]
    exact hold.resolve_right (by simp)
  | _ => exact hold.resolve_right (by simp)

theorem CStep.watched (hs : CStep k a k') (hb : Base k) (hw : Watched k) (ha : a.keepsMask)
    (hnew : ∀ n ctype, a = .create n ctype → k.kq = true) : Watched k' where
  watchers := hs.watchers hb hw.watchers fun m c he _ => by
    rw [he] at ha
    exact ha.elim
  mirrored := hs.mirrored hb hw.watchers hw.mirrored hw.queue ha
  queue _ hn := hs.has_queue hb hw.queue ha hnew hn

theorem Steps.watched {A : Set Act} (h : Steps A k k') (hb : Base k) (hw : Watched k)
    (hA : ∀ a ∈ A, a.keepsMask ∧ ∀ n ctype, a ≠ .create n ctype) : Watched k' := by
  refine (h.keeps (I := fun k => Base k ∧ Watched k) ?_ ⟨hb, hw⟩).2
  intro a k k' ha hs ⟨hb, hw⟩
  exact ⟨hb.step hs, hs.watched hb hw (hA a ha).1 fun n ctype he => absurd he ((hA a ha).2 n ctype)⟩

/-- What the kernel will grant does not change. -/
theorem CStep.ctl (hs : CStep k a k') : k'.ctl = k.ctl := by
  cases hs with
  | @write n c data i =>
    obtain ⟨w, hwire⟩ := k.onWire_eq c (data.take i)
    rw [hwire]
    rfl
  | @flush n c i =>
    obtain ⟨w, hwire⟩ := k.onWire_eq c ((rwbDrainParam c.rwbSend).take i)
    rw [hwire]
    rfl
  | _ => rfl

theorem Steps.ctl {A : Set Act} (h : Steps A k k') : k'.ctl = k.ctl :=
  h.keeps (I := fun j => j.ctl = k.ctl) (fun _ _ _ _ hs he => hs.ctl.trans he) rfl

end Act

/-! ## Calls -/

/-- No reset, and no channel opened while there is no queue to register it with. -/
def KeepsQueue (s : Sys ε) : Call → Prop
  | .multiResetEvent => False
  | .channOpen ctype => s.mnet.reserved ctype = true → s.mnet.kq = true
  | _ => True

instance (s : Sys ε) : (c : Call) → Decidable (KeepsQueue s c)
  | .multiResetEvent => instDecidableFalse
  | .channOpen ctype => inferInstanceAs (Decidable (s.mnet.reserved ctype = true → s.mnet.kq = true))
  | .mnetInit | .mnetFini | .multiAcceptBalancer .. | .extRegister .. | .poll |
    .resultNext .. | .channClose .. | .channConnect .. | .channDisconnect .. |
    .channListen .. | .channSetOpaque .. | .channActiveEvent .. | .channRecv .. |
    .channSend .. | .dgramRecv .. | .dgramSend .. | .socketSetBufsize .. => instDecidableTrue

theorem Call.keepsMask_acts {c : Call} {a : Act} (hc : c ≠ .multiResetEvent) (ha : a ∈ c.acts) :
    a.keepsMask := by
  cases a with
  | rewatch m | forget m | closeQueue =>
    cases c with
    | multiResetEvent => exact absurd rfl hc
    | channConnect n | channListen n | channClose n | channDisconnect n | channActiveEvent n
    | channSend n | dgramSend n | channRecv n | dgramRecv n =>
      cases n <;> simp [Call.acts, connectActs, listenActs, sendActs, activeActs, activeSendActs,
        activeTimerActs] at ha
    | _ => simp [Call.acts, finiActs, reapActs, loopActs, timerActs, recordActs] at ha
  | _ => trivial

theorem mnetChannOpen_unreserved {ctype : Nat} {q : Option ChannId}
    (hres : s.mnet.reserved ctype = false) (h : Returns (mnetChannOpen x ctype) s q t) : t = s := by
  simp only [mnetChannOpen] at h
  rcases returns_ite.mp h with ⟨_, h⟩ | ⟨_, h⟩
  · exact (returns_pure.mp h).2
  simp only [returns_bind, returns_readMnet, and_assoc, exists_and_left, exists_eq_left] at h
  rcases returns_ite.mp h with ⟨_, h⟩ | ⟨hno, _⟩
  · exact (returns_pure.mp h).2
  · exact absurd hres hno

theorem Step.watched (hx : Tame x) {i : Call × Ret} (h : Step x s i t) (hp : KeepsQueue s i.1)
    (hb : Base s.core) (hw : Watched s.core) : Watched t.core := by
  obtain ⟨c, r⟩ := i
  have hreset : c ≠ .multiResetEvent := by
    rintro rfl
    exact hp
  by_cases hopen : ∃ ctype, c = .channOpen ctype
  · obtain ⟨ctype, rfl⟩ := hopen
    obtain ⟨q, _, h⟩ := returns_ret.mp h
    cases hres : s.mnet.reserved ctype with
    | false =>
      rw [mnetChannOpen_unreserved hres h]
      exact hw
    | true =>
      obtain ht | hs := mnetChannOpen_steps hx h
      · rw [ht]
        exact hw
      · exact hs.watched hb hw trivial fun _ _ _ => hp hres
  · refine (apiCall_steps hx hb h).watched hb hw fun a ha => ⟨Call.keepsMask_acts hreset ha, ?_⟩
    rintro n ctype rfl
    exact hopen ⟨ctype, Call.create_acts ha⟩

theorem Step.ctl (hx : Tame x) {i : Call × Ret} (h : Step x s i t) (hb : Base s.core) :
    t.core.ctl = s.core.ctl := (apiCall_steps hx hb h).ctl

theorem watched_start (o : Oracle) (e : ε) : Watched (Sys.start o e).core where
  watchers := by intro fd reg h; cases h
  mirrored := by constructor <;> (intro n c h; cases h)
  queue n hn := absurd rfl hn

/-- A request to watch a channel that has a socket works if the kernel grants it. -/
theorem evtAdd_works {set : EvtSet} {c : CChann} {r : Int} (hset : set ≠ .del) (hb : Base s.core)
    (hw : Watched s.core) (hctl : ∀ i, s.core.ctl i = true) (hn : s.core.heap n = some c)
    (hact : c.state.active) (h : Returns (evtAdd n set) s r t) :
    r = 1 ∧ CStep s.core (.watch n set) t.core ∧
      t.core = s.core.interest n c (addedMask c.epollEvents set) := by
  have hmask : c.epollEvents = 0 ↔ s.core.epoll c.fd = none := by
    rw [hw.mirrored.mask n c hn hact]
    split <;> simp_all
  have hkq := hw.queue n (by rw [hn]; simp)
  obtain ⟨d, hd, ⟨hr, _, _, _, ht⟩ | ⟨_, _, hno⟩⟩ := evtAdd_spec hset h
  all_goals
    rw [hn] at hd
    cases hd
  · refine ⟨hr, ?_, ht⟩
    rw [ht]
    exact .watch hn hact hkq hmask hset
  · exact absurd ⟨hkq, Int.le_of_lt (hb.own.opened n c hn hact).1, hmask, hctl _⟩ hno

theorem evtAdd_watched {set : EvtSet} {c : CChann} {r : Int} (hset : set ≠ .del) (hb : Base s.core)
    (hw : Watched s.core) (hctl : ∀ i, s.core.ctl i = true) (hn : s.core.heap n = some c)
    (hact : c.state.active) (h : Returns (evtAdd n set) s r t) :
    CStep s.core (.watch n set) t.core ∧
      t.core = s.core.interest n c (addedMask c.epollEvents set) :=
  (evtAdd_works hset hb hw hctl hn hact h).2

/-- So does a request to give up interest, if there is any. -/
theorem evtDel_works {set : EvtSet} {c : CChann} {r : Int} (hb : Base s.core)
    (hw : Watched s.core) (hctl : ∀ i, s.core.ctl i = true) (hn : s.core.heap n = some c)
    (hact : c.state.active) (hne : c.epollEvents ≠ 0) (h : Returns (evtDel n set) s r t) :
    r = 1 ∧ s.core.kq = true ∧ s.core.epoll c.fd ≠ none ∧
      t.core = s.core.interest n c (deletedMask c.epollEvents set) := by
  have hreg : s.core.epoll c.fd ≠ none := by
    rw [hw.mirrored.mask n c hn hact, if_neg hne]
    simp
  have hkq := hw.queue n (by rw [hn]; simp)
  obtain ⟨d, hd, ⟨hr, _, _, ht⟩ | ⟨_, _, hno⟩⟩ := evtDel_spec h
  all_goals
    rw [hn] at hd
    cases hd
  · exact ⟨hr, hkq, hreg, ht⟩
  · exact absurd ⟨hkq, Int.le_of_lt (hb.own.opened n c hn hact).1, hreg, hctl _⟩ hno

end MNet
