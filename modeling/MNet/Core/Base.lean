import MNet.Core.Invariant

/-! # Every act keeps the base invariant -/

namespace MNet
open MNet.Lib

theorem ChannState.active_of_connected {st : ChannState} (h : ChannState.connected.val ≤ st.val) :
    st.active := by
  cases st <;> simp [ChannState.val, ChannState.active] at *

theorem ChannState.active.ne_closed {st : ChannState} (h : st.active) : st ≠ .closed := by
  intro he
  rw [he] at h
  exact h

theorem ChannState.not_active_iff {st : ChannState} :
    ¬ st.active ↔ st = .closed ∨ st = .disconnect := by
  cases st <;> simp [ChannState.active]

/-- A state without a socket comes before CONNECTED. -/
theorem ChannState.val_lt_of_not_active {st : ChannState} (h : ¬ st.active) :
    st.val < ChannState.connected.val := by
  cases st <;> simp [ChannState.val, ChannState.active] at *

theorem cacheOk_nil {c : CChann} (h : c.rwbSend = []) : c.cacheOk := by
  refine ⟨?_, fun _ => h⟩
  rw [h]
  intro b hb
  simp at hb

@[simp] theorem Core.set_heap (k : Core) (n : ChannId) (c : CChann) :
    (k.set n c).heap = Function.update k.heap n (some c) := rfl

theorem Core.withTimer_heap (k : Core) (n : ChannId) (c : CChann) (clock : List TmNode)
    (tm : ChannTm) : (k.withTimer n c clock tm).heap n =
      some { c with timerNode := some k.nextNode } := Function.update_self ..

theorem Core.interest_heap (k : Core) (n : ChannId) (c : CChann) (events : BitVec 32) :
    (k.interest n c events).heap n = some { c with epollEvents := events } :=
  Function.update_self ..

theorem Core.interest_epoll (k : Core) (n : ChannId) (c : CChann) (events : BitVec 32) :
    (k.interest n c events).epoll c.fd = if events = 0 then none else some ⟨events, n⟩ :=
  Function.update_self ..

@[simp] theorem Core.set_set (k : Core) (n : ChannId) (c d : CChann) :
    (k.set n c).set n d = k.set n d := by
  simp [Core.set, Function.update_idem]

/-- Only wires change. -/
theorem Core.onWire_eq (k : Core) (c : CChann) (bytes : List UInt8) :
    ∃ w, k.onWire c bytes = { k with wire := w } := by
  unfold Core.onWire
  split
  · split
    · exact ⟨_, rfl⟩
    · exact ⟨k.wire, rfl⟩
  · exact ⟨k.wire, rfl⟩

@[simp] theorem Core.onWire_heap (k : Core) (c : CChann) (bytes : List UInt8) :
    (k.onWire c bytes).heap = k.heap := by
  unfold Core.onWire
  split
  · split <;> rfl
  · rfl

@[simp] theorem Core.onWire_socks (k : Core) (c : CChann) (bytes : List UInt8) :
    (k.onWire c bytes).socks = k.socks := by
  unfold Core.onWire
  split
  · split <;> rfl
  · rfl

theorem Core.unlinked_heap {k : Core} {n : ChannId} {c : CChann}
    (h : ∀ i, c.next = some i ∨ c.prev = some i → i ≠ n) : (k.unlinked c).heap n = k.heap n :=
  (alterAt_of_ne fun i hi => h i (.inr hi)).trans (alterAt_of_ne fun i hi => h i (.inl hi))

namespace Base

variable {k k' : Core} {a : Act} {n : ChannId} {c c' : CChann}

/-- A write to a channel that changes no link, descriptor or timer of it. -/
theorem set (h : Base k) (hn : k.heap n = some c) (hx : c'.next = c.next) (hp : c'.prev = c.prev)
    (hfd : c'.fd = c.fd) (ht : c'.timerNode = c.timerNode)
    (ha : c'.state.active → c.state.active) (hc : c'.cacheOk) : Base (k.set n c') where
  reg := h.reg.of_write hn hx hp
  own := h.own.of_write hn hfd ha
  cache := h.cache.of_write hc
  timed := h.timed.of_write hn ht

theorem heap_fresh (h : Base k) : k.heap k.nextChann = none := h.reg.fresh_none

/-- A channel with no timer, whose descriptor is nobody's if it has a socket, is put in front
of `channs`. -/
theorem push (h : Base k) (ht : c.timerNode = none) (hc : c.rwbSend = [])
    (hs : c.state.active → 0 < c.fd ∧ k.socks c.fd ≠ none ∧
      ∀ m d, k.heap m = some d → d.state.active → d.fd ≠ c.fd) : Base (k.push c) where
  reg := h.reg.push c
  own := by
    refine Owning.alterAt ?_ (fun _ => rfl) fun _ => rfl
    by_cases ha : c.state.active
    · obtain ⟨hpos, hopen, hfree⟩ := hs ha
      exact h.own.give hpos hopen fun m d _ => hfree m d
    · exact h.own.place ha
  cache := by
    refine Caching.alterAt ?_ (fun _ => rfl) fun _ => rfl
    exact h.cache.of_write (cacheOk_nil hc)
  timed := by
    refine Timed.alterAt ?_ fun _ => rfl
    exact h.timed.place h.heap_fresh ht

/-- Nobody has a descriptor that is not open. -/
theorem free_of_closed (h : Base k) {fd : Int} (hs : k.socks fd = none) (m : ChannId) (d : CChann)
    (hd : k.heap m = some d) (ha : d.state.active) : d.fd ≠ fd := by
  intro he
  exact (h.own.opened m d hd ha).2 (he ▸ hs)

theorem openFd (h : Base k) {fd : Int} (hs : k.socks fd = none) : Base (k.openFd fd) where
  reg := h.reg
  own := h.own.openFd hs
  cache := h.cache
  timed := h.timed

theorem attach (h : Base k) {fd : Int} {st : ChannState} (hn : k.heap n = some c)
    (hd : c.state = .disconnect) (hpos : 0 < fd) (hs : k.socks fd = none) :
    Base ((k.openFd fd).set n { c with fd := fd, state := st }) where
  reg := h.reg.of_write hn rfl rfl
  own := by
    refine (h.own.openFd hs).give hpos (by simp) fun m d _ hd ha => ?_
    exact h.free_of_closed hs m d hd ha
  cache := h.cache.of_write (cacheOk_nil ((h.cache n c hn).2 (by rw [hd]; decide)))
  timed := h.timed.of_write hn rfl

theorem disconnect (h : Base k) (hn : k.heap n = some c) (ha : c.state.active) :
    Base ((k.closeFd c.fd).set n
      { c with rwbSend := [], fd := -1, state := .disconnect, epollEvents := 0 }) where
  reg := h.reg.of_write hn rfl rfl
  own := h.own.release hn ha (by exact id)
  cache := h.cache.of_write (cacheOk_nil rfl)
  timed := h.timed.of_write hn rfl

theorem destroyed (h : Base k) (hn : k.heap n = some c) (ht : c.timerNode = none) :
    Base (k.destroyed n c) where
  reg := h.reg.destroyed hn
  own := by
    refine Owning.free (Owning.alterAt (Owning.alterAt h.own ?_ ?_) ?_ ?_) <;> exact fun _ => rfl
  cache := by
    refine Caching.free (Caching.alterAt (Caching.alterAt h.cache ?_ ?_) ?_ ?_) <;>
      exact fun _ => rfl
  timed := by
    have hself : ∀ i, c.next = some i ∨ c.prev = some i → i ≠ n :=
      fun i hi => (h.reg.neighbours hn hi).1
    refine Timed.free (Timed.alterAt (Timed.alterAt h.timed ?_) ?_) (c := c) ?_ ht
    · exact fun _ => rfl
    · exact fun _ => rfl
    exact (Core.unlinked_heap hself).trans hn

theorem withTimer (h : Base k) (hn : k.heap n = some c) {clock : List TmNode} {tm : ChannTm}
    (ht : Timed (Function.update k.heap n (some { c with timerNode := some k.nextNode }))
      (some (skiplistInsert clock { id := k.nextNode, key := tm.time, tm := tm }))
      (k.nextNode + 1) k.isInit) :
    Base (k.withTimer n c clock tm) where
  reg := h.reg.of_write hn rfl rfl
  own := h.own.of_write hn rfl id
  cache := h.cache.of_write (h.cache n c hn)
  timed := ht

theorem timed_some (h : Base k) {clock : List TmNode} (hc : k.tmClock = some clock) :
    Timed k.heap (some clock) k.nextNode k.isInit := hc ▸ h.timed

theorem interest (h : Base k) (hn : k.heap n = some c) (events : BitVec 32) :
    Base (k.interest n c events) where
  reg := h.reg.of_write hn rfl rfl
  own := h.own.of_write hn rfl id
  cache := h.cache.of_write (h.cache n c hn)
  timed := h.timed.of_write hn rfl

theorem onWire (h : Base k) (bytes : List UInt8) : Base (k.onWire c bytes) := by
  unfold Core.onWire
  split
  · split
    · exact ⟨h.reg, h.own, h.cache, h.timed⟩
    · exact h
  · exact h

theorem wiped (h : Base k) (hc : k.channs = none) : Base k.wiped := by
  have hr : Registered k.heap none k.channCount k.nextChann := hc ▸ h.reg
  have hnone := hr.all_none
  have hr' : Registered k.heap none 0 k.nextChann :=
    ⟨⟨[], .nil, fun m => by simp [hnone m], rfl⟩, h.reg.lt⟩
  refine ⟨hr', h.own, h.cache, ⟨by simp [Core.wiped], by simp [Core.wiped], by simp [Core.wiped],
    fun m d id hd => ?_, fun _ => rfl⟩⟩
  rw [show k.wiped.heap m = none from hnone m] at hd
  cases hd

/-- A write that changes none of the fields the invariant reads. -/
theorem keep (h : Base k) (hn : k.heap n = some c)
    (he : (c'.next, c'.prev, c'.fd, c'.timerNode, c'.state, c'.rwbSend) =
      (c.next, c.prev, c.fd, c.timerNode, c.state, c.rwbSend)) : Base (k.set n c') := by
  simp only [Prod.mk.injEq] at he
  obtain ⟨hx, hp, hfd, ht, hs, hr⟩ := he
  refine h.set hn hx hp hfd ht (fun ha => hs ▸ ha) ?_
  have hc := h.cache n c hn
  unfold CChann.cacheOk at hc ⊢
  rw [hs, hr]
  exact hc

/-- The cache of a connection, with more data or after a flush. -/
theorem recache (h : Base k) (hn : k.heap n = some c) (hst : ChannState.connected.val ≤ c.state.val)
    {r : RwbHead} (hr : Live r) : Base (k.set n { c with rwbSend := r }) :=
  h.set hn rfl rfl rfl rfl id ⟨hr, fun hlt => absurd hst (Int.not_le.mpr hlt)⟩

theorem step (hs : CStep k a k') (h : Base k) : Base k' := by
  cases hs with
  | create ctype => exact h.push rfl rfl fun ha => absurd ha id
  | @accept fd m l hm hpos hfd =>
    exact (h.openFd hfd).push rfl rfl fun _ =>
      ⟨hpos, by simp [Core.openFd], h.free_of_closed hfd⟩
  | leak hpos hfd => exact ⟨h.reg, h.own.openFd hfd, h.cache, h.timed⟩
  | bounce hpos hfd =>
    exact ⟨h.reg, (h.own.openFd hfd).closeFd (h.free_of_closed hfd), h.cache, h.timed⟩
  | attach hn hd hpos hfd hst => exact h.attach hn hd hpos hfd
  | @refuse n c fd hn hd hpos hfd =>
    -- the descriptor stays with a channel that has no socket
    have hset : Base ((k.openFd fd).set n { c with fd := fd, state := c.state }) :=
      h.attach hn hd hpos hfd
    exact ⟨hset.reg, hset.own, hset.cache, hset.timed⟩
  | @established n c hn hst =>
    have hc : c.rwbSend = [] := (h.cache n c hn).2 (by rw [hst]; decide)
    exact h.set hn rfl rfl rfl rfl (fun _ => by rw [hst]; trivial) (cacheOk_nil hc)
  | disconnect hn hpos ha hsp => exact h.disconnect hn ha
  | @close n c hn hd =>
    have hc : c.rwbSend = [] := (h.cache n c hn).2 (by rw [hd]; decide)
    have hset : Base (k.set n { c with delNext := k.delChanns, state := .closed }) :=
      h.set hn rfl rfl rfl rfl (fun ha => absurd ha id) (cacheOk_nil hc)
    exact ⟨hset.reg, hset.own, hset.cache, hset.timed⟩
  | destroy hn hc hsp ht => exact h.destroyed hn ht
  | watch hn | unwatch hn | mute hn | rewatch hn => exact h.interest hn _
  | forget hn => exact h.keep hn rfl
  | openQueue | closeQueue | schedule | park | batch | noBatch | consume | reaped =>
    exact ⟨h.reg, h.own, h.cache, h.timed⟩
  | @write n c data i hn hst hd hi hc =>
    refine (h.onWire _).recache (by simpa using hn) hst ?_
    have hl := (h.cache n c hn).1
    split
    · exact hl.rwbCache fun he => absurd (List.drop_eq_nil_iff.mp he) (by omega)
    · exact hl
  | @flush n c i hn hst hne hi =>
    refine (h.onWire _).recache (by simpa using hn) (Int.le_of_eq (congrArg ChannState.val hst.symm))
      ((h.cache n c hn).1.rwbDrain i)
  | sendFlag hn => exact h.keep hn rfl
  | slot msg hn hm => exact h.keep hn rfl
  | @report n c hn ha hm =>
    have hset : Base (k.set n { c with disNext := k.disChanns }) := h.keep hn rfl
    exact ⟨hset.reg, hset.own, hset.cache, hset.timed⟩
  | deliver hd hn => exact ⟨h.reg, h.own, h.cache, h.timed⟩
  | arm hn ht hc htm hst => exact h.withTimer hn ((h.timed_some hc).arm hn ht htm)
  | rearm hn ht hc hf htm => exact h.withTimer hn ((h.timed_some hc).rearm hn ht hf htm)
  | @disarm n c clock id hn ht hc =>
    exact ⟨h.reg.of_write hn rfl rfl, h.own.of_write hn rfl fun ha => ha,
      h.cache.of_write (h.cache n c hn), (h.timed_some hc).disarm hn ht⟩
  | fire hn ht hc hf hnode htm hp hdue =>
    have hb := h.withTimer hn ((h.timed_some hc).rearm hn ht hf (htm.trans hnode.symm))
    exact ⟨hb.reg, hb.own, hb.cache, hb.timed⟩
  | boot hi =>
    have ht := h.timed
    rw [h.timed.booted hi] at ht
    exact ⟨h.reg, h.own, h.cache, ⟨ht.ids, ht.lt, ht.chann, ht.node, fun he => by cases he⟩⟩
  | shutdown hc => exact h.wiped hc

/-- Every run of acts keeps it. -/
theorem path {l : List Act} (hp : Path CStep k l k') (h : Base k) : Base k' :=
  hp.keeps (fun _ _ _ hs hb => hb.step hs) h

end Base

theorem Base.head_ne_fresh {k : Core} (hb : Base k) (i : ChannId) (hi : k.channs = some i) :
    i ≠ k.nextChann := by
  intro he
  obtain ⟨l, hl, hmem, _⟩ := hb.reg.list
  have hil : i ∈ l := by
    rw [hi] at hl
    obtain ⟨l', rfl, _⟩ := hl.chain.eq_cons
    simp
  exact (hmem i).mpr hil (he ▸ hb.heap_fresh)

theorem Core.push_heap {k : Core} {c : CChann} (hb : Base k) :
    (k.push c).heap k.nextChann = some { c with next := k.channs, prev := none } := by
  unfold Core.push
  exact (alterAt_of_ne hb.head_ne_fresh).trans (Function.update_self ..)

end MNet
