import MNet.Core.Base

/-! # What an act does to a channel

`CStep.at` says once what an act may do to a channel that exists: destroy it, change its
place in the channel list, or one of the writes of `Touch`. `CStep.appears` says where new
channels come from. -/

namespace MNet
open MNet.Lib

/-- The channel an act writes to. -/
def Act.target : Act → Option ChannId
  | .attach n _ _ | .refuse n _ | .established n | .disconnect n | .close n | .destroy n
  | .watch n _ | .unwatch n _ | .mute n | .rewatch n | .forget n | .write n _ _ | .flush n _
  | .sendFlag n _ | .slot n | .report n | .arm n | .rearm n | .disarm n | .fire n => some n
  | _ => none

/-- What an act does to the channel `n` with the contents `c`, short of destroying it. -/
inductive Touch (k : Core) (n : ChannId) (c : CChann) : Act → CChann → Prop
  | links {a : Act} {nx pv : Option ChannId} : a.target ≠ some n →
    Touch k n c a { c with next := nx, prev := pv }
  | attach {fd : Int} {st : ChannState} : c.state = .disconnect → 0 < fd → k.socks fd = none →
    st.active → Touch k n c (.attach n fd st) { c with fd := fd, state := st }
  | refuse {fd : Int} : c.state = .disconnect → 0 < fd → k.socks fd = none →
    Touch k n c (.refuse n fd) { c with fd := fd }
  | established : c.state = .connecting →
    Touch k n c (.established n) { c with state := .connected }
  | disconnect : c.state.active → Spent c.rwbSend → Touch k n c (.disconnect n)
      { c with rwbSend := [], fd := -1, state := .disconnect, epollEvents := 0 }
  | close : c.state = .disconnect →
    Touch k n c (.close n) { c with delNext := k.delChanns, state := .closed }
  | interest {a : Act} {events : BitVec 32} :
    ((∃ set, a = .watch n set ∧ c.state.active ∧ events = addedMask c.epollEvents set) ∨
      (∃ set, a = .unwatch n set ∧ c.state.active ∧ events = deletedMask c.epollEvents set) ∨
      (a = .mute n ∧ c.state.active ∧ events = deletedMask c.epollEvents .write) ∨
      (a = .rewatch n ∧ events = addedMask 0 .read) ∨ (a = .forget n ∧ events = 0)) →
    Touch k n c a { c with epollEvents := events }
  | write {data : List UInt8} {i : Nat} : ChannState.connected.val ≤ c.state.val → data ≠ [] →
    i ≤ data.length → (c.rwbSend = [] ∨ i = 0) →
    Touch k n c (.write n data i)
      { c with rwbSend := if i < data.length then rwbCache c.rwbSend (data.drop i) else c.rwbSend }
  | flush {i : Nat} : c.state = .connected → c.rwbSend ≠ [] →
    (c.ctype = CHANN_TYPE_STREAM → i ≤ (rwbDrainParam c.rwbSend).length) →
    Touch k n c (.flush n i) { c with rwbSend := rwbDrain c.rwbSend i }
  | sendFlag {on : Bool} : Touch k n c (.sendFlag n on) { c with activeSendEvent := on }
  | slot {msg : ChannMsg} : (c.ctype ≤ CHANN_TYPE_BROADCAST → msg.n = some n) →
    Touch k n c (.slot n) { c with msg := msg }
  | report : ¬ c.state.active →
    (c.ctype ≤ CHANN_TYPE_BROADCAST → c.msg.event = some .disconnect ∧ c.msg.n = some n) →
    Touch k n c (.report n) { c with disNext := k.disChanns }
  | timer {a : Act} {p : Option NodeId} :
    (a = .arm n ∧ c.state ≠ .closed) ∨ a = .rearm n ∨ a = .disarm n ∨ a = .fire n →
    Touch k n c a { c with timerNode := p }

section

variable {k k' : Core} {a : Act} {n m : ChannId} {c d e : CChann}

theorem Touch.of_update (hm : k.heap m = some d) (hn : k.heap n = some c) (ha : a.target = some m)
    (h : Touch k m d a e) :
    ∃ c', Function.update k.heap m (some e) n = some c' ∧ Touch k n c a c' := by
  by_cases hnm : n = m
  · subst hnm
    rw [hm] at hn
    cases hn
    exact ⟨e, Function.update_self .., h⟩
  · refine ⟨c, (Function.update_of_ne hnm ..).trans hn, .links ?_⟩
    rw [ha]
    exact fun h => hnm (Option.some.inj h).symm

/-- A change of links elsewhere. -/
theorem Touch.of_alterAt {heap : Heap} {p : Option ChannId} {f : CChann → CChann}
    (hf : ∀ c, ∃ nx pv, f c = { c with next := nx, prev := pv }) (hn : heap n = some c) :
    ∃ nx pv, alterAt heap p f n = some { c with next := nx, prev := pv } := by
  cases hc : alterAt heap p f n with
  | none =>
    rw [alterAt_eq_none] at hc
    rw [hc] at hn
    cases hn
  | some d =>
    rcases alterAt_some hc with ⟨_, e, he, rfl⟩ | ⟨_, he⟩
    · rw [hn] at he
      cases he
      obtain ⟨nx, pv, hfc⟩ := hf c
      exact ⟨nx, pv, by rw [hfc]⟩
    · rw [hn] at he
      cases he
      exact ⟨c.next, c.prev, rfl⟩

theorem Core.push_at {c' : CChann} (hb : Base k) (hn : k.heap n = some c) :
    ∃ nx pv, (k.push c').heap n = some { c with next := nx, prev := pv } := by
  have hfresh : n ≠ k.nextChann := by
    rintro rfl
    rw [hb.heap_fresh] at hn
    cases hn
  refine Touch.of_alterAt (fun c => ⟨c.next, some k.nextChann, rfl⟩) ?_
  rw [Function.update_of_ne hfresh, hn]

/-- What an act does to a channel that exists. -/
theorem CStep.at (hs : CStep k a k') (hb : Base k) (hn : k.heap n = some c) :
    (a = .destroy n ∧ c.state = .closed ∧ k'.heap n = none) ∨
      ∃ c', k'.heap n = some c' ∧ Touch k n c a c' := by
  have hsame : ∀ {a : Act}, a.target = none → ∃ c', k.heap n = some c' ∧ Touch k n c a c' :=
    fun ha => ⟨c, hn, .links (by rw [ha]; simp)⟩
  cases hs with
  | create =>
    obtain ⟨nx, pv, h⟩ := Core.push_at hb hn
    exact .inr ⟨_, h, .links (by simp [Act.target])⟩
  | @accept fd m l hm hpos hfd =>
    obtain ⟨nx, pv, h⟩ := Core.push_at (hb.openFd hfd) hn
    exact .inr ⟨_, h, .links (by simp [Act.target])⟩
  | leak | bounce | openQueue | closeQueue | deliver | schedule | park | batch | noBatch
  | consume | reaped | boot | shutdown => exact .inr (hsame rfl)
  | attach hm hst hpos hfd hact => exact .inr (Touch.of_update hm hn rfl (.attach hst hpos hfd hact))
  | refuse hm hst hpos hfd => exact .inr (Touch.of_update hm hn rfl (.refuse hst hpos hfd))
  | established hm hst => exact .inr (Touch.of_update hm hn rfl (.established hst))
  | disconnect hm hpos hact hsp => exact .inr (Touch.of_update hm hn rfl (.disconnect hact hsp))
  | close hm hst => exact .inr (Touch.of_update hm hn rfl (.close hst))
  | @destroy m d hm hst hsp ht =>
    by_cases hnm : n = m
    · subst hnm
      rw [hm] at hn
      cases hn
      exact .inl ⟨rfl, hst, Function.update_self ..⟩
    · obtain ⟨nx, pv, h⟩ := Touch.of_alterAt (p := d.next) (f := fun e => { e with prev := d.prev })
        (fun c => ⟨c.next, d.prev, rfl⟩) hn
      obtain ⟨nx', pv', h'⟩ := Touch.of_alterAt (p := d.prev) (f := fun e => { e with next := d.next })
        (fun c => ⟨d.next, c.prev, rfl⟩) h
      refine .inr ⟨_, (Function.update_of_ne hnm ..).trans h', .links ?_⟩
      exact fun h => hnm (Option.some.inj h).symm
  | watch hm hact => exact .inr (Touch.of_update hm hn rfl (.interest (.inl ⟨_, rfl, hact, rfl⟩)))
  | unwatch hm hact =>
    exact .inr (Touch.of_update hm hn rfl (.interest (.inr (.inl ⟨_, rfl, hact, rfl⟩))))
  | mute hm hact =>
    exact .inr (Touch.of_update hm hn rfl (.interest (.inr (.inr (.inl ⟨rfl, hact, rfl⟩)))))
  | rewatch hm =>
    exact .inr (Touch.of_update hm hn rfl (.interest (.inr (.inr (.inr (.inl ⟨rfl, rfl⟩))))))
  | forget hm =>
    exact .inr (Touch.of_update hm hn rfl (.interest (.inr (.inr (.inr (.inr ⟨rfl, rfl⟩))))))
  | @write m d data i hm hst hd hi hc =>
    have hw := Touch.of_update hm hn rfl (.write hst hd hi hc)
    rw [← Core.onWire_heap k d (data.take i)] at hw
    exact .inr hw
  | @flush m d i hm hst hne hi =>
    have hw := Touch.of_update hm hn rfl (.flush hst hne hi)
    rw [← Core.onWire_heap k d ((rwbDrainParam d.rwbSend).take i)] at hw
    exact .inr hw
  | sendFlag hm => exact .inr (Touch.of_update hm hn rfl .sendFlag)
  | slot msg hm hmsg => exact .inr (Touch.of_update hm hn rfl (.slot hmsg))
  | report hm hact hmsg => exact .inr (Touch.of_update hm hn rfl (.report hact hmsg))
  | arm hm ht hc htm hst => exact .inr (Touch.of_update hm hn rfl (.timer (.inl ⟨rfl, hst⟩)))
  | rearm hm => exact .inr (Touch.of_update hm hn rfl (.timer (.inr (.inl rfl))))
  | disarm hm => exact .inr (Touch.of_update hm hn rfl (.timer (.inr (.inr (.inl rfl)))))
  | fire hm => exact .inr (Touch.of_update hm hn rfl (.timer (.inr (.inr (.inr rfl)))))

/-- An act on something else leaves all but the links. -/
theorem Touch.elsewhere {c' : CChann} (h : Touch k n c a c') (ha : a.target ≠ some n) :
    ∃ nx pv, c' = { c with next := nx, prev := pv } := by
  cases h with
  | links => exact ⟨_, _, rfl⟩
  | interest ho =>
    obtain ⟨set, rfl, _⟩ | ⟨set, rfl, _⟩ | ⟨rfl, _⟩ | ⟨rfl, _⟩ | ⟨rfl, _⟩ := ho <;> exact absurd rfl ha
  | timer ho => obtain ⟨rfl, _⟩ | rfl | rfl | rfl := ho <;> exact absurd rfl ha
  | _ => exact absurd rfl ha

theorem Core.push_appears {c' : CChann} (hb : Base k) (hn : k.heap n = none)
    (h : (k.push c').heap n = some c) :
    n = k.nextChann ∧ c = { c' with next := k.channs, prev := none } := by
  by_cases hnm : n = k.nextChann
  · subst hnm
    rw [Core.push_heap hb] at h
    cases h
    exact ⟨rfl, rfl⟩
  · have hnone : (k.push c').heap n = none :=
      alterAt_eq_none.mpr ((Function.update_of_ne hnm ..).trans hn)
    rw [hnone] at h
    cases h

/-- A channel that was not there is a new one. -/
theorem CStep.appears (hs : CStep k a k') (hb : Base k) (hn : k.heap n = none)
    (hn' : k'.heap n = some c) :
    n = k.nextChann ∧
      ((∃ ctype, a = .create n ctype ∧
          c = { state := .disconnect, ctype := ctype, next := k.channs, prev := none }) ∨
        (∃ fd m l, a = .accept n fd ∧ k.socks fd = none ∧ k'.socks fd = some k.nextSock ∧
          k'.wire = k.wire ∧ k.heap m = some l ∧
          c = { fd := fd, state := .connected, ctype := l.ctype, next := k.channs, prev := none })) := by
  have hset : ∀ {m d e}, k.heap m = some d → Function.update k.heap m (some e) n ≠ some c := by
    intro m d e hm h
    rcases update_some h with ⟨rfl, _⟩ | ⟨_, h⟩
    · rw [hn] at hm
      cases hm
    · rw [hn] at h
      cases h
  have hsame : k.heap n ≠ some c := by rw [hn]; simp
  cases hs with
  | create ctype =>
    obtain ⟨rfl, rfl⟩ := Core.push_appears hb hn hn'
    exact ⟨rfl, .inl ⟨ctype, rfl, rfl⟩⟩
  | @accept fd m l hm hpos hfd =>
    obtain ⟨he, rfl⟩ := Core.push_appears (hb.openFd hfd) hn hn'
    obtain rfl : n = k.nextChann := he
    exact ⟨rfl, .inr ⟨fd, m, l, rfl, hfd, Function.update_self .., rfl, hm, rfl⟩⟩
  | @destroy m d hm =>
    have hnm : n ≠ m := by
      rintro rfl
      rw [hn] at hm
      cases hm
    have hnone : (k.destroyed m d).heap n = none :=
      (Function.update_of_ne hnm ..).trans (alterAt_eq_none.mpr (alterAt_eq_none.mpr hn))
    rw [hnone] at hn'
    cases hn'
  | write hm | flush hm =>
    rw [Core.set_heap, Core.onWire_heap] at hn'
    exact absurd hn' (hset hm)
  | leak | bounce | openQueue | closeQueue | deliver | schedule | park | batch | noBatch
  | consume | reaped | boot | shutdown => exact absurd hn' hsame
  | attach hm | refuse hm | established hm | disconnect hm | close hm | watch hm | unwatch hm
  | mute hm | rewatch hm | forget hm | sendFlag hm | report hm | arm hm | rearm hm | disarm hm | fire hm =>
    exact absurd hn' (hset hm)
  | slot msg hm => exact absurd hn' (hset hm)

theorem CStep.nextChann_le (hs : CStep k a k') : k.nextChann ≤ k'.nextChann := by
  have hwire : ∀ {c bytes}, (k.onWire c bytes).nextChann = k.nextChann := by
    intro c bytes
    unfold Core.onWire
    split
    · split <;> rfl
    · rfl
  cases hs with
  | create | accept => exact Nat.le_succ _
  | write | flush => exact Nat.le_of_eq hwire.symm
  | _ => exact Nat.le_refl _

/-- Only destroying a channel frees it, and nothing changes its type. -/
theorem CStep.same_type (hs : CStep k a k') (hb : Base k) (ha : a ≠ .destroy n)
    (hn : k.heap n = some c) : ∃ c', k'.heap n = some c' ∧ c'.ctype = c.ctype := by
  obtain ⟨rfl, _⟩ | ⟨c', hc', ht⟩ := hs.at hb hn
  · exact absurd rfl ha
  · exact ⟨c', hc', by cases ht <;> rfl⟩

end

end MNet
