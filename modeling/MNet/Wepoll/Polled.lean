import MNet.Wepoll.Sound

/-! # Poll operations in their places

What the functions do to the lists keeps `Sound`: each changes one socket and moves its poll operation
from one place to the next. -/

namespace MNet.Wepoll.Epoll

variable {τ : Type} {e e' : Epoll τ} {s : SockId} {v v' : SockState} {rest l : List SockId}
  {place : SockId → Option (Place τ)} {x y : Place τ} {o : Option (Place τ)}
  {groups : GroupId → Option PollGroup} {q : List GroupId}

/-! ## Lists and places -/

namespace At

theorem other (h : At place x l) (hs : place s ≠ some x) (ho : o ≠ some x) :
    At (Function.update place s o) x l := by
  refine ⟨h.1, fun z => ?_⟩
  by_cases hz : z = s
  · subst hz
    rw [Function.update_self, h.2]
    exact ⟨fun h' => absurd h' hs, fun h' => absurd h' ho⟩
  · rw [Function.update_of_ne hz]
    exact h.2 z

theorem append (h : At place x l) (hs : place s ≠ some x) :
    At (Function.update place s (some x)) x (l ++ [s]) := by
  have hout : s ∉ l := fun hin => hs ((h.2 s).mp hin)
  refine ⟨List.nodup_append.mpr ⟨h.1, List.nodup_singleton s, ?_⟩, fun z => ?_⟩
  · rintro a ha b hb rfl
    exact hout (List.mem_singleton.mp hb ▸ ha)
  · by_cases hz : z = s
    · subst hz
      simp
    · rw [Function.update_of_ne hz, ← h.2]
      simp [hz]

theorem erase (h : At place x l) (ho : o ≠ some x) : At (Function.update place s o) x (l.erase s) := by
  refine ⟨h.1.erase s, fun z => ?_⟩
  rw [h.1.mem_erase_iff]
  by_cases hz : z = s
  · subst hz
    simp [ho]
  · rw [Function.update_of_ne hz, h.2]
    simp [hz]

theorem tail (h : At place x (s :: l)) (ho : o ≠ some x) : At (Function.update place s o) x l := by
  have := h.erase (s := s) ho
  rwa [List.erase_cons_head] at this

/-- The sockets `m` go to the place `y`. -/
def moved (place : SockId → Option (Place τ)) (m : List SockId) (y : Place τ) (s : SockId) : Option (Place τ) :=
  if s ∈ m then some y else place s

theorem moved_other {m : List SockId} (h : At place x l) (hm : ∀ z ∈ m, place z ≠ some x) (hxy : x ≠ y) :
    At (moved place m y) x l := by
  refine ⟨h.1, fun z => ?_⟩
  unfold moved
  split
  · rename_i hz
    rw [h.2]
    exact ⟨fun h' => absurd h' (hm z hz), fun h' => absurd (Option.some.inj h').symm hxy⟩
  · exact h.2 z

theorem moved_self {m : List SockId} (h : At place y []) (hm : m.Nodup) : At (moved place m y) y m := by
  refine ⟨hm, fun z => ?_⟩
  unfold moved
  split
  · simp [*]
  · rename_i hz
    rw [← h.2]
    simp [hz]

theorem moved_rest {m r : List SockId} (h : At place x (m ++ r)) (hxy : x ≠ y) : At (moved place m y) x r := by
  obtain ⟨hm, hr, hmr⟩ := List.nodup_append.mp h.1
  refine ⟨hr, fun z => ?_⟩
  unfold moved
  split
  · rename_i hz
    exact ⟨fun h' => absurd rfl (hmr z hz z h'), fun h' => absurd (Option.some.inj h').symm hxy⟩
  · rename_i hz
    rw [← h.2]
    simp [hz]

theorem moved_all (h : At place x l) (hxy : x ≠ y) : At (moved place l y) x [] :=
  moved_rest (by rwa [List.append_nil]) hxy

end At

/-! ## Poll operations -/

theorem not_busy_of_none (h : e.socks s = none) : ¬ e.Busy s := by
  rintro ⟨v, hv, _⟩
  rw [h] at hv
  cases hv

theorem busy_iff (hv : e.socks s = some v) : e.Busy s ↔ v.pollStatus ≠ .idle := by
  constructor
  · rintro ⟨w, hw, hne⟩
    obtain rfl : v = w := Option.some.inj (hv.symm.trans hw)
    exact hne
  · exact fun hne => ⟨v, hv, hne⟩

/-- The state of one socket is written. -/
theorem busy_update {f : SockId → Option SockState} (hf : f = Function.update e.socks s (some v'))
    (he : e'.socks = f) (z : SockId) : e'.Busy z ↔ if z = s then v'.pollStatus ≠ .idle else e.Busy z := by
  subst hf
  unfold Busy
  rw [he]
  by_cases hz : z = s
  · subst hz
    simp
  · simp [hz]

theorem taken_congr (h : e'.waiters = e.waiters) (t : τ) : e'.taken t = e.taken t := by
  rw [taken, taken, h]

theorem taken_self [DecidableEq τ] {t : τ} {w : Waiter} (h : e'.waiters = Function.update e.waiters t w) :
    e'.taken t = w.taken := by
  rw [taken, h, Function.update_self]

theorem taken_other [DecidableEq τ] {t t' : τ} {w : Waiter} (h : e'.waiters = Function.update e.waiters t w)
    (ht : t' ≠ t) : e'.taken t' = e.taken t' := by
  rw [taken, taken, h, Function.update_of_ne ht]

namespace Polled

theorem place_none (h : e.Polled rest place) (hs : ¬ e.Busy s) : place s = none :=
  not_not.mp fun hne => hs ((h.busy s).mp hne)

/-- No poll operation moves. -/
theorem congr (h : e.Polled rest place) (hflight : e'.inFlight = e.inFlight) (hpackets : e'.packets = e.packets)
    (hwaiters : e'.waiters = e.waiters) (hbusy : ∀ z, e'.Busy z ↔ e.Busy z) : e'.Polled rest place where
  flight := hflight ▸ h.flight
  queued := hpackets ▸ h.queued
  taken t := taken_congr hwaiters t ▸ h.taken t
  fed := h.fed
  busy z := (h.busy z).trans (hbusy z).symm

/-- A socket without a poll operation gets one. -/
theorem start (h : e.Polled rest place) (hs : ¬ e.Busy s) (hwaiters : e'.waiters = e.waiters)
    (hbusy : ∀ z, e'.Busy z ↔ z = s ∨ e.Busy z)
    (hgo : (e'.inFlight = e.inFlight ++ [s] ∧ e'.packets = e.packets) ∨
      (e'.inFlight = e.inFlight ∧ e'.packets = e.packets ++ [s])) : ∃ place, e'.Polled rest place := by
  have hnone := h.place_none hs
  have hne : ∀ x, place s ≠ some x := fun x => hnone ▸ (by simp)
  have hplace : ∀ x : Place τ, ∀ z, Function.update place s (some x) z ≠ none ↔ e'.Busy z := by
    intro x z
    rw [hbusy]
    by_cases hz : z = s
    · subst hz
      simp
    · rw [Function.update_of_ne hz, h.busy]
      simp [hz]
  rcases hgo with ⟨hf, hp⟩ | ⟨hf, hp⟩
  · refine ⟨Function.update place s (some .afd), ?_, ?_, fun t => ?_, h.fed.other (hne _) (by simp), hplace _⟩
    · exact hf ▸ h.flight.append (hne _)
    · exact hp ▸ h.queued.other (hne _) (by simp)
    · exact taken_congr hwaiters t ▸ (h.taken t).other (hne _) (by simp)
  · refine ⟨Function.update place s (some .iocp), ?_, ?_, fun t => ?_, h.fed.other (hne _) (by simp), hplace _⟩
    · exact hf ▸ h.flight.other (hne _) (by simp)
    · exact hp ▸ h.queued.append (hne _)
    · exact taken_congr hwaiters t ▸ (h.taken t).other (hne _) (by simp)

/-- The poll operation of a socket is back, and its packet is fed to the port. -/
theorem feed (h : e.Polled (s :: rest) place) (hflight : e'.inFlight = e.inFlight)
    (hpackets : e'.packets = e.packets) (hwaiters : e'.waiters = e.waiters)
    (hbusy : ∀ z, e'.Busy z ↔ z ≠ s ∧ e.Busy z) : e'.Polled rest (Function.update place s none) := by
  have hs : place s = some .fed := (h.fed.2 s).mp List.mem_cons_self
  have hne : ∀ x, x ≠ .fed → place s ≠ some x := fun x hx he => hx (Option.some.inj (he.symm.trans hs))
  refine ⟨hflight ▸ h.flight.other (hne _ (by simp)) (by simp), hpackets ▸ h.queued.other (hne _ (by simp)) (by simp), fun t => ?_,
    h.fed.tail (by simp), fun z => ?_⟩
  · exact taken_congr hwaiters t ▸ (h.taken t).other (hne _ (by simp)) (by simp)
  · rw [hbusy]
    by_cases hz : z = s
    · subst hz
      simp
    · rw [Function.update_of_ne hz, h.busy]
      simp [hz]

/-- AFD completes a poll operation. -/
theorem complete (h : e.Polled rest place) (hs : s ∈ e.inFlight) (hflight : e'.inFlight = e.inFlight.erase s)
    (hpackets : e'.packets = e.packets ++ [s]) (hwaiters : e'.waiters = e.waiters)
    (hbusy : ∀ z, e'.Busy z ↔ e.Busy z) : e'.Polled rest (Function.update place s (some .iocp)) := by
  have hat : place s = some .afd := (h.flight.2 s).mp hs
  have hne : ∀ x, x ≠ .afd → place s ≠ some x := fun x hx he => hx (Option.some.inj (he.symm.trans hat))
  refine ⟨hflight ▸ h.flight.erase (by simp), hpackets ▸ h.queued.append (hne _ (by simp)), fun t => ?_,
    h.fed.other (hne _ (by simp)) (by simp), fun z => ?_⟩
  · exact taken_congr hwaiters t ▸ (h.taken t).other (hne _ (by simp)) (by simp)
  · rw [hbusy, ← h.busy]
    by_cases hz : z = s
    · subst hz
      simp [hat]
    · rw [Function.update_of_ne hz]

variable [DecidableEq τ] {t : τ} {w : Waiter}

/-- A thread goes on that has no packets, before and after. -/
theorem turn (h : e.Polled rest place) (hflight : e'.inFlight = e.inFlight) (hpackets : e'.packets = e.packets)
    (hwaiters : e'.waiters = Function.update e.waiters t w) (hold : e.taken t = []) (hnew : w.taken = [])
    (hbusy : ∀ z, e'.Busy z ↔ e.Busy z) : e'.Polled rest place where
  flight := hflight ▸ h.flight
  queued := hpackets ▸ h.queued
  taken t' := by
    have ht : e'.taken t' = e.taken t' := by
      by_cases he : t' = t
      · subst he
        rw [hold, taken_self hwaiters, hnew]
      · exact taken_other hwaiters he
    exact ht ▸ h.taken t'
  fed := h.fed
  busy z := (h.busy z).trans (hbusy z).symm

omit [DecidableEq τ] in
/-- A list of sockets goes to another place. -/
theorem moved_busy (h : e.Polled rest place) {m : List SockId} {x : Place τ} (hm : ∀ z ∈ m, e.Busy z)
    (hbusy : ∀ z, e'.Busy z ↔ e.Busy z) (z : SockId) : At.moved place m x z ≠ none ↔ e'.Busy z := by
  rw [hbusy]
  unfold At.moved
  split
  · simp [hm z ‹_›]
  · exact h.busy z

/-- A thread takes packets from the IOCP. -/
theorem take (h : e.Polled rest place) {n : Nat} (hold : e.taken t = []) (hflight : e'.inFlight = e.inFlight)
    (hpackets : e'.packets = e.packets.drop n) (hwaiters : e'.waiters = Function.update e.waiters t w)
    (hnew : w.taken = e.packets.take n) (hbusy : ∀ z, e'.Busy z ↔ e.Busy z) :
    e'.Polled rest (At.moved place (e.packets.take n) (.thread t)) := by
  have hat : ∀ z ∈ e.packets.take n, place z = some .iocp := fun z hz =>
    (h.queued.2 z).mp (List.mem_of_mem_take hz)
  have hne : ∀ x, x ≠ .iocp → ∀ z ∈ e.packets.take n, place z ≠ some x := fun x hx z hz he =>
    hx (Option.some.inj (he.symm.trans (hat z hz)))
  have hnd : (e.packets.take n).Nodup := h.queued.1.sublist (List.take_sublist n _)
  refine ⟨hflight ▸ h.flight.moved_other (hne _ (by simp)) (by simp), ?_, fun t' => ?_, h.fed.moved_other (hne _ (by simp)) (by simp),
    h.moved_busy (fun z hz => ?_) hbusy⟩
  · have hq := h.queued
    rw [← List.take_append_drop n e.packets] at hq
    exact hpackets ▸ hq.moved_rest (by simp)
  · by_cases he : t' = t
    · subst he
      rw [taken_self hwaiters, hnew]
      exact At.moved_self (hold ▸ h.taken t') hnd
    · rw [taken_other hwaiters he]
      exact (h.taken t').moved_other (hne _ (by simp)) fun hx => he (Place.thread.inj hx)
  · rw [← h.busy, hat z hz]
    simp

/-- The packets of a thread are fed to the port. -/
theorem resume (h : e.Polled [] place) (hflight : e'.inFlight = e.inFlight) (hpackets : e'.packets = e.packets)
    (hwaiters : e'.waiters = Function.update e.waiters t w) (hnew : w.taken = [])
    (hbusy : ∀ z, e'.Busy z ↔ e.Busy z) : e'.Polled (e.taken t) (At.moved place (e.taken t) .fed) := by
  have hat : ∀ z ∈ e.taken t, place z = some (.thread t) := fun z hz => ((h.taken t).2 z).mp hz
  have hne : ∀ x, x ≠ .thread t → ∀ z ∈ e.taken t, place z ≠ some x := fun x hx z hz he =>
    hx (Option.some.inj (he.symm.trans (hat z hz)))
  refine ⟨hflight ▸ h.flight.moved_other (hne _ (by simp)) (by simp), hpackets ▸ h.queued.moved_other (hne _ (by simp)) (by simp),
    fun t' => ?_, h.fed.moved_self (h.taken t).1, h.moved_busy (fun z hz => ?_) hbusy⟩
  · by_cases he : t' = t
    · subst he
      rw [taken_self hwaiters, hnew]
      exact (h.taken t').moved_all (by simp)
    · rw [taken_other hwaiters he]
      exact (h.taken t').moved_other (hne _ fun hx => he (Place.thread.inj hx)) (by simp)
  · rw [← h.busy, hat z hz]
    simp

end Polled

/-! ## Counting threads -/

theorem Counted.congr (h : e.Counted) (hw : e'.waiters = e.waiters) (ha : e'.activePollCount = e.activePollCount) :
    e'.Counted := by
  unfold Counted
  rw [hw, ha]
  exact h

section

variable [DecidableEq τ] {t : τ} {w : Waiter}

theorem Counted.enter (h : e.Counted) (hout : e.waiters t = .out) (hw : e'.waiters = Function.update e.waiters t w)
    (hin : w ≠ .out) (ha : e'.activePollCount = e.activePollCount + 1) : e'.Counted := by
  obtain ⟨ts, hnd, hmem, hcount⟩ := h
  refine ⟨t :: ts, List.nodup_cons.mpr ⟨fun ht => (hmem t).mp ht hout, hnd⟩, fun t' => ?_, by simp [ha, hcount]⟩
  rw [hw]
  by_cases he : t' = t
  · subst he
    simp [hin]
  · simp [he, hmem]

theorem Counted.leave (h : e.Counted) (hin : e.waiters t ≠ .out) (hw : e'.waiters = Function.update e.waiters t .out)
    (ha : e'.activePollCount = e.activePollCount - 1) : e'.Counted := by
  obtain ⟨ts, hnd, hmem, hcount⟩ := h
  refine ⟨ts.erase t, hnd.erase t, fun t' => ?_, ?_⟩
  · rw [hw, hnd.mem_erase_iff]
    by_cases he : t' = t
    · subst he
      simp
    · simp [he, hmem]
  · rw [ha, hcount, List.length_erase_of_mem ((hmem t).mpr hin)]

theorem Counted.stay (h : e.Counted) (hin : e.waiters t ≠ .out) (hw : e'.waiters = Function.update e.waiters t w)
    (hw' : w ≠ .out) (ha : e'.activePollCount = e.activePollCount) : e'.Counted := by
  obtain ⟨ts, hnd, hmem, hcount⟩ := h
  refine ⟨ts, hnd, fun t' => ?_, ha.trans hcount⟩
  rw [hw, hmem]
  by_cases he : t' = t
  · subst he
    simp [hin, hw']
  · simp [he]

end

end MNet.Wepoll.Epoll
