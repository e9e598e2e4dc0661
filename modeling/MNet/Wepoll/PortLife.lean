import MNet.Wepoll.PortRun

/-! # The life of a port

What holds of a port after any run: which calls return, where the poll operations are, what AFD was
asked for, and how full the poll groups are. -/

namespace MNet.Wepoll

open Lib Lib.Exec

/-! ## The two event masks -/

/-- The events of `AFD_POLL` that an epoll event stands for, and back: `EPOLLMSG` has none. -/
def SOCK_POLLED_EPOLL_EVENTS : BitVec 32 := SOCK_KNOWN_EPOLL_EVENTS &&& ~~~EPOLLMSG

section

variable {b b' acc acc' mask bits : BitVec 32} {i : Nat}

/-- Every bit of `b'` is set in `b`. -/
def Covers (b b' : BitVec 32) : Prop := ∀ i, b'.getLsbD i = true → b.getLsbD i = true

theorem covers_twoPow (h : b.getLsbD i = true) : Covers b (BitVec.twoPow 32 i) := by
  intro j hj
  rw [BitVec.getLsbD_twoPow, Bool.and_eq_true, decide_eq_true_eq, decide_eq_true_eq] at hj
  exact hj.2 ▸ h

theorem Covers.and_ne_zero (h : Covers b b') (hne : b' &&& mask ≠ 0) : b &&& mask ≠ 0 := by
  intro hzero
  refine hne (BitVec.eq_of_getLsbD_eq fun i _ => ?_)
  have hbit := congrArg (fun x => x.getLsbD i) hzero
  simp only [BitVec.getLsbD_and, BitVec.ofNat_eq_ofNat, BitVec.getLsbD_zero, Bool.and_eq_false_iff] at hbit ⊢
  refine hbit.imp (fun hb => ?_) id
  rw [← Bool.not_eq_true] at hb ⊢
  exact fun hb' => hb (h i hb')

theorem Covers.orIf (h : Covers b b') (hacc : Covers acc acc') :
    Covers (orIf b mask bits acc) (orIf b' mask bits acc') := by
  intro i hi
  unfold Wepoll.orIf at hi ⊢
  split at hi
  · rename_i hne
    rw [if_pos (h.and_ne_zero hne), BitVec.getLsbD_or, Bool.or_eq_true]
    rw [BitVec.getLsbD_or, Bool.or_eq_true] at hi
    exact hi.imp (hacc i) id
  · split
    · rw [BitVec.getLsbD_or, Bool.or_eq_true]
      exact .inl (hacc i hi)
    · exact hacc i hi

theorem Covers.refl (b : BitVec 32) : Covers b b := fun _ hi => hi

theorem Covers.afdEvents (h : Covers b b') : Covers (sockEpollEventsToAfdEvents b) (sockEpollEventsToAfdEvents b') := by
  unfold sockEpollEventsToAfdEvents
  exact .orIf h (.orIf h (.orIf h (.orIf h (.orIf h (.orIf h (.refl _))))))

theorem Covers.epollEvents (h : Covers b b') : Covers (sockAfdEventsToEpollEvents b) (sockAfdEventsToEpollEvents b') := by
  unfold sockAfdEventsToEpollEvents
  exact .orIf h (.orIf h (.orIf h (.orIf h (.orIf h (.orIf h (.refl _))))))

/-- AFD is asked for events that stand for every event in the mask, but for `EPOLLMSG`. -/
theorem afdEvents_covers : Covers (sockAfdEventsToEpollEvents (sockEpollEventsToAfdEvents b)) (b &&& SOCK_POLLED_EPOLL_EVENTS) := by
  have hone : ∀ i < 32, SOCK_POLLED_EPOLL_EVENTS.getLsbD i = true →
      (sockAfdEventsToEpollEvents (sockEpollEventsToAfdEvents (BitVec.twoPow 32 i))).getLsbD i = true := by decide
  intro i hi
  rw [BitVec.getLsbD_and, Bool.and_eq_true] at hi
  obtain ⟨hb, hp⟩ := hi
  exact (covers_twoPow hb).afdEvents.epollEvents i (hone i (BitVec.lt_of_getLsbD hp) hp)

theorem SockState.polled_of_unwatched {v : SockState} (hun : v.unwatched = 0) : v.userEvents &&&
    SOCK_POLLED_EPOLL_EVENTS &&& ~~~sockAfdEventsToEpollEvents (sockEpollEventsToAfdEvents v.pendingEvents) = 0 := by
  refine BitVec.eq_of_getLsbD_eq fun i hi => ?_
  have hbit : v.unwatched.getLsbD i = false := by
    rw [hun]
    exact BitVec.getLsbD_zero
  have hcover := afdEvents_covers (b := v.pendingEvents) i
  simp only [SockState.unwatched, SOCK_POLLED_EPOLL_EVENTS, BitVec.getLsbD_and, BitVec.getLsbD_not, hi, decide_true,
    Bool.true_and, BitVec.ofNat_eq_ofNat, BitVec.getLsbD_zero] at hbit hcover ⊢
  -- a bit that the user asked for is pending, and so it is polled
  by_contra hne
  simp only [Bool.not_eq_false, Bool.and_eq_true, Bool.not_eq_true'] at hne
  obtain ⟨⟨huser, hknown, hmsg⟩, hout⟩ := hne
  have hpend : v.pendingEvents.getLsbD i = true := by simpa [huser, hknown] using hbit
  rw [hcover (by simp [hpend, hknown, hmsg])] at hout
  cases hout

end

/-! ## Runs -/

variable {τ : Type} [DecidableEq τ] {l : List (PortAction τ × PortAnswer)} {p : Port τ} {a : PortAction τ} {s : SockId}
  {v : SockState} {t : τ}

/-- What an action leaves, when it returns. -/
def PortAction.after (a : PortAction τ) (p : Port τ) : Port τ :=
  match a.exec p with
  | .ok (_, p') => p'
  | .error _ => p

/-- AFD takes every poll operation and finds nothing. -/
def quietEnv : WinEnv := ⟨some 7, some 0, some 0, fun _ => .pending, fun _ => true, false⟩

/-- A socket is added, and a thread waits. -/
def addsFive : PortAction Unit := .ctl quietEnv EPOLL_CTL_ADD 5 ⟨EPOLLIN, 9⟩

def waitsOne : PortAction Unit := .wait quietEnv () 1 false

/-- An action that can happen returns, without a fault, or fails the one assertion. -/
theorem action_returns (h : Port.Runs l p) (hen : a.Enabled p) :
    (Terminates a.exec p ∧ ¬ a.Asserts p) ∨ (fault a.exec p = some .assertion ∧ a.Asserts p) := by
  obtain ⟨e, m, hs, _, _⟩ := h.serves
  by_cases ha : a.Asserts p
  · exact .inr ⟨hs.asserts ha, ha⟩
  · have hs : p.Serves (ClosesIn l ∨ a.Closes) e m := hs.mono .inl
    obtain ⟨r, p', hret, _⟩ := hs.acted hen .inr ha
    exact .inl ⟨⟨r, p', hret⟩, ha⟩

/-- `epoll_ctl` that comes after `epoll_close` and needs a poll group. -/
theorem action_returns_closed : fault addsFive.exec (PortAction.close.after {}) = some .assertion := by
  have hrun : Port.Runs [(.close, .none)] (PortAction.close.after ({} : Port Unit)) := Port.Runs.nil.step rfl rfl
  have hfits : addsFive.Enabled (PortAction.close.after {}) := ⟨fun _ _ => rfl, fun _ _ => rfl⟩
  have hnone : ∀ g, (PortAction.close.after ({} : Port Unit)).groups g = none := fun _ => rfl
  have hasserts : addsFive.Asserts (PortAction.close.after {}) :=
    ⟨rfl, rfl, by decide, by decide, by decide, fun g w hw => absurd ((hnone g).symm.trans hw) (by simp)⟩
  exact ((action_returns hrun hfits).resolve_left fun h => h.2 hasserts).1

/-- Every run is a run of the set of the sockets that were added and not deleted. -/
theorem run_refines (h : Port.Runs l p) : ∃ m : EpollSet, EpollSet.Runs l m ∧
    ∀ k w, m k = some w ↔ ∃ s v, p.socks s = some v ∧ v.deletePending = false ∧ p.sockTree.key s = k ∧ v.watch = w := by
  obtain ⟨e, m, hs, hruns, _⟩ := h.serves
  have hl := hs.sound.linked
  refine ⟨m, hruns, fun k w => (hs.watches k w).trans ?_⟩
  rw [hs.shows.socks]
  constructor
  · rintro ⟨s, hst, hk, hw⟩
    obtain ⟨v, hv⟩ := hl.exists_sock (List.mem_append_left _ hst)
    refine ⟨s, v, hv, (hl.tree_iff hv).mp hst, (hs.shows.key s hst).trans hk, ?_⟩
    rw [Epoll.watch, hv] at hw
    exact Option.some.inj hw
  · rintro ⟨s, v, hv, hdel, hk, hw⟩
    have hst := (hl.tree_iff hv).mpr hdel
    refine ⟨s, hst, (hs.shows.key s hst).symm.trans hk, ?_⟩
    rw [Epoll.watch, hv, Option.map_some, hw]

theorem waiting_runs : Port.Runs [(addsFive, .code 0), (waitsOne, .wait .waiting)] (waitsOne.after (addsFive.after {})) :=
  (Port.Runs.nil.step (a := addsFive) ⟨fun _ _ => rfl, fun _ _ => rfl⟩ rfl).step (a := waitsOne) rfl rfl

/-- A socket is added for one shot, a thread waits, and data arrives. -/
def addsOnce : PortAction Unit := .ctl quietEnv EPOLL_CTL_ADD 5 ⟨EPOLLIN ||| EPOLLONESHOT, 9⟩

def receives : PortAction Unit := .complete 0 .success ⟨1, 7, AFD_POLL_RECEIVE⟩

def delivers : PortAction Unit := .dequeue () 1

def reports : PortAction Unit := .resume quietEnv () false

/-- The thread is told of the data, and the socket stays in the set with nothing that is looked for. -/
theorem run_refines_reported : ∃ m : EpollSet, EpollSet.Runs [(addsOnce, .code 0), (waitsOne, .wait .waiting),
    (receives, .none), (delivers, .none), (reports, .wait (.returned 1 [⟨EPOLLIN, 9⟩]))] m ∧ m 5 = some ⟨0, 9⟩ := by
  have hadd : Port.Runs [(addsOnce, .code 0)] (addsOnce.after {}) :=
    Port.Runs.nil.step (a := addsOnce) ⟨fun _ _ => rfl, fun _ _ => rfl⟩ rfl
  have hwait : Port.Runs [(addsOnce, .code 0), (waitsOne, .wait .waiting)] (waitsOne.after (addsOnce.after {})) :=
    hadd.step (a := waitsOne) rfl rfl
  have hreceive : Port.Runs [(addsOnce, .code 0), (waitsOne, .wait .waiting), (receives, .none)]
      (receives.after (waitsOne.after (addsOnce.after {}))) := hwait.step (a := receives) ⟨by decide +kernel, by decide⟩ rfl
  have hdeliver : Port.Runs [(addsOnce, .code 0), (waitsOne, .wait .waiting), (receives, .none), (delivers, .none)]
      (delivers.after (receives.after (waitsOne.after (addsOnce.after {})))) :=
    hreceive.step (a := delivers) ⟨1, rfl, by decide, by decide, by decide +kernel⟩ rfl
  have hreport : Port.Runs [(addsOnce, .code 0), (waitsOne, .wait .waiting), (receives, .none), (delivers, .none),
      (reports, .wait (.returned 1 [⟨EPOLLIN, 9⟩]))]
      (reports.after (delivers.after (receives.after (waitsOne.after (addsOnce.after {}))))) :=
    hdeliver.step (a := reports) ⟨1, _, rfl⟩ rfl
  obtain ⟨m, hruns, hm⟩ := run_refines hreport
  exact ⟨m, hruns, (hm _ _).mpr ⟨0, _, rfl, rfl, rfl, rfl⟩⟩

/-- A socket has a poll operation exactly when it is not idle, and the operation is in one place: AFD
has it, or its packet is in the IOCP or with one thread. A deleted socket is in memory for it only. -/
theorem polls_placed (h : Port.Runs l p) : ∃ place : SockId → Option (Epoll.Place τ),
    Epoll.At place .afd p.inFlight ∧ Epoll.At place .iocp p.packets ∧
    (∀ t, Epoll.At place (.thread t) (p.waiters t).taken) ∧ (∀ s, place s ≠ some .fed) ∧
    (∀ s, place s ≠ none ↔ ∃ v, p.socks s = some v ∧ v.pollStatus ≠ .idle) ∧
    ∀ s v, p.socks s = some v → v.deletePending = true → v.pollStatus ≠ .idle := by
  obtain ⟨e, m, hs, _, _⟩ := h.serves
  obtain ⟨place, hp⟩ := hs.sound.polled
  have hflight : p.inFlight = e.inFlight := congrArg PortData.inFlight hs.shows.data
  have hpackets : p.packets = e.packets := congrArg PortData.packets hs.shows.data
  rw [hflight, hpackets, hs.shows.waiters, hs.shows.socks]
  refine ⟨place, hp.flight, hp.queued, hp.taken, fun s hfed => ?_, hp.busy, fun s v hv hdel => ?_⟩
  · exact absurd ((hp.fed.2 s).mpr hfed) List.not_mem_nil
  · have hbusy := hs.sound.awaited s ((hs.sound.linked.pending s v hv).mp hdel)
    exact (Epoll.busy_iff hv).mp hbusy

theorem polls_placed_waiting : ∃ v, (waitsOne.after (addsFive.after {})).socks 0 = some v ∧ v.pollStatus ≠ .idle := by
  obtain ⟨place, hflight, _, _, _, hbusy, _⟩ := polls_placed waiting_runs
  have hin : 0 ∈ (waitsOne.after (addsFive.after {})).inFlight := by
    rw [show (waitsOne.after (addsFive.after {})).inFlight = [0] from rfl]
    exact List.mem_cons_self
  exact (hbusy 0).mp (by rw [(hflight.2 0).mp hin]; simp)

/-- While a thread is in `epoll_wait`, no socket is forgotten: its poll operation was cancelled and comes
back, or it is polled for everything that the user asked for. When AFD still has the operation, its
mask stands for all of this. -/
theorem interest_kept (h : Port.Runs l p) (hall : ∀ x ∈ l, x.1.Answers) (ht : p.waiters t ≠ .out)
    (hv : p.socks s = some v) (hdel : v.deletePending = false) :
    v.pollStatus = .cancelled ∨ (v.pollStatus = .pending ∧ v.unwatched = 0 ∧ (s ∈ p.inFlight →
      v.pollInfo.handle = v.baseSocket ∧
      v.userEvents &&& SOCK_POLLED_EPOLL_EVENTS &&& ~~~sockAfdEventsToEpollEvents v.pollInfo.events = 0)) := by
  obtain ⟨e, m, hs, _, hprompt⟩ := h.serves
  have hflight : p.inFlight = e.inFlight := congrArg PortData.inFlight hs.shows.data
  rw [hs.shows.waiters] at ht
  rw [hs.shows.socks] at hv
  rw [hflight]
  have hst := (hs.sound.linked.tree_iff hv).mpr hdel
  obtain ⟨ts, _, hmem, hcount⟩ := hs.sound.counted
  have hpos : 0 < e.activePollCount := by
    rw [hcount]
    exact List.length_pos_of_mem ((hmem t).mpr ht)
  obtain ⟨hlooked, hasks, _⟩ := hs.sound.tended s hst v hv
  rcases hlooked with hu | hc | ⟨hpend, hun⟩
  · rw [hprompt hall hpos] at hu
    exact absurd hu List.not_mem_nil
  · exact .inl hc
  · refine .inr ⟨hpend, hun, fun hin => ?_⟩
    have hask := hasks hpend hin
    refine ⟨congrArg AfdPollInfo.handle hask, ?_⟩
    rw [congrArg AfdPollInfo.events hask]
    exact v.polled_of_unwatched hun

theorem interest_kept_waiting : ∃ v, (waitsOne.after (addsFive.after {})).socks 0 = some v ∧
    (v.pollStatus = .cancelled ∨ (v.pollStatus = .pending ∧ v.unwatched = 0)) := by
  have hall : ∀ x ∈ [(addsFive, PortAnswer.code 0), (waitsOne, .wait .waiting)], x.1.Answers := by
    simp [addsFive, waitsOne, PortAction.Answers, WinEnv.Answers, quietEnv]
  have hin : (waitsOne.after (addsFive.after {})).waiters () ≠ .out := by
    rw [show (waitsOne.after (addsFive.after {})).waiters () = .polling 1 from rfl]
    simp
  exact ⟨_, rfl, (interest_kept (s := 0) waiting_runs hall hin rfl rfl).imp id fun h => ⟨h.1, h.2.1⟩⟩

/-- Every socket in memory is counted in its poll group, which exists and is not too full. -/
theorem groups_counted (h : Port.Runs l p) : ∃ live : List SockId, live.Nodup ∧ (∀ s, s ∈ live ↔ p.socks s ≠ none) ∧
    (∀ s v, p.socks s = some v → ∃ w, p.groups v.pollGroup = some w) ∧
    ∀ g w, p.groups g = some w → w.groupSize = membersOf p.socks live g ∧ w.groupSize ≤ POLL_GROUP_MAX_GROUP_SIZE := by
  obtain ⟨e, m, hs, _, _⟩ := h.serves
  have hl := hs.sound.linked
  have hg := hl.grouped
  rw [hs.shows.socks, hs.shows.groups]
  refine ⟨e.live, hl.nodup, fun s => (hl.live s).symm, fun s v hv => ?_, fun g w hw => ?_⟩
  · exact ⟨_, hg.get (hg.mem_of_pos (hl.members_pos hv))⟩
  · have hq : g ∈ e.groupQueue := hg.mem.mpr (by rw [hw]; simp)
    rw [hg.get hq] at hw
    cases hw
    exact ⟨rfl, hg.bound g⟩

theorem groups_counted_waiting : ∃ live : List SockId, 0 ∈ live ∧
    (waitsOne.after (addsFive.after {})).groups 0 = some ⟨membersOf (waitsOne.after (addsFive.after {})).socks live 0⟩ := by
  obtain ⟨live, _, hlive, hgroup, hcount⟩ := groups_counted waiting_runs
  obtain ⟨w, hw⟩ := hgroup 0 _ rfl
  have hw : (waitsOne.after (addsFive.after {})).groups 0 = some w := hw
  obtain ⟨n⟩ := w
  refine ⟨live, (hlive 0).mpr ?_, ?_⟩
  · exact Option.some_ne_none _
  · rw [hw, ← (hcount 0 _ hw).1]

end MNet.Wepoll
