import MNet.Wepoll.EpollSet

/-! # Runs of a port

The functions of a port are called by any number of threads, in any order, while AFD completes poll
operations and the IOCP hands out packets. Whatever happens, the port is sound and does to its
sockets what `EpollSet.Step` says. It has one fault: `epoll_ctl` may need a new poll group after
`epoll_close`, and then an assertion fails. -/

namespace MNet.Wepoll

open Lib Lib.Exec

variable {τ : Type} {p p' : Port τ} {e e' : Epoll τ} {env : WinEnv} {s : SockId} {m : EpollSet}
  {closed : Prop}

/-! ## AFD and the IOCP -/

theorem Epoll.Watches.alike (h : e.Watches m) (ha : e.Alike e') : e'.Watches m := by
  have hwatch : e'.watch = e.watch := by
    funext z
    rw [watch, watch, ha.socks]
  unfold Watches
  rw [ha.tree, ha.key, hwatch]
  exact h

namespace Port.Shows

theorem apart (h : p.Shows e) : e.Apart := fun _ hs _ hs' hk => h.key_inj hs hs' hk

theorem afdComplete_ends {status : NtStatus} {info : AfdPollInfo} (h : p.Shows e) (hs : e.Sound closed [])
    (hin : s ∈ e.inFlight) (hc : info.Closed → closed) :
    Ends (afdComplete s status info) p fun _ p' => ∃ e', p'.Shows e' ∧ e'.Sound closed [] ∧ e.Keeps False e' ∧
      e'.update = e.update := by
  obtain ⟨place, hp⟩ := hs.polled
  have hplace : place s = some .afd := (hp.flight.2 s).mp hin
  obtain ⟨v, hv, _⟩ := (hp.busy s).mp (hplace ▸ by simp)
  simp only [afdComplete, ends_bind]
  refine h.updateSock_ends hv fun p₁ h₁ => ?_
  set v₁ : SockState := { v with ioStatus := status, pollInfo := info } with hv₁
  have h₁ : p₁.Shows (e.put s v₁) := h₁
  rw [ends_onData]
  have h₂ := h₁.onData fun d => { d with inFlight := d.inFlight.erase s, packets := d.packets ++ [s] }
  refine ⟨(e.put s v₁).finish s, h₂, hs.complete hin hv rfl rfl rfl rfl hc, ?_, rfl⟩
  have hsocks : ((e.put s v₁).finish s).socks = Function.update e.socks s (some v₁) := rfl
  exact Epoll.Keeps.wrote hv hsocks rfl rfl rfl rfl rfl rfl

theorem portClose_ends (h : p.Shows e) (hs : e.Sound closed []) :
    Ends portClose p fun _ p' => ∃ e', p'.Shows e' ∧ e'.Sound closed [] ∧ e.Alike e' ∧
      e'.activePollCount = e.activePollCount := by
  simp only [portClose, ends_onData]
  have halike : e.Alike (e.onData fun d => { d with iocpHandle := false }) := ⟨rfl, rfl, rfl, rfl, rfl, rfl, rfl, rfl⟩
  obtain ⟨place, hp⟩ := hs.polled
  have h₁ := h.onData fun d => { d with iocpHandle := false }
  refine ⟨_, h₁, halike.sound hs ⟨place, ?_⟩ rfl (hs.counted.congr rfl rfl), halike, rfl⟩
  exact hp.congr rfl rfl rfl halike.busy

section

variable [DecidableEq τ] {t : τ} {n k : Nat}

theorem gqcsDequeue_ends (h : p.Shows e) (hs : e.Sound closed []) (ht : e.waiters t = .polling k) :
    Ends (gqcsDequeue t k n) p fun _ p' => ∃ e', p'.Shows e' ∧ e'.Sound closed [] ∧ e.Alike e' ∧
      e'.activePollCount = e.activePollCount := by
  simp only [gqcsDequeue, ends_onData]
  have h₁ := h.onData fun d => { d with packets := d.packets.drop n }.setWaiter t (.woken k (some (d.packets.take n)))
  set e₁ := e.onData fun d => { d with packets := d.packets.drop n }.setWaiter t
    (.woken k (some (d.packets.take n))) with he₁
  have halike : e.Alike e₁ := ⟨rfl, rfl, rfl, rfl, rfl, rfl, rfl, rfl⟩
  have hnew : e₁.waiters = Function.update e.waiters t (.woken k (some (e.packets.take n))) := rfl
  obtain ⟨place, hp⟩ := hs.polled
  have hp₁ : e₁.Polled [] (Epoll.At.moved place (e.packets.take n) (.thread t)) :=
    hp.take (congrArg Waiter.taken ht) rfl rfl hnew rfl halike.busy
  exact ⟨e₁, h₁, halike.sound hs ⟨_, hp₁⟩ rfl (hs.counted.stay (by simp [ht]) hnew (by simp) rfl), halike, rfl⟩

theorem gqcsFail_ends (h : p.Shows e) (hs : e.Sound closed []) (ht : e.waiters t = .polling k) :
    Ends (gqcsFail t k) p fun _ p' => ∃ e', p'.Shows e' ∧ e'.Sound closed [] ∧ e.Alike e' ∧
      e'.activePollCount = e.activePollCount := by
  simp only [gqcsFail, ends_onData]
  have h₁ := h.onData fun d => d.setWaiter t (.woken k none)
  set e₁ := e.onData fun d => d.setWaiter t (.woken k none) with he₁
  have halike : e.Alike e₁ := ⟨rfl, rfl, rfl, rfl, rfl, rfl, rfl, rfl⟩
  have hnew : e₁.waiters = Function.update e.waiters t (.woken k none) := rfl
  obtain ⟨place, hp⟩ := hs.polled
  refine ⟨e₁, h₁, halike.sound hs ⟨place, ?_⟩ rfl (hs.counted.stay (by simp [ht]) hnew (by simp) rfl), halike, rfl⟩
  exact hp.turn rfl rfl hnew (congrArg Waiter.taken ht) rfl halike.busy

end

end Port.Shows

/-! ## One action -/

/-- `epoll_ctl` needs a new poll group for a socket, and the port was closed. -/
def PortAction.Asserts (p : Port τ) : PortAction τ → Prop
  | .ctl env op sock _ => op = EPOLL_CTL_ADD ∧ p.iocpHandle = false ∧ sock ≠ 0 ∧ sock ≠ INVALID_SOCKET ∧
      env.baseSocket ≠ none ∧ ∀ g w, p.groups g = some w → POLL_GROUP_MAX_GROUP_SIZE ≤ w.groupSize
  | .wait .. => False
  | .resume .. => False
  | .close => False
  | .complete .. => False
  | .dequeue .. => False
  | .fail .. => False

/-- AFD does not fail for a reason of its own during the action. -/
def PortAction.Answers : PortAction τ → Prop
  | .ctl env .. => env.Answers
  | .wait env .. => env.Answers
  | .resume env .. => env.Answers
  | .close => True
  | .complete .. => True
  | .dequeue .. => True
  | .fail .. => True

/-- The port is sound, and its sockets are the set `m`. -/
structure Port.Serves (closed : Prop) (p : Port τ) (e : Epoll τ) (m : EpollSet) : Prop where
  shows : p.Shows e
  sound : e.Sound closed []
  watches : e.Watches m

/-- What an action leaves. -/
def Acted (closed : Prop) (e : Epoll τ) (m : EpollSet) (a : PortAction τ) (r : PortAnswer) (p : Port τ) : Prop :=
  ∃ e' m', p.Serves closed e' m' ∧ m.Step closed a r m' ∧ (e.Prompt → a.Answers → e'.Prompt)

namespace Port.Serves

theorem mono {closed' : Prop} (h : p.Serves closed e m) (hc : closed → closed') : p.Serves closed' e m :=
  ⟨h.shows, h.sound.mono hc, h.watches⟩

theorem hasRoom_iff (h : p.Serves closed e m) :
    HasRoom e.groupQueue e.members ↔ ∃ g w, p.groups g = some w ∧ w.groupSize < POLL_GROUP_MAX_GROUP_SIZE := by
  have hg := h.sound.linked.grouped
  rw [h.shows.groups]
  constructor
  · rintro ⟨g, hq, hlt⟩
    exact ⟨g, _, hg.get hq, hlt⟩
  · rintro ⟨g, w, hw, hlt⟩
    have hq : g ∈ e.groupQueue := hg.mem.mpr (by rw [hw]; simp)
    rw [hg.get hq] at hw
    cases hw
    exact ⟨g, hq, hlt⟩

/-- A change of the set by `epoll_ctl`. -/
theorem called {loses Q : Prop} {P : Epoll τ → Prop} {r : Int} {op : Int} {k : Nat} {ev : EpollEvent}
    (h : p.Serves closed e m) (hc : Shows.Called e env closed loses Q P r p')
    (herr : Q → op = EPOLL_CTL_MOD ∨ op = EPOLL_CTL_DEL → m k = none)
    (hok : ∀ e₁ e₂, P e₁ → e₁.Keeps loses e₂ →
      ∃ m', e₂.Watches m' ∧ m.Step closed (.ctl (τ := τ) env op k ev) (.code 0) m') :
    Acted closed e m (.ctl env op k ev) (.code r) p' := by
  obtain ⟨e', h', hs', hprompt, ⟨rfl, hq, hk⟩ | ⟨rfl, e₁, hp, hk⟩⟩ := hc
  · exact ⟨e', m, ⟨h', hs', h.watches.same h.shows.apart hk⟩, .refused (herr hq), hprompt⟩
  · obtain ⟨m', hw, hstep⟩ := hok e₁ e' hp hk
    exact ⟨e', m', ⟨h', hs', hw⟩, hstep, hprompt⟩

/-- AFD, the IOCP or `epoll_close`: the set stays as it is. -/
theorem alike {a : PortAction τ} {r : PortAnswer} (h : p.Serves closed e m) (h' : p'.Shows e')
    (hs' : e'.Sound closed []) (ha : e.Alike e') (hc : e'.activePollCount = e.activePollCount)
    (hstep : m.Step closed a r m) : Acted closed e m a r p' := by
  refine ⟨e', m, ⟨h', hs', h.watches.alike ha⟩, hstep, ?_⟩
  intro hp _ hpos
  rw [ha.update]
  exact hp (hc ▸ hpos)

theorem ctl_acted {op : Int} {k : Nat} {ev : EpollEvent} (h : p.Serves closed e m) (hfit : env.Fits p)
    (hc : env.Closes → closed) (hno : ¬ (PortAction.ctl (τ := τ) env op k ev).Asserts p) :
    Ends (portCtl env op k ev) p fun r p' => Acted closed e m (.ctl env op k ev) (.code r) p' := by
  have hnone := h.watches.none_iff h.sound.linked (k := k)
  simp only [portCtl, ends_ite]
  refine ⟨?_, fun hadd => ⟨?_, fun hmod => ⟨?_, fun hdel => ?_⟩⟩⟩
  · rintro rfl
    refine (h.shows.portCtlAdd_ends h.sound hc ?_ hfit).mono fun r p' hr => h.called hr ?_ ?_
    · intro hk hk' hb
      by_contra hfull
      rw [not_or, h.hasRoom_iff] at hfull
      refine hno ⟨rfl, ?_, hk, hk', hb, fun g w hg => ?_⟩
      · rw [h.shows.iocpHandle]
        simpa using hfull.1
      · exact Nat.le_of_not_lt fun hlt => hfull.2 ⟨g, w, hg, hlt⟩
    · intro _ hop
      exact absurd hop (by decide)
    · rintro e₁ e₂ ⟨s, hd⟩ hk
      have ha₁ : e₁.Apart := hd.apart h.shows.apart
      obtain ⟨m', hdrop, hw⟩ := (h.watches.adopts hd).keeps ha₁ hk
      exact ⟨m', hw, .add (hnone.mpr hd.free) hdrop⟩
  · rintro rfl
    refine (h.shows.portCtlMod_ends h.sound hc).mono fun r p' hr => h.called hr ?_ ?_
    · exact fun hk _ => hnone.mpr hk
    · rintro e₁ e₂ ⟨s, hs, rfl, harm⟩ hk
      have ha₁ : e₁.Apart := h.shows.apart.congr harm.tree harm.key
      have hw₁ := h.watches.write h.shows.apart hs harm.tree harm.key harm.watch
      obtain ⟨m', hdrop, hw⟩ := hw₁.keeps ha₁ hk
      exact ⟨m', hw, .mod (fun hn => hnone.mp hn s hs rfl) hdrop⟩
  · rintro rfl
    refine (h.shows.portCtlDel_ends h.sound).mono fun r p' hr => h.called hr ?_ ?_
    · exact fun hk _ => hnone.mpr hk
    · rintro e₁ e₂ ⟨s, hs, rfl, hrem⟩ hk
      have hw₁ := h.watches.removes h.shows.apart h.sound.linked hs hrem
      have hw := hw₁.same (hrem.1.shrinks.apart h.shows.apart) hk
      exact ⟨_, hw, .del fun hn => hnone.mp hn s hs rfl⟩
  · refine ends_pure.mpr ⟨e, m, h, .refused fun hop => absurd hop ?_, fun hp _ => hp⟩
    rw [not_or]
    exact ⟨hmod, hdel⟩

section

variable [DecidableEq τ] {t : τ}

theorem wait_acted {n : Int} {alloc : Bool} (h : p.Serves closed e m) (ht : p.waiters t = .out)
    (hc : env.Closes → closed) :
    Ends (portWait env t n alloc) p fun r p' => Acted closed e m (.wait env t n alloc) (.wait r) p' := by
  have hout : e.waiters t = .out := h.shows.waiters ▸ ht
  simp only [portWait, ends_ite]
  refine ⟨fun _ => ends_pure.mpr ⟨e, m, h, .refusesWait (.refl m) (.inl rfl), fun hp _ => hp⟩, fun _ => ?_⟩
  have hw : e.waiters = Function.update e.waiters t .out := (Function.update_eq_self_iff.mpr hout.symm).symm
  refine (h.shows.portWaitRound_ends h.sound (.refl e) rfl hw hc).mono fun r p' hr => ?_
  obtain ⟨hr, e', l, w, h', hs', hprompt, htell, _, _, hnd, hres⟩ := hr
  obtain ⟨m', l', htells, hw', hsnd, _, _⟩ := htell.watches h.shows.apart h.watches hnd
  have hnil : l = [] := by
    rcases hr with rfl | ⟨_, rfl, _⟩
    · rcases hres with ⟨_, hl, _⟩ | ⟨_, hr, _⟩
      · exact hl
      · cases hr
    · rcases hres with ⟨hr, _⟩ | ⟨_, hr, _⟩
      · cases hr
      · injection hr with _ hl
        exact List.map_eq_nil_iff.mp hl.symm
  subst hnil
  obtain rfl : l' = [] := by simpa using hsnd
  cases htells with
  | done hd =>
    refine ⟨e', m', ⟨h', hs', hw'⟩, ?_, fun _ => hprompt⟩
    rcases hr with rfl | ⟨_, rfl, hk⟩
    · exact .waits hd
    · exact .refusesWait hd hk

theorem resume_acted {k : Nat} {o : Option (List SockId)} {again : Bool} (h : p.Serves closed e m)
    (ht : p.waiters t = .woken k o) (hc : env.Closes → closed) :
    Ends (portWaitResume env t k o again) p fun r p' => Acted closed e m (.resume env t again) (.wait r) p' := by
  refine (h.shows.portWaitResume_ends h.sound hc (h.shows.waiters ▸ ht)).mono fun r p' hr => ?_
  obtain ⟨e', l, w, h', hs', hprompt, htell, _, _, hnd, hres⟩ := hr
  obtain ⟨m', l', htells, hw', hsnd, hfst, hmem⟩ := htell.watches h.shows.apart h.watches hnd
  have hlen : l'.length = l.length := by simpa using congrArg List.length hsnd
  refine ⟨e', m', ⟨h', hs', hw'⟩, ?_, fun _ => hprompt⟩
  rcases hres with ⟨rfl, rfl, _⟩ | ⟨n, rfl, _, hn⟩
  · obtain rfl : l' = [] := by simpa using hsnd
    cases htells with
    | done hd => exact .waitsOn hd
  · rw [← hsnd]
    refine .tells htells ?_ ?_
    · rw [hfst]
      exact hnd.map_on fun s hs s' hs' hk => h.shows.apart s (hmem s hs) s' (hmem s' hs') hk
    · rw [hlen]
      refine hn.imp id fun hn => ⟨hn.1, ?_⟩
      exact List.length_eq_zero_iff.mp (by rw [hlen, hn.2]; rfl)

/-- Every action that can happen leaves the port sound, unless an assertion fails. -/
theorem acted {a : PortAction τ} (h : p.Serves closed e m) (hen : a.Enabled p) (hc : a.Closes → closed)
    (hno : ¬ a.Asserts p) : Ends a.exec p (Acted closed e m a) := by
  cases a with
  | ctl env op k ev =>
    simp only [PortAction.exec, ends_bind, ends_pure]
    exact h.ctl_acted hen hc hno
  | wait env t n alloc =>
    simp only [PortAction.exec, ends_bind, ends_pure]
    exact h.wait_acted hen hc
  | resume env t again =>
    obtain ⟨k, o, ht⟩ := hen
    simp only [PortAction.exec, ends_bind, ends_read, ht, ends_pure]
    exact h.resume_acted ht hc
  | close =>
    simp only [PortAction.exec, ends_bind, ends_pure]
    refine (h.shows.portClose_ends h.sound).mono fun _ p' hr => ?_
    obtain ⟨e', h', hs', ha, hcount⟩ := hr
    exact h.alike h' hs' ha hcount .close
  | complete s status info =>
    have hin : s ∈ e.inFlight := (congrArg PortData.inFlight h.shows.data) ▸ hen.1
    simp only [PortAction.exec, ends_bind, ends_pure]
    refine (h.shows.afdComplete_ends h.sound hin hc).mono fun _ p' hr => ?_
    obtain ⟨e', h', hs', hk, hu⟩ := hr
    refine ⟨e', m, ⟨h', hs', h.watches.same h.shows.apart hk⟩, .complete, ?_⟩
    intro hp _ hpos
    rw [hu]
    exact hp (hk.activePollCount ▸ hpos)
  | dequeue t n =>
    obtain ⟨k, ht, _⟩ := hen
    simp only [PortAction.exec, ends_bind, ends_read, ht, ends_pure]
    refine (h.shows.gqcsDequeue_ends h.sound (h.shows.waiters ▸ ht)).mono fun _ p' hr => ?_
    obtain ⟨e', h', hs', ha, hcount⟩ := hr
    exact h.alike h' hs' ha hcount .dequeue
  | fail t =>
    obtain ⟨k, ht⟩ := hen
    simp only [PortAction.exec, ends_bind, ends_read, ht, ends_pure]
    refine (h.shows.gqcsFail_ends h.sound (h.shows.waiters ▸ ht)).mono fun _ p' hr => ?_
    obtain ⟨e', h', hs', ha, hcount⟩ := hr
    exact h.alike h' hs' ha hcount .fail

/-! ## The assertion -/

omit [DecidableEq τ] in
/-- A group is needed, and no group has room. -/
theorem pollGroupAcquire_fault (h : p.Shows e) (hl : e.Linked) (hfull : ¬ HasRoom e.groupQueue e.members)
    (hclosed : p.iocpHandle = false) : fault (pollGroupAcquire env) p = some .assertion := by
  have hg := hl.grouped
  unfold pollGroupAcquire
  have hlast : Ends pollGroupLast p fun o p' => o = e.groupQueue.getLast? ∧ p' = p := h.pollGroupLast_ends.mpr ⟨rfl, rfl⟩
  refine hlast.fault_bind fun o p₁ h₁ => ?_
  obtain ⟨rfl, rfl⟩ := h₁
  have hroom : Ends (pollGroupHasRoom e.groupQueue.getLast?) p₁ fun r p' => r = false ∧ p' = p₁ := by
    cases hlast : e.groupQueue.getLast? with
    | none => exact ends_pure.mpr ⟨rfl, rfl⟩
    | some g =>
      have hq : g ∈ e.groupQueue := List.mem_of_getLast? hlast
      simp only [pollGroupHasRoom, ends_bind, h.getGroup_ends (hg.get hq), ends_pure, decide_eq_false_iff_not, and_true]
      exact fun hlt => hfull ⟨g, hq, hlt⟩
  refine hroom.fault_bind fun r p₂ h₂ => ?_
  obtain ⟨rfl, rfl⟩ := h₂
  have hassert : fault (portGetIocpHandle : PortM τ Unit) p₂ = some .assertion := by
    have hread : Ends (read fun p => p.iocpHandle : PortM τ Bool) p₂ fun r _ => r = false := ends_read.mpr hclosed
    refine hread.fault_bind fun r p₃ h₃ => ?_
    rw [h₃]
    rfl
  exact fault_of_bind (fault_of_bind hassert)

theorem asserts {a : PortAction τ} (h : p.Serves closed e m) (ha : a.Asserts p) :
    fault a.exec p = some .assertion := by
  cases a with
  | ctl env op k ev =>
    obtain ⟨rfl, hclosed, hk, hk', hb, hfull⟩ := ha
    have hno : ¬ HasRoom e.groupQueue e.members := by
      rw [h.hasRoom_iff]
      rintro ⟨g, w, hg, hlt⟩
      exact absurd hlt (Nat.not_lt.mpr (hfull g w hg))
    obtain ⟨b, hb⟩ := Option.ne_none_iff_exists'.mp hb
    have hnew : fault (sockNew env k) p = some .assertion := by
      simp only [sockNew, hk, hk', or_self, if_false, hb]
      exact fault_of_bind (pollGroupAcquire_fault h.shows h.sound.linked hno hclosed)
    exact fault_of_bind (fault_of_bind hnew)
  | wait => exact ha.elim
  | resume => exact ha.elim
  | close => exact ha.elim
  | complete => exact ha.elim
  | dequeue => exact ha.elim
  | fail => exact ha.elim

end

end Port.Serves

/-! ## Runs -/

variable [DecidableEq τ]

/-- What the port is after the actions, with their answers. -/
inductive Port.Runs : List (PortAction τ × PortAnswer) → Port τ → Prop
  | nil : Runs [] {}
  | step {l : List (PortAction τ × PortAnswer)} {p p' : Port τ} {a : PortAction τ} {r : PortAnswer} :
    Runs l p → a.Enabled p → Returns a.exec p r p' → Runs (l ++ [(a, r)]) p'

variable {l : List (PortAction τ × PortAnswer)} {a : PortAction τ}

namespace Port

omit [DecidableEq τ] in
theorem serves_init : Port.Serves False ({} : Port τ) {} fun _ => none where
  shows := by
    refine ⟨rfl, ⟨[], .nil, holds_init⟩, by simp, QueueMem.Holds.init fun x hx => ?_⟩
    rcases QueueNode.mem_heads.mp hx with rfl | rfl | rfl <;> rfl
  sound := by
    have hat : ∀ x : Epoll.Place τ, Epoll.At (fun _ => none) x [] := fun x => ⟨.nil, by simp⟩
    refine ⟨?_, ⟨fun _ => none, hat _, hat _, fun t => hat _, hat _, ?_⟩, by simp, by simp, [], .nil, by simp, rfl⟩
    · refine ⟨by simp [Epoll.live], .nil, by simp, by simp, .nil, ?_, rfl⟩
      exact ⟨by simp, .nil, by simp [Epoll.members, membersOf, Epoll.live], by simp [Epoll.members, membersOf, Epoll.live], .nil⟩
    · intro s
      simp [Epoll.Busy]
  watches k w := by simp

/-- Every run leaves a sound port, and is a run of the set. -/
theorem Runs.serves (h : Port.Runs l p) : ∃ e m, p.Serves (ClosesIn l) e m ∧ EpollSet.Runs l m ∧
    ((∀ x ∈ l, x.1.Answers) → e.Prompt) := by
  induction h with
  | nil => exact ⟨{}, fun _ => none, serves_init.mono False.elim, .nil, fun _ => by simp [Epoll.Prompt]⟩
  | @step l p p' a r _ hen hret ih =>
    obtain ⟨e, m, hs, hruns, hprompt⟩ := ih
    have hs : p.Serves (ClosesIn (l ++ [(a, r)])) e m := by
      refine hs.mono ?_
      rintro ⟨x, hx, hc⟩
      exact ⟨x, List.mem_append_left _ hx, hc⟩
    have hc : a.Closes → ClosesIn (l ++ [(a, r)]) := fun hc =>
      ⟨(a, r), List.mem_append_right _ List.mem_cons_self, hc⟩
    have hno : ¬ a.Asserts p := fun ha => not_terminates_of_fault (hs.asserts ha) ⟨r, p', hret⟩
    obtain ⟨e', m', hs', hstep, hp⟩ := hret.ends.mp (hs.acted hen hc hno)
    refine ⟨e', m', hs', hruns.step hstep, fun hall => hp (hprompt fun x hx => hall x ?_) (hall (a, r) ?_)⟩
    · exact List.mem_append_left _ hx
    · exact List.mem_append_right _ List.mem_cons_self

end Port

end MNet.Wepoll
