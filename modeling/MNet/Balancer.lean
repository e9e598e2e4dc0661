import MNet.Chann
import MNet.Lib.Procs

/-! # Accepting in several processes

Workers forked from one listener share its socket, and a semaphore decides which of them may
accept. The monitor never does. A worker may be killed between any two of its system calls. -/

namespace MNet
open MNet.Lib

/-! ## The balancer -/

/-- `_chann_multiprocess_accept`, wherever it runs; `nothing` is what it returns when
`ac_before` turns the accept down. -/
def channMultiprocessAccept {m : Type → Type} [Monad m] {α : Type} (accept : m α) (nothing : α)
    (acBefore acAfter : m Int) : m α := do
  let before ← acBefore
  if before > 0 then
    let fd ← accept
    let _ ← acAfter
    return fd
  else return nothing

/-- What the library calls to accept, with and without a balancer. -/
theorem acFn_eq {ε : Type} (lfd : Int) : (acFn lfd : M ε (Int × SockAddr)) =
    readMnet Mnet.acBalancer >>= fun balancer =>
      if balancer then channMultiprocessAccept (sysAccept lfd) (0, {}) sysRet sysRet
      else sysAccept lfd := rfl

/-- The calls a balanced accept makes. -/
inductive AcOp where
  | semTrywait
  | semPost
  | accept (afd : Int)
deriving DecidableEq

abbrev AcProg := Prog AcOp Int

def workerBeforeAc : AcProg := do
  let r ← Prog.op .semTrywait
  return if r = 0 then 1 else 0

def workerAfterAc : AcProg := do
  let _ ← Prog.op .semPost
  return 0

def monitorBeforeAfterAc (listenFd afd : Int) : AcProg := pure (if afd = listenFd then 0 else 1)

inductive Role where
  | monitor
  | worker
deriving DecidableEq

/-- `ss->ac_fn` for the listening socket, in a process of each kind. -/
def Role.acFn (listenFd : Int) : Role → AcProg
  | .monitor => channMultiprocessAccept (Prog.op (.accept listenFd)) 0
    (monitorBeforeAfterAc listenFd listenFd) (monitorBeforeAfterAc listenFd listenFd)
  | .worker => channMultiprocessAccept (Prog.op (.accept listenFd)) 0 workerBeforeAc workerAfterAc

/-! ## The processes -/

/-- A connection taken by the process `pid`, which knows it as `fd`. -/
structure Taken where
  pid : Nat
  conn : Nat
  fd : Int
deriving DecidableEq

/-- What the processes share: the semaphore, the connections that have arrived at the socket, those
that wait, and those that were accepted. -/
structure Listener where
  sem : Nat
  arrived : List Nat := []
  backlog : List Nat := []
  accepted : List Taken := []
deriving DecidableEq

/-- What one call does. `sem_trywait` and `accept` may fail at any time. -/
inductive Listener.Exec (listenFd : Int) : Listener → Nat → AcOp → Int → Listener → Prop
  | down {w : Listener} {p : Nat} : 0 < w.sem →
    Exec listenFd w p .semTrywait 0 { w with sem := w.sem - 1 }
  | busy {w : Listener} {p : Nat} : Exec listenFd w p .semTrywait (-1) w
  | up {w : Listener} {p : Nat} : Exec listenFd w p .semPost 0 { w with sem := w.sem + 1 }
  | accept {w : Listener} {p c : Nat} {fd : Int} {rest : List Nat} : w.backlog = c :: rest → 0 < fd →
    Exec listenFd w p (.accept listenFd) fd
      { w with backlog := rest, accepted := w.accepted ++ [⟨p, c, fd⟩] }
  | fail {w : Listener} {p : Nat} {afd r : Int} : r ≤ 0 → Exec listenFd w p (.accept afd) r w

/-- A connection arrives. -/
def Listener.Arrives (w w' : Listener) : Prop :=
  ∃ c, w' = { w with arrived := w.arrived ++ [c], backlog := w.backlog ++ [c] }

abbrev Servers := Fleet Nat AcOp Int Listener

/-- A step of the servers, the process `p` being a `role p`. -/
abbrev AcStep (listenFd : Int) (role : Nat → Role) : Servers → Fleet.Act Nat AcOp → Servers → Prop :=
  Fleet.Step (fun p => (role p).acFn listenFd) (Listener.Exec listenFd) Listener.Arrives

/-- The state in which the processes are forked, with the semaphore as it was opened. -/
def Servers.start (sem : Nat) : Servers := { world := { sem := sem } }

/-- What `sem_open` gives. A new semaphore has one permit. One that is there already, since nobody
unlinks it, has what servers that are gone left of it. -/
inductive Opens : Nat → Prop
  | new : Opens 1
  | old {sem : Nat} {listenFd : Int} {role : Nat → Role} {l : List (Fleet.Act Nat AcOp)} {s : Servers} :
    Opens sem → Path (AcStep listenFd role) (Servers.start sem) l s → Opens s.world.sem

/-! ## Where a process may stand -/

/-- What is left of an accept. -/
inductive Accepting (listenFd : Int) : AcProg → Prop
  | asks : Accepting listenFd (Role.acFn listenFd .worker)
  | enters : Accepting listenFd (.call (.accept listenFd) fun fd => .call .semPost fun _ => .ret fd)
  | leaves (fd : Int) : Accepting listenFd (.call .semPost fun _ => .ret fd)
  | done (fd : Int) : Accepting listenFd (.ret fd)

/-- The semaphore was taken and not given back. -/
def holdsPermit : AcProg → Bool
  | .call (.accept _) _ | .call .semPost _ => true
  | _ => false

/-- The connection an accept is about to return. -/
def inHand : AcProg → List Int
  | .call .semPost k =>
    match k 0 with
    | .ret fd => if 0 < fd then [fd] else []
    | .call _ _ => []
  | .ret fd => if 0 < fd then [fd] else []
  | _ => []

variable {listenFd : Int} {role : Nat → Role} {s t : Servers} {a : Fleet.Act Nat AcOp} {sem p q : Nat}

theorem acFn_worker : Role.acFn listenFd .worker = .call .semTrywait fun r =>
    if (if r = 0 then (1 : Int) else 0) > 0 then
      .call (.accept listenFd) fun fd => .call .semPost fun _ => .ret fd
    else .ret 0 := rfl

theorem acFn_monitor : Role.acFn listenFd .monitor = .ret 0 := by
  simp [Role.acFn, channMultiprocessAccept, monitorBeforeAfterAc]

theorem accepting_acFn (r : Role) : Accepting listenFd (r.acFn listenFd) := by
  cases r with
  | monitor => rw [acFn_monitor]; exact .done 0
  | worker => exact .asks

theorem Accepting.next {o : AcOp} {k : Int → AcProg} (h : Accepting listenFd (.call o k)) (r : Int) :
    Accepting listenFd (k r) := by
  generalize hq : Prog.call o k = q at h
  cases h with
  | asks =>
    rw [acFn_worker] at hq
    obtain ⟨_, rfl⟩ := Prog.call.inj hq
    by_cases hr : r = 0
    · simpa [hr] using Accepting.enters
    · simpa [hr] using Accepting.done 0
  | enters =>
    obtain ⟨_, rfl⟩ := Prog.call.inj hq
    exact .leaves r
  | leaves fd =>
    obtain ⟨_, rfl⟩ := Prog.call.inj hq
    exact .done fd
  | done => cases hq

/-! ## What every run keeps -/

namespace Servers

/-- The process is between `sem_trywait` and `sem_post`. -/
def inside (s : Servers) (p : Nat) : Bool := (s.procs p).left.any holdsPermit

/-- What the process has accepted and not returned. -/
def hand (s : Servers) (p : Nat) : List Int := (s.procs p).left.elim [] inHand

def acceptedBy (s : Servers) (p : Nat) : List Int :=
  (s.world.accepted.filter fun c => c.pid = p).map Taken.fd

/-- The channels `_chann_accept` makes in the process. -/
def returnedBy (s : Servers) (p : Nat) : List Int :=
  (s.returned.filter fun r => r.1 = p ∧ 0 < r.2).map Prod.snd

end Servers

theorem inside_set (s : Servers) (p : Nat) (q : Proc AcOp Int) :
    Servers.inside (s.set p q) = Function.update s.inside p (q.left.any holdsPermit) := by
  funext i
  by_cases hi : i = p
  · subst hi
    simp [Servers.inside]
  · rw [Function.update_of_ne hi, Servers.inside, Fleet.set_of_ne s q hi]
    rfl

theorem hand_set (s : Servers) (p : Nat) (q : Proc AcOp Int) :
    Servers.hand (s.set p q) = Function.update s.hand p (q.left.elim [] inHand) := by
  funext i
  by_cases hi : i = p
  · subst hi
    simp [Servers.hand]
  · rw [Function.update_of_ne hi, Servers.hand, Fleet.set_of_ne s q hi]
    rfl

/-- The servers take turns, and lose no connection. -/
structure TakingTurns (sem : Nat) (listenFd : Int) (role : Nat → Role) (s : Servers) : Prop where
  opened : sem ≤ 1
  stops : Fleet.Stops (fun p q => Accepting listenFd q ∧ (role p = .monitor → q = .ret 0)) s
  permit : Permit sem s.inside s.world.sem
  order : s.world.accepted.map Taken.conn ++ s.world.backlog = s.world.arrived
  hand : ∀ p, s.acceptedBy p = s.returnedBy p ++ s.hand p
  workers : ∀ c ∈ s.world.accepted, role c.pid = .worker

theorem takingTurns_start (h : sem ≤ 1) : TakingTurns sem listenFd role (Servers.start sem) where
  opened := h
  stops _ _ h := by cases h
  permit := .free fun _ => rfl
  order := rfl
  hand _ := rfl
  workers _ h := by cases h

/-- A process goes on without taking or giving anything. -/
theorem TakingTurns.idle {c : Proc AcOp Int} (h : TakingTurns sem listenFd role s)
    (hstops : Fleet.Stops (fun p q => Accepting listenFd q ∧ (role p = .monitor → q = .ret 0)) (s.set p c))
    (hin : c.left.any holdsPermit = s.inside p) (hhand : c.left.elim [] inHand = s.hand p) :
    TakingTurns sem listenFd role (s.set p c) where
  opened := h.opened
  stops := hstops
  permit := by
    rw [inside_set]
    exact h.permit.keep hin
  order := h.order
  hand i := by
    rw [hand_set, hhand, Function.update_eq_self]
    exact h.hand i
  workers := h.workers

theorem acFn_outside (r : Role) :
    holdsPermit (r.acFn listenFd) = false ∧ inHand (r.acFn listenFd) = [] := by
  cases r with
  | monitor => rw [acFn_monitor]; exact ⟨rfl, rfl⟩
  | worker => exact ⟨rfl, rfl⟩

/-- What a call of a worker does to its share of the world. -/
inductive Turned (w : Listener) (p : Nat) (q q' : AcProg) : Listener → Prop
  | down : 0 < w.sem → holdsPermit q' = true → inHand q' = inHand q →
    Turned w p q q' { w with sem := w.sem - 1 }
  | same : holdsPermit q' = holdsPermit q → inHand q' = inHand q → Turned w p q q' w
  | accept {c : Nat} {rest : List Nat} {fd : Int} : w.backlog = c :: rest → 0 < fd →
    holdsPermit q = true → holdsPermit q' = true → inHand q = [] → inHand q' = [fd] →
    Turned w p q q' { w with backlog := rest, accepted := w.accepted ++ [⟨p, c, fd⟩] }
  | up : holdsPermit q = true → holdsPermit q' = false → inHand q' = inHand q →
    Turned w p q q' { w with sem := w.sem + 1 }

theorem Accepting.turned {o : AcOp} {k : Int → AcProg} {r : Int} {w w' : Listener}
    (h : Accepting listenFd (.call o k)) (hex : Listener.Exec listenFd w p o r w') :
    Turned w p (.call o k) (k r) w' := by
  generalize hq : Prog.call o k = q at h ⊢
  cases h with
  | asks =>
    rw [acFn_worker] at hq ⊢
    obtain ⟨rfl, rfl⟩ := Prog.call.inj hq
    cases hex with
    | down hpos => exact .down hpos rfl rfl
    | busy => exact .same rfl rfl
  | enters =>
    obtain ⟨rfl, rfl⟩ := Prog.call.inj hq
    cases hex with
    | accept hc hpos => exact .accept hc hpos rfl rfl rfl (if_pos hpos)
    | fail hneg => exact .same rfl (if_neg (Int.not_lt.mpr hneg))
  | leaves fd =>
    obtain ⟨rfl, rfl⟩ := Prog.call.inj hq
    cases hex with
    | up => exact .up rfl rfl rfl
  | done => cases hq

theorem TakingTurns.call {o : AcOp} {k : Int → AcProg} {r : Int} {w : Listener}
    (h : TakingTurns sem listenFd role s) (hp : s.procs p = { alive := true, left := some (.call o k) })
    (hex : Listener.Exec listenFd s.world p o r w)
    (hstops : Fleet.Stops (fun p q => Accepting listenFd q ∧ (role p = .monitor → q = .ret 0))
      (s.set p { alive := true, left := some (k r) })) :
    TakingTurns sem listenFd role { s.set p { alive := true, left := some (k r) } with world := w } := by
  have hin : s.inside p = holdsPermit (.call o k) := by rw [Servers.inside, hp]; rfl
  have hha : s.hand p = inHand (.call o k) := by rw [Servers.hand, hp]; rfl
  have hinside : ∀ w, Servers.inside { s.set p { alive := true, left := some (k r) } with world := w } =
      Function.update s.inside p (holdsPermit (k r)) := fun w => inside_set s p _
  have hhand : ∀ w, Servers.hand { s.set p { alive := true, left := some (k r) } with world := w } =
      Function.update s.hand p (inHand (k r)) := fun w => hand_set s p _
  have hsame : inHand (k r) = inHand (.call o k) → Function.update s.hand p (inHand (k r)) = s.hand := by
    intro he
    rw [he, ← hha, Function.update_eq_self]
  have hwhere := h.stops p (.call o k) (by rw [hp])
  cases hwhere.1.turned hex with
  | down hpos hin' hha' =>
    refine ⟨h.opened, hstops, ?_, h.order, fun i => ?_, h.workers⟩
    · rw [hinside, hin']
      exact h.permit.take h.opened hpos
    · rw [hhand, hsame hha']
      exact h.hand i
  | same hin' hha' => exact h.idle hstops (hin'.trans hin.symm) (hha'.trans hha.symm)
  | @accept c rest fd hc hpos hin' hin'' hha' hha'' =>
    refine ⟨h.opened, hstops, ?_, ?_, fun i => ?_, fun i hi => ?_⟩
    · rw [hinside]
      exact h.permit.keep (hin''.trans (hin.trans hin').symm)
    · have horder := h.order
      rw [hc] at horder
      simpa using horder
    · have hi := h.hand i
      rw [hhand, hha'']
      by_cases hip : i = p
      · subst hip
        rw [hha, hha', List.append_nil] at hi
        rw [Function.update_self]
        simpa [Servers.acceptedBy, Servers.returnedBy, Fleet.set] using hi
      · rw [Function.update_of_ne hip]
        simpa [Servers.acceptedBy, Servers.returnedBy, Fleet.set, Ne.symm hip] using hi
    · rcases List.mem_append.mp hi with hi | hi
      · exact h.workers i hi
      · rw [List.mem_singleton.mp hi]
        cases hrole : role p with
        | worker => rfl
        | monitor => cases hwhere.2 hrole
  | up hin' hin'' hha' =>
    refine ⟨h.opened, hstops, ?_, h.order, fun i => ?_, h.workers⟩
    · rw [hinside, hin'']
      exact h.permit.give (hin.trans hin')
    · rw [hhand, hsame hha']
      exact h.hand i

/-- What an accept returns is no longer in hand. -/
theorem TakingTurns.finish {fd : Int} (h : TakingTurns sem listenFd role s)
    (hp : s.procs p = { alive := true, left := some (.ret fd) })
    (hstops : Fleet.Stops (fun p q => Accepting listenFd q ∧ (role p = .monitor → q = .ret 0))
      (s.set p { alive := true, left := none })) :
    TakingTurns sem listenFd role
      { s.set p { alive := true, left := none } with returned := s.returned ++ [(p, fd)] } := by
  have hin : s.inside p = false := by rw [Servers.inside, hp]; rfl
  have hha : s.hand p = if 0 < fd then [fd] else [] := by rw [Servers.hand, hp]; rfl
  have hinside : ∀ l, Servers.inside { s.set p { alive := true, left := none } with returned := l } =
      Function.update s.inside p false := fun l => inside_set s p _
  have hhand : ∀ l, Servers.hand { s.set p { alive := true, left := none } with returned := l } =
      Function.update s.hand p [] := fun l => hand_set s p _
  refine ⟨h.opened, hstops, ?_, h.order, fun i => ?_, h.workers⟩
  · rw [hinside]
    exact h.permit.keep hin.symm
  · have hi := h.hand i
    rw [hhand]
    by_cases hip : i = p
    · subst hip
      rw [hha] at hi
      rw [Function.update_self]
      by_cases hpos : 0 < fd
      · simpa [Servers.acceptedBy, Servers.returnedBy, Fleet.set, hpos] using hi
      · simpa [Servers.acceptedBy, Servers.returnedBy, Fleet.set, hpos] using hi
    · rw [Function.update_of_ne hip]
      simpa [Servers.acceptedBy, Servers.returnedBy, Fleet.set, Ne.symm hip] using hi

theorem TakingTurns.step (h : TakingTurns sem listenFd role s) (hs : AcStep listenFd role s a t) :
    TakingTurns sem listenFd role t := by
  have hstops := hs.stops (S := fun p q => Accepting listenFd q ∧ (role p = .monitor → q = .ret 0))
    (fun p => ⟨accepting_acFn _, fun hp => by rw [hp, acFn_monitor]⟩)
    (fun p o k hk r => ⟨hk.1.next r, fun hp => by cases hk.2 hp⟩) h.stops
  cases hs with
  | @start p hp =>
    refine h.idle hstops ?_ ?_
    · rw [Servers.inside, hp]
      exact (acFn_outside (role p)).1
    · rw [Servers.hand, hp]
      exact (acFn_outside (role p)).2
  | call hp hex => exact h.call hp hex hstops
  | finish hp => exact h.finish hp hstops
  | kill hp => exact h.idle hstops rfl rfl
  | other hw =>
    obtain ⟨c, rfl⟩ := hw
    refine ⟨h.opened, hstops, h.permit, ?_, h.hand, h.workers⟩
    show s.world.accepted.map Taken.conn ++ (s.world.backlog ++ [c]) = s.world.arrived ++ [c]
    rw [← List.append_assoc, h.order]

theorem takingTurns {l : List (Fleet.Act Nat AcOp)} (hsem : sem ≤ 1)
    (h : Path (AcStep listenFd role) (Servers.start sem) l s) : TakingTurns sem listenFd role s :=
  h.keeps (fun _ _ _ hs ht => ht.step hs) (takingTurns_start hsem)

/-- However often servers were started, there is no second permit. -/
theorem Opens.le_one (h : Opens sem) : sem ≤ 1 := by
  induction h with
  | new => exact Nat.le_refl 1
  | old _ hpath ih => exact Nat.le_trans (takingTurns ih hpath).permit.le ih

/-- Whatever the interleaving, and whoever is killed: never do two processes accept at once,
connections are accepted in the order they arrive and by workers only, none is accepted twice or
lost on the way, and each is returned by the very process that accepted it or still in its hand. -/
theorem accept_takes_turns {l : List (Fleet.Act Nat AcOp)} (ho : Opens sem)
    (h : Path (AcStep listenFd role) (Servers.start sem) l s) :
    (∀ p q, s.inside p = true → s.inside q = true → p = q) ∧
      s.world.accepted.map Taken.conn ++ s.world.backlog = s.world.arrived ∧
      (∀ p, s.acceptedBy p = s.returnedBy p ++ s.hand p) ∧
      ∀ c ∈ s.world.accepted, role c.pid = .worker := by
  have ht := takingTurns ho.le_one h
  exact ⟨fun p q hp hq => ht.permit.one hp hq, ht.order, ht.hand, ht.workers⟩

/-- Two workers and the monitor. -/
def twoWorkers (p : Nat) : Role := if p = 2 then .monitor else .worker

/-- While one worker accepts the other is turned away, and the monitor always is. -/
theorem accept_takes_turns_two : ∃ s : Servers, s.world.accepted = [⟨0, 7, 5⟩] ∧
    (∀ p q, s.inside p = true → s.inside q = true → p = q) ∧
    s.world.accepted.map Taken.conn ++ s.world.backlog = s.world.arrived ∧
    (∀ p, s.acceptedBy p = s.returnedBy p ++ s.hand p) ∧
    ∀ c ∈ s.world.accepted, twoWorkers c.pid = .worker := by
  have hrun : ∃ s, Path (AcStep 3 twoWorkers) (Servers.start 1)
      [.other, .start 0, .start 2, .call 0 .semTrywait, .start 1, .call 1 .semTrywait, .finish 2,
        .call 0 (.accept 3)] s ∧ s.world.accepted = [⟨0, 7, 5⟩] :=
    ⟨_, .cons (.other ⟨7, rfl⟩) (.cons (.start rfl) (.cons (.start rfl) (.cons (.call rfl (.down (by decide)))
      (.cons (.start rfl) (.cons (.call rfl .busy) (.cons (.finish rfl)
        (.single (.call rfl (.accept rfl (by decide : (0 : Int) < 5)))))))))), rfl⟩
  obtain ⟨s, h, hacc⟩ := hrun
  exact ⟨s, hacc, accept_takes_turns .new h⟩

/-! ## Who can still be served -/

/-- While a process that was killed has the permit nothing is accepted, and it stays away. -/
theorem TakingTurns.starves {l : List (Fleet.Act Nat AcOp)} (h : TakingTurns sem listenFd role s)
    (hdead : (s.procs q).alive = false) (hin : s.inside q = true)
    (hpath : Path (AcStep listenFd role) s l t) :
    t.world.accepted = s.world.accepted ∧ t.inside q = true ∧ TakingTurns sem listenFd role t := by
  have hinv : TakingTurns sem listenFd role t ∧ t.procs q = s.procs q ∧ t.world.accepted = s.world.accepted := by
    refine hpath.keeps (I := fun t => TakingTurns sem listenFd role t ∧ t.procs q = s.procs q ∧
      t.world.accepted = s.world.accepted) ?_ ⟨h, rfl, rfl⟩
    intro b i c hs hb
    obtain ⟨ht, hq, hacc⟩ := hb
    have hother : ∀ {p : Nat}, (b.procs p).alive = true → q ≠ p := by
      rintro p hp rfl
      rw [hq, hdead] at hp
      cases hp
    refine ⟨ht.step hs, ?_, ?_⟩
    · cases hs with
      | start hp | finish hp => exact (Fleet.set_of_ne b _ (hother (by rw [hp]))).trans hq
      | call hp => exact (Fleet.set_of_ne b _ (hother (by rw [hp]))).trans hq
      | kill hp => exact (Fleet.set_of_ne b _ (hother hp)).trans hq
      | other => exact hq
    · cases hs with
      | @call p o k r w hp hex =>
        cases ((ht.stops p (.call o k) (by rw [hp])).1).turned hex with
        | down | same | up => exact hacc
        | accept _ _ hin' =>
          -- it would have the permit as well
          have hinp : b.inside p = true := by rw [Servers.inside, hp]; exact hin'
          have hinq : b.inside q = true := by rw [Servers.inside, hq]; exact hin
          exact absurd (ht.permit.one hinq hinp) (hother (by rw [hp]))
      | start | finish | kill => exact hacc
      | other hw =>
        obtain ⟨c, rfl⟩ := hw
        exact hacc
  obtain ⟨ht, hq, hacc⟩ := hinv
  exact ⟨hacc, by rw [Servers.inside, hq]; exact hin, ht⟩

/-- Without a permit from the start nobody ever comes to accept. -/
theorem TakingTurns.shut {l : List (Fleet.Act Nat AcOp)} (h : TakingTurns 0 listenFd role s)
    (hpath : Path (AcStep listenFd role) s l t) : t.world.accepted = s.world.accepted := by
  refine (hpath.keeps (I := fun t => TakingTurns 0 listenFd role t ∧ t.world.accepted = s.world.accepted) ?_
    ⟨h, rfl⟩).2
  intro b i c hs hb
  obtain ⟨ht, hacc⟩ := hb
  refine ⟨ht.step hs, ?_⟩
  cases hs with
  | @call p o k r w hp hex =>
    cases ((ht.stops p (.call o k) (by rw [hp])).1).turned hex with
    | down | same | up => exact hacc
    | accept _ _ hin =>
      have hinp : b.inside p = true := by rw [Servers.inside, hp]; exact hin
      exact absurd (ht.permit.of_has hinp) (by decide)
  | start | finish | kill => exact hacc
  | other hw =>
    obtain ⟨c, rfl⟩ := hw
    exact hacc

/-- A run from `s` accepts more than `k` connections. -/
def Serves (listenFd : Int) (role : Nat → Role) (s : Servers) (k : Nat) : Prop :=
  ∃ l t, Path (AcStep listenFd role) s l t ∧ k < t.world.accepted.length

theorem Serves.step {k : Nat} (hs : AcStep listenFd role s a t) (h : Serves listenFd role t k) :
    Serves listenFd role s k := by
  obtain ⟨l, u, hp, hk⟩ := h
  exact ⟨_, u, .cons hs hp, hk⟩

/-- With the permit free, a worker that starts to accept gets what waits. -/
theorem serves_asking {c : Nat} {rest : List Nat}
    (hp : s.procs p = { alive := true, left := some (Role.acFn listenFd .worker) })
    (hsem : 0 < s.world.sem) (hc : s.world.backlog = c :: rest) :
    Serves listenFd role s s.world.accepted.length := by
  have hdown : AcStep listenFd role s (.call p .semTrywait) _ := .call hp (.down hsem)
  refine .step hdown ⟨_, _, .single (.call (Fleet.set_self ..) (.accept hc (by decide : (0 : Int) < 1))), ?_⟩
  simp

theorem serves_idle {c : Nat} {rest : List Nat} (hrole : role p = .worker)
    (hp : s.procs p = { alive := true, left := none })
    (hsem : 0 < s.world.sem) (hc : s.world.backlog = c :: rest) :
    Serves listenFd role s s.world.accepted.length := by
  have hstart : AcStep listenFd role s (.start p) _ := .start hp
  rw [hrole] at hstart
  exact .step hstart (serves_asking (Fleet.set_self ..) hsem hc)

/-- With the permit free, any worker that is alive can get what waits. -/
theorem TakingTurns.serves_free {c : Nat} {rest : List Nat} (h : TakingTurns sem listenFd role s)
    (hrole : role p = .worker) (halive : (s.procs p).alive = true) (hsem : 0 < s.world.sem)
    (hc : s.world.backlog = c :: rest) : Serves listenFd role s s.world.accepted.length := by
  have hproc : ∀ x, (s.procs p).left = x → s.procs p = { alive := true, left := x } := by
    rintro _ rfl
    rw [← halive]
  have hout : s.inside p = false := by
    by_contra hin
    have hz := h.permit.zero (eq_true_of_ne_false hin)
    omega
  cases hl : (s.procs p).left with
  | none => exact serves_idle hrole (hproc _ hl) hsem hc
  | some q =>
    have hwhere := (h.stops p q hl).1
    rw [Servers.inside, hl] at hout
    cases hwhere with
    | asks => exact serves_asking (hproc _ hl) hsem hc
    | enters | leaves => cases hout
    | done fd =>
      have hfin : AcStep listenFd role s (.finish p) _ := .finish (hproc _ hl)
      exact .step hfin (serves_idle hrole (Fleet.set_self ..) hsem hc)

/-- So it can when the process that has the permit is alive and gives it back. -/
theorem TakingTurns.serves_held {c q : Nat} {rest : List Nat} (h : TakingTurns sem listenFd role s)
    (hrole : role p = .worker) (halive : (s.procs p).alive = true) (hin : s.inside q = true)
    (hq : (s.procs q).alive = true) (hc : s.world.backlog = c :: rest) :
    Serves listenFd role s s.world.accepted.length := by
  have hproc : ∀ x, (s.procs q).left = x → s.procs q = { alive := true, left := x } := by
    rintro _ rfl
    rw [← hq]
  cases hl : (s.procs q).left with
  | none =>
    rw [Servers.inside, hl] at hin
    cases hin
  | some r =>
    have hwhere := (h.stops q r hl).1
    rw [Servers.inside, hl] at hin
    cases hwhere with
    | asks | done => cases hin
    | enters =>
      refine ⟨_, _, .single (.call (hproc _ hl) (.accept hc (by decide : (0 : Int) < 1))), ?_⟩
      simp
    | leaves fd =>
      have hup : AcStep listenFd role s (.call q .semPost) _ := .call (hproc _ hl) .up
      refine .step hup ((h.step hup).serves_free hrole ?_ (Nat.succ_pos _) hc)
      by_cases hpq : p = q
      · subst hpq
        exact congrArg Proc.alive (Fleet.set_self s p _)
      · exact (congrArg Proc.alive (Fleet.set_of_ne s _ hpq)).trans halive

/-- A worker can be given what waits exactly when the semaphore was opened with its permit and no
process that was killed has it. One that was killed with it leaves none to the servers after. -/
theorem accept_possible_iff {l : List (Fleet.Act Nat AcOp)} (ho : Opens sem)
    (h : Path (AcStep listenFd role) (Servers.start sem) l s) (hrole : role p = .worker)
    (halive : (s.procs p).alive = true) (hc : s.world.backlog ≠ []) :
    ((∃ l t, Path (AcStep listenFd role) s l t ∧ t.world.accepted ≠ s.world.accepted) ↔
      sem = 1 ∧ ∀ q, s.inside q = true → (s.procs q).alive = true) ∧
    ∀ q, s.inside q = true → (s.procs q).alive = false →
      ∀ l t, Path (AcStep listenFd role) s l t → t.world.sem = 0 := by
  have ht := takingTurns ho.le_one h
  refine ⟨⟨?_, ?_⟩, fun q hin hdead l' t hpath => ?_⟩
  · rintro ⟨l', t, hpath, hne⟩
    refine ⟨?_, fun q hin => ?_⟩
    · by_contra hsem
      obtain rfl : sem = 0 := by
        have := ho.le_one
        omega
      exact hne (ht.shut hpath)
    · by_contra hdead
      exact hne (ht.starves (eq_false_of_ne_true hdead) hin hpath).1
  · rintro ⟨rfl, hall⟩
    obtain ⟨c, rest, hc⟩ := List.exists_cons_of_ne_nil hc
    have hserves : Serves listenFd role s s.world.accepted.length := by
      by_cases hin : ∃ q, s.inside q = true
      · obtain ⟨q, hq⟩ := hin
        exact ht.serves_held hrole halive hq (hall q hq) hc
      · have hsem : s.world.sem = 1 := by
          have hpermit := ht.permit
          generalize s.world.sem = n at hpermit
          cases hpermit with
          | free => rfl
          | taken _ hq => exact absurd ⟨_, hq⟩ hin
        exact ht.serves_free hrole halive (by omega) hc
    obtain ⟨l', t, hpath, hlt⟩ := hserves
    refine ⟨l', t, hpath, fun he => ?_⟩
    rw [he] at hlt
    exact Nat.lt_irrefl _ hlt
  · obtain ⟨_, hin', ht'⟩ := ht.starves hdead hin hpath
    exact ht'.permit.zero hin'

/-- A worker killed before it accepts leaves the other waiting for ever, and leaves the semaphore to
servers that are started later as one that lets nobody in. -/
theorem accept_possible_iff_killed : ∃ s t : Servers, s.world.backlog = [7] ∧ (s.procs 1).alive = true ∧
    (¬ ∃ l u, Path (AcStep 3 twoWorkers) s l u ∧ u.world.accepted ≠ s.world.accepted) ∧
    Opens s.world.sem ∧ (∃ l, Path (AcStep 3 twoWorkers) (Servers.start s.world.sem) l t) ∧
    t.world.backlog = [8] ∧ ¬ ∃ l u, Path (AcStep 3 twoWorkers) t l u ∧ u.world.accepted ≠ t.world.accepted := by
  have hrun : ∃ s, Path (AcStep 3 twoWorkers) (Servers.start 1)
      [.other, .start 0, .call 0 .semTrywait, .kill 0] s ∧ s.world.backlog = [7] ∧
        (s.procs 1).alive = true ∧ s.inside 0 = true ∧ (s.procs 0).alive = false :=
    ⟨_, .cons (.other ⟨7, rfl⟩) (.cons (.start rfl) (.cons (.call rfl (.down (by decide)))
      (.single (.kill rfl)))), rfl, rfl, rfl, rfl⟩
  obtain ⟨s, h, hc, halive, hin, hdead⟩ := hrun
  obtain ⟨hiff, hleft⟩ := accept_possible_iff .new h (p := 1) rfl halive (by rw [hc]; simp)
  have hsem : s.world.sem = 0 := hleft 0 hin hdead _ _ .nil
  -- the servers that find it so
  have ho : Opens s.world.sem := .old .new h
  have hagain : Path (AcStep 3 twoWorkers) (Servers.start s.world.sem) [.other] _ := .single (.other ⟨8, rfl⟩)
  refine ⟨s, _, hc, halive, fun hserved => ?_, ho, ⟨_, hagain⟩, rfl, fun hserved => ?_⟩
  · have hall := (hiff.mp hserved).2 0 hin
    rw [hdead] at hall
    cases hall
  · have hone := ((accept_possible_iff ho hagain (p := 1) rfl rfl (by simp [Servers.start])).1.mp hserved).1
    rw [hsem] at hone
    cases hone

end MNet
