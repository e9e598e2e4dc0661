import MNet.Core.RefineApi

/-! # Runs

A run is a sequence of API calls that return, from the state a process starts in, against
any environment. Every call is a sequence of the acts listed for it, so the base invariant
holds in every reachable state, and wherever the message loop stands in between. -/

namespace MNet
open MNet.Lib MNet.Lib.Exec

variable {ε : Type} {x : ExtTable ε} {s t : Sys ε}

/-- The state a process starts in. -/
def Sys.start (o : Oracle) (e : ε) : Sys ε := { kernel := { oracle := o }, ext := e }

/-- One call and what it returns. -/
def Step (x : ExtTable ε) (s : Sys ε) (l : Call × Ret) (t : Sys ε) : Prop :=
  Returns (apiCall x l.1) s l.2 t

abbrev Run (x : ExtTable ε) : Sys ε → List (Call × Ret) → Sys ε → Prop := Path (Step x)

def Reachable (x : ExtTable ε) (s : Sys ε) : Prop := ∃ o e l, Run x (Sys.start o e) l s

/-- A state the message loop may be in at the start of a round. -/
inductive Inside (x : ExtTable ε) : Sys ε → Prop
  | call {s : Sys ε} : Reachable x s → Inside x s
  | next {s t : Sys ε} {fuel : Nat} : Inside x s → Returns (evtPass x fuel) s .next t → Inside x t

/-- A state in which the loop is about to handle a record. -/
def AtRecord (x : ExtTable ε) (u : Sys ε) (kev : Kev) : Prop :=
  ∃ s fuel, Inside x s ∧ Fetches x fuel s u kev

theorem returns_ret {α : Type} {f : α → Ret} {m : M ε α} {r : Ret} :
    Returns (ret f m) s r t ↔ ∃ a, r = f a ∧ Returns m s a t := by
  simp only [ret, returns_bind, returns_pure]
  constructor
  · rintro ⟨a, _, h, rfl, rfl⟩
    exact ⟨a, rfl, h⟩
  · rintro ⟨a, rfl, h⟩
    exact ⟨a, t, h, rfl, rfl⟩

/-! ## The acts of a call -/

def Call.acts : Call → Set Act
  | .mnetInit => {.openQueue, .boot}
  | .mnetFini => {a | a ∈ finiActs ∨ a = .shutdown}
  | .multiResetEvent => resetActs
  | .poll => {a | a ∈ reapActs ∨ a = .reaped ∨ a = .schedule ∨ a = .batch}
  | .resultNext _ => loopActs
  | .channOpen ctype => {a | ∃ n, a = .create n ctype}
  | .channClose (some n) => {.disconnect n, .close n}
  | .channConnect (some n) _ _ => connectActs n
  | .channDisconnect (some n) => {.disconnect n}
  | .channListen (some n) _ _ _ => listenActs n
  | .channActiveEvent (some n) _ _ => activeActs n
  | .channRecv (some n) _ _ => {.slot n, .disconnect n, .report n}
  | .dgramRecv (some n) _ _ => {.slot n, .disconnect n, .report n}
  | .channSend (some n) _ => sendActs n
  | .dgramSend (some n) _ _ => {a | a ∈ connectActs n ∨ a ∈ sendActs n}
  | _ => ∅

/-- Only connecting, listening and addressed datagrams open a socket for a channel. -/
theorem Call.attach_acts {c : Call} {n : ChannId} {fd : Int} {st : ChannState}
    (h : .attach n fd st ∈ c.acts) : (∃ host port, c = .channConnect (some n) host port) ∨
      (∃ host port backlog, c = .channListen (some n) host port backlog) ∨
      ∃ addr buf, c = .dgramSend (some n) addr buf := by
  cases c with
  | channConnect m | channListen m | dgramSend m =>
    cases m <;> simp_all [Call.acts, connectActs, listenActs, sendActs]
  | channClose m | channDisconnect m | channActiveEvent m | channRecv m | dgramRecv m | channSend m =>
    cases m <;> simp [Call.acts, activeActs, activeSendActs, activeTimerActs, sendActs] at h
  | _ =>
    simp [Call.acts, finiActs, reapActs, resetActs, loopActs, timerActs, recordActs] at h

/-- Only sends hand data over. -/
theorem Call.write_acts {c : Call} {n : ChannId} {data : List UInt8} {i : Nat}
    (h : .write n data i ∈ c.acts) :
    (∃ buf, c = .channSend (some n) buf) ∨ ∃ addr buf, c = .dgramSend (some n) addr buf := by
  cases c with
  | channSend m | dgramSend m => cases m <;> simp_all [Call.acts, connectActs, sendActs]
  | channConnect m | channListen m | channClose m | channDisconnect m | channActiveEvent m
  | channRecv m | dgramRecv m =>
    cases m <;> simp [Call.acts, connectActs, listenActs, activeActs, activeSendActs, activeTimerActs] at h
  | _ =>
    simp [Call.acts, finiActs, reapActs, resetActs, loopActs, timerActs, recordActs] at h

theorem mnetDgramSend_steps (hx : Tame x) (hb : Base s.core) {n : ChannId}
    {addr : Option (Nat × Int)} {buf : Option (List UInt8)} {r : Int}
    (h : Returns (mnetDgramSend x (some n) addr buf) s r t) :
    Steps {a | a ∈ connectActs n ∨ a ∈ sendActs n} s.core t.core := by
  obtain ⟨rfl, _⟩ | ⟨c, host, port, a, _, _, _, _, haim, hsend⟩ := mnetDgramSend_cases h
  · exact .refl _
  · have hs := dgramAim_steps hx hb haim
    exact (hs.mono fun _ ha => .inl ha).trans
      ((mnetChannSend_steps hx (hs.base hb) hsend).mono fun _ ha => .inr ha)

theorem mnetChannSetOpaque_core {n : Option ChannId} {p : Nat} {u : Unit}
    (h : Returns (mnetChannSetOpaque n p) s u t) : t.core = s.core := by
  cases n with
  | none => exact congrArg Sys.core (returns_pure.mp h).2
  | some n =>
    obtain ⟨c, hc, rfl⟩ := returns_modifyChann.mp h
    exact core_setChann_same hc rfl

theorem mnetExtRegister_core {ctype : Nat} {r : Int}
    (h : Returns (mnetExtRegister x ctype) s r t) : t.core = s.core := by
  simp only [mnetExtRegister] at h
  rcases returns_ite.mp h with ⟨_, h⟩ | ⟨_, h⟩
  · exact congrArg Sys.core (returns_pure.mp h).2
  simp only [returns_bind, returns_readMnet, and_assoc, exists_and_left, exists_eq_left] at h
  rcases returns_ite.mp h with ⟨_, h⟩ | ⟨_, h⟩
  · simp only [returns_bind, returns_pure] at h
    obtain ⟨_, a, hset, _, rfl⟩ := h
    exact (core_modifyMnet hset).2.2.2
  · exact congrArg Sys.core (returns_pure.mp h).2

/-- Every call that returns is a sequence of acts that call may take. -/
theorem apiCall_steps (hx : Tame x) {c : Call} {r : Ret} (hb : Base s.core)
    (h : Returns (apiCall x c) s r t) : Steps c.acts s.core t.core := by
  cases c with
  | mnetInit =>
    obtain ⟨_, _, h⟩ := returns_ret.mp h
    exact mnetInit_steps h
  | mnetFini =>
    obtain ⟨_, _, h⟩ := returns_ret.mp h
    obtain ⟨_, ht⟩ | ⟨_, k, hk, hdown⟩ := mnetFini_spec hx hb h
    · exact .of_eq ht
    · exact (hk.mono fun _ ha => .inl ha).trans (.single hdown (.inr rfl))
  | multiAcceptBalancer on =>
    obtain ⟨_, _, h⟩ := returns_ret.mp h
    exact .of_eq (core_modifyMnet h).2.2.2
  | multiResetEvent =>
    obtain ⟨_, _, h⟩ := returns_ret.mp h
    exact mnetMultiResetEvent_steps h
  | extRegister ctype =>
    obtain ⟨_, _, h⟩ := returns_ret.mp h
    exact .of_eq (mnetExtRegister_core h)
  | poll =>
    obtain ⟨_, _, h⟩ := returns_ret.mp h
    obtain ⟨k, k', k'', hk, hreap, hsched, hbatch⟩ := evtPoll_spec hb h
    refine (hk.mono fun _ ha => .inl ha).trans ((Steps.single hreap ?_).trans
      ((Steps.single hsched ?_).trans (.single hbatch ?_))) <;> simp [Call.acts]
  | resultNext fuel =>
    obtain ⟨_, _, h⟩ := returns_ret.mp h
    exact evtLoop_steps hx hb h
  | channOpen ctype =>
    obtain ⟨_, _, h⟩ := returns_ret.mp h
    obtain ht | hs := mnetChannOpen_steps hx h
    · exact .of_eq ht
    · exact .single hs ⟨_, rfl⟩
  | channClose n =>
    obtain ⟨_, _, h⟩ := returns_ret.mp h
    cases n with
    | none => exact .of_eq (congrArg Sys.core (returns_pure.mp h).2)
    | some n => exact mnetChannClose_steps hx hb h
  | channConnect n host port =>
    obtain ⟨_, _, h⟩ := returns_ret.mp h
    cases n with
    | none => exact .of_eq (congrArg Sys.core (returns_pure.mp h).2)
    | some n => exact mnetChannConnect_steps hx hb h
  | channDisconnect n =>
    obtain ⟨_, _, h⟩ := returns_ret.mp h
    cases n with
    | none => exact .of_eq (congrArg Sys.core (returns_pure.mp h).2)
    | some n =>
      simp only [mnetChannDisconnect, returns_bind, returns_pure] at h
      obtain ⟨_, _, h, _, rfl⟩ := h
      exact channDisconnectSocket_steps hx.ops hb h
  | channListen n host port backlog =>
    obtain ⟨_, _, h⟩ := returns_ret.mp h
    cases n with
    | none => exact .of_eq (congrArg Sys.core (returns_pure.mp h).2)
    | some n => exact mnetChannListen_steps hx h
  | channSetOpaque n p =>
    obtain ⟨_, _, h⟩ := returns_ret.mp h
    exact .of_eq (mnetChannSetOpaque_core h)
  | channActiveEvent n et value =>
    obtain ⟨_, _, h⟩ := returns_ret.mp h
    cases n with
    | none => exact .of_eq (congrArg Sys.core (returns_pure.mp h).2)
    | some n => exact mnetChannActiveEvent_steps hx h
  | channRecv n buf len =>
    obtain ⟨_, _, h⟩ := returns_ret.mp h
    cases n with
    | none =>
      simp only [mnetChannRecv, Exec.require, returns_bind] at h
      obtain ⟨_, _, h, _⟩ := h
      exact absurd h returns_fail
    | some n => exact mnetChannRecv_steps hx hb h
  | channSend n buf =>
    obtain ⟨_, _, h⟩ := returns_ret.mp h
    cases n with
    | none =>
      simp only [mnetChannSend, Exec.require, returns_bind] at h
      obtain ⟨_, _, h, _⟩ := h
      exact absurd h returns_fail
    | some n => exact mnetChannSend_steps hx hb h
  | dgramRecv n buf len =>
    obtain ⟨_, _, h⟩ := returns_ret.mp h
    cases n with
    | none =>
      simp only [mnetDgramRecv, Exec.require, returns_bind] at h
      obtain ⟨_, _, h, _⟩ := h
      exact absurd h returns_fail
    | some n =>
      obtain rfl | ⟨_, h⟩ := mnetDgramRecv_cases h
      · exact .refl _
      · exact mnetChannRecv_steps hx hb h
  | dgramSend n addr buf =>
    obtain ⟨_, _, h⟩ := returns_ret.mp h
    cases n with
    | none =>
      simp only [mnetDgramSend, Exec.require, returns_bind] at h
      obtain ⟨_, _, h, _⟩ := h
      exact absurd h returns_fail
    | some n => exact mnetDgramSend_steps hx hb h
  | socketSetBufsize n size =>
    obtain ⟨_, _, h⟩ := returns_ret.mp h
    cases n with
    | none => exact .of_eq (congrArg Sys.core (returns_pure.mp h).2)
    | some n => exact .of_eq (mnetChannSocketSetBufsize_core h)

/-! ## Runs that are carried out -/

/-- The calls one after another, and what they return. -/
def runCalls (x : ExtTable ε) : List Call → M ε (List Ret)
  | [] => pure []
  | c :: cs => do
    let r ← apiCall x c
    let rs ← runCalls x cs
    return r :: rs

theorem run_of_runCalls {cs : List Call} {rs : List Ret} (h : Returns (runCalls x cs) s rs t) :
    Run x s (cs.zip rs) t := by
  induction cs generalizing s rs with
  | nil =>
    obtain ⟨rfl, rfl⟩ := returns_pure.mp h
    exact .nil
  | cons c cs ih =>
    simp only [runCalls, returns_bind, returns_pure] at h
    obtain ⟨r, u, hc, rs', v, hcs, rfl, rfl⟩ := h
    exact .cons hc (ih hcs)

/-- The calls all return, and what they return and leave is as `P` says. -/
def After (x : ExtTable ε) (cs : List Call) (s : Sys ε) (P : List Ret → Sys ε → Prop) : Prop :=
  ∃ rs t, Returns (runCalls x cs) s rs t ∧ P rs t

instance {cs : List Call} {P : List Ret → Sys ε → Prop} [∀ rs t, Decidable (P rs t)] :
    Decidable (After x cs s P) :=
  match h : runCalls x cs s with
  | .ok (rs, t) => decidable_of_iff (P rs t)
    ⟨fun hp => ⟨rs, t, h, hp⟩, fun ⟨_, _, h', hp⟩ => by
      obtain ⟨rfl, rfl⟩ := Returns.det h h'
      exact hp⟩
  | .error _ => isFalse fun ⟨_, _, h', _⟩ => by
      rw [Returns, h] at h'
      cases h'

theorem After.run {cs : List Call} {P : List Ret → Sys ε → Prop} (h : After x cs s P) :
    ∃ rs t, Run x s (cs.zip rs) t ∧ P rs t := by
  obtain ⟨rs, t, hr, hp⟩ := h
  exact ⟨rs, t, run_of_runCalls hr, hp⟩

theorem After.step {c : Call} {P : List Ret → Sys ε → Prop} (h : After x [c] s P) :
    ∃ r t, Step x s (c, r) t ∧ P [r] t := by
  obtain ⟨rs, t, hr, hp⟩ := h
  simp only [runCalls, returns_bind, returns_pure] at hr
  obtain ⟨r, u, hc, _, _, ⟨rfl, rfl⟩, rfl, rfl⟩ := hr
  exact ⟨r, t, hc, hp⟩

/-- The calls all return, each made in a state that suits it, and what they leave is as `Q`
says. -/
def AfterWhere (x : ExtTable ε) (P : Sys ε → Call → Prop) :
    List Call → Sys ε → (Sys ε → Prop) → Prop
  | [], s, Q => Q s
  | c :: cs, s, Q => P s c ∧ ∃ r t, Returns (apiCall x c) s r t ∧ AfterWhere x P cs t Q

instance AfterWhere.decidable {P : Sys ε → Call → Prop} {Q : Sys ε → Prop}
    [∀ s c, Decidable (P s c)] [∀ s, Decidable (Q s)] :
    (cs : List Call) → (s : Sys ε) → Decidable (AfterWhere x P cs s Q)
  | [], s => inferInstanceAs (Decidable (Q s))
  | c :: cs, s =>
    match h : apiCall x c s with
    | .ok (r, t) =>
      have := AfterWhere.decidable (P := P) (Q := Q) cs t
      decidable_of_iff (P s c ∧ AfterWhere x P cs t Q)
        ⟨fun hp => ⟨hp.1, r, t, h, hp.2⟩, fun ⟨hc, _, _, h', hq⟩ => by
          obtain ⟨rfl, rfl⟩ := Returns.det h h'
          exact ⟨hc, hq⟩⟩
    | .error _ => isFalse fun ⟨_, _, _, h', _⟩ => by
        rw [Returns, h] at h'
        cases h'

/-- An environment in which every call works and nothing is reported. -/
def quietOracle : Oracle where
  ret tick := tick + 3
  err _ := 0
  val _ := 0
  clock tick := tick
  ctl _ := true
  events _ := []
  peer _ := {}

/-- An environment in which a millisecond passes between one tick and the next. -/
def lateOracle : Oracle := { quietOracle with clock := fun tick => 1000 * tick }

/-- An environment in which the calls at the given ticks fail with `EPIPE`. -/
def failingOracle (ticks : List Nat) : Oracle :=
  { quietOracle with ret := fun tick => if tick ∈ ticks then -1 else tick + 3, err := fun _ => 32 }

/-- An environment in which the call at tick 8 would block. -/
def blockedOracle : Oracle :=
  { quietOracle with
    ret := fun tick => if tick = 8 then -1 else tick + 3
    err := fun _ => EWOULDBLOCK }

/-! ## The base invariant -/

theorem base_start (o : Oracle) (e : ε) : Base (Sys.start o e).core where
  reg := ⟨⟨[], .nil, by simp [Sys.start, Sys.core], rfl⟩, by simp [Sys.start, Sys.core]⟩
  own := by
    refine ⟨?_, ?_, ?_, ?_⟩ <;> simp [Sys.start, Sys.core]
  cache := by
    intro n c hc
    simp [Sys.start, Sys.core] at hc
  timed := by
    refine ⟨?_, ?_, ?_, ?_, fun _ => rfl⟩ <;> simp [Sys.start, Sys.core]

theorem Step.base (hx : Tame x) {l : Call × Ret} (h : Step x s l t) (hb : Base s.core) :
    Base t.core := (apiCall_steps hx hb h).base hb

theorem Run.base (hx : Tame x) {l : List (Call × Ret)} (h : Run x s l t) (hb : Base s.core) :
    Base t.core :=
  Path.keeps (I := fun s => Base s.core) h (fun _ _ _ hs hb => Step.base hx hs hb) hb

theorem Reachable.base (hx : Tame x) (h : Reachable x s) : Base s.core := by
  obtain ⟨o, e, l, hr⟩ := h
  exact Run.base hx hr (base_start o e)

/-- What every act keeps holds in every reachable state. -/
theorem Reachable.keeps {I : Core → Prop} (hx : Tame x) (h : Reachable x s)
    (h0 : ∀ (o : Oracle) (e : ε), I (Sys.start o e).core)
    (hI : ∀ k a k', CStep k a k' → Base k → I k → I k') : I s.core := by
  obtain ⟨o, e, l, hr⟩ := h
  refine (Path.keeps (I := fun s => Base s.core ∧ I s.core) hr (fun a i b hs hk => ?_)
    ⟨base_start o e, h0 o e⟩).2
  exact (apiCall_steps hx hk.1 hs).keeps (I := fun k => Base k ∧ I k)
    (fun _ _ _ _ ha hk => ⟨hk.1.step ha, hI _ _ _ ha hk.1 hk.2⟩) hk

/-- A run in which every call is made in a state that suits it. -/
abbrev RunWhere (x : ExtTable ε) (P : Sys ε → Call → Prop) :
    Sys ε → List (Call × Ret) → Sys ε → Prop := Path fun s l t => Step x s l t ∧ P s l.1

/-- What the calls of such a run keep. -/
theorem RunWhere.keeps {P : Sys ε → Call → Prop} {I : Core → Prop} {o : Oracle} {e : ε}
    {l : List (Call × Ret)} (hx : Tame x) (h : RunWhere x P (Sys.start o e) l s)
    (h0 : I (Sys.start o e).core)
    (hI : ∀ a i b, Step x a i b → P a i.1 → Base a.core → I a.core → I b.core) : I s.core := by
  refine (Path.keeps (I := fun s => Base s.core ∧ I s.core) h ?_ ⟨base_start o e, h0⟩).2
  intro a i b hs hk
  exact ⟨hs.1.base hx hk.1, hI a i b hs.1 hs.2 hk.1 hk.2⟩

theorem AfterWhere.run {P : Sys ε → Call → Prop} {Q : Sys ε → Prop} {cs : List Call}
    (h : AfterWhere x P cs s Q) : ∃ l t, RunWhere x P s l t ∧ Q t := by
  induction cs generalizing s with
  | nil => exact ⟨[], s, .nil, h⟩
  | cons c cs ih =>
    obtain ⟨hc, r, u, hr, hrest⟩ := h
    obtain ⟨l, t, hrun, hq⟩ := ih hrest
    exact ⟨(c, r) :: l, t, .cons ⟨hr, hc⟩ hrun, hq⟩

theorem RunWhere.run {P : Sys ε → Call → Prop} {l : List (Call × Ret)} (h : RunWhere x P s l t) :
    Run x s l t := Path.mono h fun _ _ _ hs => hs.1

/-- The same for the message loop: a state it may be in at the start of a round. -/
inductive InsideWhere (x : ExtTable ε) (P : Sys ε → Call → Prop) : Sys ε → Prop
  | call {o : Oracle} {e : ε} {l : List (Call × Ret)} {s : Sys ε} :
    RunWhere x P (Sys.start o e) l s → InsideWhere x P s
  | next {s t : Sys ε} {fuel : Nat} : InsideWhere x P s → Returns (evtPass x fuel) s .next t →
    InsideWhere x P t

theorem InsideWhere.inside {P : Sys ε → Call → Prop} (h : InsideWhere x P s) : Inside x s := by
  induction h with
  | call h => exact .call ⟨_, _, _, h.run⟩
  | next _ hp ih => exact .next ih hp

theorem Inside.base (hx : Tame x) (h : Inside x s) : Base s.core := by
  induction h with
  | call h => exact h.base hx
  | next _ hp ih => exact (evtPass_steps hx ih hp).base ih

theorem AtRecord.base (hx : Tame x) {kev : Kev} (h : AtRecord x s kev) : Base s.core := by
  obtain ⟨u, fuel, hu, hf⟩ := h
  exact (hf.idle_steps hx (hu.base hx)).base (hu.base hx)

/-- Nothing registered is tame. -/
theorem tame_noExt : Tame noExt where
  ops := {
    openCb := fun _ _ => Quiet.pure ()
    closeCb := fun _ _ => Quiet.pure ()
    listenCb := fun _ _ => Quiet.pure ()
    disconnectCb := fun _ _ => Quiet.pure ()
    recvFn := quiet_internal_recvFn
    sendFn := fun ctype n data hlt =>
      quiet_internal_sendFn (fun he => absurd hlt (by rw [he]; decide)) n data
    stateFn := fun _ _ _ _ h => h }
  acceptCb := fun _ _ _ _ _ h => .inl (Quiet.pure () _ _ _ h)
  connectCb := fun _ _ _ _ _ h => .inl (Quiet.pure () _ _ _ h)
  filterFn := fun _ _ s _ _ _ h => ⟨s, .inl rfl, .inl (Quiet.pure true _ _ _ h)⟩

end MNet
