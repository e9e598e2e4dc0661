import MNet.Registry
import MNet.Lib.Via

/-! # The life of a channel

What a channel is to the application is a stage, and a run takes it from stage to stage by
the turns listed here and no others. Every call is a few turns of the kinds listed for it, so
the run of the library, seen from one channel, is a run of this small automaton. -/

namespace MNet
open MNet.Lib MNet.Lib.Exec

variable {ε : Type} {x : ExtTable ε} {s t : Sys ε} {n : ChannId}

inductive Stage where
  /-- Not allocated yet. -/
  | unborn
  | alive (st : ChannState)
  | freed
deriving DecidableEq

inductive Turn where
  | opened
  | accepted
  /-- A socket for the channel, in its first state. -/
  | attached (st : ChannState)
  | established
  | dropped
  | closed
  | reaped

inductive Stage.Turns : Stage → Turn → Stage → Prop
  | opened : Turns .unborn .opened (.alive .disconnect)
  | accepted : Turns .unborn .accepted (.alive .connected)
  | attached {st : ChannState} : st.active → Turns (.alive .disconnect) (.attached st) (.alive st)
  | established : Turns (.alive .connecting) .established (.alive .connected)
  | dropped {st : ChannState} : st.active → Turns (.alive st) .dropped (.alive .disconnect)
  | closed : Turns (.alive .disconnect) .closed (.alive .closed)
  | reaped : Turns (.alive .closed) .reaped .freed

/-- The turns a call may take a channel through. All but `mnet_fini`, `mnet_poll`,
`mnet_result_next` and `mnet_chann_open` leave the other channels where they are. -/
def Call.turns (n : ChannId) : Call → Set Turn
  | .mnetFini => {.dropped, .closed, .reaped}
  | .poll => {.reaped}
  | .resultNext _ => {.accepted, .established, .dropped}
  | .channOpen _ => {.opened}
  | .channClose m => {e | m = some n ∧ (e = .dropped ∨ e = .closed)}
  | .channListen m _ _ _ => {e | m = some n ∧ e = .attached .listening}
  | .channConnect m _ _ | .dgramSend m _ _ =>
    {e | m = some n ∧ (e = .attached .connecting ∨ e = .attached .connected ∨ e = .dropped)}
  | .channDisconnect m | .channRecv m _ _ | .channSend m _ | .dgramRecv m _ _ =>
    {e | m = some n ∧ e = .dropped}
  | _ => ∅

/-- Where a call that is about the channel leaves it. -/
def Call.leaves (n : ChannId) (b : Stage) : Call × Ret → Prop
  | (.channOpen _, .chann m) => m = some n → b = .alive .disconnect
  | (.channClose m, _) => m = some n → b = .alive .closed
  | (.channDisconnect m, _) => m = some n → b = .alive .disconnect ∨ b = .alive .closed
  | _ => True

/-- One call in the life of the channel `n`. -/
def Stage.Lives (n : ChannId) (a : Stage) (i : Call × Ret) (b : Stage) : Prop :=
  Via Stage.Turns (i.1.turns n) a b ∧ Call.leaves n b i

def Core.stage (k : Core) (n : ChannId) : Stage :=
  match k.heap n with
  | some c => .alive c.state
  | none => if n < k.nextChann then .freed else .unborn

theorem Core.stage_some {k : Core} {c : CChann} (h : k.heap n = some c) : k.stage n = .alive c.state := by
  simp only [Core.stage, h]

theorem Core.stage_none {k : Core} (h : k.heap n = none) :
    k.stage n = if n < k.nextChann then .freed else .unborn := by
  simp only [Core.stage, h]

/-! ## Acts and turns -/

/-- The turn an act takes the channel `n` through. -/
def Act.turns (n : ChannId) : Act → Set Turn
  | .create m _ => {e | m = n ∧ e = .opened}
  | .accept m _ => {e | m = n ∧ e = .accepted}
  | .attach m _ st => {e | m = n ∧ e = .attached st}
  | .established m => {e | m = n ∧ e = .established}
  | .disconnect m => {e | m = n ∧ e = .dropped}
  | .close m => {e | m = n ∧ e = .closed}
  | .destroy m => {e | m = n ∧ e = .reaped}
  | _ => ∅

section Act

variable {k k' : Core} {a : Act} {A : Set Act} {B : Set Turn}

/-- An identifier is given out only together with the channel it names. -/
theorem CStep.new_some (hs : CStep k a k') (hb : Base k) (hn : k.nextChann ≤ n) (hlt : n < k'.nextChann) :
    k'.heap n ≠ none := by
  have hsame : k'.nextChann ≠ k.nextChann := Nat.ne_of_gt (Nat.lt_of_le_of_lt hn hlt)
  cases hs with
  | create ctype =>
    obtain rfl : n = k.nextChann := Nat.le_antisymm (Nat.le_of_lt_succ hlt) hn
    rw [Core.push_heap hb]
    simp
  | @accept fd m l hm hpos hfd =>
    obtain rfl : n = k.nextChann := Nat.le_antisymm (Nat.le_of_lt_succ hlt) hn
    have hh := Core.push_heap (hb.openFd hfd) (c := { fd := fd, state := .connected, ctype := l.ctype })
    rw [show (k.openFd fd).nextChann = k.nextChann from rfl] at hh
    rw [hh]
    simp
  | @write n c data i =>
    obtain ⟨w, hw⟩ := k.onWire_eq c (data.take i)
    rw [hw] at hsame
    exact absurd rfl hsame
  | @flush n c i =>
    obtain ⟨w, hw⟩ := k.onWire_eq c ((rwbDrainParam c.rwbSend).take i)
    rw [hw] at hsame
    exact absurd rfl hsame
  | _ => exact absurd rfl hsame

/-- An act is at most one turn of every channel. -/
theorem CStep.turns (hs : CStep k a k') (hb : Base k) (n : ChannId) :
    Via Stage.Turns (a.turns n) (k.stage n) (k'.stage n) := by
  cases hn : k.heap n with
  | some c =>
    rw [Core.stage_some hn]
    obtain ⟨rfl, hst, hn'⟩ | ⟨c', hn', ht⟩ := hs.at hb hn
    · -- the identifier was given out before, so the channel is freed and not unborn
      have hlt : n < k'.nextChann :=
        Nat.lt_of_lt_of_le (hb.reg.lt n (by simp [hn])) hs.nextChann_le
      rw [Core.stage_none hn', if_pos hlt, hst]
      exact .single .reaped ⟨rfl, rfl⟩
    · rw [Core.stage_some hn']
      cases ht with
      | attach hst _ _ hact => rw [hst]; exact .single (.attached hact) ⟨rfl, rfl⟩
      | established hst => rw [hst]; exact .single .established ⟨rfl, rfl⟩
      | disconnect hact => exact .single (.dropped hact) ⟨rfl, rfl⟩
      | close hst => rw [hst]; exact .single .closed ⟨rfl, rfl⟩
      | links | refuse | interest | write | flush | sendFlag | slot | report | timer => exact .refl _
  | none =>
    cases hn' : k'.heap n with
    | some c =>
      obtain ⟨rfl, ⟨ctype, rfl, rfl⟩ | ⟨fd, m, l, rfl, _, _, _, _, rfl⟩⟩ := hs.appears hb hn hn'
      all_goals rw [Core.stage_none hn, if_neg (Nat.lt_irrefl _), Core.stage_some hn']
      · exact .single .opened ⟨rfl, rfl⟩
      · exact .single .accepted ⟨rfl, rfl⟩
    | none =>
      refine .of_eq ?_
      rw [Core.stage_none hn, Core.stage_none hn']
      by_cases hlt : n < k.nextChann
      · rw [if_pos hlt, if_pos (Nat.lt_of_lt_of_le hlt hs.nextChann_le)]
      · rw [if_neg hlt, if_neg (fun hlt' => ?_)]
        exact absurd hn' (hs.new_some hb (Nat.not_lt.mp hlt) hlt')

/-- Acts of a kind are turns of the kinds that go with them. -/
theorem Steps.lives (h : Steps A k k') (hb : Base k)
    (hA : ∀ a ∈ A, ∀ e ∈ a.turns n, e ∈ B) : Via Stage.Turns B (k.stage n) (k'.stage n) :=
  Via.project (R := CStep) (I := Base) (f := fun k => k.stage n) h hb
    fun _ _ _ ha hs hb => ⟨hb.step hs, (hs.turns hb n).mono (hA _ ha)⟩

end Act

/-! ## Calls and turns -/

/-- Connecting attaches a socket in one of two states; the callback may drop it again. -/
theorem mnetChannConnect_lives (hx : Tame x) {m : ChannId} {host : Option Nat} {port r : Int}
    (hb : Base s.core) (h : Returns (mnetChannConnect x (some m) host port) s r t) :
    Via Stage.Turns {e | some m = some n ∧
      (e = .attached .connecting ∨ e = .attached .connected ∨ e = .dropped)}
      (s.core.stage n) (t.core.stage n) := by
  obtain rfl | ⟨fd, a, host, _, ⟨rfl, ha | ⟨f, ha⟩⟩ | ⟨_, _, _, _, _, href⟩ |
    ⟨b, e, f, g, c, q, st, set, ctype, _, _, _, hst, hatt, hfm, hc, hadd, hcb⟩⟩ :=
    mnetChannConnect_parts h
  · exact .refl _
  · exact .of_eq (by rw [ha])
  · exact (ha.turns hb n).mono fun _ he => he.elim
  · exact (href.turns hb n).mono fun _ he => he.elim
  · have hset : set ≠ .del := by obtain ⟨_, rfl⟩ | ⟨_, rfl, _⟩ := hst <;> decide
    have hact : c.state.active := by
      rw [hc]
      obtain ⟨rfl, _⟩ | ⟨rfl, _⟩ := hst <;> trivial
    refine ((hatt.turns hb n).mono ?_).trans
      ((connect_finish hx (hb.step hatt) hset hfm hact hadd hcb).lives (hb.step hatt) ?_)
    · rintro _ ⟨rfl, rfl⟩
      obtain ⟨rfl, _⟩ | ⟨rfl, _⟩ := hst
      · exact ⟨rfl, .inl rfl⟩
      · exact ⟨rfl, .inr (.inl rfl)⟩
    · rintro _ (rfl | rfl) e he
      · exact he.elim
      · exact ⟨congrArg some he.1, .inr (.inr he.2)⟩

theorem dgramAim_lives (hx : Tame x) {m : ChannId} {host : Nat} {port : Int} {u : Unit}
    (hb : Base s.core) (h : Returns (dgramAim x m host port) s u t) :
    Via Stage.Turns {e | some m = some n ∧
      (e = .attached .connecting ∨ e = .attached .connected ∨ e = .dropped)}
      (s.core.stage n) (t.core.stage n) := by
  obtain hsame | ⟨r, hconn⟩ := dgramAim_cases hx h
  · exact .of_eq (congrArg (fun k => Core.stage k n) hsame)
  · exact mnetChannConnect_lives hx hb hconn

/-- A send that fails disconnects. -/
theorem sendActs_turns {m : ChannId} :
    ∀ a ∈ sendActs m, ∀ e ∈ a.turns n, some m = some n ∧ e = .dropped := by
  rintro _ (⟨_, _, rfl⟩ | rfl | rfl | rfl | rfl) e he
  · exact he.elim
  · exact he.elim
  · exact he.elim
  · exact ⟨congrArg some he.1, he.2⟩
  · exact he.elim

/-- Looking for a message accepts channels, and finds sockets connected or broken. -/
theorem loopActs_turns : ∀ a ∈ loopActs, ∀ e ∈ a.turns n, e ∈ ({.accepted, .established, .dropped} : Set Turn) := by
  rintro _ ((rfl | ⟨m, rfl | rfl | rfl⟩) | ⟨m, rfl⟩ | rfl | ⟨m, q, hr⟩) e he
  · exact he.elim
  · exact he.elim
  · exact he.elim
  · exact .inr (.inr he.2)
  · exact he.elim
  · exact he.elim
  · rcases hr with rfl | rfl | rfl | rfl | rfl | ⟨_, rfl⟩ | ⟨_, rfl⟩ | ⟨_, rfl⟩ | rfl | rfl
    · exact he.elim
    · exact .inr (.inr he.2)
    · exact .inr (.inl he.2)
    · exact he.elim
    · exact he.elim
    · exact he.elim
    · exact he.elim
    · exact .inl he.2
    · exact .inr (.inr he.2)
    · exact he.elim

/-- Every call takes every channel through turns of the kinds listed for it. -/
theorem apiCall_lives (hx : Tame x) {c : Call} {r : Ret} (hb : Base s.core)
    (h : Returns (apiCall x c) s r t) :
    Via Stage.Turns (c.turns n) (s.core.stage n) (t.core.stage n) := by
  have hs := apiCall_steps hx hb h
  cases c with
  | channConnect m host port =>
    cases m with
    | none => exact hs.lives hb fun _ ha => ha.elim
    | some m =>
      obtain ⟨_, _, h⟩ := returns_ret.mp h
      exact mnetChannConnect_lives hx hb h
  | dgramSend m addr buf =>
    cases m with
    | none => exact hs.lives hb fun _ ha => ha.elim
    | some m =>
      obtain ⟨_, _, h⟩ := returns_ret.mp h
      obtain ⟨rfl, _⟩ | ⟨c, host, port, a, _, _, _, _, haim, hsend⟩ := mnetDgramSend_cases h
      · exact .refl _
      · have hba := (dgramAim_steps hx hb haim).base hb
        refine (dgramAim_lives hx hb haim).trans ((mnetChannSend_steps hx hba hsend).lives hba ?_)
        exact fun a ha e he => ⟨(sendActs_turns a ha e he).1, .inr (.inr (sendActs_turns a ha e he).2)⟩
  | channListen m host port backlog =>
    cases m with
    | none => exact hs.lives hb fun _ ha => ha.elim
    | some m =>
      obtain ⟨_, _, h⟩ := returns_ret.mp h
      refine (mnetChannListen_spec hx h).lives hb ?_
      rintro _ (⟨_, rfl⟩ | ⟨_, rfl⟩ | rfl) e he
      · exact he.elim
      · exact ⟨congrArg some he.1, he.2⟩
      · exact he.elim
  | mnetFini =>
    refine hs.lives hb ?_
    rintro _ ((⟨m, rfl | rfl⟩ | ⟨m, rfl | rfl⟩) | rfl) e he
    · exact he.elim
    · exact .inr (.inr he.2)
    · exact .inl he.2
    · exact .inr (.inl he.2)
    · exact he.elim
  | poll =>
    refine hs.lives hb ?_
    rintro _ (⟨m, rfl | rfl⟩ | rfl | rfl | rfl) e he
    · exact he.elim
    · exact he.2
    all_goals exact he.elim
  | resultNext fuel => exact hs.lives hb loopActs_turns
  | channClose m =>
    refine hs.lives hb ?_
    cases m with
    | none => exact fun _ ha => ha.elim
    | some m =>
      rintro _ (rfl | rfl) e he
      · exact ⟨congrArg some he.1, .inl he.2⟩
      · exact ⟨congrArg some he.1, .inr he.2⟩
  | channDisconnect m =>
    refine hs.lives hb ?_
    cases m with
    | none => exact fun _ ha => ha.elim
    | some m =>
      rintro _ rfl e he
      exact ⟨congrArg some he.1, he.2⟩
  | channRecv m | dgramRecv m =>
    refine hs.lives hb ?_
    cases m with
    | none => exact fun _ ha => ha.elim
    | some m =>
      rintro _ (rfl | rfl | rfl) e he
      · exact he.elim
      · exact ⟨congrArg some he.1, he.2⟩
      · exact he.elim
  | channSend m =>
    refine hs.lives hb ?_
    cases m with
    | none => exact fun _ ha => ha.elim
    | some m => exact sendActs_turns
  | channActiveEvent m =>
    refine hs.lives hb ?_
    cases m with
    | none => exact fun _ ha => ha.elim
    | some m =>
      rintro _ ((⟨_, rfl⟩ | rfl | rfl) | (rfl | rfl | rfl)) e he
      all_goals exact he.elim
  | channOpen ctype =>
    refine hs.lives hb ?_
    rintro _ ⟨m, rfl⟩ e he
    exact he.2
  | mnetInit =>
    refine hs.lives hb ?_
    rintro _ (rfl | rfl) e he
    all_goals exact he.elim
  | multiResetEvent =>
    refine hs.lives hb ?_
    rintro _ (rfl | rfl | ⟨m, rfl | rfl⟩) e he
    all_goals exact he.elim
  | multiAcceptBalancer | extRegister | channSetOpaque | socketSetBufsize =>
    exact hs.lives hb fun _ ha => ha.elim

theorem mnetChannOpen_opens (hx : Tame x) {ctype : Nat} (hb : Base s.core)
    (h : Returns (mnetChannOpen x ctype) s (some n) t) :
    s.core.stage n = .unborn ∧ t.core.stage n = .alive .disconnect := by
  simp only [mnetChannOpen] at h
  rcases returns_ite.mp h with ⟨_, h⟩ | ⟨_, h⟩
  · cases (returns_pure.mp h).1
  simp only [returns_bind, returns_readMnet, and_assoc, exists_and_left, exists_eq_left] at h
  rcases returns_ite.mp h with ⟨_, h⟩ | ⟨_, h⟩
  · cases (returns_pure.mp h).1
  simp only [returns_bind, returns_pure, Option.some.injEq] at h
  obtain ⟨m, a, hnew, _, b, hcb, rfl, rfl⟩ := h
  obtain ⟨rfl, _, ha⟩ := channCreate_spec hnew
  rw [(quiet_openCb hx ctype s.nextChann).callback _ _ _ hcb, ha]
  refine ⟨?_, Core.stage_some (Core.push_heap hb)⟩
  rw [Core.stage_none hb.heap_fresh, if_neg (Nat.lt_irrefl _)]

theorem mnetChannClose_closes (hx : Tame x) {u : Unit} (hb : Base s.core)
    (h : Returns (mnetChannClose x (some n)) s u t) : t.core.stage n = .alive .closed := by
  simp only [mnetChannClose, returns_bind, returns_deref, and_assoc, exists_and_left,
    exists_eq_left] at h
  obtain ⟨c, hc, h⟩ := h
  rcases returns_ite.mp h with ⟨_, h⟩ | ⟨hcl, h⟩
  · simp only [returns_bind] at h
    obtain ⟨r, a, hdis, hclose⟩ := h
    obtain ⟨d, hd, hno⟩ := channDisconnectSocket_inactive hx.ops hb hdis
    obtain ⟨_, _, e, he, hst, _⟩ := channCloseSocket_steps hx.ops hd hno hclose
    rw [Core.stage_some he, hst]
  · have hst : c.state = .closed := by
      cases hst : c.state with
      | closed => rfl
      | disconnect | connecting | connected | listening => exact absurd (by rw [hst]; decide) hcl
    rw [(returns_pure.mp h).2, Core.stage_some (core_heap_some hc)]
    exact congrArg _ hst

/-- What a call that is about one channel leaves it as. -/
theorem apiCall_leaves (hx : Tame x) {c : Call} {r : Ret} (hb : Base s.core)
    (h : Returns (apiCall x c) s r t) : Call.leaves n (t.core.stage n) (c, r) := by
  cases c with
  | channOpen ctype =>
    obtain ⟨m, rfl, hopen⟩ := returns_ret.mp h
    rintro rfl
    exact (mnetChannOpen_opens hx hb hopen).2
  | channClose m =>
    obtain ⟨_, _, h⟩ := returns_ret.mp h
    rintro rfl
    exact mnetChannClose_closes hx hb h
  | channDisconnect m =>
    obtain ⟨_, _, h⟩ := returns_ret.mp h
    rintro rfl
    simp only [mnetChannDisconnect, returns_bind, returns_pure] at h
    obtain ⟨_, _, h, _, rfl⟩ := h
    obtain ⟨d, hd, hno⟩ := channDisconnectSocket_inactive hx.ops hb h
    rw [Core.stage_some hd]
    exact (ChannState.not_active_iff.mp hno).symm.imp (congrArg _) (congrArg _)
  | _ => trivial

end MNet
