import MNet.Clockwork
import MNet.Reports

/-! # Timer messages

A call of the message loop fires one timer at most: the one under the cursor, before it looks at
anything else. No other message tells of a timer, unless the slot of a report was written over. -/

namespace MNet
open MNet.Lib MNet.Lib.Exec

variable {ε : Type} {x : ExtTable ε} {s t : Sys ε} {n : ChannId} {c : Chann} {l : List TmNode} {node : TmNode}

/-! ## Every call keeps the clockwork going -/

theorem geared_start (o : Oracle) (e : ε) : Geared (Sys.start o e) where
  fresh _ _ := rfl
  timed := ⟨List.nodup_nil, (fun _ hm => by cases hm), (fun _ hm => by cases hm), (fun _ _ _ hc => by cases hc), fun _ => rfl⟩
  sorted := .nil
  keyed _ hm := by cases hm
  past _ hpos := absurd rfl hpos

theorem wound_start {o : Oracle} (hclock : Monotone o.clock) (e : ε) : Wound (Sys.start o e) :=
  ⟨geared_start o e, hclock⟩

/-- A shutdown leaves the library as it was at first. -/
theorem mnetFini_wipes {u : Unit} (h : Returns (mnetFini x) s u t) : (s.mnet.isInit = true ∧ t.mnet = {}) ∨ t = s := by
  simp only [mnetFini, returns_bind, returns_readMnet, and_assoc, exists_and_left, exists_eq_left] at h
  rcases returns_ite.mp h with ⟨hinit, h⟩ | ⟨_, h⟩
  · simp only [returns_bind, returns_modifyMnet] at h
    obtain ⟨_, _, _, _, _, _, _, _, _, _, _, _, rfl⟩ := h
    exact .inl ⟨hinit, rfl⟩
  · exact .inr (returns_pure.mp h).2

theorem Step.geared {i : Call × Ret} (hx : Modest x) (hob : Obedient x) (h : Step x s i t) (ho : Ordered s) (hw : Geared s) :
    Geared t := by
  obtain ⟨call, r⟩ := i
  by_cases hcall : call = .mnetFini
  swap
  · refine hw.posts (hx.posts_apiCall _ _ _ h) fun hwipe => ?_
    cases call with
    | mnetFini => exact hcall rfl
    | channActiveEvent n et v => cases et <;> simp [Call.entries, Entry.idle] at hwipe
    | _ => simp [Call.entries, Entry.idle] at hwipe
  subst hcall
  obtain ⟨u, _, h⟩ := returns_ret.mp h
  obtain ⟨hot, hgone⟩ := mnetFini_ordered hob h ho
  obtain ⟨hinit, hmnet⟩ | rfl := mnetFini_wipes h
  swap
  · exact hw
  refine ⟨hot.fresh, ?_, ?_, fun m hm => ?_, fun _ hpos => ?_⟩
  · rw [hmnet]
    refine ⟨List.nodup_nil, (fun _ hm => by cases hm), (fun _ hm => by cases hm), fun n c id hc => ?_, fun _ => rfl⟩
    rw [core_heap, hgone hinit n] at hc
    cases hc
  · rw [hmnet]
    exact .nil
  · rw [hmnet] at hm
    cases hm
  · rw [hmnet] at hpos
    exact absurd rfl hpos

theorem Step.wound {i : Call × Ret} (hx : Modest x) (hob : Obedient x) (h : Step x s i t) (ho : Ordered s) (hw : Wound s) :
    Wound t where
  toGeared := h.geared hx hob ho hw.toGeared
  clock := by
    rw [(h.onward hx).oracle]
    exact hw.clock

/-! ## The timer under the cursor -/

/-- The cursor is at a timer whose time has come. -/
structure Due (s : Sys ε) (l : List TmNode) (node : TmNode) : Prop where
  clock : s.mnet.tmClock = some l
  find : skiplistFind l node.id = some node
  pos : s.mnet.tmPos = some (.node node.id)
  time : node.tm.time ≤ s.mnet.tmCurrent

/-- The cursor is at no timer. -/
def Unsprung (s : Sys ε) : Prop := s.mnet.tmPos = none ∨ s.mnet.tmPos = some .head

theorem Unsprung.not_due (h : Unsprung s) : ¬ Due s l node := by
  intro hdue
  obtain hpos | hpos := h <;> (rw [hdue.pos] at hpos; cases hpos)

theorem Unsprung.tmNext {fuel : Nat} {p : Option ChannId} (h : Unsprung s) :
    Returns (tmNext x (fuel + 1)) s p t ↔ p = none ∧ t = s := by
  obtain hpos | hpos := h <;>
  · rw [MNet.tmNext, (returns_readMnet.mpr ⟨rfl, rfl⟩).bind_iff, hpos]
    exact returns_pure

/-- The timers as they were, and the cursor at none of them. -/
structure Stood (s t : Sys ε) : Prop where
  fresh : Fresh t
  timers : t.timers = s.timers
  clock : t.mnet.tmClock = s.mnet.tmClock
  unsprung : Unsprung t

theorem Posts.stood {A : Set Entry} (h : Posts A s t) (hA : ∀ e ∈ A, e.idle ∨ e = .park ∨ ∃ n, e = .fire n)
    (hs : Fresh s) (hpos : Unsprung s) : Stood s t := by
  refine h.keeps (I := Stood s) (fun e a b he hb ha => ?_) ⟨hs, rfl, rfl, hpos⟩
  obtain hidle | rfl | ⟨n, rfl⟩ := hA e he
  · have hb := hb.apart hidle ha.fresh
    refine ⟨hb.fresh, hb.timers.trans ha.timers, hb.tmClock.trans ha.clock, ?_⟩
    rw [Unsprung, hb.tmPos]
    exact ha.unsprung
  · cases hb
    exact ⟨ha.fresh, ha.timers, ha.clock, .inl rfl⟩
  · cases hb with
    | fire hclock hfind hpos htime => exact absurd ⟨hclock, hfind, hpos, htime⟩ ha.unsprung.not_due

/-- With no timer due the loop goes on as if the cursor were at none. -/
theorem evtLoop_unsprung {fuel rounds : Nat} {q : Option ChannId} (hno : ∀ l node, ¬ Due s l node)
    (h : Returns (evtLoop x fuel rounds) s q t) : ∃ a, Unsprung a ∧
      (a = s ∨ a = { s with mnet := { s.mnet with tmPos := none } }) ∧ Returns (evtLoop x fuel rounds) a q t := by
  cases rounds with
  | zero => exact absurd h returns_fail
  | succ rounds =>
    obtain ⟨p, b, hpass, hrest⟩ := returns_bind.mp h
    obtain ⟨tm, a, htm, hthen⟩ := returns_bind.mp hpass
    cases fuel with
    | zero => exact absurd htm returns_fail
    | succ fuel =>
      have hgo : Unsprung a → tm = none →
          Returns (evtLoop x (fuel + 1) (rounds + 1)) a q t := fun ha hnone =>
        returns_bind.mpr ⟨p, b, returns_bind.mpr ⟨tm, a, ha.tmNext.mpr ⟨hnone, rfl⟩, hthen⟩, hrest⟩
      obtain ⟨rfl, rfl, hpos⟩ | ⟨l, node, hclock, hpos, hfind, ⟨rfl, _, rfl⟩ | ⟨htime, _⟩⟩ := tmNext_cases htm
      · exact ⟨a, hpos, .inl rfl, hgo hpos rfl⟩
      · exact ⟨_, .inl rfl, .inr rfl, hgo (.inl rfl) rfl⟩
      · exact absurd ⟨hclock, hfind, hpos, htime⟩ (hno l node)

/-! ## A call of the loop -/

section

variable (hp : Polite x)
include hp

/-- The timer that is due is rearmed and given out at once. -/
theorem Due.evtLoop {fuel rounds : Nat} {q : Option ChannId} (hdue : Due s l node)
    (h : Returns (evtLoop x fuel rounds) s q t) : q = some node.tm.chann ∧ ∃ a c e,
      Returns (tmUpdate node.tm.chann node.tm.interval)
        { s with mnet := { s.mnet with tmPos := some (skiplistNext l node.id) } } () a ∧
      a.heap node.tm.chann = some c ∧
      t = { a.setChann node.tm.chann { c with msg := msgOf node.tm.chann c .timer none 0 } with ext := e } := by
  cases rounds with
  | zero => exact absurd h returns_fail
  | succ rounds =>
    obtain ⟨p, b, hpass, hrest⟩ := returns_bind.mp h
    obtain ⟨tm, a, htm, hthen⟩ := returns_bind.mp hpass
    cases fuel with
    | zero => exact absurd htm returns_fail
    | succ fuel =>
      obtain ⟨_, _, hpos⟩ | ⟨l', node', hclock, hpos, hfind, hcases⟩ := tmNext_cases htm
      · exact absurd hdue (Unsprung.not_due hpos)
      obtain rfl : l' = l := Option.some.inj (hclock.symm.trans hdue.clock)
      have hid : node'.id = node.id := TmLink.node.inj (Option.some.inj (hpos.symm.trans hdue.pos))
      obtain rfl : node' = node := Option.some.inj (hfind.symm.trans (hid ▸ hdue.find))
      obtain ⟨_, hlate, _⟩ | ⟨_, a', pass, b', hup, hmsg, hnext⟩ := hcases
      · exact absurd hdue.time (Int.not_le.mpr hlate)
      obtain ⟨rfl, c, e, hc, rfl⟩ := hp.timerMsg hmsg
      obtain ⟨_, rfl, rfl⟩ | ⟨hno, _⟩ := hnext
      · obtain ⟨rfl, rfl⟩ := returns_pure.mp hthen
        obtain ⟨rfl, rfl⟩ := returns_pure.mp hrest
        exact ⟨rfl, a', c, e, hup, hc, rfl⟩
      · cases hno

end

/-! ## Reports that tell of no timer -/

/-- A message of a channel in `N` that is not of a timer. -/
def NoTimer (N : ChannId → Prop) (n : ChannId) (msg : ChannMsg) (_ : Nat) : Prop := N n → msg.event ≠ some .timer

/-- No report that waits is of the timer of a channel in `N`. -/
def TimerFree (N : ChannId → Prop) (s : Sys ε) : Prop :=
  ∀ n, N n → Waiting s n → ∀ c, s.heap n = some c → c.msg.event ≠ some .timer

/-- No channel in `N` has its timer fired while a report of it is in the queue. -/
def Unqueued (N : ChannId → Prop) (s : Sys ε) : Call → Prop
  | .resultNext _ => ∀ l node, Due s l node → N node.tm.chann → ¬ Waiting s node.tm.chann
  | _ => True

/-- A timer message of `n` is given out. -/
def Rings (n : ChannId) (r : Ret) (t : Sys ε) : Prop :=
  r = .msg (some n) ∧ ∃ c, t.heap n = some c ∧ c.msg.event = some .timer

section

variable {N : ChannId → Prop} (hp : Polite x)
include hp

theorem Polite.says_noTimer {event : ChannEvent} (hev : event ≠ .timer) : Says x (NoTimer N) event :=
  fun _ => fun hs h d hd _ => hp.otherMsg hev hs h d hd

/-- A round without a timer that is due. -/
theorem evtPass_noTimer {fuel : Nat} {p : Pass} (hpos : Unsprung s) (hf : Filed (NoTimer N) s)
    (h : Returns (evtPass x fuel) s p t) : Filed (NoTimer N) t ∧
      ∀ n e, p = .ret (some n) → N n → t.heap n = some e → e.msg.event ≠ some .timer := by
  have hquiet : ∀ {q : Option ChannId} {a : Sys ε}, Returns (tmNext x fuel) s q a → q = none ∧ a = s := by
    intro q a htm
    cases fuel with
    | zero => exact absurd htm returns_fail
    | succ fuel => exact hpos.tmNext.mp htm
  have ht : Filed (NoTimer N) t := by
    refine evtPass_files hp (fun _ _ _ n _ => ⟨hp.says_noTimer (by simp) n, hp.says_noTimer (by simp) n⟩)
      (fun n a htm => ?_) hf h
    cases (hquiet htm).1
  refine ⟨ht, fun n e hgive hn he => ?_⟩
  obtain ⟨m, rfl, htm⟩ | ⟨m, a, rfl, htm, hpop⟩ | ⟨a, rfl, _⟩ | ⟨u, kev, hfetch, hdisp⟩ := evtPass_cases h
  · cases (hquiet htm).1
  · obtain ⟨_, rfl⟩ := hquiet htm
    obtain ⟨_, hgiven⟩ := hf.pop hpop
    cases hgive
    obtain ⟨c, hc, hno⟩ := hgiven n rfl
    obtain rfl := Option.some.inj (hc.symm.trans he)
    exact hno hn
  · cases hgive
  have hu := hf.fetched hp hfetch
  obtain ⟨rfl, _⟩ | ⟨m, c, v, event, q, err, _, _, hfaults, hemit, hev, _⟩ := hp.evtDispatch_emits hdisp
  · cases hgive
  obtain ⟨pass, b, hmsg, hret⟩ := returns_bind.mp hemit
  obtain ⟨hq, rfl⟩ := returns_pure.mp hret
  rw [hgive] at hq
  cases pass with
  | false => cases hq
  | true =>
    cases hq
    exact hp.otherMsg hev (hp.faults_fresh hfaults hu.fresh) hmsg e he

omit hp in
theorem stood_evtPass {fuel : Nat} {p : Pass} (hx : Modest x) (hpos : Unsprung s) (hs : Fresh s)
    (h : Returns (evtPass x fuel) s p t) : Stood s t := by
  have hA : Idle {e : Entry | e.idle ∨ e = .park ∨ ∃ n, e = .fire n} := fun _ => .inl
  exact (hx.posts_evtPass hA (fun n => .inr (.inr ⟨n, rfl⟩)) (.inr (.inl rfl)) _ _ h).stood
    (fun _ he => he) hs hpos

omit hp in
theorem Stood.trans {a : Sys ε} (h : Stood s a) (h' : Stood a t) : Stood s t :=
  ⟨h'.fresh, h'.timers.trans h.timers, h'.clock.trans h.clock, h'.unsprung⟩

/-- Without a timer that is due, the call gives out no timer message. -/
theorem evtLoop_noTimer {fuel rounds : Nat} {q : Option ChannId} (hx : Modest x) (hpos : Unsprung s)
    (hf : Filed (NoTimer N) s) (h : Returns (evtLoop x fuel rounds) s q t) : Stood s t ∧ Filed (NoTimer N) t ∧
      ∀ n, N n → ¬ Rings n (.msg q) t := by
  induction rounds generalizing s with
  | zero => exact absurd h returns_fail
  | succ rounds ih =>
    obtain ⟨p, a, hpass, h⟩ := returns_bind.mp h
    have ha := stood_evtPass hx hpos hf.fresh hpass
    obtain ⟨hfa, hgiven⟩ := evtPass_noTimer hp hpos hf hpass
    cases p with
    | ret q' =>
      obtain ⟨rfl, rfl⟩ := returns_pure.mp h
      refine ⟨ha, hfa, fun n hn ⟨hr, c, hc, hev⟩ => ?_⟩
      exact hgiven n c (by rw [Ret.msg.inj hr]) hn hc hev
    | next =>
      obtain ⟨hat, hft, hno⟩ := ih ha.unsprung hfa h
      exact ⟨ha.trans hat, hft, hno⟩

/-- A call of the loop fires the timer that is due, or gives out no timer message of a channel in
`N`. -/
theorem resultNext_cases {fuel : Nat} {r : Ret} (hx : Modest x) (hf : Filed (NoTimer N) s)
    (h : Step x s (.resultNext fuel, r) t) :
    (∃ l node a c e, Due s l node ∧ r = .msg (some node.tm.chann) ∧
      Returns (tmUpdate node.tm.chann node.tm.interval)
        { s with mnet := { s.mnet with tmPos := some (skiplistNext l node.id) } } () a ∧
      a.heap node.tm.chann = some c ∧
      t = { a.setChann node.tm.chann { c with msg := msgOf node.tm.chann c .timer none 0 } with ext := e }) ∨
    ((∀ l node, ¬ Due s l node) ∧ Stood s t ∧ Filed (NoTimer N) t ∧ ∀ n, N n → ¬ Rings n r t) := by
  obtain ⟨q, hq, hloop⟩ := returns_ret.mp h
  cases hq
  by_cases hdue : ∃ l node, Due s l node
  · obtain ⟨l, node, hdue⟩ := hdue
    obtain ⟨rfl, a, c, e, hup, hc, ht⟩ := hdue.evtLoop hp hloop
    exact .inl ⟨l, node, a, c, e, hdue, rfl, hup, hc, ht⟩
  · have hno : ∀ l node, ¬ Due s l node := fun l node hd => hdue ⟨l, node, hd⟩
    obtain ⟨a, hpos, hsame, hrest⟩ := evtLoop_unsprung hno hloop
    have ha : Filed (NoTimer N) a ∧ a.timers = s.timers ∧ a.mnet.tmClock = s.mnet.tmClock := by
      obtain rfl | rfl := hsame
      · exact ⟨hf, rfl, rfl⟩
      · exact ⟨hf.indexed rfl rfl rfl rfl, rfl, rfl⟩
    obtain ⟨hst, hft, hrings⟩ := evtLoop_noTimer hp hx hpos ha.1 hrest
    exact .inr ⟨hno, ⟨hst.fresh, hst.timers.trans ha.2.1, hst.clock.trans ha.2.2, hst.unsprung⟩, hft, hrings⟩

theorem Step.noTimer {i : Call × Ret} (hx : Obedient x) (hm : Modest x) (h : Step x s i t) (hu : Unqueued N s i.1)
    (ho : Ordered s) (hf : Filed (NoTimer N) s) : Filed (NoTimer N) t := by
  refine h.files hp hx (fun n _ => hp.says_noTimer (by simp) n) (fun fuel hcall => ?_) ?_ ho hf
  · obtain ⟨call, r⟩ := i
    subst hcall
    obtain ⟨l, node, a, c, e, hdue, _, hup, hc, rfl⟩ | ⟨_, _, hft, _⟩ := resultNext_cases hp hm hf h
    · have hmoved : Discreet False s { s with mnet := { s.mnet with tmPos := some (skiplistNext l node.id) } } :=
        .of_heap rfl rfl rfl (List.suffix_refl _)
      have ha : Discreet False s a := hmoved.trans (discreet_tmUpdate _ _ _ hup)
      refine (hf.discreet ha).write hc ?_ (fun hw hn => absurd ?_ (hu l node hdue hn)) rfl rfl rfl
      · rfl
      · exact ha.waiting (fun m hm => (hf.waiting m hm).1) hw
    · exact hft
  · obtain ⟨call, r⟩ := i
    cases call with
    | channSetOpaque n p =>
      cases n with
      | none => trivial
      | some n => exact fun hw c hc hn => (hf.waiting n hw).2 c hc hn
    | channClose n =>
      cases n with
      | none => trivial
      | some n => exact fun hw c hc _ hn => (hf.waiting n hw).2 c hc hn
    | _ => trivial

/-- What the timers of a run and its queue of reports are like. -/
theorem Run.ticking (hx : Obedient x) (hm : Modest x) {o : Oracle} {e : ε} {l : List (Call × Ret)}
    (hclock : Monotone o.clock) (h : Run x (Sys.start o e) l s) (hfree : TimerFree N s) :
    Ordered s ∧ Wound s ∧ Filed (NoTimer N) s ∧ s.kernel.oracle = o := by
  obtain ⟨ho, hw, hf, hsame⟩ : Ordered s ∧ Wound s ∧ Filed (fun _ _ _ => True) s ∧ s.kernel.oracle = o :=
    Path.keeps (I := fun a => Ordered a ∧ Wound a ∧ Filed (fun _ _ _ => True) a ∧ a.kernel.oracle = o) h
      (fun _ _ _ hi ⟨ho, hw, hf, hsame⟩ => ⟨hi.ordered hx ho, hi.wound hm hx ho hw, hi.queued hp hx ho hf,
        (hi.onward hm).oracle.trans hsame⟩)
      ⟨ordered_start o e, wound_start hclock e, filed_start o e, rfl⟩
  exact ⟨ho, hw, hf.of fun n hn c hc hN => hfree n hN hn c hc, hsame⟩

end

end MNet
