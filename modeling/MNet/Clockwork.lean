import Mathlib.Data.Int.ConditionallyCompleteOrder
import Mathlib.Data.List.Sort
import Mathlib.Order.ConditionallyCompleteLattice.Basic
import MNet.Ledger

/-! # The clockwork

The timer list is sorted by deadline, its nodes and the channels they belong to point at each
other, and the time a poll took for the current one lies in the past. Every call keeps this. -/

namespace MNet
open MNet.Lib MNet.Lib.Exec

variable {ε : Type} {x : ExtTable ε} {s t : Sys ε} {n m : ChannId} {c d : Chann} {u : Unit}
  {l : List TmNode} {node : TmNode} {tm : ChannTm} {v : Int}

/-! ## The list -/

/-- The order of the timer list. -/
def TmNode.Sooner (a b : TmNode) : Prop := a.key ≤ b.key

instance : DecidableRel TmNode.Sooner := fun a b => inferInstanceAs (Decidable (a.key ≤ b.key))

instance : Std.Total TmNode.Sooner := ⟨fun a b => Int.le_total a.key b.key⟩

instance : IsTrans TmNode TmNode.Sooner := ⟨fun _ _ _ => Int.le_trans⟩

theorem skiplistInsert_eq (l : List TmNode) (node : TmNode) :
    skiplistInsert l node = l.orderedInsert TmNode.Sooner node := by
  simp only [List.orderedInsert_eq_take_drop, skiplistInsert, TmNode.Sooner, Int.not_le]

theorem skiplistInsert_sorted (h : l.Pairwise TmNode.Sooner) (node : TmNode) :
    (skiplistInsert l node).Pairwise TmNode.Sooner := by
  rw [skiplistInsert_eq]
  exact h.orderedInsert node l

theorem skiplistRemove_sorted (h : l.Pairwise TmNode.Sooner) (id : NodeId) :
    (skiplistRemove l id).Pairwise TmNode.Sooner := h.sublist List.filter_sublist

/-- The node behind the first one. -/
theorem skiplistNext_head : skiplistNext (node :: l) node.id = (l.head?.map fun m => .node m.id).getD .head := by
  unfold skiplistNext
  rw [List.dropWhile_cons_of_neg (by simp), List.tail_cons]
  cases l <;> rfl

/-! ## What the timer operations do -/

/-- The timer node of each channel. -/
def Sys.timers (s : Sys ε) (n : ChannId) : Option NodeId := (s.heap n).bind Chann.timerNode

theorem timers_of (hc : s.heap n = some c) : s.timers n = c.timerNode := by
  rw [Sys.timers, hc]
  rfl

/-- What the clock says when it is read next. -/
def Sys.now (s : Sys ε) : Int := s.kernel.oracle.clock s.kernel.tick

/-- A new node with the timer `tm` for `n`, in the list `l`. The clock was read. -/
def Sys.wind (s : Sys ε) (n : ChannId) (c : Chann) (l : List TmNode) (tm : ChannTm) : Sys ε :=
  { s with
    heap := Function.update s.heap n (some { c with timerNode := some s.nextNode })
    nextNode := s.nextNode + 1
    mnet := { s.mnet with tmClock := some (skiplistInsert l { id := s.nextNode, key := tm.time, tm := tm }) }
    kernel := { s.kernel with tick := s.kernel.tick + 1 } }

/-- The node of `n` taken out of the list `l`. -/
def Sys.unwind (s : Sys ε) (n : ChannId) (c : Chann) (l : List TmNode) (id : NodeId) : Sys ε :=
  { s with
    heap := Function.update s.heap n (some { c with timerNode := none })
    mnet := { s.mnet with tmClock := some (skiplistRemove l id) } }

theorem sysClock_eq {now : Int} (h : Returns sysClock s now t) :
    now = s.now ∧ t = { s with kernel := { s.kernel with tick := s.kernel.tick + 1 } } := by
  simp only [sysClock, returns_bind, returns_read, returns_pure] at h
  obtain ⟨_, _, ⟨rfl, rfl⟩, i, a, hi, rfl, rfl⟩ := h
  obtain ⟨rfl, rfl⟩ := core_nextTick hi
  exact ⟨rfl, rfl⟩

theorem derefNode_eq {id : NodeId} (h : Returns (derefNode id) s node t) :
    t = s ∧ ∃ l, s.mnet.tmClock = some l ∧ skiplistFind l id = some node := derefNode_spec h

theorem newNode_eq {id : NodeId} (h : Returns (newNode tm) s id t) :
    ∃ l, s.mnet.tmClock = some l ∧ id = s.nextNode ∧
      t = { s with
        nextNode := s.nextNode + 1
        mnet := { s.mnet with tmClock := some (skiplistInsert l { id := s.nextNode, key := tm.time, tm := tm }) } } := by
  simp only [newNode, setClock, returns_bind, returns_read, returns_modify, returns_modifyMnet, returns_pure,
    and_assoc, exists_and_left, exists_eq_left] at h
  obtain ⟨l, a, hclock, rfl, _, _, rfl⟩ := h
  obtain ⟨hl, rfl⟩ := derefClock_spec hclock
  exact ⟨l, hl, rfl, rfl⟩

theorem removeNode_eq {id : NodeId} (h : Returns (removeNode id) s u t) :
    ∃ l, s.mnet.tmClock = some l ∧ t = { s with mnet := { s.mnet with tmClock := some (skiplistRemove l id) } } := by
  simp only [removeNode, setClock, returns_bind, returns_modifyMnet] at h
  obtain ⟨l, a, hclock, rfl⟩ := h
  obtain ⟨hl, rfl⟩ := derefClock_spec hclock
  exact ⟨l, hl, rfl⟩

theorem tmActive_eq (h : Returns (tmActive n v) s u t) : ∃ c l, s.heap n = some c ∧ s.mnet.tmClock = some l ∧
    t = s.wind n c l { interval := wrap32 v, time := wrap64 (s.now + v), chann := n } := by
  simp only [tmActive, returns_bind] at h
  obtain ⟨now, a, hnow, id, b, hnew, hset⟩ := h
  obtain ⟨rfl, rfl⟩ := sysClock_eq hnow
  obtain ⟨l, hl, rfl, rfl⟩ := newNode_eq hnew
  obtain ⟨c, hc, rfl⟩ := returns_modifyChann.mp hset
  exact ⟨c, l, hc, hl, rfl⟩

theorem tmUpdate_eq (h : Returns (tmUpdate n v) s u t) :
    ∃ c l node, s.heap n = some c ∧ s.mnet.tmClock = some l ∧ c.timerNode = some node.id ∧
      skiplistFind l node.id = some node ∧
      t = s.wind n c (skiplistRemove l node.id)
        { node.tm with interval := wrap32 v, time := wrap64 (s.now + wrap32 v) } := by
  simp only [tmUpdate, returns_bind, returns_deref, returns_require, and_assoc, exists_and_left, exists_eq_left] at h
  obtain ⟨c, hc, id, hid, node, a, hnode, now, b, hnow, _, d, hrem, id', e, hnew, hset⟩ := h
  obtain ⟨rfl, l, hl, hfind⟩ := derefNode_eq hnode
  obtain ⟨rfl, rfl⟩ := sysClock_eq hnow
  obtain ⟨l', hl', rfl⟩ := removeNode_eq hrem
  obtain rfl : l = l' := Option.some.inj (hl.symm.trans hl')
  obtain ⟨l', hl', rfl, rfl⟩ := newNode_eq hnew
  obtain rfl := Option.some.inj hl'
  obtain ⟨c', hc', rfl⟩ := returns_modifyChann.mp hset
  obtain rfl : c = c' := Option.some.inj (hc.symm.trans hc')
  obtain rfl : node.id = id := (skiplistFind_some hfind).2
  exact ⟨c, l, node, hc, hl, hid, hfind, rfl⟩

theorem tmKill_eq (h : Returns (tmKill n) s u t) : ∃ c, s.heap n = some c ∧ ((c.timerNode = none ∧ t = s) ∨
    ∃ l id, s.mnet.tmClock = some l ∧ c.timerNode = some id ∧ t = s.unwind n c l id) := by
  simp only [tmKill, returns_bind, returns_deref, and_assoc, exists_and_left, exists_eq_left] at h
  obtain ⟨c, hc, h⟩ := h
  refine ⟨c, hc, ?_⟩
  cases hid : c.timerNode with
  | none =>
    rw [hid] at h
    exact .inl ⟨rfl, (returns_pure.mp h).2⟩
  | some id =>
    rw [hid] at h
    simp only [returns_bind] at h
    obtain ⟨node, a, hnode, _, b, hrem, hset⟩ := h
    obtain ⟨rfl, _⟩ := derefNode_eq hnode
    obtain ⟨l, hl, rfl⟩ := removeNode_eq hrem
    obtain ⟨d, hd, rfl⟩ := returns_modifyChann.mp hset
    obtain rfl : c = d := Option.some.inj (hc.symm.trans hd)
    exact .inr ⟨l, id, hl, rfl, rfl⟩

theorem tmKill_timers (h : Returns (tmKill n) s u t) : t.timers n = none := by
  obtain ⟨c, hc, ⟨hno, rfl⟩ | ⟨l, id, _, _, rfl⟩⟩ := tmKill_eq h
  · exact (timers_of hc).trans hno
  · have hself := Function.update_self n (some { c with timerNode := none }) s.heap
    exact timers_of (c := { c with timerNode := none }) hself

/-- A change of the timer by the user: a new one, another deadline, none, or nothing to cancel. -/
theorem activeTimer_cases (h : Returns (activeTimer n v) s u t) : ∃ c, s.heap n = some c ∧
    ((0 < v ∧ c.timerNode.isSome = true ∧ Returns (tmUpdate n (wrap64 (v * 1000))) s () t) ∨
      (0 < v ∧ c.timerNode = none ∧ Returns (tmActive n (wrap64 (v * 1000))) s () t) ∨
      (v ≤ 0 ∧ Returns (tmKill n) s () t) ∨ t = s) := by
  simp only [activeTimer, returns_bind, returns_deref, and_assoc, exists_and_left, exists_eq_left] at h
  obtain ⟨c, hc, h⟩ := h
  refine ⟨c, hc, ?_⟩
  rcases returns_ite.mp h with ⟨hv, h⟩ | ⟨hv, h⟩
  · rcases returns_ite.mp h with ⟨hnode, h⟩ | ⟨hnode, h⟩
    · exact .inl ⟨hv, hnode, h⟩
    · exact .inr (.inl ⟨hv, by simpa using hnode, h⟩)
  · rcases returns_ite.mp h with ⟨_, h⟩ | ⟨_, h⟩
    · exact .inr (.inr (.inl ⟨Int.not_lt.mp hv, h⟩))
    · exact .inr (.inr (.inr (returns_pure.mp h).2))

/-- The cursor is put on the first timer if that one is due. -/
theorem tmSchedule_eq (h : Returns tmSchedule s u t) : ∃ l, s.mnet.tmClock = some l ∧
    ((l = [] ∧ t = { s with mnet := { s.mnet with tmPos := none } }) ∨
      ∃ node rest, l = node :: rest ∧
        ((s.now < node.tm.time ∧ t = { s with
            kernel := { s.kernel with tick := s.kernel.tick + 1 }, mnet := { s.mnet with tmPos := none } }) ∨
          (node.tm.time ≤ s.now ∧ t = { s with
            kernel := { s.kernel with tick := s.kernel.tick + 1 }
            mnet := { s.mnet with tmCurrent := s.now, tmPos := some (.node node.id) } }))) := by
  simp only [tmSchedule, setTmPos, returns_bind] at h
  obtain ⟨l, a, hclock, h⟩ := h
  obtain ⟨hl, rfl⟩ := derefClock_spec hclock
  refine ⟨l, hl, ?_⟩
  cases l with
  | nil => exact .inl ⟨rfl, returns_modifyMnet.mp h⟩
  | cons node rest =>
    simp only [returns_bind] at h
    obtain ⟨current, b, hnow, h⟩ := h
    obtain ⟨rfl, rfl⟩ := sysClock_eq hnow
    refine .inr ⟨node, rest, rfl, ?_⟩
    rcases returns_ite.mp h with ⟨hlate, h⟩ | ⟨hdue, h⟩
    · exact .inl ⟨hlate, returns_modifyMnet.mp h⟩
    · exact .inr ⟨Int.not_lt.mp hdue, returns_modifyMnet.mp h⟩

/-! ## What has nothing to do with timers -/

/-- The timers are left alone, and time goes on. -/
structure Apart (s t : Sys ε) : Prop where
  fresh : Fresh t
  timers : t.timers = s.timers
  clockwork : t.mnet.clockwork t.nextNode = s.mnet.clockwork s.nextNode
  oracle : t.kernel.oracle = s.kernel.oracle
  tick : s.kernel.tick ≤ t.kernel.tick

namespace Apart

theorem trans {a : Sys ε} (h : Apart s a) (h' : Apart a t) : Apart s t where
  fresh := h'.fresh
  timers := h'.timers.trans h.timers
  clockwork := h'.clockwork.trans h.clockwork
  oracle := h'.oracle.trans h.oracle
  tick := Nat.le_trans h.tick h'.tick

theorem tmClock (h : Apart s t) : t.mnet.tmClock = s.mnet.tmClock := congrArg (·.2.1) h.clockwork

theorem tmPos (h : Apart s t) : t.mnet.tmPos = s.mnet.tmPos := congrArg (·.2.2.1) h.clockwork

theorem tmCurrent (h : Apart s t) : t.mnet.tmCurrent = s.mnet.tmCurrent := congrArg (·.2.2.2.1) h.clockwork

theorem nextNode (h : Apart s t) : t.nextNode = s.nextNode := congrArg (·.2.2.2.2) h.clockwork

theorem isInit (h : Apart s t) : t.mnet.isInit = s.mnet.isInit := congrArg (·.1) h.clockwork

theorem recorded (hs : Fresh s) (e : SysEvent) : Apart s (s.recorded e) := ⟨hs, rfl, rfl, rfl, Nat.le_refl _⟩

theorem set (hs : Fresh s) (hc : s.heap n = some c) (hd : d.timerNode = c.timerNode) : Apart s (s.setChann n d) where
  fresh := hs.set hc d
  timers := by
    funext m
    by_cases hm : m = n
    · rw [hm, timers_of hc, timers_of (Function.update_self ..), hd]
    · exact congrArg (Option.bind · Chann.timerNode) (Function.update_of_ne hm _ s.heap)
  clockwork := rfl
  oracle := rfl
  tick := Nat.le_refl _

theorem alter (hs : Fresh s) {f : Chann → Chann} (hf : ∀ c, (f c).timerNode = c.timerNode) : Apart s (s.alter n f) := by
  cases hc : s.heap n with
  | none =>
    have hsame : s.alter n f = s := by
      rw [Sys.alter, hc, Option.map_none, ← hc, Function.update_eq_self]
    rw [hsame]
    exact ⟨hs, rfl, rfl, rfl, Nat.le_refl _⟩
  | some c =>
    rw [alter_of s hc]
    exact set hs hc (hf c)

/-- A channel without a timer is freed. -/
theorem free (hs : Fresh s) (hno : s.timers n = none) : Apart s { s with heap := Function.update s.heap n none } where
  fresh m hm := by
    by_cases hmn : m = n
    · rw [hmn]
      exact Function.update_self ..
    · exact (Function.update_of_ne hmn ..).trans (hs m hm)
  timers := by
    funext m
    by_cases hm : m = n
    · rw [hm, hno]
      exact congrArg (Option.bind · Chann.timerNode) (Function.update_self n none s.heap)
    · exact congrArg (Option.bind · Chann.timerNode) (Function.update_of_ne hm _ s.heap)
  clockwork := rfl
  oracle := rfl
  tick := Nat.le_refl _

end Apart

theorem Leaves.apart (h : Resting s t) (hs : Fresh s) : Apart s t where
  fresh := h.fresh hs
  timers := by
    funext n
    by_cases hn : n < s.nextChann
    · have hstock : ∀ a : Sys ε, a.timers n = ((a.heap n).map Chann.stock).bind (·.2.2.2) := fun a => by
        rw [Option.bind_map]
        rfl
      rw [hstock, hstock, h.chann n hn]
    · have hn := Nat.le_of_not_lt hn
      cases hd : t.heap n with
      | none => rw [Sys.timers, Sys.timers, hs n hn, hd]
      | some d =>
        rw [timers_of hd, Sys.timers, hs n hn]
        exact congrArg (·.2.2.2) ((h.blank hs).2 n d hn hd)
  clockwork := h.lib
  oracle := h.kernel.oracle
  tick := h.kernel.tick

theorem HungUp.apart (h : HungUp n s t) (hs : Fresh s) : Apart s t := by
  obtain ⟨a, c, ha, hc, ht⟩ := h
  have ha := (Apart.recorded hs (.extOp .disconnectCb n)).trans (ha.apart hs)
  have hset : Apart a (a.setChann n { c with rwbSend := [] }) := .set ha.fresh hc (Eq.refl c.timerNode)
  exact ha.trans (hset.trans (ht.apart hset.fresh))

theorem settling_apart (h : Settling s t) (hs : Fresh s) : Apart s t := by
  induction h with
  | refl => exact ⟨hs, rfl, rfl, rfl, Nat.le_refl _⟩
  | tail _ hstep ih =>
    obtain hr | ⟨n, hup⟩ := hstep
    · exact ih.trans (hr.apart ih.fresh)
    · exact ih.trans (hup.apart ih.fresh)

/-- The entries that have nothing to do with timers. -/
theorem Booked.apart {e : Entry} (h : Booked s e t) (he : e.idle) (hs : Fresh s) : Apart s t := by
  cases h with
  | rest hr => exact hr.apart hs
  | hangUp hup => exact hup.apart hs
  | direct _ _ _ ha | flush _ _ ha =>
    have ha := ha.apart hs
    exact ha.trans ((Apart.recorded ha.fresh _).trans (.alter (Apart.recorded ha.fresh _).fresh fun _ => rfl))
  | @behind n c data hc =>
    have hset : Apart s (s.setChann n { c with rwbSend := rwbCache c.rwbSend data }) :=
      .set hs hc (Eq.refl c.timerNode)
    exact hset
  | recv _ ha hb =>
    have ha := ha.apart hs
    have hb := settling_apart hb (Apart.recorded ha.fresh _).fresh
    exact ha.trans ((Apart.recorded ha.fresh _).trans (hb.trans (.alter hb.fresh fun _ => rfl)))
  | _ => exact he.elim

/-! ## Time -/

/-- Time goes on. -/
structure Onward (s t : Sys ε) : Prop where
  oracle : t.kernel.oracle = s.kernel.oracle
  tick : s.kernel.tick ≤ t.kernel.tick

theorem Onward.refl (s : Sys ε) : Onward s s := ⟨rfl, Nat.le_refl _⟩

theorem Onward.trans {a : Sys ε} (h : Onward s a) (h' : Onward a t) : Onward s t :=
  ⟨h'.oracle.trans h.oracle, Nat.le_trans h.tick h'.tick⟩

theorem Onward.now (h : Onward s t) (hclock : Monotone s.kernel.oracle.clock) : s.now ≤ t.now := by
  rw [Sys.now, Sys.now, h.oracle]
  exact hclock h.tick

theorem Leaves.onward {α β : Type} {f : Chann → α} {g : Mnet → NodeId → β} (h : Leaves f g s t) : Onward s t :=
  ⟨h.kernel.oracle, h.kernel.tick⟩

theorem Onward.recorded (s : Sys ε) (e : SysEvent) : Onward s (s.recorded e) := ⟨rfl, Nat.le_refl _⟩

theorem HungUp.onward (h : HungUp n s t) : Onward s t := by
  obtain ⟨a, c, ha, _, ht⟩ := h
  exact ((Onward.recorded s _).trans ha.onward).trans ⟨ht.onward.oracle, ht.onward.tick⟩

theorem settling_onward (h : Settling s t) : Onward s t := by
  induction h with
  | refl => exact .refl _
  | tail _ hstep ih =>
    obtain hr | ⟨n, hup⟩ := hstep
    · exact ih.trans hr.onward
    · exact ih.trans hup.onward

theorem Booked.onward {e : Entry} (h : Booked s e t) : Onward s t := by
  by_cases he : e.timed
  · exact (h.dry he).onward
  cases h with
  | rest hr => exact hr.onward
  | hangUp hup => exact hup.onward
  | direct _ _ _ ha | flush _ _ ha => exact ⟨ha.onward.oracle, ha.onward.tick⟩
  | behind => exact ⟨rfl, Nat.le_refl _⟩
  | @recv a b n c r _ ha hb =>
    have hb := (ha.onward.trans (.recorded a (.recvFn n r))).trans (settling_onward hb)
    exact ⟨hb.oracle, hb.tick⟩
  | @free a b d n c w _ ha _ hkill hd =>
    have hset : Onward a (a.setChann n { c with rwbSend := w }) := ⟨rfl, Nat.le_refl _⟩
    have hd := ((ha.onward.trans hset).trans (untimed_data.tmKill _ _ hkill).onward).trans hd.onward
    exact ⟨hd.oracle, hd.tick⟩
  | _ => exact absurd trivial he

theorem Posts.onward {A : Set Entry} (h : Posts A s t) : Onward s t := by
  induction h with
  | refl => exact .refl _
  | tail _ hb ih =>
    obtain ⟨e, _, hb⟩ := hb
    exact ih.trans hb.onward

theorem Step.onward {i : Call × Ret} (hx : Modest x) (h : Step x s i t) : Onward s t :=
  Posts.onward (hx.posts_apiCall _ _ _ h)

/-! ## The invariant -/

/-- The timer of `n` is changed by the user, or fires. -/
def Entry.touches (n : ChannId) : Entry → Prop
  | .timer m | .fire m => m = n
  | _ => False

structure Geared (s : Sys ε) : Prop where
  fresh : Fresh s
  timed : Timed s.core.heap s.mnet.tmClock s.nextNode s.mnet.isInit
  sorted : (s.mnet.tmClock.getD []).Pairwise TmNode.Sooner
  keyed : ∀ m ∈ s.mnet.tmClock.getD [], m.key = m.tm.time
  past : Monotone s.kernel.oracle.clock → s.mnet.tmPos ≠ none → s.mnet.tmCurrent ≤ s.now

/-- With a clock that does not go back. -/
structure Wound (s : Sys ε) : Prop extends Geared s where
  clock : Monotone s.kernel.oracle.clock

theorem Sys.now_le (hclock : Monotone s.kernel.oracle.clock) (horacle : t.kernel.oracle = s.kernel.oracle)
    (htick : s.kernel.tick ≤ t.kernel.tick) : s.now ≤ t.now := by
  rw [Sys.now, Sys.now, horacle]
  exact hclock htick

namespace Geared

/-- A node belongs to the channel that points at it. -/
theorem owner (h : Geared s) (hl : s.mnet.tmClock = some l) (hm : node ∈ l) : s.timers node.tm.chann = some node.id := by
  obtain ⟨c, hc, hid⟩ := h.timed.chann node (by rw [hl]; exact hm)
  obtain ⟨d, hd, rfl⟩ := Option.map_eq_some_iff.mp hc
  exact (timers_of hd).trans hid

theorem same (h : Geared s) (hl : s.mnet.tmClock = some l) {a b : TmNode} (ha : a ∈ l) (hb : b ∈ l)
    (he : a.id = b.id) : a = b := by
  refine h.timed.id_inj ?_ ?_ he
  · rw [hl]
    exact ha
  · rw [hl]
    exact hb

theorem find (h : Geared s) (hl : s.mnet.tmClock = some l) (hm : node ∈ l) : skiplistFind l node.id = some node := by
  obtain ⟨m, hm'⟩ := Option.isSome_iff_exists.mp (skiplistFind_isSome.mpr ⟨node, hm, rfl⟩)
  obtain ⟨hml, hmi⟩ := skiplistFind_some hm'
  rw [hm', h.same hl hml hm hmi]

/-- The node a channel points at is the only one that belongs to it. -/
theorem mine {id : NodeId} (h : Geared s) (hl : s.mnet.tmClock = some l) (hid : s.timers n = some id) (hm : node ∈ l) :
    node.id = id ↔ node.tm.chann = n := by
  constructor
  · intro he
    obtain ⟨c, hc, hcid⟩ := Option.bind_eq_some_iff.mp hid
    obtain ⟨m, hml, hmi, hmc⟩ := h.timed.node n c.core id (core_heap_some hc) hcid
    rw [hl] at hml
    rw [h.same hl hm hml (he.trans hmi.symm)]
    exact hmc
  · intro he
    have hown := h.owner hl hm
    rw [he, hid] at hown
    exact (Option.some.inj hown).symm

theorem owned (h : Geared s) (hl : s.mnet.tmClock = some l) (hc : s.heap n = some c) (hid : c.timerNode = some node.id)
    (hfind : skiplistFind l node.id = some node) : node.tm.chann = n :=
  (h.mine hl ((timers_of hc).trans hid) (skiplistFind_some hfind).1).mp rfl

theorem apart (h : Geared s) (ha : Apart s t) : Geared t where
  fresh := ha.fresh
  timed := by
    rw [ha.tmClock, ha.nextNode, ha.isInit]
    refine h.timed.congr fun n => ?_
    have hcore : ∀ a : Sys ε, (a.core.heap n).bind CChann.timerNode = a.timers n := fun a =>
      congrFun (bind_core a fun _ => rfl) n
    rw [hcore, hcore, ha.timers]
  sorted := by
    rw [ha.tmClock]
    exact h.sorted
  keyed := by
    rw [ha.tmClock]
    exact h.keyed
  past hclock hpos := by
    rw [ha.tmPos] at hpos
    rw [ha.oracle] at hclock
    rw [ha.tmCurrent]
    exact Int.le_trans (h.past hclock hpos) (Sys.now_le hclock ha.oracle ha.tick)

/-- A new node in the list. -/
theorem wind (h : Geared s) (hc : s.heap n = some c) (hsorted : l.Pairwise TmNode.Sooner)
    (hkeyed : ∀ m ∈ l, m.key = m.tm.time)
    (htimed : Timed (Function.update s.core.heap n (some { c.core with timerNode := some s.nextNode }))
      (some (skiplistInsert l { id := s.nextNode, key := tm.time, tm := tm })) (s.nextNode + 1) s.mnet.isInit) :
    Geared (s.wind n c l tm) where
  fresh := h.fresh.update hc rfl rfl
  timed := by
    have hheap : (s.wind n c l tm).core.heap =
        Function.update s.core.heap n (some { c.core with timerNode := some s.nextNode }) :=
      congrArg Core.heap (core_setChann s n { c with timerNode := some s.nextNode })
    rw [hheap]
    exact htimed
  sorted := skiplistInsert_sorted hsorted _
  keyed m hm := by
    rcases mem_skiplistInsert.mp hm with rfl | hm
    · rfl
    · exact hkeyed m hm
  past hclock hpos := Int.le_trans (h.past hclock hpos) (hclock (Nat.le_succ _))

theorem arm (h : Geared s) (hc : s.heap n = some c) (hl : s.mnet.tmClock = some l) (hno : c.timerNode = none)
    (htm : tm.chann = n) : Geared (s.wind n c l tm) := by
  have htimed := h.timed
  have hsorted := h.sorted
  have hkeyed := h.keyed
  rw [hl] at htimed hsorted hkeyed
  exact h.wind hc hsorted hkeyed (htimed.arm (core_heap_some hc) hno htm)

theorem rearm (h : Geared s) (hc : s.heap n = some c) (hl : s.mnet.tmClock = some l) (hid : c.timerNode = some node.id)
    (hfind : skiplistFind l node.id = some node) (htm : tm.chann = node.tm.chann) :
    Geared (s.wind n c (skiplistRemove l node.id) tm) := by
  have htimed := h.timed
  have hsorted := h.sorted
  have hkeyed := h.keyed
  rw [hl] at htimed hsorted hkeyed
  exact h.wind hc (skiplistRemove_sorted hsorted _) (fun m hm => hkeyed m (mem_skiplistRemove.mp hm).1)
    (htimed.rearm (core_heap_some hc) hid hfind htm)

theorem unwind {id : NodeId} (h : Geared s) (hc : s.heap n = some c) (hl : s.mnet.tmClock = some l)
    (hid : c.timerNode = some id) : Geared (s.unwind n c l id) := by
  have htimed := h.timed
  have hsorted := h.sorted
  have hkeyed := h.keyed
  rw [hl] at htimed hsorted hkeyed
  refine ⟨h.fresh.update hc rfl rfl, ?_, skiplistRemove_sorted hsorted _,
    fun m hm => hkeyed m (mem_skiplistRemove.mp hm).1, h.past⟩
  have hheap : (s.unwind n c l id).core.heap = Function.update s.core.heap n (some { c.core with timerNode := none }) :=
    congrArg Core.heap (core_setChann s n { c with timerNode := none })
  rw [hheap]
  exact htimed.disarm (core_heap_some hc) hid

theorem tmActive (h : Geared s) (hno : s.timers n = none) (hret : Returns (tmActive n v) s u t) : Geared t := by
  obtain ⟨c, l, hc, hl, rfl⟩ := tmActive_eq hret
  exact h.arm hc hl ((timers_of hc).symm.trans hno) rfl

theorem tmUpdate (h : Geared s) (hret : Returns (tmUpdate n v) s u t) : Geared t := by
  obtain ⟨c, l, node, hc, hl, hid, hfind, rfl⟩ := tmUpdate_eq hret
  exact h.rearm hc hl hid hfind rfl

theorem tmKill (h : Geared s) (hret : Returns (tmKill n) s u t) : Geared t := by
  obtain ⟨c, hc, ⟨_, rfl⟩ | ⟨l, id, hl, hid, rfl⟩⟩ := tmKill_eq hret
  · exact h
  · exact h.unwind hc hl hid

theorem activeTimer (h : Geared s) (hret : Returns (activeTimer n v) s u t) : Geared t := by
  obtain ⟨c, hc, ⟨_, _, hup⟩ | ⟨_, hno, hact⟩ | ⟨_, hkill⟩ | rfl⟩ := activeTimer_cases hret
  · exact h.tmUpdate hup
  · exact h.tmActive ((timers_of hc).trans hno) hact
  · exact h.tmKill hkill
  · exact h

/-- The cursor is moved, the list stays. -/
theorem moved (h : Geared s) (hheap : t.heap = s.heap) (hnext : t.nextChann = s.nextChann) (hnode : t.nextNode = s.nextNode)
    (hinit : t.mnet.isInit = s.mnet.isInit) (hclock : t.mnet.tmClock = s.mnet.tmClock)
    (hpos : Monotone t.kernel.oracle.clock → t.mnet.tmPos ≠ none → t.mnet.tmCurrent ≤ t.now) : Geared t where
  fresh n hn := by
    rw [hheap]
    exact h.fresh n (hnext ▸ hn)
  timed := by
    have hcore : t.core.heap = s.core.heap := funext fun n => by rw [core_heap, core_heap, hheap]
    rw [hcore, hclock, hnode, hinit]
    exact h.timed
  sorted := by
    rw [hclock]
    exact h.sorted
  keyed := by
    rw [hclock]
    exact h.keyed
  past := hpos

/-- Every entry but a wipe keeps the clockwork going. -/
theorem booked {e : Entry} (h : Geared s) (hb : Booked s e t) (he : e ≠ .wipe) : Geared t := by
  by_cases hidle : e.idle
  · exact h.apart (hb.apart hidle h.fresh)
  cases hb with
  | timer _ _ hret => exact h.activeTimer hret
  | @fire _ l node _ hl hfind hpos _ hret =>
    have hmoved : Geared { s with mnet := { s.mnet with tmPos := some (skiplistNext l node.id) } } := by
      refine h.moved rfl rfl rfl rfl rfl fun hclock _ => h.past hclock ?_
      rw [hpos]
      exact Option.some_ne_none _
    exact hmoved.tmUpdate hret
  | park => exact h.moved rfl rfl rfl rfl rfl fun _ hno => absurd rfl hno
  | schedule hret =>
    obtain ⟨l, _, ⟨_, rfl⟩ | ⟨node, rest, _, ⟨_, rfl⟩ | ⟨_, rfl⟩⟩⟩ := tmSchedule_eq hret
    · exact h.moved rfl rfl rfl rfl rfl fun _ hno => absurd rfl hno
    · exact h.moved rfl rfl rfl rfl rfl fun _ hno => absurd rfl hno
    · exact h.moved rfl rfl rfl rfl rfl fun hclock _ => hclock (Nat.le_succ _)
  | @boot ss hoff hon hnil hpos hcur =>
    -- there were no timers
    have htimed := h.timed
    rw [h.timed.booted hoff] at htimed
    refine ⟨h.fresh, ?_, ?_, fun m hm => ?_, fun hclock hno => ?_⟩
    · refine ⟨?_, fun m hm => ?_, fun m hm => ?_, fun n c id hc hid => ?_, fun hi => ?_⟩
      · rw [hnil]
        exact List.nodup_nil
      · rw [hnil] at hm
        cases hm
      · rw [hnil] at hm
        cases hm
      · obtain ⟨m, hm, _⟩ := htimed.node n c id hc hid
        cases hm
      · rw [hon] at hi
        cases hi
    · rw [hnil]
      exact .nil
    · rw [hnil] at hm
      cases hm
    · rw [hpos] at hno
      rw [hcur]
      exact h.past hclock hno
  | @free a b d n c w _ ha hc hkill hd =>
    have ha := ha.apart h.fresh
    have hset : Apart a (a.setChann n { c with rwbSend := w }) := .set ha.fresh hc (Eq.refl c.timerNode)
    have hb : Geared b := (h.apart (ha.trans hset)).tmKill hkill
    have hd := hd.apart hb.fresh
    have hnone : d.timers n = none := by
      rw [hd.timers]
      exact tmKill_timers hkill
    exact (hb.apart hd).apart (.free hd.fresh hnone)
  | wipe => exact absurd rfl he
  | _ => exact absurd trivial hidle

theorem posts {A : Set Entry} (h : Geared s) (hp : Posts A s t) (hA : .wipe ∉ A) : Geared t :=
  hp.keeps (fun _ _ _ he hb hw => hw.booked hb fun hwipe => hA (hwipe ▸ he)) h

section Nodes

variable {k : TmNode}

/-- The nodes of other channels are the same. -/
theorem mem_tmUpdate (h : Geared s) (hret : Returns (MNet.tmUpdate n v) s u t) (hne : k.tm.chann ≠ n) :
    k ∈ t.mnet.tmClock.getD [] ↔ k ∈ s.mnet.tmClock.getD [] := by
  obtain ⟨c, l, node, hc, hl, hid, hfind, rfl⟩ := tmUpdate_eq hret
  rw [hl]
  show k ∈ skiplistInsert _ _ ↔ k ∈ l
  rw [mem_skiplistInsert, mem_skiplistRemove]
  constructor
  · rintro (rfl | ⟨hk, _⟩)
    · exact absurd (h.owned hl hc hid hfind) hne
    · exact hk
  · exact fun hk => .inr ⟨hk, fun he => hne ((h.mine hl ((timers_of hc).trans hid) hk).mp he)⟩

theorem mem_tmActive (hret : Returns (MNet.tmActive n v) s u t) (hne : k.tm.chann ≠ n) :
    k ∈ t.mnet.tmClock.getD [] ↔ k ∈ s.mnet.tmClock.getD [] := by
  obtain ⟨c, l, hc, hl, rfl⟩ := tmActive_eq hret
  rw [hl]
  show k ∈ skiplistInsert _ _ ↔ k ∈ l
  rw [mem_skiplistInsert]
  constructor
  · rintro (rfl | hk)
    · exact absurd rfl hne
    · exact hk
  · exact .inr

theorem mem_tmKill (h : Geared s) (hret : Returns (MNet.tmKill n) s u t) (hne : k.tm.chann ≠ n) :
    k ∈ t.mnet.tmClock.getD [] ↔ k ∈ s.mnet.tmClock.getD [] := by
  obtain ⟨c, hc, ⟨_, rfl⟩ | ⟨l, id, hl, hid, rfl⟩⟩ := tmKill_eq hret
  · exact .rfl
  rw [hl]
  show k ∈ skiplistRemove _ _ ↔ k ∈ l
  rw [mem_skiplistRemove]
  exact ⟨And.left, fun hk => ⟨hk, fun he => hne ((h.mine hl ((timers_of hc).trans hid) hk).mp he)⟩⟩

theorem mem_activeTimer (h : Geared s) (hret : Returns (MNet.activeTimer n v) s u t) (hne : k.tm.chann ≠ n) :
    k ∈ t.mnet.tmClock.getD [] ↔ k ∈ s.mnet.tmClock.getD [] := by
  obtain ⟨c, hc, ⟨_, _, hup⟩ | ⟨_, _, hact⟩ | ⟨_, hkill⟩ | rfl⟩ := activeTimer_cases hret
  · exact h.mem_tmUpdate hup hne
  · exact mem_tmActive hact hne
  · exact h.mem_tmKill hkill hne
  · exact .rfl

theorem sub_tmKill (hret : Returns (MNet.tmKill n) s u t) (hk : k ∈ t.mnet.tmClock.getD []) :
    k ∈ s.mnet.tmClock.getD [] := by
  obtain ⟨c, hc, ⟨_, rfl⟩ | ⟨l, id, hl, hid, rfl⟩⟩ := tmKill_eq hret
  · exact hk
  · rw [hl]
    exact (mem_skiplistRemove.mp hk).1

/-- A node of a channel whose timer is let alone was there before. -/
theorem nodes {e : Entry} (h : Geared s) (hb : Booked s e t) (hno : ¬ e.touches k.tm.chann)
    (hk : k ∈ t.mnet.tmClock.getD []) : k ∈ s.mnet.tmClock.getD [] := by
  by_cases hidle : e.idle
  · rwa [(hb.apart hidle h.fresh).tmClock] at hk
  cases hb with
  | timer _ _ hret => exact (h.mem_activeTimer hret fun he => hno he.symm).mp hk
  | @fire _ l node _ hl hfind hpos _ hret =>
    have hmoved : Geared { s with mnet := { s.mnet with tmPos := some (skiplistNext l node.id) } } := by
      refine h.moved rfl rfl rfl rfl rfl fun hclock _ => h.past hclock ?_
      rw [hpos]
      exact Option.some_ne_none _
    exact (hmoved.mem_tmUpdate hret fun he => hno he.symm).mp hk
  | park => exact hk
  | schedule hret =>
    obtain ⟨l, _, ⟨_, rfl⟩ | ⟨node, rest, _, ⟨_, rfl⟩ | ⟨_, rfl⟩⟩⟩ := tmSchedule_eq hret <;> exact hk
  | boot _ _ hnil =>
    rw [hnil] at hk
    cases hk
  | @free a b d m c w _ ha hc hkill hd =>
    have ha := ha.apart h.fresh
    have hset : Apart a (a.setChann m { c with rwbSend := w }) := .set ha.fresh hc (Eq.refl c.timerNode)
    have hd := hd.apart ((h.apart (ha.trans hset)).tmKill hkill).fresh
    change k ∈ d.mnet.tmClock.getD [] at hk
    rw [hd.tmClock] at hk
    have hk := sub_tmKill hkill hk
    rwa [(ha.trans hset).tmClock] at hk
  | wipe => cases hk
  | _ => exact absurd trivial hidle

end Nodes

end Geared

/-! ## A clock that does not go back -/

namespace Wound

theorem sampled (h : Wound s) (hpos : s.mnet.tmPos ≠ none) : s.mnet.tmCurrent ≤ s.now := h.past h.clock hpos

theorem apart (h : Wound s) (ha : Apart s t) : Wound t where
  toGeared := h.toGeared.apart ha
  clock := by
    rw [ha.oracle]
    exact h.clock

/-- The cursor is moved, the list stays. -/
theorem moved (h : Wound s) (hheap : t.heap = s.heap) (hnext : t.nextChann = s.nextChann) (hnode : t.nextNode = s.nextNode)
    (hinit : t.mnet.isInit = s.mnet.isInit) (hclock : t.mnet.tmClock = s.mnet.tmClock)
    (horacle : t.kernel.oracle = s.kernel.oracle) (hpos : t.mnet.tmPos ≠ none → t.mnet.tmCurrent ≤ t.now) : Wound t where
  toGeared := h.toGeared.moved hheap hnext hnode hinit hclock fun _ => hpos
  clock := by
    rw [horacle]
    exact h.clock

theorem booked {e : Entry} (h : Wound s) (hb : Booked s e t) (he : e ≠ .wipe) : Wound t where
  toGeared := h.toGeared.booked hb he
  clock := by
    rw [hb.onward.oracle]
    exact h.clock

theorem posts {A : Set Entry} (h : Wound s) (hp : Posts A s t) (hA : .wipe ∉ A) : Wound t :=
  hp.keeps (fun _ _ _ he hb hw => hw.booked hb fun hwipe => hA (hwipe ▸ he)) h

end Wound

end MNet
