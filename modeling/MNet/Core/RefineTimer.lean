import MNet.Core.Tame

/-! # Timer operations as acts -/

namespace MNet
open MNet.Lib MNet.Lib.Exec

variable {ε : Type} {s t : Sys ε} {n : ChannId} {r : Int} {u : Unit}

theorem derefClock_spec {clock : List TmNode} (h : Returns derefClock s clock t) :
    s.core.tmClock = some clock ∧ t = s := by
  simp only [derefClock, returns_bind, returns_readMnet, returns_require] at h
  obtain ⟨_, _, ⟨rfl, rfl⟩, hc, rfl⟩ := h
  exact ⟨hc, rfl⟩

theorem derefNode_spec {id : NodeId} {node : TmNode} (h : Returns (derefNode id) s node t) :
    t = s ∧ ∃ clock, s.core.tmClock = some clock ∧ skiplistFind clock id = some node := by
  simp only [derefNode, returns_bind, returns_require] at h
  obtain ⟨clock, a, hclock, hf, rfl⟩ := h
  obtain ⟨hc, rfl⟩ := derefClock_spec hclock
  exact ⟨rfl, clock, hc, hf⟩

theorem setClock_spec {clock : List TmNode} (h : Returns (setClock clock) s u t) :
    t.heap = s.heap ∧ t.core = { s.core with tmClock := some clock } := by
  obtain ⟨hh, _, _, hc⟩ := core_modifyMnet h
  exact ⟨hh, hc⟩

theorem setTmPos_spec {p : Option TmLink} (h : Returns (setTmPos p) s u t) :
    t.heap = s.heap ∧ t.core = { s.core with tmPos := p } := by
  obtain ⟨hh, _, _, hc⟩ := core_modifyMnet h
  exact ⟨hh, hc⟩

theorem newNode_spec {tm : ChannTm} {id : NodeId} (h : Returns (newNode tm) s id t) :
    ∃ clock, s.core.tmClock = some clock ∧ id = s.core.nextNode ∧ t.heap = s.heap ∧
      t.core = { s.core with
        nextNode := s.core.nextNode + 1
        tmClock := some (skiplistInsert clock { id := id, key := tm.time, tm := tm }) } := by
  simp only [newNode, returns_bind, returns_read, returns_modify, returns_pure, and_assoc,
    exists_and_left, exists_eq_left] at h
  obtain ⟨clock, a, hclock, _, _, b, hset, rfl, rfl⟩ := h
  obtain ⟨hc, rfl⟩ := derefClock_spec hclock
  obtain ⟨hh, hcore⟩ := setClock_spec hset
  exact ⟨clock, hc, rfl, hh, hcore⟩

theorem removeNode_spec {id : NodeId} (h : Returns (removeNode id) s u t) :
    ∃ clock, s.core.tmClock = some clock ∧ t.heap = s.heap ∧
      t.core = { s.core with tmClock := some (skiplistRemove clock id) } := by
  simp only [removeNode, returns_bind] at h
  obtain ⟨clock, a, hclock, hset⟩ := h
  obtain ⟨hc, rfl⟩ := derefClock_spec hclock
  exact ⟨clock, hc, setClock_spec hset⟩

/-- A new timer of `n`. -/
theorem tmActive_spec {interval : Int} (h : Returns (tmActive n interval) s u t) :
    ∃ c clock tm, s.core.heap n = some c ∧ s.core.tmClock = some clock ∧ tm.chann = n ∧
      t.core = s.core.withTimer n c clock tm := by
  simp only [tmActive, returns_bind] at h
  obtain ⟨now, a, hnow, id, b, hnew, hset⟩ := h
  have ha := core_sysClock hnow
  obtain ⟨clock, hclock, rfl, hbh, hb⟩ := newNode_spec hnew
  obtain ⟨c, hc, _, _, _, ht⟩ := core_modifyChann hset
  rw [hbh] at hc
  refine ⟨c.core, clock, { interval := wrap32 interval, time := wrap64 (now + interval), chann := n },
    ha ▸ core_heap_some hc, ha ▸ hclock, rfl, ?_⟩
  rw [ht, hb, ha]
  rfl

/-- The node of `n` replaced. -/
theorem tmUpdate_spec {interval : Int} (h : Returns (tmUpdate n interval) s u t) :
    ∃ c clock node tm, s.core.heap n = some c ∧ s.core.tmClock = some clock ∧
      skiplistFind clock node.id = some node ∧ c.timerNode = some node.id ∧
      tm.chann = node.tm.chann ∧
      t.core = s.core.withTimer n c (skiplistRemove clock node.id) tm := by
  simp only [tmUpdate, returns_bind, returns_deref, returns_require, and_assoc, exists_and_left,
    exists_eq_left] at h
  obtain ⟨c, hc, id, hid, node, a, hnode, now, b, hnow, _, d, hrem, id', e, hnew, hset⟩ := h
  obtain ⟨rfl, clock, hclock, hf⟩ := derefNode_spec hnode
  have hb := core_sysClock hnow
  obtain ⟨clock', hclock', hdh, hd⟩ := removeNode_spec hrem
  obtain ⟨clock'', hclock'', rfl, heh, he⟩ := newNode_spec hnew
  obtain ⟨c', hc', _, _, _, ht⟩ := core_modifyChann hset
  rw [heh, hdh] at hc'
  obtain ⟨c'', hc'', hcc⟩ := heap_of_core hb hc'
  rw [hc] at hc''
  cases hc''
  rw [hb, hclock] at hclock'
  cases hclock'
  rw [hd] at hclock''
  cases hclock''
  have hnid := (skiplistFind_some hf).2
  subst hnid
  refine ⟨c.core, clock, node,
    { node.tm with interval := wrap32 interval, time := wrap64 (now + wrap32 interval) },
    core_heap_some hc, hclock, hf, hid, rfl, ?_⟩
  have hset : ({ c' with timerNode := some d.core.nextNode } : Chann).core =
      { c.core with timerNode := some d.core.nextNode } := by rw [← hcc]; rfl
  rw [ht, hset, he, hd, hb]
  rfl

theorem tmKill_spec (h : Returns (tmKill n) s u t) :
    ∃ c, s.core.heap n = some c ∧ ((c.timerNode = none ∧ t.core = s.core) ∨
      ∃ id clock, c.timerNode = some id ∧ s.core.tmClock = some clock ∧
        t.core = { s.core.set n { c with timerNode := none } with
          tmClock := some (skiplistRemove clock id) }) := by
  simp only [tmKill, returns_bind, returns_deref, and_assoc, exists_and_left, exists_eq_left] at h
  obtain ⟨c, hc, h⟩ := h
  refine ⟨c.core, core_heap_some hc, ?_⟩
  cases hid : c.timerNode with
  | none =>
    rw [hid] at h
    obtain ⟨_, rfl⟩ := returns_pure.mp h
    exact .inl ⟨hid, rfl⟩
  | some id =>
    rw [hid] at h
    simp only [returns_bind] at h
    obtain ⟨node, a, hnode, _, b, hrem, hset⟩ := h
    obtain ⟨rfl, _⟩ := derefNode_spec hnode
    obtain ⟨clock, hclock, hbh, hb⟩ := removeNode_spec hrem
    obtain ⟨d, hd, _, _, _, ht⟩ := core_modifyChann hset
    rw [hbh, hc] at hd
    cases hd
    refine .inr ⟨id, clock, hid, hclock, ?_⟩
    rw [ht, hb]
    rfl

/-- The cursor is put on the first timer when that one is due. -/
theorem tmSchedule_spec (h : Returns tmSchedule s u t) : CStep s.core .schedule t.core := by
  simp only [tmSchedule, returns_bind] at h
  obtain ⟨clock, a, hclock, h⟩ := h
  obtain ⟨hc, rfl⟩ := derefClock_spec hclock
  have hnone : CStep a.core .schedule { a.core with tmPos := none, tmCurrent := a.core.tmCurrent } :=
    .schedule hc (by simp)
  cases clock with
  | nil =>
    obtain ⟨_, ht⟩ := setTmPos_spec h
    rw [ht]
    exact hnone
  | cons node clock =>
    simp only [returns_bind] at h
    obtain ⟨current, b, hcur, h⟩ := h
    have hb := core_sysClock hcur
    rcases returns_ite.mp h with ⟨_, h⟩ | ⟨hdue, h⟩
    · obtain ⟨_, ht⟩ := setTmPos_spec h
      rw [ht, hb]
      exact hnone
    · obtain ⟨_, _, _, ht⟩ := core_modifyMnet h
      have hpos : CStep a.core .schedule
          { a.core with tmPos := some (.node node.id), tmCurrent := current } := by
        refine .schedule hc ?_
        rintro p ⟨⟩
        exact ⟨node, rfl, rfl, by omega⟩
      have hcore : t.core = { b.core with tmPos := some (.node node.id), tmCurrent := current } := ht
      rw [hcore, hb]
      exact hpos

end MNet
