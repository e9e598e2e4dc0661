import MNet.Intervals

/-! # Rounds of timers

After a poll the message loop goes along the timer list from its head, and gives out one timer at a
time. Each of them is put back further on before its handler runs. -/

namespace MNet
open MNet.Lib MNet.Lib.Exec

/-! ## The timers that are due -/

variable {ε : Type} {x : ExtTable ε} {s t : Sys ε} {n : ChannId} {hand : Option ChannId} {k node : TmNode}
  {l R : List TmNode} {id : NodeId} {T v : Int} {u : Unit}

/-- The timers with a deadline of at most `T`, soonest first. -/
def Sys.dueAt (s : Sys ε) (T : Int) : List TmNode := (s.mnet.tmClock.getD []).filter (·.tm.time ≤ T)

theorem mem_dueAt : k ∈ s.dueAt T ↔ k ∈ s.mnet.tmClock.getD [] ∧ k.tm.time ≤ T := by
  simp [Sys.dueAt]

theorem dueAt_of (hl : s.mnet.tmClock = some l) : s.dueAt T = l.filter (·.tm.time ≤ T) := by
  rw [Sys.dueAt, hl]
  rfl

theorem filter_skiplistInsert {p : TmNode → Bool} (h : p node = false) :
    (skiplistInsert l node).filter p = l.filter p := by
  have hl := List.takeWhile_append_dropWhile (p := (·.key < node.key)) (l := l)
  rw [skiplistInsert, List.filter_append, List.filter_cons_of_neg (by simp [h]), ← List.filter_append, hl]

theorem filter_skiplistRemove {p : TmNode → Bool} :
    (skiplistRemove l id).filter p = (l.filter p).filter (·.id ≠ id) := by
  rw [skiplistRemove, List.filter_filter, List.filter_filter]
  exact List.filter_congr fun k _ => Bool.and_comm ..

/-- In order of the deadlines, what is due comes first. -/
theorem head_due {r : TmNode} (hsorted : l.Pairwise TmNode.Sooner) (hkeyed : ∀ m ∈ l, m.key = m.tm.time)
    (hr : (l.filter (·.tm.time ≤ T)).head? = some r) : l.head? = some r := by
  obtain ⟨hmem, htime⟩ := List.mem_filter.mp (List.mem_of_head? hr)
  cases l with
  | nil => cases hmem
  | cons node rest =>
    by_cases hdue : node.tm.time ≤ T
    · rwa [List.filter_cons_of_pos (by simpa using hdue)] at hr
    · -- the others come later still
      have htime : r.tm.time ≤ T := by simpa using htime
      obtain rfl | hrest := List.mem_cons.mp hmem
      · exact absurd htime hdue
      · have hle : node.key ≤ r.key := List.rel_of_pairwise_cons hsorted hrest
        have hnode : node.key = node.tm.time := hkeyed node List.mem_cons_self
        have hr : r.key = r.tm.time := hkeyed r hmem
        omega

/-- Nothing of `n` is due. -/
theorem dueAt_others (hlate : ∀ k ∈ s.mnet.tmClock.getD [], k.tm.chann = n → T < k.tm.time) :
    (s.dueAt T).filter (·.tm.chann ≠ n) = s.dueAt T := by
  refine List.filter_eq_self.mpr fun k hk => ?_
  obtain ⟨hk, htime⟩ := mem_dueAt.mp hk
  have hne : k.tm.chann ≠ n := fun he => absurd (hlate k hk he) (Int.not_lt.mpr htime)
  simpa using hne

namespace Wound

/-- No channel has two timers. -/
theorem nodup_channs (h : Wound s) : ((s.mnet.tmClock.getD []).map fun k => k.tm.chann).Nodup := by
  cases hl : s.mnet.tmClock with
  | none => exact List.nodup_nil
  | some l =>
    have hids := h.timed.ids
    rw [hl] at hids
    refine List.Nodup.map_on (fun a ha b hb hab => ?_) hids.of_map
    have hown := h.owner hl ha
    rw [hab] at hown
    exact (h.same hl hb ha ((h.mine hl hown hb).mpr rfl)).symm

/-- What is due is the same but for the channel whose timer is changed. -/
theorem dueAt_remove (h : Wound s) (hl : s.mnet.tmClock = some l) (hid : s.timers n = some id) :
    (skiplistRemove l id).filter (·.tm.time ≤ T) = (s.dueAt T).filter (·.tm.chann ≠ n) := by
  rw [filter_skiplistRemove, dueAt_of hl]
  refine List.filter_congr fun k hk => ?_
  have hmine := h.mine hl hid (List.mem_of_mem_filter hk)
  simp [hmine]

theorem dueAt_tmUpdate (h : Wound s) (hret : Returns (MNet.tmUpdate n v) s u t)
    (hlate : ∀ k ∈ t.mnet.tmClock.getD [], k.tm.chann = n → T < k.tm.time) :
    t.dueAt T = (s.dueAt T).filter (·.tm.chann ≠ n) := by
  obtain ⟨c, l, node, hc, hl, hid, hfind, rfl⟩ := tmUpdate_eq hret
  have hown := h.owned hl hc hid hfind
  have hnew := hlate _ (mem_skiplistInsert.mpr (.inl rfl)) hown
  rw [← h.dueAt_remove hl ((timers_of hc).trans hid), dueAt_of rfl]
  exact filter_skiplistInsert (by simpa using hnew)

theorem dueAt_activeTimer (h : Wound s) (hret : Returns (MNet.activeTimer n v) s u t)
    (hlate : ∀ k ∈ t.mnet.tmClock.getD [], k.tm.chann = n → T < k.tm.time) :
    t.dueAt T = (s.dueAt T).filter (·.tm.chann ≠ n) := by
  obtain ⟨c, hc, ⟨_, _, hup⟩ | ⟨_, hno, hact⟩ | ⟨_, hkill⟩ | rfl⟩ := activeTimer_cases hret
  · exact h.dueAt_tmUpdate hup hlate
  · obtain ⟨c, l, hc, hl, rfl⟩ := tmActive_eq hact
    have hnew := hlate _ (mem_skiplistInsert.mpr (.inl rfl)) rfl
    have hold : ∀ k ∈ s.mnet.tmClock.getD [], k.tm.chann = n → T < k.tm.time := fun k hk =>
      hlate k (mem_skiplistInsert.mpr (.inr (by rwa [hl] at hk)))
    rw [dueAt_others hold, dueAt_of hl, dueAt_of rfl]
    exact filter_skiplistInsert (by simpa using hnew)
  · obtain ⟨c, hc, ⟨_, rfl⟩ | ⟨l, id, hl, hid, rfl⟩⟩ := tmKill_eq hkill
    · exact (dueAt_others hlate).symm
    · rw [← h.dueAt_remove hl ((timers_of hc).trans hid), dueAt_of rfl]
  · exact (dueAt_others hlate).symm

/-- The soonest timer that is due is the first of all, and the other ones that are due come behind. -/
theorem due_cons {R : List TmNode} (h : Wound s) (hl : s.mnet.tmClock = some l) (hR : s.dueAt T = node :: R) :
    ∃ rest, l = node :: rest ∧ rest.filter (·.tm.time ≤ T) = R := by
  have hsorted := h.sorted
  have hkeyed := h.keyed
  rw [hl] at hsorted hkeyed
  have hnode : node.tm.time ≤ T := (mem_dueAt.mp (hR ▸ List.mem_cons_self)).2
  rw [dueAt_of hl] at hR
  have hfirst : l.head? = some node := head_due (T := T) hsorted hkeyed (by rw [hR]; rfl)
  obtain ⟨rest, rfl⟩ := List.head?_eq_some_iff.mp hfirst
  rw [List.filter_cons_of_pos (by simpa using hnode)] at hR
  exact ⟨rest, rfl, List.tail_eq_of_cons_eq hR⟩

end Wound

theorem tmUpdate_cursor (hret : Returns (tmUpdate n v) s u t) :
    t.mnet.tmPos = s.mnet.tmPos ∧ t.mnet.tmCurrent = s.mnet.tmCurrent := by
  obtain ⟨c, l, node, _, _, _, _, rfl⟩ := tmUpdate_eq hret
  exact ⟨rfl, rfl⟩

theorem tmKill_cursor (hret : Returns (tmKill n) s u t) :
    t.mnet.tmPos = s.mnet.tmPos ∧ t.mnet.tmCurrent = s.mnet.tmCurrent := by
  obtain ⟨c, _, ⟨_, rfl⟩ | ⟨l, id, _, _, rfl⟩⟩ := tmKill_eq hret <;> exact ⟨rfl, rfl⟩

/-- The user moves no cursor. -/
theorem activeTimer_cursor (hret : Returns (activeTimer n v) s u t) :
    t.mnet.tmPos = s.mnet.tmPos ∧ t.mnet.tmCurrent = s.mnet.tmCurrent := by
  obtain ⟨c, hc, ⟨_, _, hup⟩ | ⟨_, _, hact⟩ | ⟨_, hkill⟩ | rfl⟩ := activeTimer_cases hret
  · exact tmUpdate_cursor hup
  · obtain ⟨c, l, _, _, rfl⟩ := tmActive_eq hact
    exact ⟨rfl, rfl⟩
  · exact tmKill_cursor hkill
  · exact ⟨rfl, rfl⟩

/-- The cursor is put on a timer by the poll only. -/
theorem Booked.unsprung {e : Entry} (h : Booked s e t) (hw : Wound s) (he : e ≠ .schedule) (hpos : Unsprung s) :
    Unsprung t := by
  have hsame : t.mnet.tmPos = s.mnet.tmPos → Unsprung t := fun hp => by rwa [Unsprung, hp]
  by_cases hidle : e.idle
  · exact hsame (h.apart hidle hw.fresh).tmPos
  cases h with
  | timer _ _ hret => exact hsame (activeTimer_cursor hret).1
  | fire hclock hfind hat htime => exact absurd ⟨hclock, hfind, hat, htime⟩ hpos.not_due
  | park => exact .inl rfl
  | schedule => exact absurd rfl he
  | boot _ _ _ hp => exact hsame hp
  | @free a b d m c w _ ha hc hkill hd =>
    have ha := ha.apart hw.fresh
    have hset : Apart a (a.setChann m { c with rwbSend := w }) := .set ha.fresh hc (Eq.refl c.timerNode)
    have hd := hd.apart ((hw.apart (ha.trans hset)).tmKill hkill).fresh
    exact hsame (hd.tmPos.trans ((tmKill_cursor hkill).1.trans (ha.trans hset).tmPos))
  | wipe => exact .inl rfl
  | _ => exact absurd trivial hidle

theorem Step.unsprung {i : Call × Ret} (hx : Modest x) (h : Step x s i t) (hcall : i.1 ≠ .poll) (hw : Wound s)
    (hpos : Unsprung s) : Unsprung t := by
  obtain ⟨call, r⟩ := i
  by_cases hfini : call = .mnetFini
  · subst hfini
    obtain ⟨_, _, h⟩ := returns_ret.mp h
    obtain ⟨_, hwiped⟩ | rfl := mnetFini_wipes h
    · rw [Unsprung, hwiped]
      exact .inl rfl
    · exact hpos
  refine (Posts.keeps (I := fun a => Wound a ∧ Unsprung a) (hx.posts_apiCall _ _ _ h) (fun e a b he hb ha => ?_)
    ⟨hw, hpos⟩).2
  have hkind : e ≠ .wipe ∧ e ≠ .schedule := by
    cases call with
    | mnetFini => exact absurd rfl hfini
    | poll => exact absurd rfl hcall
    | channActiveEvent n et v => cases et <;> constructor <;> (rintro rfl; simp [Call.entries, Entry.idle] at he)
    | _ => constructor <;> (rintro rfl; simp [Call.entries, Entry.idle] at he)
  exact ⟨ha.1.booked hb hkind.1, hb.unsprung ha.1 hkind.2 ha.2⟩

/-! ## The poll -/

/-- Nothing was asked of the kernel. -/
def Unasked (s t : Sys ε) : Prop := t.kernel = s.kernel

instance : Std.Refl (Unasked (ε := ε)) := ⟨fun _ => rfl⟩

instance : IsTrans (Sys ε) Unasked := ⟨fun _ _ _ h h' => Eq.trans h' h⟩

theorem unasked_modifyChann (f : Chann → Chann) : Within Unasked (modifyChann n f) s := by
  intro _ t h
  obtain ⟨c, _, rfl⟩ := returns_modifyChann.mp h
  rfl

theorem unasked_modifyMnet (f : Mnet → Mnet) : Within Unasked (modifyMnet f) s := by
  intro _ t h
  rw [returns_modifyMnet] at h
  rw [h]
  rfl

theorem unasked_tmKill : Within Unasked (tmKill n) s := by
  intro _ t h
  obtain ⟨c, _, ⟨_, rfl⟩ | ⟨l, id, _, _, rfl⟩⟩ := tmKill_eq h <;> rfl

theorem unasked_channDestroy : Within Unasked (channDestroy n : M ε Unit) s := by
  refine .deref_bind fun c _ => .ite (fun _ => ?_) fun _ => within_pure ()
  have hunlink : ∀ s : Sys ε, Within Unasked (unlinkChann n) s := by
    refine fun s => .deref_bind fun d _ => (Within.forSome fun _ _ => unasked_modifyChann _).bind fun _ _ _ => ?_
    cases d.prev with
    | none => exact unasked_modifyMnet _
    | some m => exact unasked_modifyChann _
  have hcache : ∀ s : Sys ε, Within Unasked (destroyCache n) s := fun _ =>
    .deref_bind fun _ _ => .require_bind fun _ _ => unasked_modifyChann _
  refine (hunlink _).bind fun _ _ _ => (hcache _).bind fun _ _ _ => .bind unasked_tmKill fun _ _ _ =>
    (unasked_modifyMnet _).bind fun _ _ _ => ?_
  intro _ t h
  rw [freeChann, returns_modify] at h
  rw [h]
  rfl

theorem unasked_evtDelLoop {fuel : Nat} {p : Option ChannId} : Within Unasked (evtDelLoop fuel p : M ε Unit) s := by
  induction fuel generalizing s p with
  | zero =>
    cases p with
    | none => exact within_pure ()
    | some n => exact within_fail
  | succ fuel ih =>
    cases p with
    | none => exact within_pure ()
    | some n => exact .deref_bind fun _ _ => .bind unasked_channDestroy fun _ _ _ => ih

theorem unasked_evtDelChanns : Within Unasked (evtDelChanns : M ε Unit) s :=
  .read_bind <| .read_bind <| .bind unasked_evtDelLoop fun _ _ _ => unasked_modifyMnet _

/-- A poll frees what is closed, puts the cursor on the first timer, and waits. -/
theorem evtPoll_schedules {r : Int} (hw : Wound s) (h : Returns evtPoll s r t) :
    ∃ a b, a.now = s.now ∧ Wound a ∧ Returns tmSchedule a () b ∧ Apart b t := by
  obtain ⟨_, a, hdel, hthen⟩ := returns_bind.mp h
  obtain ⟨_, b, hsched, hwait⟩ := returns_bind.mp hthen
  have hnow : a.now = s.now := by
    have hkernel : a.kernel = s.kernel := unasked_evtDelChanns _ _ hdel
    rw [Sys.now, Sys.now, hkernel]
  have hA : Idle {e : Entry | e.idle ∨ ∃ n, e = .free n} := fun _ => .inl
  have ha : Wound a := hw.posts (posts_evtDelChanns hA (fun n => .inr ⟨n, rfl⟩) _ _ hdel) (by simp [Entry.idle])
  have hb : Wound b := ha.booked (.schedule hsched) (by simp)
  have hrest : Resting b t := by
    refine Within.bind (bland_sysEpollWait _).resting (fun recs _ _ => .read_bind ?_) _ _ hwait
    cases recs with
    | none =>
      exact .bind (leaves_modifyMnet fun _ _ => rfl) fun _ _ _ => .ite (fun _ => within_pure _) fun _ => within_read _
    | some evts => exact .bind (leaves_modifyMnet fun _ _ => rfl) fun _ _ _ => within_read _
  exact ⟨a, b, hnow, ha, hsched, hrest.apart hb.fresh⟩

/-- The cursor is put on the first timer, or there is none that is due. -/
theorem tmSchedule_cursor (hw : Wound s) (h : Returns tmSchedule s u t) :
    (t.mnet.tmPos = none ∧ t.dueAt s.now = []) ∨ ∃ k ∈ t.mnet.tmClock.getD [],
      t.mnet.tmPos = some (.node k.id) ∧ t.mnet.tmCurrent = s.now ∧ ∀ r ∈ (t.dueAt s.now).head?, r = k := by
  have hsorted := hw.sorted
  have hkeyed := hw.keyed
  obtain ⟨l, hl, hcases⟩ := tmSchedule_eq h
  rw [hl] at hsorted hkeyed
  have hfirst : ∀ r ∈ (s.dueAt s.now).head?, l.head? = some r := by
    rw [dueAt_of hl]
    exact fun r => head_due hsorted hkeyed
  obtain ⟨rfl, rfl⟩ | ⟨node, rest, rfl, ⟨hlate, rfl⟩ | ⟨_, rfl⟩⟩ := hcases
  · exact .inl ⟨rfl, dueAt_of hl⟩
  · refine .inl ⟨rfl, List.head?_eq_none_iff.mp (Option.eq_none_iff_forall_not_mem.mpr fun r hr => ?_)⟩
    obtain rfl := Option.some.inj (hfirst r hr)
    exact absurd (mem_dueAt.mp (List.mem_of_head? hr)).2 (Int.not_le.mpr hlate)
  · refine .inr ⟨node, ?_, rfl, rfl, fun r hr => (Option.some.inj (hfirst r hr)).symm⟩
    show node ∈ s.mnet.tmClock.getD []
    rw [hl]
    exact List.mem_cons_self

/-! ## Going along the list -/

/-- The timers in `R` are still to be fired, and that of `hand` belongs to the handler that runs. -/
structure Sweep (T : Int) (hand : Option ChannId) (R : List TmNode) (s : Sys ε) : Prop where
  wound : Wound s
  due : s.dueAt T = R
  current : s.mnet.tmPos ≠ none → s.mnet.tmCurrent = T
  cursor : (Unsprung s ∧ R = []) ∨ ∃ k ∈ s.mnet.tmClock.getD [], s.mnet.tmPos = some (.node k.id) ∧
    some k.tm.chann ≠ hand ∧ ∀ r ∈ R.head?, r = k
  others : ∀ k ∈ R, some k.tm.chann ≠ hand
  interval : ∀ k ∈ s.mnet.tmClock.getD [], 0 < k.tm.interval ∧ k.tm.interval < 2 ^ 31
  past : T ≤ s.now
  range : ∀ i, -2 ^ 63 ≤ s.kernel.oracle.clock i ∧ s.kernel.oracle.clock i + 2 ^ 31 ≤ 2 ^ 63

namespace Sweep

theorem fits (h : Sweep T hand R s) : -2 ^ 63 ≤ s.now ∧ s.now + 2 ^ 31 ≤ 2 ^ 63 := h.range s.kernel.tick

/-- The list is the same, and so is the cursor. -/
theorem same (h : Sweep T hand R s) (hw : Wound t) (hon : Onward s t)
    (hclock : t.mnet.tmClock.getD [] = s.mnet.tmClock.getD []) (hpos : t.mnet.tmPos = s.mnet.tmPos)
    (hcur : t.mnet.tmCurrent = s.mnet.tmCurrent) : Sweep T hand R t where
  wound := hw
  due := by
    rw [Sys.dueAt, hclock]
    exact h.due
  current hno := by
    rw [hcur]
    exact h.current (hpos ▸ hno)
  cursor := by
    rw [Unsprung, hpos, hclock]
    exact h.cursor
  others := h.others
  interval := by
    rw [hclock]
    exact h.interval
  past := Int.le_trans h.past (hon.now h.wound.clock)
  range := by
    rw [hon.oracle]
    exact h.range

theorem apart (h : Sweep T hand R s) (ha : Apart s t) : Sweep T hand R t :=
  h.same (h.wound.apart ha) ⟨ha.oracle, ha.tick⟩ (congrArg (Option.getD · []) ha.tmClock) ha.tmPos ha.tmCurrent

/-- After a poll, all timers due at its time are still to be fired. -/
theorem poll {r : Ret} (hm : Modest x) (hw : Wound s) (h : Step x s (.poll, r) t)
    (hint : ∀ k ∈ t.mnet.tmClock.getD [], 0 < k.tm.interval ∧ k.tm.interval < 2 ^ 31)
    (hrange : ∀ i, -2 ^ 63 ≤ s.kernel.oracle.clock i ∧ s.kernel.oracle.clock i + 2 ^ 31 ≤ 2 ^ 63) :
    Sweep s.now none (t.dueAt s.now) t := by
  have hon := h.onward hm
  obtain ⟨_, _, h⟩ := returns_ret.mp h
  obtain ⟨a, b, hnow, ha, hsched, hbt⟩ := evtPoll_schedules hw h
  have hb : Wound b := ha.booked (.schedule hsched) (by simp)
  have hcur : t.mnet.tmCurrent = b.mnet.tmCurrent := hbt.tmCurrent
  have hdue : t.dueAt s.now = b.dueAt a.now := by rw [Sys.dueAt, hbt.tmClock, hnow, Sys.dueAt]
  refine ⟨hb.apart hbt, rfl, fun hno => ?_, ?_, fun _ _ => Option.some_ne_none _, hint, hon.now hw.clock, ?_⟩
  · obtain ⟨hnone, _⟩ | ⟨k, _, _, hcurrent, _⟩ := tmSchedule_cursor ha hsched
    · exact absurd (hbt.tmPos.trans hnone) hno
    · exact hcur.trans (hcurrent.trans hnow)
  · rw [Unsprung, hbt.tmPos, hdue, hbt.tmClock]
    obtain ⟨hnone, hnil⟩ | ⟨k, hk, hpos, _, hhead⟩ := tmSchedule_cursor ha hsched
    · exact .inl ⟨.inl hnone, hnil⟩
    · exact .inr ⟨k, hk, hpos, Option.some_ne_none _, hhead⟩
  · rw [hon.oracle]
    exact hrange

/-- A handler may change the timer of its channel: the new deadline is past the time of the poll. -/
theorem activeTimer (h : Sweep T (some n) R s) (hret : Returns (MNet.activeTimer n v) s u t) (hon : Onward s t)
    (hsmall : v * 1000 < 2 ^ 31) : Sweep T (some n) R t := by
  have hw : Wound t := ⟨h.wound.toGeared.activeTimer hret, by rw [hon.oracle]; exact h.wound.clock⟩
  obtain ⟨hpos, hcur⟩ := activeTimer_cursor hret
  have hpast := h.past
  have hfits := h.fits
  have hold : ∀ k ∈ s.mnet.tmClock.getD [], k.tm.chann = n → T < k.tm.time := by
    intro k hk hkn
    by_contra hdue
    have hkR : k ∈ R := h.due ▸ mem_dueAt.mpr ⟨hk, Int.not_lt.mp hdue⟩
    exact h.others k hkR (congrArg some hkn)
  -- what is new is later than now, and what is cancelled leaves nothing
  have hnew : ∀ k ∈ t.mnet.tmClock.getD [], k.tm.chann = n →
      T < k.tm.time ∧ 0 < k.tm.interval ∧ k.tm.interval < 2 ^ 31 := by
    intro k hk hkn
    by_cases hv : 0 < v
    · obtain ⟨hint, htime⟩ := awaits_activeTimer h.wound hv hsmall (by omega) hret k hk hkn
      omega
    · have hks : k ∈ s.mnet.tmClock.getD [] := by
        obtain ⟨c, _, ⟨hv', _⟩ | ⟨hv', _⟩ | ⟨_, hkill⟩ | rfl⟩ := activeTimer_cases hret
        · exact absurd hv' hv
        · exact absurd hv' hv
        · exact Geared.sub_tmKill hkill hk
        · exact hk
      exact ⟨hold k hks hkn, h.interval k hks⟩
  refine ⟨hw, ?_, fun hno => ?_, ?_, h.others, fun k hk => ?_, ?_, ?_⟩
  · rw [h.wound.dueAt_activeTimer hret fun k hk hkn => (hnew k hk hkn).1, dueAt_others hold, h.due]
  · rw [hcur]
    exact h.current (hpos ▸ hno)
  · rw [Unsprung, hpos]
    obtain hnone | ⟨k, hk, hkpos, hne, hhead⟩ := h.cursor
    · exact .inl hnone
    · exact .inr ⟨k, (h.wound.mem_activeTimer hret fun he => hne (congrArg some he)).mpr hk, hkpos, hne, hhead⟩
  · by_cases hkn : k.tm.chann = n
    · exact (hnew k hk hkn).2
    · exact h.interval k ((h.wound.mem_activeTimer hret hkn).mp hk)
  · exact Int.le_trans hpast (hon.now h.wound.clock)
  · rw [hon.oracle]
    exact h.range

/-- The cursor is at a timer that is due as long as there is one. -/
theorem due_iff (h : Sweep T hand R s) : Due s l node ↔ s.mnet.tmClock = some l ∧ R.head? = some node := by
  constructor
  · intro hdue
    have hmem := (skiplistFind_some hdue.find).1
    have hT : s.mnet.tmCurrent = T := h.current (by rw [hdue.pos]; exact Option.some_ne_none _)
    have hR : node ∈ R := h.due ▸ mem_dueAt.mpr ⟨by rw [hdue.clock]; exact hmem, hT ▸ hdue.time⟩
    obtain ⟨_, rfl⟩ | ⟨k, hk, hpos, _, hhead⟩ := h.cursor
    · cases hR
    obtain ⟨r, R', rfl⟩ := List.exists_cons_of_ne_nil (List.ne_nil_of_mem hR)
    obtain rfl : r = k := hhead r rfl
    have hid : r.id = node.id := TmLink.node.inj (Option.some.inj (hpos.symm.trans hdue.pos))
    rw [hdue.clock] at hk
    exact ⟨hdue.clock, congrArg some (h.wound.same hdue.clock hk hmem hid)⟩
  · rintro ⟨hl, hnode⟩
    obtain ⟨_, rfl⟩ | ⟨k, hk, hpos, _, hhead⟩ := h.cursor
    · cases hnode
    obtain rfl : node = k := hhead node hnode
    have hT : s.mnet.tmCurrent = T := h.current (by rw [hpos]; exact Option.some_ne_none _)
    have htime : node.tm.time ≤ T := (mem_dueAt.mp (h.due ▸ List.mem_of_head? hnode)).2
    rw [hl] at hk
    exact ⟨hl, h.wound.find hl hk, hpos, hT ▸ htime⟩

theorem nodup (h : Sweep T hand R s) : (R.map fun k => k.tm.chann).Nodup := by
  rw [← h.due]
  exact (List.filter_sublist.map _).nodup h.wound.nodup_channs

/-- The cursor behind a timer that is fired. -/
theorem cursor_next (h : Sweep T hand (node :: R) s) (hl : s.mnet.tmClock = some l) :
    (skiplistNext l node.id = .head ∧ R = []) ∨ ∃ k ∈ l, skiplistNext l node.id = .node k.id ∧
      k.tm.chann ≠ node.tm.chann ∧ ∀ r ∈ R.head?, r = k := by
  obtain ⟨rest, rfl, hrest⟩ := h.wound.due_cons hl h.due
  rw [skiplistNext_head]
  cases rest with
  | nil => exact .inl ⟨rfl, hrest.symm⟩
  | cons k rest =>
    have hsorted := h.wound.sorted
    have hkeyed := h.wound.keyed
    have hchanns := h.wound.nodup_channs
    rw [hl] at hsorted hkeyed hchanns
    refine .inr ⟨k, List.mem_cons_of_mem _ List.mem_cons_self, rfl, fun he => ?_, fun r hr => ?_⟩
    · exact (List.nodup_cons.mp hchanns).1 (List.mem_map.mpr ⟨k, List.mem_cons_self, he⟩)
    · rw [← hrest] at hr
      have hfirst := head_due hsorted.of_cons (fun m hm => hkeyed m (List.mem_cons_of_mem _ hm)) hr
      exact (Option.some.inj hfirst).symm

/-- The timer under the cursor is fired: it is put past the time of the poll, and the cursor is at
the next one that is due. -/
theorem fire {a : Sys ε} (h : Sweep T hand (node :: R) s) (hdue : Due s l node)
    (hup : Returns (tmUpdate node.tm.chann node.tm.interval)
      { s with mnet := { s.mnet with tmPos := some (skiplistNext l node.id) } } u a) (hon : Onward s a) :
    Sweep T (some node.tm.chann) R a := by
  have hl := hdue.clock
  have hmoved := hdue.wound h.wound
  have hpast := h.past
  have hfits := h.fits
  have hnode : node ∈ s.mnet.tmClock.getD [] := by
    rw [hl]
    exact (skiplistFind_some hdue.find).1
  obtain ⟨h0, hsmall⟩ := h.interval node hnode
  have hnew : Awaits node.tm.chann node.tm.interval s.now a := by
    have hfit : s.now + node.tm.interval < 2 ^ 63 := by omega
    have hawaits := awaits_tmUpdate hmoved (wrap32_of h0 hsmall) hfit hup
    exact hawaits
  have hlate : ∀ k ∈ a.mnet.tmClock.getD [], k.tm.chann = node.tm.chann → T < k.tm.time := by
    intro k hk hkn
    have htime := (hnew k hk hkn).2
    omega
  obtain ⟨hfirst, _⟩ := List.nodup_cons.mp h.nodup
  have hothers : ∀ k ∈ R, k.tm.chann ≠ node.tm.chann := fun k hk he => hfirst (List.mem_map.mpr ⟨k, hk, he⟩)
  obtain ⟨hpos, hcur⟩ := tmUpdate_cursor hup
  have hw : Wound a := ⟨hmoved.toGeared.tmUpdate hup, by rw [hon.oracle]; exact h.wound.clock⟩
  refine ⟨hw, ?_, fun _ => ?_, ?_, fun k hk he => hothers k hk (Option.some.inj he),
    fun k hk => ?_, ?_, ?_⟩
  · rw [hmoved.dueAt_tmUpdate hup hlate]
    show (s.dueAt T).filter _ = R
    rw [h.due, List.filter_cons_of_neg (by simp)]
    exact List.filter_eq_self.mpr fun k hk => by simpa using hothers k hk
  · rw [hcur]
    exact h.current (by rw [hdue.pos]; exact Option.some_ne_none _)
  · rw [Unsprung, hpos]
    obtain ⟨hend, rfl⟩ | ⟨k, hk, hnext, hne, hhead⟩ := h.cursor_next hl
    · exact .inl ⟨.inr (congrArg some hend), rfl⟩
    · have hk : k ∈ a.mnet.tmClock.getD [] := (hmoved.mem_tmUpdate hup hne).mpr (by rw [hl]; exact hk)
      exact .inr ⟨k, hk, congrArg some hnext, fun he => hne (Option.some.inj he), hhead⟩
  · by_cases hkn : k.tm.chann = node.tm.chann
    · rw [(hnew k hk hkn).1]
      exact ⟨h0, hsmall⟩
    · exact h.interval k ((hmoved.mem_tmUpdate hup hkn).mp hk)
  · exact Int.le_trans hpast (hon.now h.wound.clock)
  · rw [hon.oracle]
    exact h.range

/-- Where a timer that is fired is put. -/
theorem fired {a : Sys ε} (h : Sweep T hand (node :: R) s) (hdue : Due s l node)
    (hup : Returns (tmUpdate node.tm.chann node.tm.interval)
      { s with mnet := { s.mnet with tmPos := some (skiplistNext l node.id) } } u a) :
    ∃ m ∈ a.mnet.tmClock.getD [], m.tm = { node.tm with time := s.now + node.tm.interval } := by
  have hfits := h.fits
  obtain ⟨hnode, _⟩ := mem_dueAt.mp (h.due ▸ List.mem_cons_self)
  obtain ⟨h0, hsmall⟩ := h.interval node hnode
  obtain ⟨c, l', node', hc, hl', hid, hfind, rfl⟩ := tmUpdate_eq hup
  obtain rfl : l = l' := Option.some.inj (hdue.clock.symm.trans hl')
  obtain rfl : node = node' := by
    have hmine : s.timers node.tm.chann = some node'.id := (timers_of hc).trans hid
    have hmem := (skiplistFind_some hdue.find).1
    exact h.wound.same hdue.clock hmem (skiplistFind_some hfind).1
      ((h.wound.mine hdue.clock hmine hmem).mpr rfl)
  refine ⟨_, mem_skiplistInsert.mpr (.inl rfl), ?_⟩
  show ({ node.tm with
    interval := wrap32 node.tm.interval, time := wrap64 (s.now + wrap32 node.tm.interval) } : ChannTm) = _
  rw [wrap32_of h0 hsmall, wrap64_of (by omega) (by omega)]

end Sweep

/-! ## Handlers -/

/-- The calls a handler may make while the message loop is at the timers: the only timer it touches
is that of the channel `hand`. -/
def Handles (hand : Option ChannId) : Call → Prop
  | .mnetFini | .poll | .resultNext _ => False
  | .channActiveEvent (some n) .timer v => some n = hand ∧ v * 1000 < 2 ^ 31
  | _ => True

theorem Handles.not_retimes {call : Call} (h : Handles hand call) (hne : some n ≠ hand) : ¬ Retimes n call := by
  intro hre
  cases call with
  | channActiveEvent m et w =>
    cases m with
    | none => exact hre
    | some m =>
      cases et with
      | timer =>
        obtain rfl : m = n := hre
        exact hne h.1
      | _ => exact hre
  | _ => exact hre

theorem Handles.unqueued {N : ChannId → Prop} {call : Call} (h : Handles hand call) : Unqueued N s call := by
  cases call with
  | resultNext fuel => exact h.elim
  | _ => trivial

namespace Sweep

theorem posts {A : Set Entry} (h : Sweep T hand R s) (hp : Posts A s t) (hA : ∀ e ∈ A, e.idle ∨ e = .boot) :
    Sweep T hand R t ∧ t.mnet.tmClock.getD [] = s.mnet.tmClock.getD [] := by
  refine hp.keeps (I := fun a => Sweep T hand R a ∧ a.mnet.tmClock.getD [] = s.mnet.tmClock.getD [])
    (fun e a b he hb ⟨ha, hclock⟩ => ?_) ⟨h, rfl⟩
  obtain hidle | rfl := hA e he
  · have hb := hb.apart hidle ha.wound.fresh
    exact ⟨ha.apart hb, by rw [hb.tmClock, hclock]⟩
  · have hw := ha.wound.booked hb (by simp)
    have hon := hb.onward
    cases hb with
    | boot hoff _ hnil hpos hcur =>
      have hempty := ha.wound.timed.booted hoff
      have hsame : ([] : List TmNode) = a.mnet.tmClock.getD [] := by
        rw [hempty]
        rfl
      refine ⟨ha.same hw hon ?_ hpos hcur, ?_⟩
      · rw [hnil]
        exact hsame
      · rw [hnil, ← hclock]
        exact hsame

/-- A call of a handler. -/
theorem handle {i : Call × Ret} (hm : Modest x) (h : Sweep T hand R s) (hstep : Step x s i t) (hh : Handles hand i.1) :
    Sweep T hand R t ∧
      ∀ k ∈ s.mnet.tmClock.getD [], ¬ Retimes k.tm.chann i.1 → k ∈ t.mnet.tmClock.getD [] := by
  obtain ⟨call, r⟩ := i
  have hon := hstep.onward hm
  have hstill : (∀ e ∈ call.entries, e.idle ∨ e = .boot) → Sweep T hand R t ∧
      ∀ k ∈ s.mnet.tmClock.getD [], ¬ Retimes k.tm.chann call → k ∈ t.mnet.tmClock.getD [] := by
    intro hA
    obtain ⟨ht, hclock⟩ := h.posts (hm.posts_apiCall _ _ _ hstep) hA
    exact ⟨ht, fun k hk _ => by rwa [hclock]⟩
  cases call with
  | mnetFini | poll | resultNext => exact hh.elim
  | mnetInit => exact hstill fun e he => he
  | channActiveEvent m et v =>
    cases et with
    | timer =>
      cases m with
      | none =>
        refine hstill fun e he => he.imp id fun ⟨m, hm, _⟩ => ?_
        cases hm
      | some m =>
        obtain ⟨hhand, hsmall⟩ := hh
        subst hhand
        obtain ⟨_, _, hret⟩ := returns_ret.mp hstep
        simp only [mnetChannActiveEvent, returns_bind, returns_read, returns_deref, and_assoc, exists_and_left,
          exists_eq_left] at hret
        obtain ⟨c, _, hret⟩ := hret
        rw [if_neg (by simp)] at hret
        rcases returns_ite.mp hret with ⟨_, hret⟩ | ⟨_, hret⟩
        · exact ⟨h.activeTimer hret hon hsmall, fun k hk hno =>
            (h.wound.mem_activeTimer hret fun he => hno he.symm).mpr hk⟩
        · obtain ⟨_, rfl⟩ := returns_pure.mp hret
          exact ⟨h, fun k hk _ => hk⟩
    | _ => exact hstill fun e he => .inl he
  | _ => exact hstill fun e he => .inl he

/-- A run of a handler. -/
theorem handles {is : List (Call × Ret)} (hm : Modest x) (h : Sweep T hand R s)
    (hrun : RunWhere x (fun _ c => Handles hand c) s is t) : Sweep T hand R t ∧
      ∀ k ∈ s.mnet.tmClock.getD [], (some k.tm.chann ≠ hand ∨ ∀ i ∈ is, ¬ Retimes k.tm.chann i.1) →
        k ∈ t.mnet.tmClock.getD [] := by
  induction hrun with
  | nil => exact ⟨h, fun k hk _ => hk⟩
  | cons hstep _ ih =>
    obtain ⟨ha, hkeep⟩ := h.handle hm hstep.1 hstep.2
    obtain ⟨ht, hkeeps⟩ := ih ha
    refine ⟨ht, fun k hk hno => hkeeps k (hkeep k hk ?_) (hno.imp id fun hall i hi => ?_)⟩
    · obtain hne | hall := hno
      · exact hstep.2.not_retimes hne
      · exact hall _ List.mem_cons_self
    · exact hall i (List.mem_cons_of_mem _ hi)

end Sweep

/-! ## Rounds -/

/-- A timer message: whose it is, when its timer was put back, and the calls of its handler. -/
structure Shot where
  chann : ChannId
  time : Int
  calls : List (Call × Ret)

/-- The message loop is called again and again, with handlers in between, up to the first call that
gives out no timer message. -/
inductive Round (x : ExtTable ε) (C : Sys ε → Call → Prop) : Sys ε → List Shot → Sys ε → Prop
  | last {s t : Sys ε} {fuel : Nat} {r : Ret} : Step x s (.resultNext fuel, r) t →
    C s (.resultNext fuel) → (∀ n, ¬ Rings n r t) → Round x C s [] t
  | shot {s a b t : Sys ε} {fuel : Nat} {r : Ret} {n : ChannId} {is : List (Call × Ret)} {shots : List Shot} :
    Step x s (.resultNext fuel, r) a → C s (.resultNext fuel) → Rings n r a →
    RunWhere x (fun _ c => Handles (some n) c) a is b → Round x C b shots t →
    Round x C s ({ chann := n, time := s.now, calls := is } :: shots) t

/-- The timer `k` was fired by `shot`. If the handler let it alone, it is in the list again. -/
def Fired (t : Sys ε) (k : TmNode) (shot : Shot) : Prop :=
  shot.chann = k.tm.chann ∧ ((∀ i ∈ shot.calls, ¬ Retimes shot.chann i.1) →
    ∃ m ∈ t.mnet.tmClock.getD [], m.tm = { k.tm with time := shot.time + k.tm.interval })

/-- No timer message is to be given out before the next poll. -/
structure Hushed (s : Sys ε) : Prop where
  ordered : Ordered s
  wound : Wound s
  filed : Filed (NoTimer fun _ => True) s
  unsprung : Unsprung s

section

variable (hx : Obedient x) (hm : Modest x) (hp : Polite x)
include hx hm hp

theorem Hushed.step {i : Call × Ret} (h : Hushed s) (hstep : Step x s i t) (hcall : i.1 ≠ .poll) :
    Hushed t ∧ ∀ n, ¬ Rings n i.2 t := by
  have hu : Unqueued (fun _ => True) s i.1 := by
    obtain ⟨call, r⟩ := i
    cases call with
    | resultNext fuel => exact fun l node hdue => absurd hdue h.unsprung.not_due
    | _ => trivial
  refine ⟨⟨hstep.ordered hx h.ordered, hstep.wound hm hx h.ordered h.wound,
    hstep.noTimer hp hx hm hu h.ordered h.filed, hstep.unsprung hm hcall h.wound h.unsprung⟩, fun n => ?_⟩
  by_cases hloop : ∃ fuel, i.1 = .resultNext fuel
  · obtain ⟨fuel, hcall⟩ := hloop
    obtain ⟨call, r⟩ := i
    simp only at hcall
    subst hcall
    obtain ⟨l, node, _, _, _, hdue, _⟩ | ⟨_, _, _, hno⟩ := resultNext_cases hp hm h.filed hstep
    · exact absurd hdue h.unsprung.not_due
    · exact hno n trivial
  · exact not_rings_of hstep fun fuel he => hloop ⟨fuel, he⟩

/-- A handler leaves no report of a timer in the queue. -/
theorem handles_noTimer {is : List (Call × Ret)} (hrun : RunWhere x (fun _ c => Handles hand c) s is t)
    (ho : Ordered s) (hf : Filed (NoTimer fun _ => True) s) : Ordered t ∧ Filed (NoTimer fun _ => True) t :=
  Path.keeps (I := fun a => Ordered a ∧ Filed (NoTimer fun _ => True) a) hrun
    (fun _ _ _ hi ⟨ho, hf⟩ => ⟨hi.1.ordered hx ho, hi.1.noTimer hp hx hm hi.2.unqueued ho hf⟩) ⟨ho, hf⟩

namespace Sweep

omit hx in
/-- A call of the message loop fires the next timer that is due, or there is none left. -/
theorem resultNext {fuel : Nat} {r : Ret} (h : Sweep T hand R s) (hf : Filed (NoTimer fun _ => True) s)
    (hstep : Step x s (.resultNext fuel, r) t) :
    (∃ node R', R = node :: R' ∧ Rings node.tm.chann r t ∧ Sweep T (some node.tm.chann) R' t ∧
      (∃ m ∈ t.mnet.tmClock.getD [], m.tm = { node.tm with time := s.now + node.tm.interval }) ∧
      ∀ k ∈ s.mnet.tmClock.getD [], k.tm.chann ≠ node.tm.chann → k ∈ t.mnet.tmClock.getD []) ∨
    (R = [] ∧ (∀ n, ¬ Rings n r t) ∧ Unsprung t ∧ t.mnet.tmClock = s.mnet.tmClock) := by
  have hon := hstep.onward hm
  obtain ⟨l, node, a, c, e, hdue, rfl, hup, hc, rfl⟩ | ⟨hno, hst, _, hrings⟩ := resultNext_cases hp hm hf hstep
  · obtain ⟨R', rfl⟩ := List.head?_eq_some_iff.mp (h.due_iff.mp hdue).2
    have ha : Sweep T (some node.tm.chann) R' a := h.fire hdue hup ⟨hon.oracle, hon.tick⟩
    have hput := h.fired hdue hup
    have hset := Apart.set (d := { c with msg := msgOf node.tm.chann c .timer none 0 }) ha.wound.fresh hc rfl
    have htold : Apart a { a.setChann node.tm.chann { c with msg := msgOf node.tm.chann c .timer none 0 } with ext := e } :=
      { hset with }
    refine .inl ⟨node, R', rfl, ⟨rfl, _, Function.update_self .., rfl⟩, ha.apart htold, hput,
      fun k hk hne => ?_⟩
    exact ((hdue.wound h.wound).mem_tmUpdate hup hne).mpr hk
  · refine .inr ⟨?_, fun n => hrings n trivial, hst.unsprung, hst.clock⟩
    cases R with
    | nil => rfl
    | cons node R' =>
      obtain ⟨hmem, _⟩ := mem_dueAt.mp (h.due ▸ List.mem_cons_self)
      cases hl : s.mnet.tmClock with
      | none =>
        rw [hl] at hmem
        cases hmem
      | some l => exact absurd (h.due_iff.mpr ⟨hl, rfl⟩) (hno l node)

/-- A round fires what is due, one after the other, and leaves the other timers alone. -/
theorem round {shots : List Shot} (hr : Round x (Unqueued fun _ => True) s shots t) (h : Sweep T hand R s)
    (ho : Ordered s) (hf : Filed (NoTimer fun _ => True) s) :
    Hushed t ∧ List.Forall₂ (Fired t) R shots ∧
      ∀ k ∈ s.mnet.tmClock.getD [], (∀ r ∈ R, k.tm.chann ≠ r.tm.chann) → k ∈ t.mnet.tmClock.getD [] := by
  induction hr generalizing hand R with
  | last hstep hu hno =>
    obtain ⟨node, _, _, hring, _⟩ | ⟨rfl, _, hpos, hclock⟩ := h.resultNext hm hp hf hstep
    · exact absurd hring (hno _)
    · refine ⟨⟨hstep.ordered hx ho, hstep.wound hm hx ho h.wound, hstep.noTimer hp hx hm hu ho hf, hpos⟩, .nil,
        fun k hk _ => ?_⟩
      rwa [hclock]
  | @shot s a b t fuel r n is shots hstep hu hring hhand _ ih =>
    obtain ⟨node, R', rfl, hring', ha, ⟨m, hmem, hmtm⟩, hkeep⟩ | ⟨_, hno, _⟩ := h.resultNext hm hp hf hstep
    swap
    · exact absurd hring (hno n)
    obtain rfl : n = node.tm.chann := Option.some.inj (Ret.msg.inj (hring.1.symm.trans hring'.1))
    obtain ⟨hb, hkeeps⟩ := ha.handles hm hhand
    obtain ⟨hob, hfb⟩ := handles_noTimer hx hm hp hhand (hstep.ordered hx ho) (hstep.noTimer hp hx hm hu ho hf)
    obtain ⟨hquiet, hfired, hrest⟩ := ih hb hob hfb
    obtain ⟨hfirst, _⟩ := List.nodup_cons.mp h.nodup
    refine ⟨hquiet, .cons ⟨rfl, fun hcalls => ⟨m, hrest m (hkeeps m hmem (.inr ?_)) fun r hr he => ?_, hmtm⟩⟩ hfired,
      fun k hk hne => ?_⟩
    · rw [hmtm]
      exact hcalls
    · -- a channel has one timer
      rw [hmtm] at he
      exact hfirst (List.mem_map.mpr ⟨r, hr, he.symm⟩)
    · have hne' := hne node List.mem_cons_self
      exact hrest k (hkeeps k (hkeep k hk hne') (.inl fun he => hne' (Option.some.inj he)))
        fun r hr => hne r (List.mem_cons_of_mem _ hr)

end Sweep

/-- With a clock that does not go back and polite types, when no report of a timer waits at the poll, and
unless a timer fires while a report of its channel is in the queue: the timer messages of a round are
those of the timers that were due at the time of the poll, one for each, soonest first. They come before
all other messages of the poll, and a timer that is let alone by its handler is put back for its interval
from when it was fired. -/
theorem timer_round {o : Oracle} {e : ε} {l is : List (Call × Ret)} {a b : Sys ε} {r : Ret} {shots : List Shot}
    (hclock : Monotone o.clock) (hrange : ∀ i, -2 ^ 63 ≤ o.clock i ∧ o.clock i + 2 ^ 31 ≤ 2 ^ 63)
    (hrun : Run x (Sys.start o e) l s) (hfree : TimerFree (fun _ => True) s) (hpoll : Step x s (.poll, r) a)
    (hint : ∀ k ∈ a.mnet.tmClock.getD [], 0 < k.tm.interval ∧ k.tm.interval < 2 ^ 31)
    (hbefore : RunWhere x (fun _ c => Handles none c) a is b)
    (hround : Round x (Unqueued fun _ => True) b shots t) :
    (((a.dueAt s.now).Pairwise fun k m => k.tm.time ≤ m.tm.time) ∧ ((a.dueAt s.now).map fun k => k.tm.chann).Nodup ∧
      List.Forall₂ (Fired t) (a.dueAt s.now) shots) ∧
    ∀ (l' : List (Call × Ret)) (w w' : Sys ε) (i : Call × Ret), RunWhere x (fun _ c => c ≠ .poll) t l' w →
      Step x w i w' → i.1 ≠ .poll → ∀ n, ¬ Rings n i.2 w' := by
  obtain ⟨ho, hw, hf, hsame⟩ := hrun.ticking hp hx hm hclock hfree
  have hsweep : Sweep s.now none (a.dueAt s.now) a := .poll hm hw hpoll hint (by rw [hsame]; exact hrange)
  obtain ⟨hb, _⟩ := hsweep.handles hm hbefore
  obtain ⟨hob, hfb⟩ := handles_noTimer hx hm hp hbefore (hpoll.ordered hx ho) (hpoll.noTimer hp hx hm trivial ho hf)
  obtain ⟨hquiet, hfired, _⟩ := hb.round hx hm hp hround hob hfb
  refine ⟨⟨?_, hsweep.nodup, hfired⟩, fun l' w w' i hrest hstep hcall => ?_⟩
  · refine (hsweep.wound.sorted.sublist List.filter_sublist).imp_of_mem fun {k m} hk hm hle => ?_
    have hk := hsweep.wound.keyed k (List.mem_of_mem_filter hk)
    have hm := hsweep.wound.keyed m (List.mem_of_mem_filter hm)
    rw [TmNode.Sooner, hk, hm] at hle
    exact hle
  · have hw : Hushed w := Path.keeps (I := Hushed) hrest (fun _ _ _ hi ha => (ha.step hx hm hp hi.1 hi.2).1) hquiet
    exact (hw.step hx hm hp hstep hcall).2

end

/-- An environment in which ten milliseconds pass between ticks, until the clock stops. -/
def roundOracle (ticks : List Nat) : Oracle := { failingOracle ticks with clock := fun tick => (10000 * min tick 1000 : Nat) }

theorem roundOracle_clock (ticks : List Nat) : Monotone (roundOracle ticks).clock ∧
    ∀ i, -2 ^ 63 ≤ (roundOracle ticks).clock i ∧ (roundOracle ticks).clock i + 2 ^ 31 ≤ 2 ^ 63 := by
  constructor
  · intro i j hij
    show ((10000 * min i 1000 : Nat) : Int) ≤ (10000 * min j 1000 : Nat)
    omega
  · intro i
    simp only [roundOracle]
    omega

theorem rings_of {r : Ret} (hr : r = .msg (some n))
    (hmsg : (t.heap n).map (fun c => c.msg.event) = some (some .timer)) : Rings n r t := by
  obtain ⟨c, hc, hev⟩ := Option.map_eq_some_iff.mp hmsg
  exact ⟨hr, c, hc, hev⟩

theorem intervals_of {l : List TmNode} {vs : List Int} (h : l.map (fun k => k.tm.interval) = vs)
    (hvs : ∀ v ∈ vs, 0 < v ∧ v < 2 ^ 31) : ∀ k ∈ l, 0 < k.tm.interval ∧ k.tm.interval < 2 ^ 31 :=
  fun k hk => hvs _ (h ▸ List.mem_map.mpr ⟨k, hk, rfl⟩)

theorem Round.nothing {C : Sys ε → Call → Prop} {fuel : Nat} (h : Step x s (.resultNext fuel, .msg none) t)
    (hC : C s (.resultNext fuel)) : Round x C s [] t := by
  refine .last h hC fun n hr => ?_
  cases hr.1

set_option synthInstance.maxSize 5000 in
/-- Two timers, of which the one that was armed later is due first. -/
theorem timer_round_two : ∃ (s a t : Sys Tls) (shots : List Shot),
    (a.dueAt s.now).map (fun k => k.tm.chann) = [1, 0] ∧ shots.map Shot.chann = [1, 0] ∧
      List.Forall₂ (Fired t) (a.dueAt s.now) shots := by
  have hrun : After tlsTable [.mnetInit, .channOpen 1, .channOpen 1, .channActiveEvent (some 0) .timer 15,
      .channActiveEvent (some 1) .timer 1] (Sys.start (roundOracle []) {}) fun _ s => s.mnet.disChanns = none ∧
      After tlsTable [.poll] s fun _ a => ((a.dueAt s.now).map (fun k => k.tm.chann) = [1, 0] ∧
          (a.mnet.tmClock.getD []).map (fun k => k.tm.interval) = [1000, 15000] ∧ a.mnet.disChanns = none) ∧
        After tlsTable [.resultNext 5] a fun rs b => (rs = [.msg (some 1)] ∧
            (b.heap 1).map (fun c => c.msg.event) = some (some .timer) ∧ b.mnet.disChanns = none) ∧
          After tlsTable [.resultNext 5] b fun rs c => (rs = [.msg (some 0)] ∧
              (c.heap 0).map (fun c => c.msg.event) = some (some .timer) ∧ c.mnet.disChanns = none) ∧
            After tlsTable [.resultNext 5] c fun rs _ => rs = [.msg none] := by decide +kernel
  obtain ⟨l, s, hs, hdis, hpoll⟩ := hrun.run
  obtain ⟨_, a, hpoll, ⟨hdue, hint, hdisa⟩, hfirst⟩ := hpoll.step
  obtain ⟨q, b, hfirst, ⟨hq, hmsg, hdisb⟩, hsecond⟩ := hfirst.step
  obtain ⟨q', c, hsecond, ⟨hq', hmsg', hdisc⟩, hlast⟩ := hsecond.step
  obtain ⟨q'', t, hlast, hnone⟩ := hlast.step
  obtain rfl : q'' = .msg none := List.head_eq_of_cons_eq hnone
  have hround : Round tlsTable (Unqueued fun _ => True) a _ t :=
    .shot hfirst (unqueued_of hdisa) (rings_of (List.head_eq_of_cons_eq hq) hmsg) .nil
      (.shot hsecond (unqueued_of hdisb) (rings_of (List.head_eq_of_cons_eq hq') hmsg') .nil
        (.nothing hlast (unqueued_of hdisc)))
  obtain ⟨hmono, hrange⟩ := roundOracle_clock []
  obtain ⟨⟨_, _, hfired⟩, _⟩ := timer_round obedient_tlsTable modest_tlsTable polite_tlsTable hmono hrange hs
    (timerFree_of hdis) hpoll (intervals_of hint (by simp)) .nil hround
  exact ⟨s, a, t, _, hdue, rfl, hfired⟩

set_option synthInstance.maxSize 5000 in
/-- A failed send leaves a report in the queue, and the timer of the channel is due: it is told
twice. -/
theorem not_timer_round : ∃ (l : List (Call × Ret)) (s a t : Sys Tls) (r : Ret) (shots : List Shot),
    (Monotone (roundOracle [9]).clock ∧
      ∀ i, -2 ^ 63 ≤ (roundOracle [9]).clock i ∧ (roundOracle [9]).clock i + 2 ^ 31 ≤ 2 ^ 63) ∧
    Run tlsTable (Sys.start (roundOracle [9]) {}) l s ∧ Step tlsTable s (.poll, r) a ∧
    (∀ k ∈ a.mnet.tmClock.getD [], 0 < k.tm.interval ∧ k.tm.interval < 2 ^ 31) ∧
    Round tlsTable (fun _ _ => True) a shots t ∧ (a.dueAt s.now).map (fun k => k.tm.chann) = [0] ∧
    shots.map Shot.chann = [0, 0] := by
  have hrun : After tlsTable [.mnetInit, .channOpen 2, .channActiveEvent (some 0) .timer 1,
      .channConnect (some 0) (some 0) 80, .channSend (some 0) (some [1])] (Sys.start (roundOracle [9]) {}) fun _ s =>
      After tlsTable [.poll] s fun _ a => ((a.dueAt s.now).map (fun k => k.tm.chann) = [0] ∧
          (a.mnet.tmClock.getD []).map (fun k => k.tm.interval) = [1000]) ∧
        After tlsTable [.resultNext 5] a fun rs b => (rs = [.msg (some 0)] ∧
            (b.heap 0).map (fun c => c.msg.event) = some (some .timer)) ∧
          After tlsTable [.resultNext 5] b fun rs c => (rs = [.msg (some 0)] ∧
              (c.heap 0).map (fun c => c.msg.event) = some (some .timer)) ∧
            After tlsTable [.resultNext 5] c fun rs _ => rs = [.msg none] := by decide +kernel
  obtain ⟨_, s, hs, hpoll⟩ := hrun.run
  obtain ⟨r, a, hpoll, ⟨hdue, hint⟩, hfirst⟩ := hpoll.step
  obtain ⟨q, b, hfirst, ⟨hq, hmsg⟩, hsecond⟩ := hfirst.step
  obtain ⟨q', c, hsecond, ⟨hq', hmsg'⟩, hlast⟩ := hsecond.step
  obtain ⟨q'', t, hlast, hnone⟩ := hlast.step
  obtain rfl : q'' = .msg none := List.head_eq_of_cons_eq hnone
  have hround : Round tlsTable (fun _ _ => True) a _ t :=
    .shot hfirst trivial (rings_of (List.head_eq_of_cons_eq hq) hmsg) .nil
      (.shot hsecond trivial (rings_of (List.head_eq_of_cons_eq hq') hmsg') .nil (.nothing hlast trivial))
  exact ⟨_, s, a, t, r, _, roundOracle_clock [9], hs, hpoll,
    intervals_of hint (by simp), hround, hdue, rfl⟩

end MNet
