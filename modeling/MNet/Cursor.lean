import MNet.Core.Run

/-! # The timer cursor

`_tm_next` leaves `tm_pos` behind when it returns a message, and the application may then
stop or change the very timer it points at. Every other act leaves the cursor on a node
that exists. -/

namespace MNet
open MNet.Lib MNet.Lib.Exec

variable {ε : Type} {x : ExtTable ε} {s t : Sys ε} {o : Oracle} {e : ε}

/-- The cursor is NULL, the list head, or the link of a node in the list. -/
def CursorOk (clock : Option (List TmNode)) (pos : Option TmLink) : Prop :=
  ∀ p, pos = some p → ∃ l, clock = some l ∧ (p = .head ∨ ∃ node ∈ l, p = .node node.id)

/-- The timer of `n` is not the one the cursor points at. -/
def Core.offCursor (k : Core) (n : ChannId) : Prop :=
  ∀ c id, k.heap n = some c → c.timerNode = some id → k.tmPos ≠ some (.node id)

/-- The call does not stop or change the timer the cursor points at. -/
def SparesCursor (s : Sys ε) : Call → Prop
  | .channActiveEvent (some n) .timer _ =>
    ∀ c ∈ s.heap n, c.state = .closed ∨ ∀ id ∈ c.timerNode, s.mnet.tmPos ≠ some (.node id)
  | _ => True

instance (s : Sys ε) (c : Call) : Decidable (SparesCursor s c) := by
  unfold SparesCursor
  split <;> infer_instance

section Act

variable {k k' : Core} {a : Act} {n : ChannId}

theorem CursorOk.mono {clock clock' : Option (List TmNode)} {pos : Option TmLink}
    (h : CursorOk clock pos)
    (hsub : ∀ l node, clock = some l → node ∈ l → pos = some (.node node.id) →
      ∃ l', clock' = some l' ∧ node ∈ l')
    (hsome : clock ≠ none → clock' ≠ none) : CursorOk clock' pos := by
  intro p hp
  obtain ⟨l, hl, hcase⟩ := h p hp
  obtain ⟨l', hl'⟩ := Option.ne_none_iff_exists'.mp (hsome (by simp [hl]))
  refine ⟨l', hl', ?_⟩
  obtain rfl | ⟨node, hnode, rfl⟩ := hcase
  · exact .inl rfl
  · obtain ⟨l'', hl'', hmem⟩ := hsub l node hl hnode hp
    obtain rfl : l' = l'' := Option.some.inj (hl'.symm.trans hl'')
    exact .inr ⟨node, hmem, rfl⟩

/-- Every act keeps the cursor on a node of the list, unless it replaces or removes that node. -/
theorem CStep.cursor (hs : CStep k a k') (hb : Base k) (hk : CursorOk k.tmClock k.tmPos)
    (ha : ∀ n, a = .rearm n ∨ a = .disarm n → k.offCursor n) : CursorOk k'.tmClock k'.tmPos := by
  cases hs with
  | @arm n c clock tm hn ht hc =>
    refine hk.mono (fun l node hl hnode _ => ⟨_, rfl, ?_⟩) fun _ => by simp [Core.withTimer]
    obtain rfl : l = clock := Option.some.inj (hl.symm.trans hc)
    exact mem_skiplistInsert.mpr (.inr hnode)
  | @rearm n c clock node tm hn ht hc =>
    have hoff := ha n (.inl rfl) c node.id hn ht
    refine hk.mono (fun l m hl hm hpos => ⟨_, rfl, ?_⟩) fun _ => by simp [Core.withTimer]
    obtain rfl : l = clock := Option.some.inj (hl.symm.trans hc)
    refine mem_skiplistInsert.mpr (.inr (mem_skiplistRemove.mpr ⟨hm, fun e => ?_⟩))
    exact hoff (by rw [← e]; exact hpos)
  | @disarm n c clock id hn ht hc =>
    have hoff := ha n (.inr rfl) c id hn ht
    refine hk.mono (fun l m hl hm hpos => ⟨_, rfl, ?_⟩) fun _ => by simp
    obtain rfl : l = clock := Option.some.inj (hl.symm.trans hc)
    exact mem_skiplistRemove.mpr ⟨hm, fun e => hoff (by rw [← e]; exact hpos)⟩
  | @fire n c clock node tm hn ht hc hf =>
    -- the cursor has left the node before it is replaced
    have hids : (clock.map TmNode.id).Nodup := (hb.timed_some hc).ids
    intro p hp
    refine ⟨_, rfl, ?_⟩
    obtain rfl : skiplistNext clock node.id = p := Option.some.inj hp
    obtain hh | ⟨m, hm, hne, hh⟩ := skiplistNext_cases hids node.id
    · exact .inl hh
    · exact .inr ⟨m, mem_skiplistInsert.mpr (.inr (mem_skiplistRemove.mpr ⟨hm, hne⟩)), hh⟩
  | @schedule clock pos current hc hpos =>
    intro p hp
    obtain ⟨node, hhead, rfl, _⟩ := hpos p hp
    exact ⟨clock, hc, .inr ⟨node, List.mem_of_mem_head? hhead, rfl⟩⟩
  | boot hi =>
    intro p hp
    obtain ⟨l, hl, _⟩ := hk p hp
    rw [hb.timed.booted hi] at hl
    cases hl
  | park | shutdown =>
    intro p hp
    cases hp
  | @write n c data i =>
    obtain ⟨w, hw⟩ := k.onWire_eq c (data.take i)
    rw [hw]
    exact hk
  | @flush n c i =>
    obtain ⟨w, hw⟩ := k.onWire_eq c ((rwbDrainParam c.rwbSend).take i)
    rw [hw]
    exact hk
  | slot => exact hk
  | create | accept | leak | bounce | attach | refuse | established | disconnect | close
  | destroy | watch | unwatch | mute | rewatch | forget | openQueue | closeQueue | sendFlag
  | report | deliver | batch | noBatch | consume | reaped => exact hk

/-- The new node of a timer is not the one the cursor points at. -/
theorem CStep.offCursor (hs : CStep k a k') (hb : Base k) (hk : CursorOk k.tmClock k.tmPos)
    (ha : a ∈ activeTimerActs n) : k'.offCursor n := by
  have hfresh : k.tmPos ≠ some (.node k.nextNode) := by
    intro hpos
    obtain ⟨l, hl, hh | ⟨node, hnode, hid⟩⟩ := hk _ hpos
    · cases hh
    · have hlt := hb.timed.lt node (by rw [hl]; exact hnode)
      rw [← TmLink.node.inj hid] at hlt
      exact absurd hlt (Nat.lt_irrefl _)
  intro c id hn hid
  rcases ha with rfl | rfl | rfl
  · cases hs with
    | arm hm =>
      rw [Core.withTimer_heap] at hn
      cases hn
      cases hid
      exact hfresh
  · cases hs with
    | rearm hm =>
      rw [Core.withTimer_heap] at hn
      cases hn
      cases hid
      exact hfresh
  · cases hs with
    | @disarm _ d clock _ hm =>
      change Function.update k.heap n (some { d with timerNode := none }) n = some c at hn
      rw [Function.update_self] at hn
      cases hn
      cases hid

end Act

/-! ## Runs -/

/-- Only the application, a poll and a shutdown stop timers or change them. -/
theorem Call.timer_acts {c : Call} {n : ChannId} (h : .rearm n ∈ c.acts ∨ .disarm n ∈ c.acts) :
    c = .poll ∨ c = .mnetFini ∨ ∃ et value, c = .channActiveEvent (some n) et value := by
  cases c with
  | channActiveEvent m => cases m <;> simp_all [Call.acts, activeActs, activeSendActs, activeTimerActs]
  | channConnect m | channListen m | channClose m | channDisconnect m | channSend m | dgramSend m
  | channRecv m | dgramRecv m =>
    cases m <;> simp [Call.acts, connectActs, listenActs, sendActs] at h
  | mnetFini | poll => simp
  | _ => simp [Call.acts, resetActs, loopActs, timerActs, recordActs] at h

/-- The calls that spare the cursor keep it on a node of the list. -/
theorem Step.cursor (hx : Tame x) {i : Call × Ret} (h : Step x s i t) (hp : SparesCursor s i.1)
    (hb : Base s.core) (hk : CursorOk s.core.tmClock s.core.tmPos) :
    CursorOk t.core.tmClock t.core.tmPos := by
  obtain ⟨c, r⟩ := i
  have hsteps := apiCall_steps hx hb h
  have hall : (∀ n, .rearm n ∉ c.acts ∧ .disarm n ∉ c.acts) →
      CursorOk t.core.tmClock t.core.tmPos := by
    intro hno
    refine (hsteps.keeps (I := fun k => Base k ∧ CursorOk k.tmClock k.tmPos) ?_ ⟨hb, hk⟩).2
    intro a k k' ha hs hk
    refine ⟨hk.1.step hs, hs.cursor hk.1 hk.2 fun n he => ?_⟩
    obtain rfl | rfl := he
    · exact absurd ha (hno n).1
    · exact absurd ha (hno n).2
  by_cases hno : ∀ n, .rearm n ∉ c.acts ∧ .disarm n ∉ c.acts
  · exact hall hno
  obtain ⟨n, hn⟩ := not_forall.mp hno
  have hn' : .rearm n ∈ c.acts ∨ .disarm n ∈ c.acts := by
    by_contra hc
    exact hn ⟨fun h => hc (.inl h), fun h => hc (.inr h)⟩
  obtain rfl | rfl | ⟨et, value, rfl⟩ := Call.timer_acts hn'
  · -- a poll ends with the cursor put in place
    obtain ⟨_, _, h⟩ := returns_ret.mp h
    obtain ⟨k, k', k'', hsteps, hreap, hsched, hbatch⟩ := evtPoll_spec hb h
    have hb' := (hsteps.base hb).step hreap
    have hput : CursorOk k''.tmClock k''.tmPos := by
      cases hsched with
      | @schedule clock pos current hc hpos =>
        intro p hp
        obtain ⟨node, hhead, rfl, _⟩ := hpos p hp
        exact ⟨clock, hc, .inr ⟨node, List.mem_of_mem_head? hhead, rfl⟩⟩
    exact hbatch.cursor (hb'.step hsched) hput (by intro n he; cases he <;> contradiction)
  · obtain ⟨_, _, h⟩ := returns_ret.mp h
    obtain ⟨_, ht⟩ | ⟨_, k, hsteps, hdown⟩ := mnetFini_spec hx hb h
    · rw [ht]
      exact hk
    · generalize t.core = k' at hdown
      cases hdown
      intro p hp
      cases hp
  · obtain ⟨_, _, h⟩ := returns_ret.mp h
    obtain ⟨ch, hch, ⟨_, hst, _, h⟩ | ⟨rfl, hst, h⟩ | rfl⟩ := mnetChannActiveEvent_cases hx h
    · have hsend := activeSend_steps hch (ChannState.active_of_connected hst) h
      refine (hsend.keeps (I := fun k => Base k ∧ CursorOk k.tmClock k.tmPos) ?_ ⟨hb, hk⟩).2
      intro a k k' ha hs hk
      refine ⟨hk.1.step hs, hs.cursor hk.1 hk.2 fun m he => ?_⟩
      obtain rfl | rfl := he <;> simp [activeSendActs] at ha
    · have htimer := activeTimer_steps hch hst h
      have hoff : s.core.offCursor n := by
        intro c id hc hid
        rw [hch] at hc
        obtain rfl : ch = c := Option.some.inj hc
        rw [core_heap, Option.map_eq_some_iff] at hch
        obtain ⟨d, hd, rfl⟩ := hch
        exact (hp d hd).resolve_left hst id hid
      refine (htimer.keeps
        (I := fun k => Base k ∧ CursorOk k.tmClock k.tmPos ∧ k.offCursor n) ?_ ⟨hb, hk, hoff⟩).2.1
      intro a k k' ha hs hk
      refine ⟨hk.1.step hs, hs.cursor hk.1 hk.2.1 fun m he => ?_,
        hs.offCursor hk.1 hk.2.1 ha⟩
      obtain rfl : m = n := by
        obtain rfl | rfl := he <;> simpa [activeTimerActs] using ha
      exact hk.2.2
    · exact hk

/-- In a run that never stops or changes the timer the cursor points at, the cursor is always
NULL, the list head or a node of the list. -/
theorem cursor_valid (hx : Tame x) {l : List (Call × Ret)}
    (h : RunWhere x SparesCursor (Sys.start o e) l s) : CursorOk s.mnet.tmClock s.mnet.tmPos := by
  refine RunWhere.keeps (I := fun k => CursorOk k.tmClock k.tmPos) hx h ?_ fun _ _ _ hs hp hb hk =>
    hs.cursor hx hp hb hk
  intro p hp
  cases hp

/-- Two timers are due, and the first is handled without touching the second. -/
theorem cursor_valid_two : ∃ s : Sys Unit, CursorOk s.mnet.tmClock s.mnet.tmPos ∧
    s.mnet.tmPos = some (.node 1) := by
  have hrun : AfterWhere noExt SparesCursor [.mnetInit, .channOpen 1, .channOpen 1,
      .channActiveEvent (some 0) .timer 1, .channActiveEvent (some 1) .timer 1, .poll,
      .resultNext 5, .channActiveEvent (some 0) .timer 0] (Sys.start lateOracle ()) fun t =>
        t.mnet.tmPos = some (.node 1) := by decide +kernel
  obtain ⟨_, s, h, hpos⟩ := hrun.run
  exact ⟨s, cursor_valid tame_noExt h, hpos⟩

/-- Two timers are due, and the handler of the first stops the second. -/
theorem not_cursor_valid_cancelled : ∃ l s, Run noExt (Sys.start lateOracle ()) l s ∧
    ¬ CursorOk s.mnet.tmClock s.mnet.tmPos := by
  have hrun : After noExt [.mnetInit, .channOpen 1, .channOpen 1,
      .channActiveEvent (some 0) .timer 1, .channActiveEvent (some 1) .timer 1, .poll,
      .resultNext 5, .channActiveEvent (some 1) .timer 0] (Sys.start lateOracle ()) fun _ t =>
        t.mnet.tmPos = some (.node 1) ∧
          (t.mnet.tmClock.getD []).all (fun node => node.id ≠ 1) = true := by decide +kernel
  obtain ⟨_, s, h, hpos, hall⟩ := hrun.run
  refine ⟨_, s, h, fun hok => ?_⟩
  obtain ⟨l, hl, hh | ⟨node, hnode, hid⟩⟩ := hok _ hpos
  · cases hh
  · rw [hl] at hall
    have hne : node.id ≠ 1 := by simpa using List.all_eq_true.mp hall node hnode
    exact hne (TmLink.node.inj hid).symm

end MNet
