import MNet.Core.Run
import MNet.Lib.Within

/-! # What always returns

The converse of the specifications: from a state that keeps the base invariant, tearing a
channel down returns when nothing is cached for it, provided the callbacks it goes through
do. -/

namespace MNet
open MNet.Lib MNet.Lib.Exec

variable {ε : Type} {x : ExtTable ε} {s t : Sys ε} {n : ChannId}

/-- The callbacks a channel goes through to its end return. -/
structure Releasing (x : ExtTable ε) : Prop where
  disconnectCb : ∀ ctype n, Halts ((x ctype).disconnectCb n)
  closeCb : ∀ ctype n, Halts ((x ctype).closeCb n)

/-- So do those of any teardown; a filter need do so only for a channel without a socket. -/
structure Returning (x : ExtTable ε) : Prop extends Releasing x where
  filterFn : ∀ ctype n s, (∃ c, s.core.heap n = some c ∧ ¬ c.state.active) →
    Terminates ((x ctype).filterFn n) s

theorem releasing_noExt : Releasing noExt where
  disconnectCb _ _ := halts_pure ()
  closeCb _ _ := halts_pure ()

theorem returning_noExt : Returning noExt where
  toReleasing := releasing_noExt
  filterFn _ _ _ _ := halts_pure true _

/-- Nothing is cached for `n`. -/
def Emptied (heap : Heap) (n : ChannId) : Prop := ∀ c, heap n = some c → c.rwbSend = []

/-! ## Primitives -/

theorem halts_record (e : SysEvent) : Halts (record e : M ε Unit) := halts_modify _

theorem halts_modifyMnet (f : Mnet → Mnet) : Halts (modifyMnet f : M ε Unit) := halts_modify _

theorem halts_nextTick : Halts (nextTick : M ε Nat) :=
  (halts_read _).bind fun _ => (halts_modify _).bind fun _ => halts_pure _

theorem halts_sysRet : Halts (sysRet : M ε Int) :=
  (halts_read _).bind fun _ => .bind halts_nextTick fun _ => (halts_modify _).bind fun _ => halts_pure _

theorem halts_sysClose (fd : Int) : Halts (sysClose fd : M ε Unit) :=
  .bind halts_sysRet fun _ => (halts_modify _).bind fun _ => halts_record _

theorem halts_sysSockError (fd : Int) : Halts (sysSockError fd : M ε (Int × Int)) :=
  (halts_read _).bind fun _ => .bind halts_sysRet fun _ => halts_pure _

theorem terminates_deref {c : CChann} (h : s.core.heap n = some c) :
    Terminates (deref n : M ε Chann) s := by
  rw [core_heap, Option.map_eq_some_iff] at h
  obtain ⟨c, hc, _⟩ := h
  exact ⟨c, s, returns_deref.mpr ⟨hc, rfl⟩⟩

theorem terminates_modifyChann {c : CChann} (h : s.core.heap n = some c) (f : Chann → Chann) :
    Terminates (modifyChann n f) s :=
  (terminates_deref h).bind fun _ _ _ => halts_modify _ _

theorem halts_sysEpollCtl (op : CtlOp) (fd : Int) (reg : EpollReg) :
    Halts (sysEpollCtl op fd reg : M ε Int) :=
  .bind halts_nextTick fun _ => (halts_read _).bind fun _ => Halts.ite
    ((halts_modify _).bind fun _ => (halts_record _).bind fun _ => halts_pure _)
    ((halts_modify _).bind fun _ => (halts_record _).bind fun _ => halts_pure _)

theorem evtCtl_terminates {c : CChann} (hn : s.core.heap n = some c) (op : CtlOp)
    (events : BitVec 32) : Terminates (evtCtl n op events) s := by
  have hrequest : Terminates (evtRequest n op events) s := by
    refine (terminates_deref hn).bind fun d a hd => ?_
    obtain ⟨_, rfl⟩ := returns_deref.mp hd
    exact (halts_read _ _).bind fun _ _ _ => .ite (fun _ => halts_sysEpollCtl _ _ _ _)
      fun _ => halts_pure _ _
  refine hrequest.bind fun r a hr => .ite (fun _ => halts_pure _ _) fun _ => ?_
  have ha : a.core.heap n = s.core.heap n := by
    simp only [evtRequest, returns_bind, returns_deref, returns_readMnet] at hr
    obtain ⟨_, _, ⟨_, rfl⟩, _, _, ⟨_, rfl⟩, hr⟩ := hr
    rcases returns_ite.mp hr with ⟨_, hr⟩ | ⟨_, hr⟩
    · obtain ⟨_, _, ha⟩ | ⟨_, ha, _⟩ := core_sysEpollCtl hr <;> rw [ha]
    · rw [(returns_pure.mp hr).2]
  exact (terminates_modifyChann (ha.trans hn) _).bind fun _ _ _ => halts_pure _ _

theorem evtAdd_terminates {c : CChann} (hn : s.core.heap n = some c) (set : EvtSet) :
    Terminates (evtAdd n set) s := by
  refine (terminates_deref hn).bind fun d a hd => ?_
  obtain ⟨_, rfl⟩ := returns_deref.mp hd
  exact evtCtl_terminates hn _ _

theorem evtDel_terminates {c : CChann} (hn : s.core.heap n = some c) (set : EvtSet) :
    Terminates (evtDel n set) s := by
  refine (terminates_deref hn).bind fun d a hd => ?_
  obtain ⟨_, rfl⟩ := returns_deref.mp hd
  exact evtCtl_terminates hn _ _

theorem halts_callback {op : ExtOp} {cb : ChannId → M ε Unit} (h : Halts (cb n)) :
    Halts (callback op cb n) := (halts_record _).bind fun _ => h

theorem terminates_forSome {p : Option ChannId} {f : Chann → Chann}
    (h : ∀ m, p = some m → s.core.heap m ≠ none) :
    Terminates (Exec.forSome p fun m => modifyChann m f) s := by
  cases p with
  | none => exact halts_pure () s
  | some m =>
    obtain ⟨c, hc⟩ := Option.ne_none_iff_exists'.mp (h m rfl)
    exact terminates_modifyChann hc f

theorem halts_disconnectCb (hr : Releasing x) (ctype : Nat) : Halts ((opsConfig (opsOf x) ctype).disconnectCb n) := by
  unfold opsConfig
  split
  · exact halts_pure ()
  · exact hr.disconnectCb ctype n

theorem halts_closeCb (hr : Releasing x) (ctype : Nat) : Halts ((opsConfig (opsOf x) ctype).closeCb n) := by
  unfold opsConfig
  split
  · exact halts_pure ()
  · exact hr.closeCb ctype n

theorem terminates_filterFn (hr : Returning x) {c : CChann} (ctype : Nat) (hn : s.core.heap n = some c)
    (ha : ¬ c.state.active) : Terminates ((extConfig x ctype).filterFn n) s := by
  unfold extConfig
  split
  · exact halts_pure true s
  · exact hr.filterFn ctype n s ⟨c, hn, ha⟩

/-! ## Tearing down -/

theorem destroyCache_terminates {c : CChann} (hn : s.core.heap n = some c) (hc : c.rwbSend = []) :
    Terminates (destroyCache n) s := by
  refine (terminates_deref hn).bind fun d a hd => ?_
  obtain ⟨hd, rfl⟩ := returns_deref.mp hd
  rw [core_heap_some hd] at hn
  cases hn
  have hnil : d.rwbSend = [] := hc
  rw [hnil]
  exact terminates_modifyChann (core_heap_some hd) _

/-- What is cached for `n` stays. -/
abbrev SameCache (n : ChannId) (s t : Sys ε) : Prop :=
  (t.core.heap n).map CChann.rwbSend = (s.core.heap n).map CChann.rwbSend

theorem channDisconnectSocket_returns (hr : Releasing x)
    (hkeep : ∀ ctype a, a.heap = s.heap → a.nextChann = s.nextChann →
      Within (SameCache n) ((opsConfig (opsOf x) ctype).disconnectCb n) a) {c : CChann}
    (hn : s.core.heap n = some c) (hc : c.rwbSend = []) :
    Terminates (channDisconnectSocket (opsOf x) n) s := by
  refine (terminates_deref hn).bind fun d a hd => ?_
  obtain ⟨hd, rfl⟩ := returns_deref.mp hd
  refine .ite (fun _ => ?_) fun _ => halts_pure _ _
  refine (halts_callback (halts_disconnectCb hr _) _).bind fun _ b hcb => ?_
  simp only [callback, returns_bind, returns_record] at hcb
  obtain ⟨_, _, rfl, hcb⟩ := hcb
  have hb : (b.core.heap n).map CChann.rwbSend = (a.core.heap n).map CChann.rwbSend := by
    have hsame := hkeep d.ctype _ (by rfl) (by rfl) _ _ hcb
    exact hsame
  rw [hn] at hb
  obtain ⟨e, hbn, he⟩ := Option.map_eq_some_iff.mp hb
  refine (terminates_deref hbn).bind fun _ b' hd => ?_
  obtain ⟨_, rfl⟩ := returns_deref.mp hd
  refine (halts_sysClose _ _).bind fun _ f hclose => ?_
  have hfn : f.core.heap n = some e := by rw [core_sysClose hclose]; exact hbn
  refine (destroyCache_terminates hfn (he.trans hc)).bind fun _ g hdes => ?_
  obtain ⟨c', _, _, hg⟩ := destroyCache_spec hdes
  refine (terminates_modifyChann (c := { c'.core with rwbSend := [] }) ?_ _).bind fun _ _ _ =>
    halts_pure _ _
  rw [hg, Core.set_heap, Function.update_self]

theorem channDisconnectSocket_terminates (hx : Tame x) (hr : Releasing x) {c : CChann}
    (hn : s.core.heap n = some c) (hc : c.rwbSend = []) :
    Terminates (channDisconnectSocket (opsOf x) n) s := by
  refine channDisconnectSocket_returns hr (fun ctype a _ _ => ?_) hn hc
  intro u t h
  rw [SameCache, quiet_disconnectCb hx.ops ctype n a u t h]

/-- Disconnecting returns only when nothing is cached, before and after. -/
theorem channDisconnectSocket_emptied (hx : Tame x) (hb : Base s.core) {r : Int}
    (h : Returns (channDisconnectSocket (opsOf x) n) s r t) :
    Emptied s.core.heap n ∧ Emptied t.core.heap n := by
  obtain ⟨c, hc, ⟨_, _, hsp, ht⟩ | ⟨hno, _, ht⟩⟩ := channDisconnectSocket_spec hx.ops hb h
  · have hn := core_heap_some hc
    have hnil : c.rwbSend = [] := ((hb.cache n c.core hn).1.spent_iff).mp hsp
    refine ⟨fun d hd => ?_, fun d hd => ?_⟩
    · rw [hn] at hd
      cases hd
      exact hnil
    · rw [ht, Core.set_heap, Function.update_self] at hd
      cases hd
      rfl
  · rw [ht]
    have hnil : Emptied s.core.heap n := fun d hd => by
      rw [core_heap_some hc] at hd
      cases hd
      exact (hb.cache n c.core (core_heap_some hc)).2 (ChannState.val_lt_of_not_active hno)
    exact ⟨hnil, hnil⟩

theorem channMsg_terminates (hr : Returning x) {c : CChann} (hn : s.core.heap n = some c)
    (ha : ¬ c.state.active) (event : ChannEvent) (q : Option ChannId) (err : Int) :
    Terminates (channMsg x n event q err) s := by
  refine (terminates_modifyChann hn _).bind fun _ a hmod => ?_
  obtain ⟨d, hd, _, _, _, hset⟩ := core_modifyChann hmod
  rw [core_heap_some hd] at hn
  cases hn
  have han : a.core.heap n = some { d.core with msg := msgOf n d event q err } := by
    rw [hset, Core.set_heap, Function.update_self]
    rfl
  refine (terminates_deref han).bind fun e a' he => ?_
  obtain ⟨_, rfl⟩ := returns_deref.mp he
  exact terminates_filterFn hr _ han ha

theorem channMsg_inactive (hx : Tame x) (hb : Base s.core) {c : CChann}
    (hn : s.core.heap n = some c) (ha : ¬ c.state.active) {event : ChannEvent}
    {q : Option ChannId} {err : Int} {pass : Bool} (h : Returns (channMsg x n event q err) s pass t) :
    ∃ d, t.core.heap n = some d ∧ ¬ d.state.active := by
  obtain ⟨d, hd, _, hs⟩ := channMsg_spec hx hb h
  rw [core_heap_some hd] at hn
  cases hn
  obtain ⟨e, he, hea, _⟩ := hs.keeps_inactive (n := n) (c := { d.core with msg := msgOf n d event q err })
    (by rw [Core.set_heap, Function.update_self]) ha
  exact ⟨e, he, hea⟩

theorem pushDis_terminates {c : CChann} (hn : s.core.heap n = some c) :
    Terminates (pushDis n) s :=
  (halts_read _ _).bind fun _ a ha => by
    obtain ⟨_, rfl⟩ := returns_readMnet.mp ha
    exact (terminates_modifyChann hn _).bind fun _ _ _ => halts_modifyMnet _ _

theorem channFail_terminates (hx : Tame x) (hr : Returning x) (hb : Base s.core) {c : CChann}
    (hn : s.core.heap n = some c) (hc : c.rwbSend = []) : Terminates (channFail x n) s := by
  refine (channDisconnectSocket_terminates hx hr.toReleasing hn hc).bind fun r a hdis => ?_
  obtain ⟨d, hd, hda⟩ := channDisconnectSocket_inactive hx.ops hb hdis
  have hba := (channDisconnectSocket_steps hx.ops hb hdis).base hb
  refine (halts_read _ _).bind fun e a' he => ?_
  obtain ⟨_, rfl⟩ := returns_read.mp he
  refine (channMsg_terminates hr hd hda _ _ _).bind fun pass b hmsg => ?_
  obtain ⟨f, hf, _⟩ := channMsg_inactive hx hba hd hda hmsg
  exact .ite (fun _ => pushDis_terminates hf) fun _ => halts_pure _ _

theorem emit_terminates (hr : Returning x) {c : CChann} (hn : s.core.heap n = some c)
    (ha : ¬ c.state.active) (event : ChannEvent) (q : Option ChannId) (err : Int) :
    Terminates (emit x n event q err) s :=
  (channMsg_terminates hr hn ha event q err).bind fun _ _ _ => halts_pure _ _

theorem channCloseSocket_returns (hr : Releasing x)
    (hkeep : ∀ ctype a, a.heap = s.heap → a.nextChann = s.nextChann →
      Within (fun s t => s.core.heap n ≠ none → t.core.heap n ≠ none) ((opsConfig (opsOf x) ctype).closeCb n) a)
    {c : CChann}
    (hn : s.core.heap n = some c) : Terminates (channCloseSocket (opsOf x) n) s := by
  refine (terminates_deref hn).bind fun d a hd => ?_
  obtain ⟨hd, rfl⟩ := returns_deref.mp hd
  refine .ite (fun _ => ?_) fun _ => halts_pure _ _
  refine (halts_callback (halts_closeCb hr _) _).bind fun _ b hcb => ?_
  simp only [callback, returns_bind, returns_record] at hcb
  obtain ⟨_, _, rfl, hcb⟩ := hcb
  have hb : a.core.heap n ≠ none → b.core.heap n ≠ none := by
    have hstays := hkeep d.ctype _ (by rfl) (by rfl) _ _ hcb
    exact hstays
  obtain ⟨e, hbn⟩ := Option.ne_none_iff_exists'.mp (hb (by rw [hn]; simp))
  refine (halts_read _ _).bind fun _ b' hb' => ?_
  obtain ⟨_, rfl⟩ := returns_readMnet.mp hb'
  refine (terminates_modifyChann hbn _).bind fun _ e hmod => ?_
  obtain ⟨_, _, hen, _⟩ := core_modifyChann hmod
  refine (halts_modifyMnet _ _).bind fun _ f hf => ?_
  obtain ⟨hheap, _⟩ := core_modifyMnet hf
  rw [← hheap] at hen
  exact terminates_modifyChann (core_heap_some hen) _

theorem channCloseSocket_terminates (hx : Tame x) (hr : Releasing x) {c : CChann}
    (hn : s.core.heap n = some c) : Terminates (channCloseSocket (opsOf x) n) s := by
  refine channCloseSocket_returns hr (fun ctype a _ _ => ?_) hn
  intro u t h ha
  rwa [quiet_closeCb hx.ops ctype n a u t h]

theorem unlinkChann_terminates
    (hreg : Registered s.core.heap s.core.channs s.core.channCount s.core.nextChann) {c : CChann}
    (hn : s.core.heap n = some c) : Terminates (unlinkChann n) s := by
  refine (terminates_deref hn).bind fun d a hd => ?_
  obtain ⟨hd, rfl⟩ := returns_deref.mp hd
  have hnb : ∀ m, d.next = some m ∨ d.prev = some m → a.core.heap m ≠ none :=
    fun m hm => (hreg.neighbours (core_heap_some hd) hm).2
  refine (terminates_forSome fun m hm => hnb m (.inl hm)).bind fun _ b hnext => ?_
  obtain ⟨_, _, hbc⟩ := core_forSome (g := fun e => { e with prev := d.prev }) (fun _ => rfl) hnext
  cases hp : d.prev with
  | none => exact halts_modifyMnet _ _
  | some m =>
    have hm : b.core.heap m ≠ none := by
      rw [hbc, ne_eq, alterAt_eq_none]
      exact hnb m (.inr hp)
    obtain ⟨e, he⟩ := Option.ne_none_iff_exists'.mp hm
    exact terminates_modifyChann he _

/-- The channels left after the first one is freed are fewer. -/
theorem Registered.chain_lt {k k' : Core} (hr : Registered k.heap k.channs k.channCount k.nextChann)
    (hr' : Registered k'.heap k'.channs k'.channCount k'.nextChann) {n : ChannId} {p : Option ChannId}
    (hp : k.channs = some n) (hp' : k'.channs = p) (hn : k'.heap n = none)
    (hs : ∀ m, k.heap m = none → k'.heap m = none) {l l' : List ChannId}
    (hl : Chain (nextOf k.heap) (some n) l) (hl' : Chain (nextOf k'.heap) p l') :
    l'.length < l.length := by
  obtain ⟨all, hall, hmem, _⟩ := hr.list
  obtain ⟨all', hall', hmem', _⟩ := hr'.list
  rw [hp] at hall
  rw [hp'] at hall'
  obtain rfl := hall.chain.unique hl
  obtain rfl := hall'.chain.unique hl'
  have hnl : n ∈ all := by
    obtain ⟨_, rfl, _⟩ := hl.eq_cons
    simp
  have hsub : all' ⊆ all.erase n := by
    intro m hm
    have hne := (hmem' m).mpr hm
    refine hall.nodup.mem_erase_iff.mpr ⟨fun e => hne (e ▸ hn), (hmem m).mp fun h0 => hne (hs m h0)⟩
  have hle := hall'.nodup.length_le_of_subset hsub
  rw [List.length_erase_of_mem hnl] at hle
  have := List.length_pos_of_mem hnl
  omega

theorem derefClock_terminates {clock : List TmNode} (h : s.core.tmClock = some clock) :
    Terminates (derefClock : M ε (List TmNode)) s :=
  (halts_read _ _).bind fun p a hp => by
    obtain ⟨rfl, rfl⟩ := returns_readMnet.mp hp
    exact ⟨clock, a, returns_require.mpr ⟨h, rfl⟩⟩

/-- A timer can be killed when its node is in the clock. -/
theorem tmKill_terminates {c : CChann} (hn : s.core.heap n = some c)
    (ht : ∀ id, c.timerNode = some id → ∃ m ∈ s.core.tmClock.getD [], m.id = id) :
    Terminates (tmKill n) s := by
  refine (terminates_deref hn).bind fun d a hd => ?_
  obtain ⟨hd, rfl⟩ := returns_deref.mp hd
  rw [core_heap_some hd] at hn
  cases hn
  cases hid : d.timerNode with
  | none => exact halts_pure _ _
  | some id =>
    obtain ⟨m, hm, hmid⟩ := ht id hid
    obtain ⟨clock, hclock⟩ : ∃ clock, a.core.tmClock = some clock := by
      cases hc : a.core.tmClock with
      | none => simp [hc] at hm
      | some clock => exact ⟨clock, rfl⟩
    rw [hclock] at hm
    obtain ⟨node, hnode⟩ : ∃ node, skiplistFind clock id = some node :=
      Option.isSome_iff_exists.mp (skiplistFind_isSome.mpr ⟨m, hm, hmid⟩)
    have hfind : Terminates (derefNode id : M ε TmNode) a :=
      (derefClock_terminates hclock).bind fun l b hl => by
        obtain ⟨hl, rfl⟩ := derefClock_spec hl
        rw [hclock] at hl
        cases hl
        exact ⟨node, b, returns_require.mpr ⟨hnode, rfl⟩⟩
    refine hfind.bind fun _ b hb => ?_
    obtain ⟨rfl, _⟩ := derefNode_spec hb
    have hremove : Terminates (removeNode id : M ε Unit) b :=
      (derefClock_terminates hclock).bind fun _ _ _ => halts_modifyMnet _ _
    refine hremove.bind fun _ e he => ?_
    obtain ⟨_, _, hheap, _⟩ := removeNode_spec he
    have hen : e.heap n = some d := by rw [hheap]; exact hd
    exact terminates_modifyChann (core_heap_some hen) _

theorem channDestroy_terminates
    (hreg : Registered s.core.heap s.core.channs s.core.channCount s.core.nextChann)
    (htimed : Timed s.core.heap s.core.tmClock s.core.nextNode s.core.isInit) {c : CChann}
    (hn : s.core.heap n = some c) (hc : c.rwbSend = []) : Terminates (channDestroy n) s := by
  refine (terminates_deref hn).bind fun d a hd => ?_
  obtain ⟨hd, rfl⟩ := returns_deref.mp hd
  refine .ite (fun _ => ?_) fun _ => halts_pure _ _
  refine (unlinkChann_terminates hreg hn).bind fun _ b hun => ?_
  obtain ⟨c', hc', hbc⟩ := unlinkChann_spec hun
  rw [hn] at hc'
  cases hc'
  have hbn : b.core.heap n = some c := by
    rw [hbc, Core.unlinked_heap fun i hi => (hreg.neighbours hn hi).1]
    exact hn
  refine (destroyCache_terminates hbn hc).bind fun _ e hdes => ?_
  obtain ⟨d', hd', _, hec⟩ := destroyCache_spec hdes
  rw [core_heap_some hd'] at hbn
  cases hbn
  have hen : e.core.heap n = some { d'.core with rwbSend := [] } := by
    rw [hec, Core.set_heap, Function.update_self]
  refine (tmKill_terminates hen fun id hid => ?_).bind fun _ _ _ =>
    (halts_modifyMnet _ _).bind fun _ _ _ => halts_modify _ _
  obtain ⟨m, hm, hmid, _⟩ := htimed.node n d'.core id hn hid
  refine ⟨m, ?_, hmid⟩
  rw [hec, show (b.core.set n { d'.core with rwbSend := [] }).tmClock = b.core.tmClock from rfl, hbc]
  exact hm

end MNet
