import MNet.Core.Progress
import MNet.Ringing

/-! # The end of a channel

The callback protocol up to its last callback. Whatever other callbacks may disconnect, a
channel goes through `disconnect_cb` and `close_cb` to its end as long as nothing is cached for
it; the timers do not stand in the way, as the clockwork is kept. -/

namespace MNet
open MNet.Lib MNet.Lib.Exec

variable {ε : Type} {x : ExtTable ε} {s t : Sys ε} {n : ChannId} {c : Chann}

/-! ## What is cached -/

theorem emptied_core : Emptied s.core.heap n ↔ ∀ c, s.heap n = some c → c.rwbSend = [] := by
  unfold Emptied
  simp only [core_heap, Option.map_eq_some_iff, forall_exists_index, and_imp, forall_apply_eq_imp_iff₂]
  rfl

/-- What leaves the data alone caches nothing. -/
theorem Leaves.emptied (h : Resting s t) (hf : Fresh s) (he : Emptied s.core.heap n) : Emptied t.core.heap n := by
  rw [emptied_core] at he ⊢
  intro d hd
  by_cases hn : n < s.nextChann
  · have hstock := h.chann n hn
    rw [hd] at hstock
    obtain ⟨c, hc, hcd⟩ := Option.map_eq_some_iff.mp hstock.symm
    have hcache : c.rwbSend = d.rwbSend := congrArg (·.2.2.1) hcd
    rw [← hcache]
    exact he c hc
  · exact congrArg (·.2.2.1) ((h.blank hf).2 n d (Nat.le_of_not_lt hn) hd)

theorem HungUp.emptied {m : ChannId} (h : HungUp m s t) (hf : Fresh s) (he : Emptied s.core.heap n) :
    Emptied t.core.heap n := by
  obtain ⟨a, c, ha, hc, ht⟩ := h
  have hf' : Fresh (s.recorded (.extOp .disconnectCb m)) := hf
  have hea := emptied_core.mp (ha.emptied hf' he)
  refine ht.emptied ((ha.fresh hf').set hc _) (emptied_core.mpr fun d hd => ?_)
  have hd : Function.update a.heap m (some { c with rwbSend := [] }) n = some d := hd
  by_cases hn : n = m
  · rw [hn, Function.update_self, Option.some.injEq] at hd
    rw [← hd]
  · rw [Function.update_of_ne hn] at hd
    exact hea d hd

theorem settling_emptied (h : Settling s t) (hf : Fresh s) (he : Emptied s.core.heap n) :
    Emptied t.core.heap n := by
  have hboth : Fresh t ∧ Emptied t.core.heap n := by
    induction h with
    | refl => exact ⟨hf, he⟩
    | tail _ hstep ih =>
      obtain ⟨hfa, hea⟩ := ih
      obtain hr | ⟨m, hup⟩ := hstep
      · exact ⟨hr.fresh hfa, hr.emptied hfa hea⟩
      · exact ⟨(hup.apart hfa).fresh, hup.emptied hfa hea⟩
  exact hboth.2

/-- Freeing one channel leaves the caches of the others. -/
theorem Destroyed.emptied {m : ChannId} (h : Destroyed m c s t) (he : Emptied s.core.heap n) :
    Emptied t.core.heap n := by
  rw [emptied_core] at he ⊢
  intro d hd
  have hn : n ≠ m := (h.kept hd).1
  have hbare := h.bare n hn
  rw [hd] at hbare
  obtain ⟨c, hc, hcd⟩ := Option.map_eq_some_iff.mp hbare.symm
  have hcache : c.bare.rwbSend = d.bare.rwbSend := congrArg Chann.rwbSend hcd
  exact hcache.symm.trans (he c hc)

/-! ## To the end of a channel -/

/-- What holds between calls, with nothing cached for the channels in `N`. -/
structure Closable (N : Set ChannId) (s : Sys ε) : Prop where
  ordered : Ordered s
  geared : Geared s
  emptied : ∀ n ∈ N, Emptied s.core.heap n

section

variable (hx : Obedient x) (hm : Modest x) {N : Set ChannId}
include hx hm

theorem Closable.disconnect {r : Int} (hs : Closable N s)
    (h : Returns (channDisconnectSocket (opsOf x) n) s r t) : Closable N t where
  ordered := channDisconnectSocket_ordered hx h hs.ordered
  geared := hs.geared.apart (settling_apart (hm.settling_disconnect _ _ h) hs.geared.fresh)
  emptied m hm' := settling_emptied (hm.settling_disconnect _ _ h) hs.geared.fresh (hs.emptied m hm')

theorem Closable.close {u : Unit} (hs : Closable N s)
    (hdown : ∀ c, s.heap n = some c → ¬ (0 < c.fd ∧ c.state.active))
    (h : Returns (channCloseSocket (opsOf x) n) s u t) : Closable N t where
  ordered := channCloseSocket_ordered hx hdown h hs.ordered
  geared := hs.geared.apart (settling_apart (hm.settling_channCloseSocket _ _ h) hs.geared.fresh)
  emptied m hm' := settling_emptied (hm.settling_channCloseSocket _ _ h) hs.geared.fresh (hs.emptied m hm')

omit hm in
theorem Closable.destroy {u : Unit} (hs : Closable N s) (h : Returns (channDestroy n) s u t) :
    Closable N t where
  ordered := Move.ordered hx (.destroy h) (by simp) hs.ordered
  geared := hs.geared.posts (posts_channDestroy (A := {.free n}) rfl _ _ h) (by simp)
  emptied m hm' := by
    obtain ⟨c, _, ⟨_, rfl⟩ | hdes⟩ := channDestroy_cases h
    · exact hs.emptied m hm'
    · exact hdes.emptied (hs.emptied m hm')

variable (hr : Releasing x)
include hr

omit hx in
/-- A channel that exists and has nothing cached can be disconnected. -/
theorem Closable.disconnect_terminates (hs : Closable N s) (hn : n ∈ N) (hc : s.heap n = some c) :
    Terminates (channDisconnectSocket (opsOf x) n) s := by
  refine channDisconnectSocket_returns hr (fun ctype a hheap hnext => ?_) (core_heap_some hc)
    (hs.emptied n hn _ (core_heap_some hc))
  rw [opsConfig_opsOf]
  intro u b h
  have hlt : n < a.nextChann := hnext ▸ hs.geared.fresh.lt hc
  have hstock := congrArg (Option.map fun p : Int × Int × RwbHead × Option NodeId => p.2.2.1)
    ((hm.disconnectCb ctype n a u b h).chann n hlt)
  rw [Option.map_map, Option.map_map] at hstock
  simp only [SameCache, core_heap, Option.map_map]
  exact hstock

omit hm in
/-- A channel that exists can be closed. -/
theorem Closable.close_terminates (hc : s.heap n = some c) :
    Terminates (channCloseSocket (opsOf x) n) s := by
  refine channCloseSocket_returns hr (fun ctype a _ _ => ?_) (core_heap_some hc)
  rw [opsConfig_opsOf]
  intro u b h ha
  have hbones := (aside_cb hx ctype .closeCb (by decide) (by decide) u b h).bones n
  rw [core_heap, ne_eq, Option.map_eq_none_iff] at ha ⊢
  intro hb
  rw [hb] at hbones
  exact ha (Option.map_eq_none_iff.mp hbones.symm)

theorem Closable.finiLoop {fuel : Nat} {p : Option ChannId} {l : List ChannId} (hs : Closable Set.univ s)
    (hp : s.mnet.channs = p) (hl : Chain (nextOf s.core.heap) p l) (hlen : l.length ≤ fuel) :
    Terminates (finiLoop x fuel p) s := by
  induction fuel generalizing s p l with
  | zero =>
    cases hl with
    | nil => exact halts_pure () s
    | cons => simp at hlen
  | succ fuel ih =>
    cases p with
    | none => exact halts_pure () s
    | some n =>
      obtain ⟨w, hw⟩ := hs.ordered
      obtain ⟨all, hall, hmem, _⟩ := hw.obeys.reg.list
      have hn : s.core.heap n ≠ none := by
        rw [hp] at hall
        obtain ⟨_, rfl, _⟩ := hall.chain.eq_cons
        exact (hmem n).mpr (by simp)
      rw [core_heap, ne_eq, Option.map_eq_none_iff] at hn
      obtain ⟨c, hc⟩ := Option.ne_none_iff_exists'.mp hn
      refine (terminates_deref (core_heap_some hc)).bind fun c' s' hd => ?_
      obtain ⟨hd, rfl⟩ := returns_deref.mp hd
      obtain rfl : c = c' := Option.some.inj (hc.symm.trans hd)
      refine (hs.disconnect_terminates hm hr trivial hc).bind fun _ a hdis => ?_
      obtain ⟨_, ⟨c₁, hc₁, _⟩, _⟩ := channDisconnectSocket_next hx hdis hc
      have ha := hs.disconnect hx hm hdis
      refine (Closable.close_terminates hx hr hc₁).bind fun _ b hclose => ?_
      obtain ⟨_, ⟨c₂, hc₂, _, hst⟩, _⟩ := channCloseSocket_next hx hclose hc₁
      have hb := ha.close hx hm (fun _ => channDisconnectSocket_down hdis) hclose
      obtain ⟨v, hv⟩ := hb.ordered
      refine (channDestroy_terminates hv.obeys.reg hb.geared.timed (core_heap_some hc₂)
        (hb.emptied n trivial _ (core_heap_some hc₂))).bind fun _ d hdes => ?_
      obtain ⟨hod, hhead, hgone, hfree⟩ := finiRound_ordered hx hp hc hdis hclose hdes hs.ordered
      obtain ⟨w', hw'⟩ := hod
      obtain ⟨l', hl', _⟩ := hw'.obeys.reg.list
      rw [hhead] at hl'
      have hlt : l'.length < l.length := by
        refine hw.obeys.reg.chain_lt hw'.obeys.reg hp hhead ?_ (fun m hm => ?_) hl hl'.chain
        · rw [core_heap, hgone]
          rfl
        · rw [core_heap, Option.map_eq_none_iff] at hm ⊢
          exact hfree m hm
      exact ih (hb.destroy hx hdes) hhead hl'.chain (by omega)

/-- With nothing cached, `mnet_fini` comes to its end. -/
theorem Closable.fini (hs : Closable Set.univ s) : Terminates (mnetFini x) s := by
  obtain ⟨w, hw⟩ := hs.ordered
  obtain ⟨l, hl, hmem, _⟩ := hw.obeys.reg.list
  have hlen : l.length ≤ s.nextChann + 1 := by
    have hsub : l ⊆ List.range s.nextChann :=
      fun m hm => List.mem_range.mpr (hw.obeys.reg.lt m ((hmem m).mpr hm))
    have hle := hl.nodup.length_le_of_subset hsub
    rw [List.length_range] at hle
    exact Nat.le_succ_of_le hle
  refine (halts_read _ _).bind fun _ a ha => ?_
  obtain ⟨rfl, rfl⟩ := returns_readMnet.mp ha
  refine .ite (fun _ => ?_) fun _ => halts_pure _ _
  refine (halts_read _ _).bind fun _ b hb => ?_
  obtain ⟨rfl, rfl⟩ := returns_readMnet.mp hb
  refine (halts_read _ _).bind fun _ e he => ?_
  obtain ⟨rfl, rfl⟩ := returns_read.mp he
  refine (hs.finiLoop hx hm hr rfl hl.chain hlen).bind fun _ _ _ => ?_
  exact ((halts_modify _).bind fun _ => halts_modifyMnet _) _

/-- With nothing cached for it, a channel is closed. -/
theorem Closable.channClose (hs : Closable {n} s) (hc : s.heap n = some c) :
    Ends (mnetChannClose x (some n)) s fun _ t => Ordered t ∧ t.phase n = .gone := by
  have hgone : ∀ {a : Sys ε} {d : Chann}, a.heap n = some d → d.state = .closed → a.phase n = .gone := by
    intro a d hd hst
    rw [Sys.phase_some hd, Chann.phase, hst]
  have hterm : Terminates (mnetChannClose x (some n)) s := by
    refine (terminates_deref (core_heap_some hc)).bind fun _ a hd => ?_
    obtain ⟨hd, rfl⟩ := returns_deref.mp hd
    refine .ite (fun _ => ?_) fun _ => halts_pure _ _
    refine (hs.disconnect_terminates hm hr rfl hd).bind fun _ b hdis => ?_
    obtain ⟨_, ⟨c₁, hc₁, _⟩, _⟩ := channDisconnectSocket_next hx hdis hd
    exact Closable.close_terminates hx hr hc₁
  obtain ⟨u, t, h⟩ := hterm
  refine ⟨u, t, h, ?_⟩
  simp only [mnetChannClose, returns_bind, returns_deref, and_assoc, exists_and_left, exists_eq_left] at h
  obtain ⟨d, hd, h⟩ := h
  rcases returns_ite.mp h with ⟨_, h⟩ | ⟨hno, h⟩
  · obtain ⟨_, a, hdis, hclose⟩ := returns_bind.mp h
    obtain ⟨_, ⟨c₁, hc₁, _⟩, _⟩ := channDisconnectSocket_next hx hdis hd
    obtain ⟨_, ⟨c₂, hc₂, _, hst⟩, _⟩ := channCloseSocket_next hx hclose hc₁
    have ha := hs.disconnect hx hm hdis
    exact ⟨(ha.close hx hm (fun _ => channDisconnectSocket_down hdis) hclose).ordered, hgone hc₂ hst⟩
  · rw [(returns_pure.mp h).2]
    have hst : d.state = .closed := by
      revert hno
      cases d.state <;> decide
    exact ⟨hs.ordered, hgone hd hst⟩

end

/-! ## Runs -/

theorem Run.ordered_geared (hx : Obedient x) (hm : Modest x) {o : Oracle} {e : ε} {l : List (Call × Ret)}
    (h : Run x (Sys.start o e) l s) : Ordered s ∧ Geared s := by
  refine Path.keeps (I := fun s => Ordered s ∧ Geared s) h (fun a i b hs hi => ?_)
    ⟨ordered_start o e, geared_start o e⟩
  exact ⟨hs.ordered hx hi.1, hs.geared hm hx hi.1 hi.2⟩

/-- A stream type with no behaviour of its own, but for what its `connect_cb` does. -/
def streamExt (connectCb : ChannId → M Unit Unit) : ExtTable Unit := fun _ =>
  { internalExt CHANN_TYPE_STREAM with typeFn := fun _ => CHANN_TYPE_STREAM, connectCb := connectCb }

/-- The type that hangs up as soon as it connects. -/
def hangUpExt : ExtTable Unit :=
  streamExt fun n => mnetChannDisconnect (streamExt extOpCb) (some n)

theorem obedient_streamExt {connectCb : ChannId → M Unit Unit}
    (h : ∀ n s, Within (CallsBack (streamExt connectCb)) (connectCb n) s) :
    Obedient (streamExt connectCb) where
  ops ctype op n s ha hc := by
    cases op with
    | acceptCb => exact absurd rfl ha
    | connectCb => exact absurd rfl hc
    | _ => exact within_pure ()
  recvFn _ _ len _ := (wired_internal_recvFn CHANN_TYPE_STREAM len).mono fun _ => Wired.aside
  sendFn _ _ data _ := (wired_internal_sendFn CHANN_TYPE_STREAM data).mono fun _ => Wired.aside
  acceptCb _ _ _ := within_pure ()
  connectCb _ := h
  filterFn _ _ _ := within_pure true

theorem obedient_hangUpExt : Obedient hangUpExt :=
  obedient_streamExt fun n _ u _ h => .single (.inr ⟨some n, u, h⟩)

theorem modest_streamExt {connectCb : ChannId → M Unit Unit}
    (h : ∀ n s, Within Settling (connectCb n) s) : Modest (streamExt connectCb) where
  cb ctype op n s := by
    unfold extConfig
    split
    · rw [internalExt_cb]
      exact within_pure ()
    · cases op with
      | connectCb => exact h n s
      | _ => exact within_pure ()
  disconnectCb ctype n s := by
    unfold extConfig
    split <;> exact within_pure ()
  recvFn ctype n len s := by
    unfold extConfig
    split
    · exact (bland_internal_recvFn ctype len).resting
    · exact (bland_internal_recvFn CHANN_TYPE_STREAM len).resting
  sendFn ctype n data s := by
    unfold extConfig
    split
    · exact (bland_internal_sendFn ctype data).resting
    · exact (bland_internal_sendFn CHANN_TYPE_STREAM data).resting
  filterFn ctype n s := by
    unfold extConfig
    split <;> exact within_pure true

theorem releasing_streamExt (connectCb : ChannId → M Unit Unit) : Releasing (streamExt connectCb) where
  disconnectCb _ _ := halts_pure ()
  closeCb _ _ := halts_pure ()

theorem modest_hangUpExt : Modest hangUpExt := by
  refine modest_streamExt fun n s => ?_
  refine (settling_disconnectSocket fun ctype m s => ?_).bind fun _ _ _ => within_pure _
  exact (modest_streamExt fun _ _ => within_pure ()).disconnectCb ctype m s

/-- An environment in which the socket of descriptor 4 connects and takes no data at tick 14. -/
def stallingOracle : Oracle :=
  { quietOracle with
    ret := fun tick => if tick = 14 then -1 else tick + 3
    err := fun _ => EWOULDBLOCK
    events := fun _ => [(4, EPOLLOUT)] }

end MNet
