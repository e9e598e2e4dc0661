import MNet.Core.Progress

/-! # Tearing a socket down

`_rwb_destroy` frees a block only when it has nothing left to send, and a cached block
always has. So every way of tearing a socket down ends exactly when nothing is cached for
the channel at that point. -/

namespace MNet
open MNet.Lib MNet.Lib.Exec

/-- Only a write caches something for a channel. -/
theorem CStep.emptied {k k' : Core} {a : Act} {n : ChannId} (hs : CStep k a k') (hb : Base k)
    (hw : ∀ data i, a ≠ .write n data i) (h : Emptied k.heap n) : Emptied k'.heap n := by
  intro d hd
  cases hn : k.heap n with
  | none =>
    obtain ⟨_, ⟨_, _, rfl⟩ | ⟨_, _, _, _, _, _, _, _, rfl⟩⟩ := hs.appears hb hn hd <;> rfl
  | some c =>
    obtain ⟨_, _, hnone⟩ | ⟨c', hc', ht⟩ := hs.at hb hn
    · rw [hnone] at hd
      cases hd
    · rw [hd] at hc'
      cases hc'
      cases ht with
      | disconnect => rfl
      | write => exact absurd rfl (hw _ _)
      | flush _ hne => exact absurd (h c hn) hne
      | _ => exact h c hn

theorem Steps.emptied {A : Set Act} {k k' : Core} {n : ChannId} (h : Steps A k k') (hb : Base k)
    (hA : ∀ a ∈ A, ∀ data i, a ≠ .write n data i) (hk : Emptied k.heap n) : Emptied k'.heap n :=
  (h.keeps (I := fun k => Base k ∧ Emptied k.heap n)
    (fun a _ _ ha hs hk => ⟨hk.1.step hs, hs.emptied hk.1 (hA a ha) hk.2⟩) ⟨hb, hk⟩).2

theorem map_alterAt {α : Type} {heap : Heap} {m : ChannId} {p : Option ChannId}
    {f : CChann → CChann} {g : CChann → α} (hf : ∀ c, g (f c) = g c) :
    (alterAt heap p f m).map g = (heap m).map g := by
  cases p with
  | none => rfl
  | some i =>
    by_cases hm : m = i
    · subst hm
      simp [alterAt, Function.comp_def, hf]
    · simp [alterAt, Function.update_of_ne hm]

/-- Shutting a channel down leaves the other ones, and their caches. -/
theorem CStep.down_others {k k' : Core} {a : Act} {n m : ChannId} (hs : CStep k a k')
    (ha : a ∈ downActs n) (hm : m ≠ n) :
    (k'.heap m).map CChann.rwbSend = (k.heap m).map CChann.rwbSend := by
  have hset : ∀ v, Function.update k.heap n v m = k.heap m := fun v => Function.update_of_ne hm ..
  rcases ha with rfl | rfl | rfl | rfl
  · cases hs with
    | disconnect hn => exact congrArg _ (hset _)
  · cases hs with
    | close hn => exact congrArg _ (hset _)
  · cases hs with
    | disarm hn => exact congrArg _ (hset _)
  · cases hs with
    | @destroy _ c hn =>
      refine (congrArg _ (Function.update_of_ne hm ..)).trans
        ((map_alterAt ?_).trans (map_alterAt ?_)) <;> exact fun _ => rfl

theorem Steps.down_others {k k' : Core} {n m : ChannId} (h : Steps (downActs n) k k') (hm : m ≠ n) :
    (k'.heap m).map CChann.rwbSend = (k.heap m).map CChann.rwbSend :=
  h.keeps (I := fun k' => (k'.heap m).map CChann.rwbSend = (k.heap m).map CChann.rwbSend)
    (fun _ _ _ ha hs he => (hs.down_others ha hm).trans he) rfl

theorem emptied_iff {heap : Heap} {n : ChannId} :
    Emptied heap n ↔ ∀ h, (heap n).map CChann.rwbSend = some h → h = [] := by
  simp [Emptied]

variable {ε : Type} {x : ExtTable ε} {s t : Sys ε} {n : ChannId} {r : Int} {u : Unit}

/-- The computation returns, and then nothing is cached for the channels `ns`. -/
def Finishes {α : Type} (m : M ε α) (s : Sys ε) (ns : Set ChannId) : Prop :=
  Terminates m s ∧ ∀ a t, Returns m s a t → ∀ n ∈ ns, Emptied t.core.heap n

theorem finishes_iff {α : Type} {m : M ε α} {ns : Set ChannId}
    (hgo : (∀ n ∈ ns, Emptied s.core.heap n) → Terminates m s)
    (hback : ∀ a t, Returns m s a t →
      ∀ n ∈ ns, Emptied s.core.heap n ∧ Emptied t.core.heap n) :
    Finishes m s ns ↔ ∀ n ∈ ns, Emptied s.core.heap n := by
  constructor
  · rintro ⟨⟨a, t, h⟩, _⟩ n hn
    exact (hback a t h n hn).1
  · exact fun hs => ⟨hgo hs, fun a t h n hn => (hback a t h n hn).2⟩

/-! ## One channel -/

theorem disconnect_finishes (hx : Tame x) (hr : Releasing x) (hb : Base s.core) {c : CChann}
    (hn : s.core.heap n = some c) :
    Finishes (mnetChannDisconnect x (some n)) s {n} ↔ ∀ m ∈ ({n} : Set ChannId), Emptied s.core.heap m := by
  refine finishes_iff (fun hs => ?_) fun _ t h => ?_
  · exact (channDisconnectSocket_terminates hx hr hn (hs n rfl c hn)).bind fun _ _ _ => halts_pure _ _
  · simp only [mnetChannDisconnect, returns_bind, returns_pure] at h
    obtain ⟨_, _, h, _, rfl⟩ := h
    rintro n rfl
    exact channDisconnectSocket_emptied hx hb h

theorem close_finishes (hx : Tame x) (hr : Releasing x) (hb : Base s.core) {c : CChann}
    (hn : s.core.heap n = some c) :
    Finishes (mnetChannClose x (some n)) s {n} ↔ ∀ m ∈ ({n} : Set ChannId), Emptied s.core.heap m := by
  refine finishes_iff (fun hs => ?_) fun _ t h => ?_
  · refine (terminates_deref hn).bind fun d a hd => ?_
    obtain ⟨hd, rfl⟩ := returns_deref.mp hd
    refine .ite (fun _ => ?_) fun _ => halts_pure _ _
    refine (channDisconnectSocket_terminates hx hr hn (hs n rfl c hn)).bind fun _ b hdis => ?_
    obtain ⟨e, he, _⟩ := channDisconnectSocket_inactive hx.ops hb hdis
    exact channCloseSocket_terminates hx hr he
  · rintro n rfl
    have hsteps := mnetChannClose_steps hx hb h
    have hempty : Emptied s.core.heap n := by
      simp only [mnetChannClose, returns_bind, returns_deref, and_assoc, exists_and_left,
        exists_eq_left] at h
      obtain ⟨d, hd, h⟩ := h
      rcases returns_ite.mp h with ⟨_, h⟩ | ⟨hno, _⟩
      · simp only [returns_bind] at h
        obtain ⟨_, _, hdis, _⟩ := h
        exact (channDisconnectSocket_emptied hx hb hdis).1
      · -- a closed channel has nothing cached
        intro e he
        rw [core_heap_some hd] at he
        cases he
        refine (hb.cache n d.core (core_heap_some hd)).2 ?_
        have hle : d.state.val ≤ ChannState.closed.val := Int.not_lt.mp hno
        exact Int.lt_of_le_of_lt hle (by decide)
    refine ⟨hempty, hsteps.emptied hb ?_ hempty⟩
    rintro _ (rfl | rfl) <;> simp

/-- A failed transfer tears the channel down. -/
theorem channFail_emptied (hx : Tame x) (hb : Base s.core) (h : Returns (channFail x n) s u t) :
    Emptied s.core.heap n ∧ Emptied t.core.heap n := by
  have hsteps := channFail_steps hx hb h
  have hempty : Emptied s.core.heap n := by
    simp only [channFail, returns_bind] at h
    obtain ⟨_, _, hdis, _⟩ := h
    exact (channDisconnectSocket_emptied hx hb hdis).1
  refine ⟨hempty, hsteps.emptied hb ?_ hempty⟩
  rintro _ (rfl | rfl | rfl) <;> simp

/-! ## The whole library -/

theorem finiLoop_terminates (hx : Tame x) (hr : Releasing x) {fuel : Nat} {p : Option ChannId}
    {l : List ChannId} (hb : Base s.core) (hempty : ∀ n, Emptied s.core.heap n)
    (hp : s.core.channs = p) (hl : Chain (nextOf s.core.heap) p l) (hlen : l.length ≤ fuel) :
    Terminates (finiLoop x fuel p) s := by
  induction fuel generalizing s p l with
  | zero =>
    cases hl with
    | nil => exact halts_pure () s
    | cons => simp at hlen
  | succ fuel ih =>
    cases p with
    | none => exact halts_pure () s
    | some n =>
      obtain ⟨all, hall, hmem, _⟩ := hb.reg.list
      have hn : s.core.heap n ≠ none := by
        rw [hp] at hall
        obtain ⟨_, rfl, _⟩ := hall.chain.eq_cons
        exact (hmem n).mpr (by simp)
      obtain ⟨c, hn⟩ := Option.ne_none_iff_exists'.mp hn
      refine (terminates_deref hn).bind fun d a hd => ?_
      obtain ⟨hd, rfl⟩ := returns_deref.mp hd
      rw [core_heap_some hd] at hn
      cases hn
      have hn := core_heap_some hd
      refine (channDisconnectSocket_terminates hx hr hn (hempty n _ hn)).bind fun _ b hdis => ?_
      obtain ⟨e, he, hno⟩ := channDisconnectSocket_inactive hx.ops hb hdis
      have hbb := (channDisconnectSocket_steps hx.ops hb hdis).base hb
      refine (channCloseSocket_terminates hx hr he).bind fun _ f hclose => ?_
      have hclosed := channCloseSocket_steps hx.ops he hno hclose
      obtain ⟨hcs, _, g, hg, _⟩ := hclosed
      have hbf := hcs.base hbb
      have hgnil : g.rwbSend = [] := by
        refine hcs.emptied hbb ?_ (channDisconnectSocket_emptied hx hb hdis).2 g hg
        rintro _ rfl
        simp
      refine (channDestroy_terminates hbf.reg hbf.timed hg hgnil).bind fun _ i hdes => ?_
      obtain ⟨hs, hnext, hnone⟩ := fini_step hx hb hn hp hdis hclose hdes
      have hbi := hs.base hb
      have hkeep : ∀ m, m ≠ n → (i.core.heap m).map CChann.rwbSend =
          (a.core.heap m).map CChann.rwbSend := fun m hm => hs.down_others hm
      have hempty' : ∀ m, Emptied i.core.heap m := by
        intro m
        by_cases hm : m = n
        · subst hm
          intro _ h0
          rw [hnone] at h0
          cases h0
        · rw [emptied_iff, hkeep m hm, ← emptied_iff]
          exact hempty m
      have hfree : ∀ m, a.core.heap m = none → i.core.heap m = none := by
        intro m h0
        have hm : m ≠ n := by
          rintro rfl
          rw [hn] at h0
          cases h0
        have := hkeep m hm
        rwa [h0, Option.map_none, Option.map_eq_none_iff] at this
      obtain ⟨l', hl', _⟩ := hbi.reg.list
      rw [hnext] at hl'
      have hlt := hb.reg.chain_lt hbi.reg hp hnext hnone hfree hl hl'.chain
      exact ih hbi hempty' hnext hl'.chain (by omega)

theorem Base.emptied_of_nil {k : Core} (hb : Base k) (hp : k.channs = none) (m : ChannId) :
    Emptied k.heap m := by
  have hreg := hb.reg
  rw [hp] at hreg
  intro c hc
  rw [hreg.all_none m] at hc
  cases hc

theorem finiLoop_emptied (hx : Tame x) {fuel : Nat} {p : Option ChannId} (hb : Base s.core)
    (hp : s.core.channs = p) (h : Returns (finiLoop x fuel p) s u t) (m : ChannId) :
    Emptied s.core.heap m := by
  induction fuel generalizing s p with
  | zero =>
    cases p with
    | none => exact hb.emptied_of_nil hp m
    | some n => exact absurd h returns_fail
  | succ fuel ih =>
    cases p with
    | none => exact hb.emptied_of_nil hp m
    | some n =>
      simp only [finiLoop, returns_bind, returns_deref, and_assoc, exists_and_left,
        exists_eq_left] at h
      obtain ⟨c, hc, r, a, hdis, _, b, hclose, _, d, hdes, h⟩ := h
      obtain ⟨hs, hhead, _⟩ := fini_step hx hb (core_heap_some hc) hp hdis hclose hdes
      by_cases hm : m = n
      · rw [hm]
        exact (channDisconnectSocket_emptied hx hb hdis).1
      · rw [emptied_iff, ← hs.down_others hm, ← emptied_iff]
        exact ih (hs.base hb) hhead h

theorem mnetFini_emptied (hx : Tame x) (hb : Base s.core) (hinit : s.mnet.isInit = true)
    (h : Returns (mnetFini x) s u t) (n : ChannId) : Emptied s.core.heap n := by
  simp only [mnetFini, returns_bind, returns_readMnet, and_assoc, exists_and_left,
    exists_eq_left] at h
  rcases returns_ite.mp h with ⟨_, h⟩ | ⟨hno, _⟩
  · simp only [walkFuel, returns_bind, returns_readMnet, returns_read, and_assoc,
      exists_and_left, exists_eq_left] at h
    obtain ⟨_, _, hloop, _⟩ := h
    exact finiLoop_emptied hx hb rfl hloop n
  · exact absurd hinit hno

theorem fini_finishes (hx : Tame x) (hr : Releasing x) (hb : Base s.core)
    (hinit : s.mnet.isInit = true) :
    Finishes (mnetFini x) s {n | s.heap n ≠ none} ↔
      ∀ n ∈ {n | s.heap n ≠ none}, Emptied s.core.heap n := by
  refine finishes_iff (fun hs => ?_) fun _ t h => ?_
  · have hempty : ∀ n, Emptied s.core.heap n := by
      intro n c hc
      refine hs n (fun h0 => ?_) c hc
      rw [core_heap, h0] at hc
      cases hc
    obtain ⟨l, hl, hmem, _⟩ := hb.reg.list
    have hlen : l.length ≤ s.nextChann + 1 := by
      have hsub : l ⊆ List.range s.nextChann :=
        fun m hm => List.mem_range.mpr (hb.reg.lt m ((hmem m).mpr hm))
      have := hl.nodup.length_le_of_subset hsub
      rw [List.length_range] at this
      exact Nat.le_succ_of_le this
    refine (halts_read _ _).bind fun _ a ha => ?_
    obtain ⟨rfl, rfl⟩ := returns_readMnet.mp ha
    refine .ite (fun _ => ?_) fun hno => absurd hinit hno
    refine (halts_read _ _).bind fun _ b hb' => ?_
    obtain ⟨rfl, rfl⟩ := returns_readMnet.mp hb'
    refine (halts_read _ _).bind fun _ e he => ?_
    obtain ⟨rfl, rfl⟩ := returns_read.mp he
    refine (finiLoop_terminates hx hr hb hempty rfl hl.chain hlen).bind fun _ _ _ => ?_
    exact ((halts_modify _).bind fun _ => halts_modifyMnet _) _
  · have hempty := mnetFini_emptied hx hb hinit h
    have hsteps : Steps Call.mnetFini.acts s.core t.core :=
      apiCall_steps hx hb (returns_ret.mpr ⟨_, rfl, h⟩)
    refine fun n _ => ⟨hempty n, hsteps.emptied hb ?_ (hempty n)⟩
    rintro _ ((⟨m, rfl | rfl⟩ | ⟨m, rfl | rfl⟩) | rfl) <;> simp

/-! ## Transfers that fail -/

theorem send_finishes (hx : Tame x) (hr : Returning x) (hb : Base s.core)
    {buf : Option (List UInt8)} (hf : SendFails x s n buf) :
    Finishes (mnetChannSend x (some n) buf) s {n} ↔
      ∀ m ∈ ({n} : Set ChannId), Emptied s.core.heap m := by
  obtain ⟨c, hc, _, _, hnil, _⟩ := id hf
  have hn := core_heap_some hc
  obtain ⟨a, ha, hcall⟩ := hf.call hx
  rw [← ha] at hb hn
  refine finishes_iff (fun _ => ?_) fun _ t h => ?_
  · obtain ⟨_, t, hfail⟩ := channFail_terminates hx hr hb hn hnil
    exact ⟨-1, t, (hcall _ _).mpr ⟨rfl, hfail⟩⟩
  · rintro n rfl
    rw [← ha]
    exact channFail_emptied hx hb ((hcall _ _).mp h).2

theorem recv_finishes (hx : Tame x) (hr : Returning x) (hb : Base s.core) {buf : Bool} {len : Int}
    (hf : RecvFails x s n buf len) :
    Finishes (mnetChannRecv x (some n) buf len) s {n} ↔
      ∀ m ∈ ({n} : Set ChannId), Emptied s.core.heap m := by
  obtain ⟨c, hc, _⟩ := id hf
  have hn := core_heap_some hc
  obtain ⟨a, q, ha, hcall⟩ := hf.call hx
  rw [← ha] at hb hn
  refine finishes_iff (fun hs => ?_) fun _ t h => ?_
  · obtain ⟨_, b, hfail⟩ := channFail_terminates hx hr hb hn (hs n rfl _ (ha ▸ hn))
    have halloc : b.core.heap n ≠ none :=
      (channFail_steps hx hb hfail).allocated hb (by simp) (by rw [hn]; simp)
    obtain ⟨d, hd⟩ := Option.ne_none_iff_exists'.mp halloc
    obtain ⟨_, t, hmod⟩ := terminates_modifyChann hd _
    exact ⟨q, t, (hcall _ _).mpr ⟨rfl, b, hfail, hmod⟩⟩
  · rintro n rfl
    obtain ⟨_, b, hfail, hmod⟩ := (hcall _ _).mp h
    obtain ⟨hempty, hempty'⟩ := channFail_emptied hx hb hfail
    obtain ⟨d, hd, rfl⟩ := returns_modifyChann.mp hmod
    rw [← ha, core_setChann_same (d := { d with bytesRecv := d.bytesRecv + q }) hd rfl]
    exact ⟨hempty, hempty'⟩

/-- `mnet_dgram_recv` on a datagram channel is `mnet_chann_recv`. -/
theorem dgramRecv_iff {c : Chann} {buf : Bool} {len : Int} (hc : s.heap n = some c)
    (hty : isDgram c.ctype = true) (hf : RecvFails x s n buf len) {p : Int × Option SockAddr} :
    Returns (mnetDgramRecv x (some n) buf len) s p t ↔
      Returns (mnetChannRecv x (some n) buf len) s p.1 t ∧
        ∃ d, t.heap n = some d ∧ p.2 = some d.addr := by
  obtain ⟨d, hd, hst, hbuf, hlen, _⟩ := hf
  have hreq : Returns (Exec.require Fault.nullDeref (some n)) s n s := rfl
  rw [mnetDgramRecv, hreq.bind_iff, (returns_deref.mpr ⟨hc, rfl⟩).bind_iff, if_pos ⟨hty, hbuf, hlen⟩,
    (channReady_of hd hst).bind_iff, if_pos rfl]
  simp only [returns_bind, returns_deref, returns_pure, and_assoc, exists_and_left, exists_eq_left]
  constructor
  · rintro ⟨r, a, hrecv, d, hd, rfl, rfl⟩
    exact ⟨hrecv, d, hd, rfl⟩
  · rintro ⟨hrecv, d, hd, hp⟩
    exact ⟨p.1, t, hrecv, d, hd, Prod.ext rfl hp, rfl⟩

theorem dgramRecv_finishes (hx : Tame x) (hr : Returning x) (hb : Base s.core) {c : Chann}
    {buf : Bool} {len : Int} (hc : s.heap n = some c) (hty : isDgram c.ctype = true)
    (hf : RecvFails x s n buf len) :
    Finishes (mnetDgramRecv x (some n) buf len) s {n} ↔
      ∀ m ∈ ({n} : Set ChannId), Emptied s.core.heap m := by
  rw [← recv_finishes hx hr hb hf]
  constructor
  · rintro ⟨⟨p, t, h⟩, hpost⟩
    obtain ⟨hrecv, d, hd, _⟩ := (dgramRecv_iff hc hty hf).mp h
    refine ⟨⟨p.1, t, hrecv⟩, fun r t' h' => ?_⟩
    obtain ⟨rfl, rfl⟩ := hrecv.det h'
    exact hpost p t h
  · rintro ⟨⟨r, t, hrecv⟩, hpost⟩
    have halloc : t.core.heap n ≠ none :=
      (mnetChannRecv_steps hx hb hrecv).allocated hb (by simp) (by rw [core_heap_some hc]; simp)
    obtain ⟨d, hd⟩ : ∃ d, t.heap n = some d := by
      rw [core_heap, ne_eq, Option.map_eq_none_iff] at halloc
      exact Option.ne_none_iff_exists'.mp halloc
    refine ⟨⟨(r, some d.addr), t, (dgramRecv_iff hc hty hf).mpr ⟨hrecv, d, hd, rfl⟩⟩, ?_⟩
    intro p t' h'
    exact hpost p.1 t' ((dgramRecv_iff hc hty hf).mp h').1

/-- Connecting leaves what is cached. -/
theorem Steps.keeps_cache {k k' : Core} (h : Steps (connectActs n) k k') (hb : Base k) {c : CChann}
    (hn : k.heap n = some c) : ∃ d, k'.heap n = some d ∧ d.rwbSend = c.rwbSend := by
  refine (h.keeps (I := fun k => Base k ∧ ∃ d, k.heap n = some d ∧ d.rwbSend = c.rwbSend) ?_
    ⟨hb, c, hn, rfl⟩).2
  rintro a k k' ha hs ⟨hb, d, hd, hdc⟩
  refine ⟨hb.step hs, ?_⟩
  obtain ⟨fd, rfl⟩ | ⟨fd, rfl⟩ | ⟨fd, st, rfl⟩ | rfl | rfl | rfl := ha
  · cases hs with
    | bounce => exact ⟨d, hd, hdc⟩
  · cases hs with
    | refuse hn =>
      rw [hd] at hn
      cases hn
      exact ⟨_, Function.update_self .., hdc⟩
  · cases hs with
    | attach hn =>
      rw [show (k.heap n) = some d from hd] at hn
      cases hn
      exact ⟨_, Function.update_self .., hdc⟩
  · cases hs with
    | watch hn =>
      rw [hd] at hn
      cases hn
      exact ⟨_, Function.update_self .., hdc⟩
  · cases hs with
    | watch hn =>
      rw [hd] at hn
      cases hn
      exact ⟨_, Function.update_self .., hdc⟩
  · cases hs with
    | disconnect hn hpos hact hsp =>
      rw [hd] at hn
      cases hn
      exact ⟨_, Function.update_self .., (((hb.cache n d hd).1.spent_iff).mp hsp).symm.trans hdc⟩

/-- `mnet_dgram_send` aims the datagram, and is `mnet_chann_send` from there. -/
theorem dgramSend_finishes (hx : Tame x) (hr : Returning x) (hb : Base s.core) {a : Sys ε}
    {c : Chann} {host : Nat} {port : Int} {buf : Option (List UInt8)} (hc : s.heap n = some c)
    (hty : isDgram c.ctype = true) (haim : Returns (dgramAim x n host port) s () a)
    (hf : SendFails x a n buf) :
    Finishes (mnetDgramSend x (some n) (some (host, port)) buf) s {n} ↔
      ∀ m ∈ ({n} : Set ChannId), Emptied s.core.heap m := by
  have hsteps := dgramAim_steps hx hb haim
  have hba := hsteps.base hb
  have hfin := send_finishes hx hr hba hf
  obtain ⟨d, hd, _, hdata, hnil, _⟩ := id hf
  have hempty : ∀ m ∈ ({n} : Set ChannId), Emptied s.core.heap m := by
    rintro n rfl e he
    obtain ⟨e', he', hee⟩ := hsteps.keeps_cache hb he
    rw [core_heap_some hd] at he'
    cases he'
    exact hee.symm.trans hnil
  have hempty' : ∀ m ∈ ({n} : Set ChannId), Emptied a.core.heap m := by
    rintro n rfl e he
    rw [core_heap_some hd] at he
    cases he
    exact hnil
  obtain ⟨⟨r, t, h⟩, hpost⟩ := hfin.mpr hempty'
  have hreq : Returns (Exec.require Fault.nullDeref (some n)) s n s := rfl
  have hcall : ∀ r t, Returns (mnetDgramSend x (some n) (some (host, port)) buf) s r t ↔
      Returns (mnetChannSend x (some n) buf) a r t := by
    intro r t
    rw [mnetDgramSend, hreq.bind_iff, (returns_deref.mpr ⟨hc, rfl⟩).bind_iff]
    simp only [if_pos (And.intro hty hdata)]
    rw [haim.bind_iff]
  refine ⟨fun _ => hempty, fun _ => ⟨⟨r, t, (hcall r t).mpr h⟩, fun r' t' h' => ?_⟩⟩
  exact hpost r' t' ((hcall r' t').mp h')

/-! ## Records that fail -/

/-- An error or hang-up record of a channel with a socket, or a connection that failed. -/
def RecordFails (s : Sys ε) (kev : Kev) (n : ChannId) : Prop :=
  kev.ptr = some n ∧ ∃ c, s.heap n = some c ∧ c.state ≠ .closed ∧ 0 ≤ c.fd ∧
    (kev.events &&& (EPOLLERR ||| (EPOLLRDHUP ||| EPOLLHUP)) ≠ 0 ∨
      (c.state = .connecting ∧ ∃ p a, Returns (sysSockError c.fd) s p a ∧ 0 ≤ p.1 ∧ p.2 ≠ 0))

/-- `_chann_disconnect_socket`, then a DISCONNECT message. -/
def reportDown (x : ExtTable ε) (n : ChannId) (err : Int) : M ε Pass := do
  let _ ← channDisconnectSocket (opsOf x) n
  emit x n .disconnect none err

/-- A hang-up without an error is reported as such. -/
theorem evtDispatch_hangup {kev : Kev} {c : Chann} (hptr : kev.ptr = some n) (hc : s.heap n = some c)
    (hopen : c.state ≠ .closed) (hfd : 0 ≤ c.fd)
    (hflags : kev.events &&& (EPOLLERR ||| (EPOLLRDHUP ||| EPOLLHUP)) ≠ 0)
    (herr : kev.events &&& EPOLLERR = 0) (p : Pass) (t : Sys ε) :
    Returns (evtDispatch x kev) s p t ↔ Returns (reportDown x n kev.events.toInt) s p t := by
  have hreq : Returns (Exec.require Fault.nullDeref kev.ptr) s n s := by rw [hptr]; rfl
  have hgo : ¬ (c.state = .closed ∨ c.fd < 0) := by
    rintro (h | h)
    · exact hopen h
    · omega
  rw [evtDispatch, hreq.bind_iff, (returns_deref.mpr ⟨hc, rfl⟩).bind_iff, if_neg hgo, if_pos hflags,
    if_neg (not_not.mpr herr)]
  rfl

theorem RecordFails.call {kev : Kev} (h : RecordFails s kev n) :
    ∃ a err, a.core = s.core ∧ ∀ p t, Returns (evtDispatch x kev) s p t ↔
      Returns (reportDown x n err) a p t := by
  obtain ⟨hptr, c, hc, hopen, hfd, hbad⟩ := h
  have hreq : Returns (Exec.require Fault.nullDeref kev.ptr) s n s := by rw [hptr]; rfl
  have hgo : ¬ (c.state = .closed ∨ c.fd < 0) := by
    rintro (h | h)
    · exact hopen h
    · omega
  have hderef : Returns (deref n) s c s := returns_deref.mpr ⟨hc, rfl⟩
  by_cases hflags : kev.events &&& (EPOLLERR ||| (EPOLLRDHUP ||| EPOLLHUP)) = 0
  · obtain ⟨hst, p, a, herr, hp, hne⟩ := hbad.resolve_left (not_not.mpr hflags)
    refine ⟨a, p.2, core_sysSockError herr, fun q t => ?_⟩
    rw [evtDispatch, hreq.bind_iff, hderef.bind_iff, if_neg hgo, if_neg (not_not.mpr hflags), hst]
    simp only [evtConnecting]
    rw [hderef.bind_iff, herr.bind_iff, if_neg (Int.not_lt.mpr hp), if_neg hne]
    rfl
  · by_cases herr : kev.events &&& EPOLLERR = 0
    · exact ⟨s, kev.events.toInt, rfl, evtDispatch_hangup hptr hc hopen hfd hflags herr⟩
    · obtain ⟨err, a, hget⟩ : Terminates (channGetErr n) s :=
        (terminates_deref (core_heap_some hc)).bind fun _ _ _ =>
          (halts_sysSockError _ _).bind fun _ _ _ => halts_pure _ _
      refine ⟨a, err, ?_, fun q t => ?_⟩
      · simp only [channGetErr, returns_bind, returns_pure] at hget
        obtain ⟨_, _, hd, _, _, hsock, _, rfl⟩ := hget
        rw [core_sysSockError hsock, (returns_deref.mp hd).2]
      · rw [evtDispatch, hreq.bind_iff, hderef.bind_iff, if_neg hgo, if_pos hflags, if_pos herr,
          hget.bind_iff]
        rfl

theorem record_finishes (hx : Tame x) (hr : Returning x) (hb : Base s.core) {kev : Kev}
    (hf : RecordFails s kev n) :
    Finishes (evtDispatch x kev) s {n} ↔ ∀ m ∈ ({n} : Set ChannId), Emptied s.core.heap m := by
  obtain ⟨_, c, hc, _⟩ := id hf
  have hn := core_heap_some hc
  obtain ⟨a, err, ha, hcall⟩ := hf.call (x := x)
  rw [← ha] at hb hn
  refine finishes_iff (fun hs => ?_) fun _ t h => ?_
  · obtain ⟨p, t, h⟩ : Terminates (reportDown x n err) a := by
      refine (channDisconnectSocket_terminates hx hr.toReleasing hn (hs n rfl _ (ha ▸ hn))).bind fun _ b hdis => ?_
      obtain ⟨d, hd, hda⟩ := channDisconnectSocket_inactive hx.ops hb hdis
      exact emit_terminates hr hd hda _ _ _
    exact ⟨p, t, (hcall p t).mpr h⟩
  · rintro n rfl
    have hdown := (hcall _ t).mp h
    simp only [reportDown, returns_bind] at hdown
    obtain ⟨_, b, hdis, hemit⟩ := hdown
    obtain ⟨hempty, hempty'⟩ := channDisconnectSocket_emptied hx hb hdis
    have hbb := (channDisconnectSocket_steps hx.ops hb hdis).base hb
    rw [← ha]
    refine ⟨hempty, (emit_steps hx hbb hemit).emptied hbb ?_ hempty'⟩
    rintro _ (rfl | rfl) <;> simp

/-- A flush of the cache of `n` comes to a send that fails. -/
inductive FlushFails (x : ExtTable ε) (n : ChannId) : Sys ε → Prop
  | now {s a : Sys ε} {c : Chann} {r : Int} : s.heap n = some c → c.rwbSend ≠ [] →
    Returns (channSend x n (rwbDrainParam c.rwbSend)) s r a → r < 0 → FlushFails x n s
  | later {s a b : Sys ε} {c : Chann} {r : Int} {u : Unit} : s.heap n = some c → c.rwbSend ≠ [] →
    Returns (channSend x n (rwbDrainParam c.rwbSend)) s r a → 0 < r →
    (rwbDrainParam c.rwbSend).length ≤ r →
    Returns (modifyChann n fun c => { c with rwbSend := rwbDrain c.rwbSend r.toNat }) a u b →
    FlushFails x n b → FlushFails x n s

/-- Such a flush never ends, for however many rounds it may run. -/
theorem FlushFails.stuck (hx : Tame x) {c : Chann} (hf : FlushFails x n s) (hb : Base s.core)
    (hn : s.heap n = some c) (hst : c.state = .connected) (fuel : Nat) :
    ¬ Returns (channSendedLoop x n fuel) s u t := by
  induction hf generalizing c fuel with
  | @now s a d r hd hne hsend hneg =>
    cases fuel with
    | zero => exact returns_fail
    | succ fuel =>
      rw [hn] at hd
      cases hd
      obtain ⟨_, ha⟩ := channSend_spec hx hn hsend
      rw [show r.toNat = 0 by omega, List.take_zero, Core.onWire_nil] at ha
      have hpos : ¬ r > 0 := by omega
      rw [channSendedLoop, (returns_deref.mpr ⟨hn, rfl⟩).bind_iff, hsend.bind_iff, if_neg hpos,
        if_pos hneg]
      refine channFail_stuck hx (ha ▸ hb) (ha ▸ core_heap_some hn) ?_ hne
      rw [Chann.core, hst]
      trivial
  | @later s a b d r v hd hne hsend hpos hwhole hdrain hf ih =>
    cases fuel with
    | zero => exact returns_fail
    | succ fuel =>
      rw [hn] at hd
      cases hd
      obtain ⟨hstep, hbn⟩ := flush_step hx hn hst hne hsend hpos hdrain
      rw [core_heap, Option.map_eq_some_iff] at hbn
      obtain ⟨e, he, hec⟩ := hbn
      have hest : e.state = .connected := (congrArg CChann.state hec).trans hst
      have hmore : rwbCount e.rwbSend > 0 := by
        refine List.length_pos_iff.mpr fun hnil => ?_
        cases hf with
        | now hf hne | later hf hne =>
          rw [he] at hf
          cases hf
          exact hne hnil
      rw [channSendedLoop, (returns_deref.mpr ⟨hn, rfl⟩).bind_iff, hsend.bind_iff, if_pos hpos,
        hdrain.bind_iff, (returns_deref.mpr ⟨he, rfl⟩).bind_iff, if_pos ⟨hwhole, hmore⟩]
      exact ih (hb.step hstep) he hest fuel

/-- A write record of a connection whose flush fails. -/
def FlushRecordFails (x : ExtTable ε) (s : Sys ε) (kev : Kev) (n : ChannId) : Prop :=
  kev.ptr = some n ∧ (∃ c, s.heap n = some c ∧ c.state = .connected ∧ 0 ≤ c.fd) ∧
    kev.events &&& (EPOLLERR ||| (EPOLLRDHUP ||| EPOLLHUP)) = 0 ∧ kev.events &&& EPOLLIN = 0 ∧
    kev.events &&& EPOLLOUT ≠ 0 ∧ FlushFails x n s

theorem flush_finishes (hx : Tame x) (hb : Base s.core) {kev : Kev}
    (hf : FlushRecordFails x s kev n) :
    Finishes (evtDispatch x kev) s {n} ↔ ∀ m ∈ ({n} : Set ChannId), Emptied s.core.heap m := by
  obtain ⟨hptr, ⟨c, hc, hst, hfd⟩, hok, hin, hout, hfails⟩ := hf
  have hne : c.rwbSend ≠ [] := by
    cases hfails with
    | now hd hne | later hd hne =>
      rw [hc] at hd
      cases hd
      exact hne
  have hfull : ¬ ∀ m ∈ ({n} : Set ChannId), Emptied s.core.heap m :=
    fun hs => hne (hs n rfl _ (core_heap_some hc))
  refine ⟨?_, fun hs => absurd hs hfull⟩
  rintro ⟨⟨p, t, h⟩, _⟩
  -- the record leads to the flush, which does not end
  have hreq : Returns (Exec.require Fault.nullDeref kev.ptr) s n s := by rw [hptr]; rfl
  have hgo : ¬ (c.state = .closed ∨ c.fd < 0) := by
    rintro (h | h)
    · rw [hst] at h
      cases h
    · omega
  have hcount : ¬ rwbCount c.rwbSend ≤ 0 :=
    fun h0 => hne (List.length_eq_zero_iff.mp (Nat.le_zero.mp h0))
  have hderef : Returns (deref n) s c s := returns_deref.mpr ⟨hc, rfl⟩
  rw [evtDispatch, hreq.bind_iff, hderef.bind_iff, if_neg hgo, if_neg (not_not.mpr hok), hst] at h
  simp only [evtConnected] at h
  rw [if_neg (not_not.mpr hin), if_pos hout] at h
  simp only [channSendedRwb, returns_bind] at h
  obtain ⟨_, _, ⟨_, _, hd, hflush⟩, _⟩ := h
  obtain ⟨hd, rfl⟩ := returns_deref.mp hd
  rw [hc] at hd
  cases hd
  rw [if_neg hcount] at hflush
  simp only [returns_bind] at hflush
  obtain ⟨_, _, hloop, _⟩ := hflush
  exact (hfails.stuck hx hb hc hst _ hloop).elim

/-! ## Every teardown -/

/-- The ways the library comes to tear down the sockets of the channels `ns`: the state it is
in, and what it carries out. -/
inductive Teardown (x : ExtTable ε) : Sys ε → Set ChannId → M ε Ret → Prop
  | disconnect {s : Sys ε} {n : ChannId} : Reachable x s → s.heap n ≠ none →
    Teardown x s {n} (apiCall x (.channDisconnect (some n)))
  | close {s : Sys ε} {n : ChannId} : Reachable x s → s.heap n ≠ none →
    Teardown x s {n} (apiCall x (.channClose (some n)))
  | send {s : Sys ε} {n : ChannId} {buf : Option (List UInt8)} : Reachable x s →
    SendFails x s n buf → Teardown x s {n} (apiCall x (.channSend (some n) buf))
  | recv {s : Sys ε} {n : ChannId} {buf : Bool} {len : Int} : Reachable x s →
    RecvFails x s n buf len → Teardown x s {n} (apiCall x (.channRecv (some n) buf len))
  | dgramRecv {s : Sys ε} {n : ChannId} {c : Chann} {buf : Bool} {len : Int} : Reachable x s →
    s.heap n = some c → isDgram c.ctype = true → RecvFails x s n buf len →
    Teardown x s {n} (apiCall x (.dgramRecv (some n) buf len))
  | dgramSend {s a : Sys ε} {n : ChannId} {c : Chann} {host : Nat} {port : Int}
      {buf : Option (List UInt8)} : Reachable x s → s.heap n = some c → isDgram c.ctype = true →
    Returns (dgramAim x n host port) s () a → SendFails x a n buf →
    Teardown x s {n} (apiCall x (.dgramSend (some n) (some (host, port)) buf))
  | record {s : Sys ε} {n : ChannId} {kev : Kev} : AtRecord x s kev → RecordFails s kev n →
    Teardown x s {n} (ret (fun _ => .unit) (evtDispatch x kev))
  | flush {s : Sys ε} {n : ChannId} {kev : Kev} : AtRecord x s kev →
    FlushRecordFails x s kev n → Teardown x s {n} (ret (fun _ => .unit) (evtDispatch x kev))
  | fini {s : Sys ε} : Reachable x s → s.mnet.isInit = true →
    Teardown x s {n | s.heap n ≠ none} (apiCall x .mnetFini)

theorem finishes_ret {α : Type} {f : α → Ret} {m : M ε α} {ns : Set ChannId} :
    Finishes (ret f m) s ns ↔ Finishes m s ns := by
  constructor
  · rintro ⟨⟨r, t, h⟩, hpost⟩
    obtain ⟨a, _, h⟩ := returns_ret.mp h
    exact ⟨⟨a, t, h⟩, fun b t' h' => hpost (f b) t' (returns_ret.mpr ⟨b, rfl, h'⟩)⟩
  · rintro ⟨⟨a, t, h⟩, hpost⟩
    refine ⟨⟨f a, t, returns_ret.mpr ⟨a, rfl, h⟩⟩, fun r t' h' => ?_⟩
    obtain ⟨b, _, h'⟩ := returns_ret.mp h'
    exact hpost b t' h'

/-- A teardown ends, with nothing cached, exactly when nothing was cached for its channels, as
`_rwb_destroy` does exactly when no block has anything left to send. -/
theorem teardown_finishes_iff (hx : Tame x) (hr : Returning x) :
    (∀ h : RwbHead, rwbDestroy h = some [] ↔ Spent h) ∧
    ∀ s ns m, Teardown x s ns m → (Finishes m s ns ↔ ∀ n ∈ ns, Emptied s.core.heap n) := by
  refine ⟨fun h => by rw [rwbDestroy_eq_some]; simp, fun s ns m h => ?_⟩
  have halloc : ∀ {n}, s.heap n ≠ none → ∃ c, s.core.heap n = some c := by
    intro n hn
    obtain ⟨c, hc⟩ := Option.ne_none_iff_exists'.mp hn
    exact ⟨c.core, core_heap_some hc⟩
  cases h with
  | disconnect hs hn =>
    obtain ⟨c, hc⟩ := halloc hn
    exact finishes_ret.trans (disconnect_finishes hx hr.toReleasing (hs.base hx) hc)
  | close hs hn =>
    obtain ⟨c, hc⟩ := halloc hn
    exact finishes_ret.trans (close_finishes hx hr.toReleasing (hs.base hx) hc)
  | send hs hf => exact finishes_ret.trans (send_finishes hx hr (hs.base hx) hf)
  | recv hs hf => exact finishes_ret.trans (recv_finishes hx hr (hs.base hx) hf)
  | dgramRecv hs hc hty hf =>
    exact finishes_ret.trans (dgramRecv_finishes hx hr (hs.base hx) hc hty hf)
  | dgramSend hs hc hty haim hf =>
    exact finishes_ret.trans (dgramSend_finishes hx hr (hs.base hx) hc hty haim hf)
  | record hs hf => exact finishes_ret.trans (record_finishes hx hr (hs.base hx) hf)
  | flush hs hf => exact finishes_ret.trans (flush_finishes hx (hs.base hx) hf)
  | fini hs hinit => exact finishes_ret.trans (fini_finishes hx hr.toReleasing (hs.base hx) hinit)

/-- A connected datagram channel with nothing cached is disconnected. -/
theorem teardown_finishes_connected : ∃ s m, Teardown noExt s {0} m ∧ Finishes m s {0} := by
  have hrun : After noExt [.mnetInit, .channOpen 2, .channConnect (some 0) (some 0) 80]
      (Sys.start quietOracle ()) fun _ t => (t.heap 0).map Chann.rwbSend = some [] := by
    decide +kernel
  obtain ⟨rs, t, h, hc⟩ := hrun.run
  obtain ⟨c, hn, hnil⟩ := Option.map_eq_some_iff.mp hc
  have hdown : Teardown noExt t {0} (apiCall noExt (.channDisconnect (some 0))) :=
    .disconnect ⟨_, _, _, h⟩ (by simp [hn])
  refine ⟨t, _, hdown, ((teardown_finishes_iff tame_noExt returning_noExt).2 _ _ _ hdown).mpr ?_⟩
  rintro _ rfl d hd
  rw [core_heap_some hn] at hd
  cases hd
  exact hnil

/-- With a datagram in the cache that had to wait, disconnecting hangs. -/
theorem not_teardown_finishes_cached : ∃ s m, Teardown noExt s {0} m ∧ ¬ Finishes m s {0} := by
  have hrun : After noExt [.mnetInit, .channOpen 2, .channConnect (some 0) (some 0) 80,
      .channSend (some 0) (some [1, 2])] (Sys.start blockedOracle ()) fun _ t =>
        t.heap 0 ≠ none ∧ fault (apiCall noExt (.channDisconnect (some 0))) t = some .hang := by
    decide +kernel
  obtain ⟨rs, t, h, hn, hhang⟩ := hrun.run
  exact ⟨t, _, .disconnect ⟨_, _, _, h⟩ hn, fun hf => not_terminates_of_fault hhang hf.1⟩

end MNet
