import MNet.Blocked
import MNet.Flush

/-! # Resuming a handshake

A handshake that waits for output goes on with the next record of its channel while the library
still connects it. What follows is kept by the moves of a call, and by the calls of a run. -/

namespace MNet
open MNet.Lib MNet.Lib.Exec

variable {s t a v : Sys Tls} {n p : ChannId} {c : Chann} {u : Unit} {K : Set ChannId} {A : Set Deed}

/-! ## The invariant -/

/-- The connection is not up yet, to the library and to the extension, and the kernel watches for it. -/
structure Expects (s : Sys Tls) (n : ChannId) (c : Chann) (d : TlsUd) : Prop where
  chann : s.heap n = some c
  state : c.state = .connecting
  ud : c.extUd ≠ 0 ∧ s.ext.uds c.extUd = some d
  face : d.state = .connecting
  kq : s.mnet.kq = true
  armed : WriteArmed s c

/-- Every handshake that waits for output is expected to be called again. -/
def Expected (s : Sys Tls) (n : ChannId) : Prop := ∃ c d, Expects s n c d

theorem Bypasses.stalled (h : Bypasses p s t) (hst : Stalled t p) : Stalled s p := by
  obtain ⟨hb, d, hd, hpos⟩ := hst
  obtain ⟨c, hc, hg⟩ := h.chann' hd
  have hfd : d.fd = c.fd := congrArg Prod.fst hg
  exact ⟨h.blocked hb, c, hc, hfd ▸ hpos⟩

theorem Bypasses.expected (h : Bypasses p s t) (hst : Stalled s p) (he : Expected s p) : Expected t p := by
  obtain ⟨c, d, hc, hstate, ⟨hne, hd⟩, hface, hkq, reg, hreg, hout⟩ := he
  obtain ⟨hpos, _⟩ := hst.ud hc
  obtain ⟨c', hc', hg⟩ := h.chann hc
  have hfd : c'.fd = c.fd := congrArg Prod.fst hg
  have hst : c'.state = c.state := congrArg (·.2.1) hg
  have hud : c'.extUd = c.extUd := congrArg (·.2.2.1) hg
  have huds := (h.ext c hc hne).ud
  rw [hd] at huds
  obtain ⟨d', hd', hshown⟩ := Option.map_eq_some_iff.mp huds
  have hface' : d'.state = d.state := congrArg Prod.fst hshown
  exact ⟨c', d', hc', hst.trans hstate, ⟨hud ▸ hne, hud ▸ hd'⟩, hface'.trans hface, h.kq.trans hkq, reg,
    by rw [hfd, h.epoll c hc hpos, hreg], hout⟩

/-- What a channel holds has stayed. -/
theorem Stalled.back (hst : Stalled t p) (hext : t.ext = s.ext)
    (hheap : (t.heap p).map (fun c => (c.fd, c.extUd)) = (s.heap p).map fun c => (c.fd, c.extUd)) : Stalled s p := by
  obtain ⟨⟨i, hi, r, hr, hw⟩, d, hd, hpos⟩ := hst
  obtain ⟨e, f, he, hne, hf, hfi⟩ := Sys.sslOf_some hi
  rw [hd, Option.some.injEq] at he
  subst he
  rw [hd] at hheap
  obtain ⟨c, hc, heq⟩ := Option.map_eq_some_iff.mp hheap.symm
  obtain ⟨hfd, hud⟩ := Prod.mk.injEq .. ▸ heq
  rw [hext, ← hud] at hf
  exact ⟨⟨i, (Sys.sslOf_eq hc (hud ▸ hne) hf).trans hfi, r, hext ▸ hr, hw⟩, c, hc, hfd ▸ hpos⟩

/-- Between two calls. -/
structure Watchful (s : Sys Tls) : Prop where
  owned : Owned s
  berthed : Berthed s
  expected : ∀ n, Stalled s n → Expected s n

/-- On the way from `v`, whose handshakes were all expected to be called again, so are they but for the
channels in `K`, unless a call was blocked since. -/
structure Sound (v : Sys Tls) (K : Set ChannId) (s : Sys Tls) : Prop where
  owned : Owned s
  berthed : Berthed s
  log : v.ext.log <:+ s.ext.log
  expected : Unstalled v s → ∀ n, Stalled s n → n ∉ K → Expected s n

theorem Sound.mono {K' : Set ChannId} (h : Sound v K s) (hK : K ⊆ K') : Sound v K' s :=
  ⟨h.owned, h.berthed, h.log, fun hq n hst hn => h.expected hq n hst fun hmem => hn (hK hmem)⟩

theorem Watchful.sound (h : Watchful s) : Sound s ∅ s :=
  ⟨h.owned, h.berthed, List.suffix_refl _, fun _ n hst _ => h.expected n hst⟩

theorem Sound.watchful (h : Sound v ∅ s) (hq : Unstalled v s) : Watchful s :=
  ⟨h.owned, h.berthed, fun n hst => h.expected hq n hst id⟩

/-- The channel is not stalled, unless a call was blocked since. -/
def Free (v : Sys Tls) (n : ChannId) (s : Sys Tls) : Prop := Unstalled v s → ¬ Stalled s n

theorem Sound.free (h : Sound v {n} s) (hn : Free v n s) : Sound v ∅ s where
  owned := h.owned
  berthed := h.berthed
  log := h.log
  expected hq p hst _ := h.expected hq p hst fun hp => hn hq (hp ▸ hst)

/-- A move that touches the connections of channels in `K` only. -/
theorem Move.sound {d : Deed} (h : Move tlsTable s d t) (hs : Sound v K s) (hd : ∀ p, d.hits p → p ∈ K)
    (hw : d ≠ .wipe) : Sound v K t where
  owned := h.owned hs.owned hw
  berthed := h.berthed obedient_tlsTable hs.berthed
  log := hs.log.trans h.log
  expected hq p hst hp := by
    obtain ⟨hqs, hqt⟩ := hq.split hs.log h.log
    have hsp := h.bypasses hs.owned hs.berthed (fun hhit => hp (hd p hhit)) (fun _ => hqt) hst
    exact hsp.expected (hsp.stalled hst) (hs.expected hqs p (hsp.stalled hst) hp)

theorem Moves.sound (h : Moves tlsTable A s t) (hs : Sound v K s) (hA : ∀ d ∈ A, (∀ p, d.hits p → p ∈ K) ∧ d ≠ .wipe) :
    Sound v K t :=
  h.keeps (fun d _ _ hd hm hs => hm.sound hs (hA d hd).1 (hA d hd).2) hs

theorem Plain.sound (h : Plain s t) (hs : Sound v K s) : Sound v K t :=
  (Move.plain h).sound hs (fun _ hp => hp.elim) (by simp)

/-- A move that opens no socket for the channel stalls it by a blocked call only. -/
theorem Move.free {d : Deed} (h : Move tlsTable s d t) (hs : Sound v K s) (hf : Free v n s)
    (hopen : (∀ op, d ≠ .attach n op) ∧ d ≠ .refuse n ∧ d ≠ .wipe) : Free v n t := by
  intro hq hst
  obtain ⟨hqs, hqt⟩ := hq.split hs.log h.log
  by_cases hhit : d.hits n
  swap
  · exact hf hqs ((h.bypasses hs.owned hs.berthed hhit (fun _ => hqt) hst).stalled hst)
  refine hf hqs ?_
  cases h with
  | established hc _ =>
    obtain rfl : _ = n := hhit
    exact hst.back rfl (by simp [Sys.setChann, hc])
  | ctl h =>
    obtain rfl : _ = n := hhit
    obtain ⟨c, _, hctl, _⟩ := evtCtl_cases h
    exact hst.back hctl.ext (by simp [hctl.chann, hctl.was])
  | queue => exact hst.back rfl rfl
  | attach =>
    obtain rfl : _ = n := hhit
    exact absurd rfl (hopen.1 _)
  | refuse =>
    obtain rfl : _ = n := hhit
    exact absurd rfl hopen.2.1
  | wipe => exact absurd rfl hopen.2.2
  | _ => exact hhit.elim

/-! ## Connecting -/

/-- A request that is turned down at once. -/
def SysEvent.denied : SysEvent → Prop
  | .connect _ r e => refused r e
  | .epollCtl _ _ r => r < 0
  | _ => False

instance (e : SysEvent) : Decidable e.denied :=
  match e with
  | .connect _ r e => inferInstanceAs (Decidable (refused r e))
  | .epollCtl _ _ r => inferInstanceAs (Decidable (r < 0))
  | .socket .. | .setup .. | .nonblock .. | .accept .. | .close .. | .send .. | .sendto .. | .recv .. | .extOp ..
  | .sendFn .. | .recvFn .. => inferInstanceAs (Decidable False)

/-- With a queue there is a request, which works or has failed. -/
theorem evtCtl_applies {op : CtlOp} {events : BitVec 32} {r : Int} (hkq : s.mnet.kq = true)
    (h : Returns (evtCtl n op events) s r t) : (∃ c, s.heap n = some c ∧
      t.kernel.epoll = (op.apply c.fd ⟨events, n⟩ s.kernel).epoll) ∨
        ∃ fd, t.kernel.trace = .epollCtl fd events (-1) :: s.kernel.trace := by
  simp only [evtCtl, evtRequest, returns_bind, returns_deref, returns_readMnet, and_assoc, exists_and_left,
    exists_eq_left] at h
  obtain ⟨q, b, ⟨c, hc, hreq⟩, h⟩ := h
  rw [if_pos hkq] at hreq
  simp only [sysEpollCtl, returns_bind, returns_read] at hreq
  obtain ⟨i, b, hi, _, _, ⟨rfl, rfl⟩, hreq⟩ := hreq
  obtain ⟨rfl, rfl⟩ := core_nextTick hi
  rcases returns_ite.mp hreq with ⟨_, hreq⟩ | ⟨_, hreq⟩
  · simp only [returns_bind, returns_modifyKernel, returns_record, returns_pure] at hreq
    obtain ⟨_, _, rfl, _, _, rfl, rfl, rfl⟩ := hreq
    rw [if_neg (by decide)] at h
    simp only [returns_bind, returns_modifyChann, returns_pure] at h
    obtain ⟨_, _, ⟨_, _, rfl⟩, _, rfl⟩ := h
    exact .inl ⟨c, hc, rfl⟩
  · simp only [returns_bind, returns_modifyKernel, returns_record, returns_pure] at hreq
    obtain ⟨_, _, rfl, _, _, rfl, rfl, rfl⟩ := hreq
    rw [if_pos (by decide)] at h
    obtain ⟨_, rfl⟩ := returns_pure.mp h
    exact .inr ⟨c.fd, rfl⟩

/-- The kernel watches for writing after it was asked to. -/
theorem evtAdd_write {r : Int} (hkq : s.mnet.kq = true) (h : Returns (evtAdd n .write) s r t) :
    (∃ c, t.heap n = some c ∧ WriteArmed t c) ∨ ∃ e, e.denied ∧ t.kernel.trace = e :: s.kernel.trace := by
  have hctl := evtAdd_cases h
  simp only [evtAdd, returns_bind, returns_deref, and_assoc, exists_and_left, exists_eq_left] at h
  obtain ⟨c, hc, h⟩ := h
  obtain ⟨d, hd, he⟩ | ⟨fd, htrace⟩ := evtCtl_applies hkq h
  · obtain rfl := Option.some.inj (hc.symm.trans hd)
    obtain ⟨f, ev, hctl⟩ := hctl
    obtain rfl := Option.some.inj (hc.symm.trans hctl.was)
    refine .inl ⟨_, hctl.chann, ⟨addedMask c.epollEvents .write, n⟩, ?_, addedMask_write _⟩
    rw [he]
    split <;> exact Function.update_self ..
  · exact .inr ⟨_, by exact (by decide : (-1 : Int) < 0), htrace⟩

/-- A new connection that could not write is watched for writing. -/
theorem attach_expected (hs : Owned s) (h : Move tlsTable s (.attach n .connectCb) t) (hst : Stalled t n)
    (hkq : s.mnet.kq = true) (hfine : Adds (fun e => ¬ e.denied) s t) : Expected t n := by
  cases h with
  | @attach a b _ _ c fd r addr st _ set u hc hdis hnew hent hheap hadd hcb =>
  have hsteady := attach_steady hc hdis hnew hent hheap hadd
  have hown := hs.steady hsteady
  obtain ⟨_, _, hctl⟩ := evtAdd_cases hadd
  have hwas := hctl.was
  rw [hheap, Function.update_self, Option.some.injEq] at hwas
  subst hwas
  have hb : (b.recorded (.extOp .connectCb n)).heap n = _ := hctl.chann
  obtain ⟨hty, hext⟩ | ⟨hty, hext⟩ := extConfig_cases c.ctype
  swap
  · rw [hext, internalExt_cb] at hcb
    obtain rfl := (returns_pure.mp hcb).2
    exact absurd (hown.ud n _ hb (hst.ud hb).2).1 hty
  rw [hext] at hcb hent
  obtain ⟨_, ⟨_, rfl, rfl⟩ | ⟨hno, _⟩⟩ | ⟨hno, _⟩ := hent
  rotate_left
  · exact absurd rfl hno
  · cases hno
  obtain ⟨hz, rfl⟩ | ⟨hne, d, hd, hbegin⟩ := tlsConnectCb_cases hb (hown.typed n _ hb) hcb
  · exact absurd hz (hst.ud hb).2
  obtain ⟨e, f, ret, err, w, he, hf, hk, hheapw, hextw, hcases⟩ := tlsBegin_cases hbegin
  obtain rfl := Option.some.inj (he.symm.trans hb)
  obtain rfl := Option.some.inj (hf.symm.trans (Function.update_self ..))
  obtain ⟨_, rfl⟩ | ⟨_, _, hdown⟩ := hcases
  swap
  · -- the first call has failed, and the socket is closed
    rw [tlsDisconnect, ← opsOf_tlsTable] at hdown
    obtain ⟨_, _, hdown, hpure⟩ := returns_bind.mp hdown
    obtain rfl := (returns_pure.mp hpure).2
    obtain ⟨g, hg, ⟨hno, _⟩ | ⟨_, _, _, _, _, _, _, hrel⟩⟩ := channDisconnectSocket_cases hdown
    · rw [hheapw] at hg
      obtain rfl := Option.some.inj (hg.symm.trans hb)
      exact absurd ⟨hnew.pos, trivial⟩ hno
    · have ht := hrel.heap
      exact absurd (hst.ud (by rw [ht, Function.update_self])).1 (by simp)
  have hret : ret ≠ 1 := by
    obtain ⟨⟨i, hi, q, hq, hw⟩, _⟩ := hst
    have hud : t.ext.uds c.extUd = some { d with
        state := if ret = 1 then .connected else .connecting, ssl := some b.ext.nextSsl } := by
      rw [hextw]
      exact Function.update_self ..
    have hssl := Sys.sslOf_eq (by rw [hheapw]; exact hb) hne hud
    rw [hssl, Option.mem_some_iff] at hi
    subst hi
    rw [hextw, Tls.lastCall_self rfl, Option.mem_some_iff] at hq
    subst hq
    exact hw.1
  have hkb : b.mnet.kq = true := by rw [hctl.mnet, hnew.mnet, hkq]
  obtain ⟨g, hg, reg, hreg, hout⟩ | ⟨e, he, htrace⟩ := evtAdd_write (by rw [hnew.mnet, hkq]) hadd
  · obtain rfl := Option.some.inj (hg.symm.trans hb)
    refine ⟨_, _, by rw [hheapw]; exact hb, rfl, ⟨hne, by rw [hextw]; exact Function.update_self ..⟩, if_neg hret,
      by rw [hk.mnet]; exact hkb, reg, ?_, hout⟩
    rw [hk.epoll]
    exact hreg
  · obtain ⟨l, hl, hsplit⟩ := hfine
    obtain ⟨_, _, hadds⟩ := hnew.trace
    obtain ⟨k, hk'⟩ := (List.suffix_cons _ _).trans hadds.suffix
    have htw : t.kernel.trace = .extOp .connectCb n :: b.kernel.trace := hk.trace
    have hnewl : l = .extOp .connectCb n :: e :: k := List.append_cancel_right
      (by rw [← hsplit, htw, htrace, ← hk']; rfl)
    exact absurd he (hl e (by rw [hnewl]; simp))

/-- A listener has no user data. -/
theorem attach_listening (hs : Owned s) (h : Move tlsTable s (.attach n .listenCb) t) : ¬ Stalled t n := by
  intro hst
  cases h with
  | @attach a b _ _ c fd r addr st _ set u hc hdis hnew hent hheap hadd hcb =>
  have hown := hs.steady (attach_steady hc hdis hnew hent hheap hadd)
  obtain ⟨_, _, hctl⟩ := evtAdd_cases hadd
  have hwas := hctl.was
  rw [hheap, Function.update_self, Option.some.injEq] at hwas
  subst hwas
  have hb : (b.recorded (.extOp .listenCb n)).heap n = _ := hctl.chann
  obtain ⟨_, hext⟩ | ⟨hty, hext⟩ := extConfig_cases c.ctype
  · rw [hext] at hcb
    obtain ⟨hz, rfl⟩ | ⟨_, rfl⟩ := tlsListenCb_cases hb (hown.typed n _ hb) hcb
    · exact (hst.ud hb).2 hz
    · exact (hst.ud (setChann_self ..)).2 rfl
  · rw [hext, internalExt_cb] at hcb
    obtain rfl := (returns_pure.mp hcb).2
    exact hty (hown.ud n _ hb (hst.ud hb).2).1

/-- What `mnet_chann_connect` and `mnet_chann_listen` consist of, up to the channel they are about. -/
theorem Move.watchful {d : Deed} (h : Move tlsTable s d t) (hs : Watchful s) (hd : ¬ d.calls ∧ d ≠ .wipe)
    (hhit : ∀ p, d.hits p → Stalled t p → Expected t p) : Watchful t where
  owned := h.owned hs.owned hd.2
  berthed := h.berthed obedient_tlsTable hs.berthed
  expected p hst := by
    by_cases hp : d.hits p
    · exact hhit p hp hst
    · have hby := h.bypasses hs.owned hs.berthed hp (fun hc => absurd hc hd.1) hst
      exact hby.expected (hby.stalled hst) (hs.expected p (hby.stalled hst))

/-- Nothing is refused where nothing is turned down. -/
theorem refuse_denied (h : Move tlsTable s (.refuse n) t) (hfine : Adds (fun e => ¬ e.denied) s t) : False := by
  cases h with
  | refuse _ _ hnew _ href =>
    obtain ⟨e, he, href⟩ := href
    obtain ⟨l, hl, hsplit⟩ := hfine
    obtain ⟨_, _, hadds⟩ := hnew.trace
    obtain ⟨k, hk⟩ := hadds.suffix
    cases l with
    | nil =>
      have hlen := congrArg List.length (hk.trans hsplit)
      simp [Sys.recorded] at hlen
      omega
    | cons e' l =>
      rw [hsplit, List.cons_append, List.head?_cons, Option.mem_some_iff] at he
      subst he
      refine hl e' List.mem_cons_self ?_
      cases e' with
      | connect => exact href
      | _ => exact href.elim

/-- A handshake that `mnet_chann_connect` leaves waiting for output is watched for it, when nothing
that it asks for is turned down. -/
theorem mnetChannConnect_watchful {host : Option Nat} {port r : Int} (hs : Watchful s)
    (h : Returns (mnetChannConnect tlsTable (some n) host port) s r t)
    (hfine : Blocked t n → s.mnet.kq = true ∧ Adds (fun e => ¬ e.denied) s t) : Watchful t := by
  obtain ⟨_, h | h | h⟩ | ⟨_, h⟩ := mnetChannConnect_cases h
  · exact (Move.plain h).watchful hs ⟨id, by simp⟩ fun _ hp => hp.elim
  · exact h.watchful hs ⟨id, by simp⟩ fun _ hp => hp.elim
  · refine h.watchful hs ⟨id, by simp⟩ fun p hp hst => ?_
    obtain rfl : n = p := hp
    exact (refuse_denied h (hfine hst.1).2).elim
  · refine h.watchful hs ⟨id, by simp⟩ fun p hp hst => ?_
    obtain rfl : n = p := hp
    obtain ⟨hkq, hfine⟩ := hfine hst.1
    exact attach_expected hs.owned h hst hkq hfine

theorem mnetChannListen_watchful {host : Option Nat} {port r : Int} {backlog : BitVec 32} (hs : Watchful s)
    (h : Returns (mnetChannListen tlsTable (some n) host port backlog) s r t) : Watchful t := by
  obtain ⟨_, h | h⟩ | ⟨_, h⟩ := mnetChannListen_cases h
  · exact (Move.plain h).watchful hs ⟨id, by simp⟩ fun _ hp => hp.elim
  · exact h.watchful hs ⟨id, by simp⟩ fun _ hp => hp.elim
  · refine h.watchful hs ⟨id, by simp⟩ fun p hp hst => ?_
    obtain rfl : n = p := hp
    exact absurd hst (attach_listening hs.owned h)

/-! ## Calls about a channel -/

/-- What bears on no connection but that of `n`, and opens none. -/
def Deed.tends (n : ChannId) : Deed → Prop
  | .established m | .ctl m => m = n
  | .attach .. | .refuse _ | .queue | .wipe => False
  | _ => True

theorem Deed.tends.hits {d : Deed} (h : d.tends n) (hp : d.hits p) : p = n := by
  cases d with
  | established | ctl => exact Eq.trans (Eq.symm hp) h
  | attach | refuse | queue | wipe => exact absurd h id
  | _ => exact absurd hp id

theorem Deed.tends.closed {d : Deed} (h : d.tends n) : (∀ op, d ≠ .attach n op) ∧ d ≠ .refuse n ∧ d ≠ .wipe := by
  refine ⟨fun op => ?_, ?_, ?_⟩
  all_goals
    rintro rfl
    exact h

/-- A channel that is not stalled is not afterwards. -/
theorem Moves.tends (h : Moves tlsTable A s t) (hs : Sound v ∅ s) (hf : Free v n s) (hA : ∀ d ∈ A, d.tends n) :
    Sound v ∅ t ∧ Free v n t := by
  have hkeep := h.keeps (I := fun a => Sound v {n} a ∧ Free v n a) (fun d _ _ hd hm ⟨hs, hf⟩ =>
    ⟨hm.sound hs (fun p hp => (hA d hd).hits hp) (hA d hd).closed.2.2, hm.free hs hf (hA d hd).closed⟩)
    ⟨hs.mono (Set.empty_subset _), hf⟩
  exact ⟨hkeep.1.free hkeep.2, hkeep.2⟩

/-- What bears on no connection. -/
def Deed.calm (d : Deed) : Prop := ∀ n, d.tends n

/-- Moves that bear on no connection. -/
theorem Moves.calm (h : Moves tlsTable A s t) (hs : Sound v K s) (hA : ∀ d ∈ A, d.calm) : Sound v K t :=
  h.sound hs fun d hd => by
    refine ⟨fun p hp => ?_, (hA d hd 0).closed.2.2⟩
    exact absurd ((hA d hd (p + 1)).hits hp) (Nat.ne_of_lt (Nat.lt_succ_self p))

theorem Expected.channState (he : Expected s n) (hb : Owned s) (hc : s.heap n = some c) :
    channState tlsTable s n c = ChannState.connecting.val := by
  obtain ⟨e, d, hce, _, ⟨hne, hd⟩, hface, _⟩ := he
  obtain rfl := Option.some.inj (hce.symm.trans hc)
  have hty := (hb.ud n e hc hne).1
  have hres := hb.typed n e hc
  show (extConfig tlsTable e.ctype).stateFn s n e.state = _
  rw [hty] at hres ⊢
  show tlsStateFn s n e.state = _
  rw [tlsStateFn, hc]
  simp [hty, hres, hne, hd, hface]

theorem mnetChannActiveEvent_sound {et : ChannEvent} {value : Int} (hs : Watchful s)
    (h : Returns (mnetChannActiveEvent tlsTable (some n) et value) s u t) : Sound s ∅ t := by
  by_cases hst : Stalled s n
  · have hplain : Plain s t := by
      simp only [mnetChannActiveEvent, returns_bind, returns_read, returns_deref, and_assoc, exists_and_left,
        exists_eq_left, id] at h
      obtain ⟨c, hc, h⟩ := h
      rw [(hs.expected n hst).channState hs.owned hc, if_neg fun hno => by cases hno.2.1] at h
      exact Within.ite (fun _ => plain_activeTimer) (fun _ => within_pure ()) _ _ h
    exact hplain.sound hs.sound
  · refine ((moves_mnetChannActiveEvent _ _ h).tends hs.sound (fun _ => hst) ?_).1
    rintro d (rfl | rfl | rfl)
    · trivial
    · trivial
    · rfl

theorem mnetChannSend_sound {buf : Option (List UInt8)} {r : Int} (hs : Watchful s)
    (h : Returns (mnetChannSend tlsTable (some n) buf) s r t) : Sound s ∅ t := by
  by_cases hst : Stalled s n
  · have hsame : t = s := by
      obtain ⟨c, hc⟩ := hst.2.imp fun _ hc => hc.1
      have hready : Returns (channReady tlsTable n) s false s := by
        simp only [channReady, returns_bind, returns_read, returns_deref, returns_pure, and_assoc, exists_and_left,
          exists_eq_left]
        refine ⟨c, hc, ?_, trivial⟩
        rw [show id s = s from rfl, (hs.expected n hst).channState hs.owned hc]
        rfl
      simp only [mnetChannSend, returns_bind, returns_require, and_assoc, Option.some.injEq] at h
      obtain ⟨m, a, hm, rfl, ready, b, hr, h⟩ := h
      obtain ⟨rfl, rfl⟩ := hready.det (hm ▸ hr)
      rw [if_neg fun hno => by cases hno.2] at h
      exact (returns_pure.mp h).2
    rw [hsame]
    exact hs.sound
  · refine ((moves_mnetChannSend (fun _ hd => hd) _ _ h).tends hs.sound (fun _ => hst) ?_).1
    rintro d (((rfl | rfl | rfl) | rfl | rfl) | rfl)
    all_goals trivial

/-- An addressed datagram is sent by a channel that has no handshake. -/
theorem mnetDgramSend_sound {addr : Option (Nat × Int)} {buf : Option (List UInt8)} {r : Int} (hs : Watchful s)
    (h : Returns (mnetDgramSend tlsTable (some n) addr buf) s r t) : Sound s ∅ t := by
  obtain ⟨rfl, _⟩ | ⟨c, _, _, _, hc, hdgram, _⟩ := mnetDgramSend_cases h
  · exact hs.sound
  have hty : c.ctype ≠ CHANN_TYPE_TLS := by
    intro hty
    rw [hty] at hdgram
    cases hdgram
  have hkeep := (moves_mnetDgramSend _ _ h).keeps (I := fun a => Sound s {n} a ∧ ∃ d, a.heap n = some d ∧
    d.ctype ≠ CHANN_TYPE_TLS) (fun d a b hd hm ⟨ha, e, he, hne⟩ => ?_) ⟨hs.sound.mono (Set.empty_subset _), c, hc, hty⟩
  · obtain ⟨ht, d, hd, hne⟩ := hkeep
    exact ht.free fun _ hst => hne (ht.owned.ud n d hd (hst.ud hd).2).1
  · have hdeed : (d.idle ∨ ∃ op, d = .attach n op) ∧ (∀ p, d.hits p → p = n) ∧ d ≠ .wipe := by
      obtain (rfl | rfl | rfl | rfl) | (((rfl | rfl | rfl) | rfl | rfl) | rfl) | rfl := hd
      all_goals exact ⟨by first | exact .inl trivial | exact .inr ⟨_, rfl⟩, fun p hp => by
        first | exact hp.elim | exact Eq.symm hp, by simp⟩
    have hsteady : Steady a b := by
      obtain hidle | ⟨op, rfl⟩ := hdeed.1
      · exact hm.steady hidle
      · exact attach_other he hne hm
    refine ⟨hm.sound ha (fun p hp => hdeed.2.1 p hp) hdeed.2.2, ?_⟩
    have hh := hsteady.holder n
    rw [he] at hh
    obtain ⟨f, hf, hhold⟩ := Option.map_eq_some_iff.mp hh
    have hsame : f.ctype = e.ctype := congrArg (·.2.1) hhold
    exact ⟨f, hf, hsame ▸ hne⟩

/-! ## The message loop -/

theorem evtListening_sound {raw : Nat} {q : Pass} (hs : Sound v ∅ s) (hc : s.heap n = some c) (hst : c.state = .listening)
    (h : Returns (evtListening tlsTable n raw) s q t) : Sound v ∅ t := by
  have hemit : ∀ {a : Sys Tls} {event : ChannEvent} {q : Option ChannId} {err : Int} {r : Pass},
      (event.drives → ∃ c, a.heap n = some c ∧ c.state.active) → Sound v ∅ a →
      Returns (emit tlsTable n event q err) a r t → Sound v ∅ t := fun {_ event _ _ _} hup ha h =>
    (moves_emit (A := {.message n event}) hup rfl _ _ h).calm ha fun d hd => by
      obtain rfl : d = _ := hd
      exact fun _ => trivial
  rcases returns_ite.mp h with ⟨_, h⟩ | ⟨_, h⟩
  swap
  · exact hemit (fun _ => ⟨c, hc, hst ▸ trivial⟩) hs h
  obtain ⟨_, a, hacc, h⟩ := returns_bind.mp h
  obtain ⟨rfl, ha | ha⟩ | ⟨m, rfl, ha⟩ := channAccept_cases hacc
  · obtain rfl := (returns_pure.mp h).2
    exact ha.sound hs
  · obtain rfl := (returns_pure.mp h).2
    exact ha.sound hs (fun _ hp => hp.elim) (by simp)
  obtain ⟨_, b, hadd, h⟩ := returns_bind.mp h
  have hsa : Sound v ∅ a := ha.sound hs (fun _ hp => hp.elim) (by simp)
  -- the channel was not there, so nothing it held was blocked
  have hfree : Free v m a := fun hq hst => by
    have hby := ha.bypasses hs.owned hs.berthed id (fun _ => (hq.split hs.log ha.log).2) hst
    obtain ⟨_, d, hd, _⟩ := hby.stalled hst
    exact absurd (hs.owned.below m d hd) (accept_fresh ha ▸ Nat.lt_irrefl _)
  have hmoves : Moves tlsTable {.ctl m} a b := moves_evtAdd (A := {.ctl m}) rfl _ _ hadd
  refine hemit False.elim (hmoves.tends hsa hfree ?_).1 h
  rintro d rfl
  rfl

/-- What `SO_ERROR` says of a connection. -/
def sockFailed (r : Int × Int) : Int := if r.1 < 0 then 0 else r.2

/-- A connection that is up is watched for reading, and its message is made. -/
theorem evtConnecting_up (hc : s.heap n = some c) (hst : c.state = .connecting) {r : Int × Int}
    (herr : Returns (sysSockError c.fd) s r a) (hok : sockFailed r = 0) : ∃ b d,
      Moves tlsTable {.plain, .ctl n, .established n} s b ∧ b.ext = s.ext ∧ b.heap n = some d ∧ d.fd = c.fd ∧
        d.extUd = c.extUd ∧ d.state = .connected ∧ ∀ q t, Returns (evtConnecting tlsTable n) s q t ↔ Returns (emit tlsTable n .connected none 0) b q t := by
  have ha := outside_sysSockError _ _ _ herr
  have hca : a.heap n = some c := ha.heap ▸ hc
  obtain ⟨_, b, hdel⟩ := evtDel_terminates (core_heap_some hca) .write
  obtain ⟨c₁, ev₁, h₁⟩ := evtDel_cases hdel
  obtain rfl := Option.some.inj (h₁.was.symm.trans hca)
  obtain ⟨_, e, hadd⟩ := evtAdd_terminates (core_heap_some h₁.chann) .read
  obtain ⟨c₂, ev₂, h₂⟩ := evtAdd_cases hadd
  obtain rfl := Option.some.inj (h₂.was.symm.trans h₁.chann)
  have hset : Returns (modifyChann n fun c => { c with state := .connected }) e ()
      (e.setChann n { c₁ with epollEvents := ev₂, state := .connected }) := returns_modifyChann.mpr ⟨_, h₂.chann, rfl⟩
  refine ⟨e.setChann n _, { c₁ with epollEvents := ev₂, state := .connected }, ?_, ?_, setChann_self .., rfl, rfl, rfl, fun q t => ?_⟩
  · refine ((Move.plain ha.plain).moves (.inl rfl)).trans (((moves_evtDel (.inr (.inl rfl)) _ _ hdel).trans
      (moves_evtAdd (.inr (.inl rfl)) _ _ hadd)).trans ?_)
    exact (Move.established h₂.chann hst).moves (.inr (.inr rfl))
  · exact h₂.ext.trans (h₁.ext.trans ha.plain.ext)
  · unfold sockFailed at hok
    rw [evtConnecting, (returns_deref.mpr ⟨hc, rfl⟩).bind_iff, herr.bind_iff]
    simp only
    rw [if_pos hok, hdel.bind_iff, hadd.bind_iff, hset.bind_iff]

/-- A connection that has failed is hung up, and otherwise its handshake is called. -/
theorem evtConnecting_sound {q : Pass} (hs : Sound v ∅ s) (hc : s.heap n = some c) (hst : c.state = .connecting)
    (h : Returns (evtConnecting tlsTable n) s q t) : Sound v ∅ t := by
  obtain ⟨r, a, herr⟩ := halts_sysSockError c.fd s
  by_cases hok : sockFailed r = 0
  swap
  · unfold sockFailed at hok
    rw [evtConnecting, (returns_deref.mpr ⟨hc, rfl⟩).bind_iff, herr.bind_iff] at h
    simp only at h
    rw [if_neg hok] at h
    have hmoves : Moves tlsTable {d | d = .disconnect n ∨ d = .message n .disconnect} a t :=
      Within.bind (moves_disconnect (.inl rfl)) (fun _ _ _ => moves_emit False.elim (.inr rfl)) _ _ h
    have ha : Sound v ∅ a := (outside_sysSockError _ _ _ herr).plain.sound hs
    refine hmoves.calm ha ?_
    rintro d (rfl | rfl) <;> exact fun _ => trivial
  obtain ⟨b, d, hmoves, hext, hd, hfd, hud, hdst, hiff⟩ := evtConnecting_up hc hst herr hok
  have hb : Sound v {n} b := hmoves.sound (hs.mono (Set.empty_subset _)) fun d hd => by
    obtain rfl | rfl | rfl := hd
    all_goals exact ⟨fun p hp => by first | exact hp.elim | exact Eq.symm hp, by simp⟩
  have hemit := (hiff q t).mp h
  simp only [emit, returns_bind, returns_pure] at hemit
  obtain ⟨pass, _, hmsg, _, rfl⟩ := hemit
  have hmove : Move tlsTable b (.message n .connected) t := .message (fun _ => ⟨d, hd, hdst ▸ trivial⟩) hmsg
  have ht : Sound v {n} t := hmove.sound hb (fun _ hp => hp.elim) (by simp)
  refine ht.free fun hq hstt => ?_
  have hqt := (hq.split hb.log hmove.log).2
  -- its handshake is called, unless it was not stalled before either
  obtain hall | ⟨⟨_, hcalled⟩, _⟩ := channMsg_bypasses hb.owned hb.berthed hmsg
  swap
  · exact hcalled.unblocked hqt hstt.1
  have hback : Stalled s n := ((hall n).stalled hstt).back hext (by rw [hd, hc]; simp [hfd, hud])
  obtain ⟨e, f, he, _, ⟨hne, hf⟩, hface, _⟩ := hs.expected (hq.split hs.log (hmoves.log.trans hmove.log)).1 n hback id
  obtain rfl := Option.some.inj (he.symm.trans hc)
  obtain ⟨_, hcalled⟩ := channMsg_called hb.owned hb.berthed (show ChannEvent.connected.drives from trivial) hd (hud ▸ hne) (by rw [hext, hud]; exact hf)
    (by rw [hface]; exact ChannState.noConfusion) hmsg
  exact hcalled.unblocked hqt hstt.1

theorem evtDispatch_sound {kev : Kev} {q : Pass} (hs : Sound v ∅ s) (h : Returns (evtDispatch tlsTable kev) s q t) :
    Sound v ∅ t := by
  obtain ⟨n, c, _, hc, ⟨_, _, rfl⟩ | ⟨_, _, _, a, b, r, err, _, hdis, hemit, ha⟩ |
    ⟨_, _, _, ⟨hst, h⟩ | ⟨hst, h⟩ | ⟨hst, h⟩ | ⟨_, _, rfl⟩⟩⟩ := evtDispatch_cases h
  · exact hs
  · have hplain : Plain s a := by
      obtain rfl | ⟨_, ha⟩ := ha
      · exact .refl _
      · exact (outside_sysSockError _ _ _ ha).plain
    have hmoves : Moves tlsTable {d | d = .plain ∨ d = .disconnect n ∨ d = .message n .disconnect} s t :=
      ((Move.plain hplain).moves (.inl rfl)).trans ((moves_disconnect (.inr (.inl rfl)) _ _ hdis).trans
        (moves_emit False.elim (.inr (.inr rfl)) _ _ hemit))
    refine hmoves.calm hs ?_
    rintro d (rfl | rfl | rfl) <;> exact fun _ => trivial
  · exact evtListening_sound hs hc hst h
  · exact evtConnecting_sound hs hc hst h
  · by_cases hf : Free v n s
    · refine ((moves_evtConnected hc hst (fun _ hd => hd) _ _ h).tends hs hf ?_).1
      rintro d (((rfl | rfl | rfl) | rfl | rfl) | rfl | ⟨_, rfl⟩)
      all_goals trivial
    · -- a channel that is stalled is still being connected
      obtain ⟨hq, hstalled⟩ : Unstalled v s ∧ Stalled s n := by simpa [Free] using hf
      obtain ⟨d, _, hd, hdst, _⟩ := hs.expected hq n hstalled id
      obtain rfl := Option.some.inj (hd.symm.trans hc)
      rw [hst] at hdst
      cases hdst
  · exact hs

theorem tmNext_sound {fuel : Nat} {q : Option ChannId} (hs : Sound v ∅ s) (h : Returns (tmNext tlsTable fuel) s q t) :
    Sound v ∅ t := by
  refine Moves.calm (moves_tmNext (fun _ hd => hd) _ _ h) hs ?_
  rintro d (rfl | ⟨_, rfl⟩) <;> exact fun _ => trivial

theorem Fetches.sound {fuel : Nat} {kev : Kev} (h : Fetches tlsTable fuel s a kev) (hs : Sound v ∅ s) : Sound v ∅ a := by
  obtain ⟨b, htm, _, rfl⟩ := h.quiet
  have hplain : Plain b { b with mnet := { b.mnet with fdIndex := b.mnet.fdIndex + 1 } } :=
    plain_mnet rfl rfl (fun _ hr => hr) rfl
  exact hplain.sound (tmNext_sound hs htm)

theorem evtPass_sound {fuel : Nat} {q : Pass} (hs : Sound v ∅ s) (h : Returns (evtPass tlsTable fuel) s q t) :
    Sound v ∅ t := by
  obtain ⟨_, _, htm⟩ | ⟨_, a, _, htm, hdis⟩ | ⟨a, _, htm, _, rfl, _⟩ | ⟨a, kev, hf, hd⟩ := evtPass_cases h
  · exact tmNext_sound hs htm
  · exact (plain_disNext _ _ hdis).sound (tmNext_sound hs htm)
  · have hplain : Plain a { a with mnet := { a.mnet with fdIndex := a.mnet.fdIndex + 1 } } :=
      plain_mnet rfl rfl (fun _ hr => hr) rfl
    exact hplain.sound (tmNext_sound hs htm)
  · exact evtDispatch_sound (hf.sound hs) hd

theorem Rounds.sound {fuel : Nat} (h : Rounds tlsTable fuel s t) (hs : Sound v ∅ s) : Sound v ∅ t :=
  h.keeps hs fun _ _ ha => evtPass_sound ha

theorem evtLoop_sound {fuel rounds : Nat} {q : Option ChannId} (hs : Sound v ∅ s)
    (h : Returns (evtLoop tlsTable fuel rounds) s q t) : Sound v ∅ t :=
  evtLoop_keeps hs (fun _ _ _ ha => evtPass_sound ha) h

/-! ## Records -/

theorem sslHandshake_terminates {i : SslId} {op : SslOp} (hlive : s.ext.ssls i ≠ none) :
    Terminates (sslHandshake op (some i)) s := by
  obtain ⟨obj, hobj⟩ := Option.ne_none_iff_exists'.mp hlive
  have hderef : Returns (derefSsl (some i)) s (i, obj) s := returns_derefSsl.mpr ⟨rfl, rfl, hobj⟩
  have hanswer : Halts sslAnswer := (halts_read _).bind fun _ => .bind halts_sysRet fun _ => halts_pure _
  rw [sslHandshake, hderef.terminates_bind_iff]
  exact hanswer.bind (fun _ => (halts_modify _).bind fun _ => halts_pure _) s

theorem tlsHandshake_terminates {tu : Nat} {d : TlsUd} {i : SslId} (op : SslOp) (hd : s.ext.uds tu = some d)
    (hi : d.ssl = some i) (hlive : s.ext.ssls i ≠ none) : Terminates (tlsHandshake tu op) s := by
  have hderef : Returns (derefUd tu) s d s := returns_derefUd.mpr ⟨rfl, hd⟩
  rw [tlsHandshake, hderef.terminates_bind_iff, hi]
  refine (sslHandshake_terminates hlive).bind fun ret a ha => ?_
  obtain ⟨j, obj, err, hj, _, _, _, hext⟩ := sslHandshake_cases ha
  obtain rfl := Option.some.inj hj
  -- the user data and the object are still there
  refine .ite (fun _ => ?_) fun _ => ?_
  · have hset : Returns (modifyUd tu fun d => { d with state := .connected }) a () _ :=
      returns_modifyUd.mpr ⟨d, by rw [hext]; exact hd, rfl⟩
    exact hset.terminates_bind_iff.mpr (halts_pure _ _)
  · have hobj : Returns (derefSsl (some i)) a (i, { obj with err := err }) a :=
      returns_derefSsl.mpr ⟨rfl, rfl, by rw [hext]; exact Function.update_self ..⟩
    refine Terminates.bind ?_ fun _ _ _ => halts_pure _ _
    rw [sslIsRw, hobj.terminates_bind_iff]
    exact halts_pure _ _

/-- The handshake of the channel is called, once. -/
theorem tlsAdvance_calls {d : TlsUd} {i : SslId} (hb : Owned s) (hc : s.heap n = some c) (hne : c.extUd ≠ 0)
    (hd : s.ext.uds c.extUd = some d) (hst : d.state ≠ .connected) (hi : d.ssl = some i) : ∃ op hs ret err a,
      Returns (tlsHandshake c.extUd op) s hs a ∧ a.ext.log = .handshake i op ret err :: s.ext.log ∧
        ∀ pass t, Returns (tlsAdvance n (some n)) s pass t → t.ext.log = a.ext.log := by
  obtain ⟨hs, a, hcall⟩ := tlsHandshake_terminates (if d.state = .listening then .accept else .connect) hd hi
    (hb.held _ d i hd hi)
  obtain ⟨e, j, obj, ret, err, he, hj, _, _, _, hcases⟩ := tlsHandshake_cases hcall
  obtain rfl := Option.some.inj (he.symm.trans hd)
  obtain rfl := Option.some.inj (hj.symm.trans hi)
  have hlog : a.ext.log = .handshake j (if e.state = .listening then .accept else .connect) ret err :: s.ext.log := by
    obtain ⟨_, _, hext⟩ | ⟨_, _, _, hext⟩ | ⟨_, _, _, hext⟩ := hcases <;> rw [hext] <;> rfl
  refine ⟨_, hs, ret, err, a, hcall, hlog, fun pass t h => ?_⟩
  have hderef : Returns (derefUd c.extUd) s e s := returns_derefUd.mpr ⟨rfl, hd⟩
  rw [tlsAdvance, (getUd_of hc (hb.typed n c hc)).bind_iff, if_neg hne, hderef.bind_iff, if_neg hst, hcall.bind_iff] at h
  exact unlogged_tlsReport _ _ h

/-- What handling the record comes to is a step of the handshake of the channel, which is a call on its object. -/
def Resumes (s : Sys Tls) (kev : Kev) (n : ChannId) : Prop :=
  ∃ i ∈ s.sslOf n, ∃ b tu op hs ret err a, Returns (tlsHandshake tu op) b hs a ∧
    a.ext.log = .handshake i op ret err :: s.ext.log ∧
      (∀ q t, Returns (evtDispatch tlsTable kev) s q t ↔ Returns (do
        let pass ← tlsAdvance n (some n)
        return if pass then .ret (some n) else .next) b q t) ∧
          ∀ q t, Returns (evtDispatch tlsTable kev) s q t → t.ext.log = a.ext.log

/-- A record that tells of room to write, for a channel whose handshake waits for it. The connection is up. -/
structure Awaited (s : Sys Tls) (kev : Kev) (n : ChannId) (c : Chann) : Prop where
  ptr : kev.ptr = some n
  chann : s.heap n = some c
  opened : 0 < c.fd
  blocked : Blocked s n
  out : kev.events &&& EPOLLOUT ≠ 0
  fine : kev.events &&& (EPOLLERR ||| (EPOLLRDHUP ||| EPOLLHUP)) = 0
  up : ∀ r a, Returns (sysSockError c.fd) s r a → sockFailed r = 0

/-- The message that a connection is up goes to the filter. -/
theorem emit_connected (hc : s.heap n = some c) (hty : c.ctype = CHANN_TYPE_TLS) {q : Pass} :
    Returns (emit tlsTable n .connected none 0) s q t ↔ Returns (do
      let pass ← tlsAdvance n (some n)
      return if pass then .ret (some n) else .next) (s.setChann n { c with msg := msgOf n c .connected none 0 }) q t := by
  have hmsg : ∀ pass t, Returns (channMsg tlsTable n .connected none 0) s pass t ↔
      Returns (tlsAdvance n (some n)) (s.setChann n { c with msg := msgOf n c .connected none 0 }) pass t := by
    intro pass t
    have hself : Returns (deref n : TlsM Chann) (s.setChann n { c with msg := msgOf n c .connected none 0 })
        { c with msg := msgOf n c .connected none 0 } (s.setChann n { c with msg := msgOf n c .connected none 0 }) :=
      returns_deref.mpr ⟨setChann_self .., rfl⟩
    have hext : extConfig tlsTable c.ctype = tlsExt := by rw [hty, extConfig_tls]
    simp only [returns_channMsg, hc, Option.some.injEq, exists_eq_left', hext]
    show Returns (tlsFilterFn n) _ pass t ↔ _
    rw [tlsFilterFn, hself.bind_iff]
    exact Iff.rfl
  simp only [emit, returns_bind]
  exact exists_congr fun pass => exists_congr fun a => and_congr_left fun _ => hmsg pass a

theorem Expects.resumes {d : TlsUd} {kev : Kev} (hb : Owned s) (he : Expects s n c d) (h : Awaited s kev n c) :
    Resumes s kev n := by
  obtain ⟨hne, hd⟩ := he.ud
  obtain ⟨i, hi, _⟩ := h.blocked
  have hssl : d.ssl = some i := (Sys.sslOf_eq he.chann hne hd).symm.trans hi
  obtain ⟨r, a, herr⟩ := halts_sysSockError c.fd s
  obtain ⟨b, e, hmoves, hext, hbe, _, hud, _, hiff⟩ := evtConnecting_up he.chann he.state herr (h.up r a herr)
  have hown : Owned b := hmoves.owned (by simp) hb
  have hdisp : ∀ q t, Returns (evtDispatch tlsTable kev) s q t ↔ _ := fun q t =>
    (evtDispatch_fine h.ptr h.chann (by rw [he.state]; exact ChannState.noConfusion) (Int.le_of_lt h.opened) h.fine).trans
      ((by rw [he.state]; exact hiff q t : _ ↔ Returns (emit tlsTable n .connected none 0) b q t).trans
        (emit_connected hbe (hown.ud n e hbe (hud ▸ hne)).1))
  obtain ⟨op, hs, ret, err, w, hcall, hlog, hall⟩ := tlsAdvance_calls (n := n)
    (s := b.setChann n { e with msg := msgOf n e .connected none 0 })
    (hown.steady (steady_setChann hbe (by rfl))) (setChann_self ..) (hud ▸ hne)
    (by rw [← hext, ← hud] at hd; exact hd) (by rw [he.face]; exact ChannState.noConfusion) hssl
  refine ⟨i, hi, _, _, op, hs, ret, err, w, hcall, hlog.trans (by rw [← hext]; rfl), hdisp, fun q t ht => ?_⟩
  obtain ⟨pass, t', hadv, hp⟩ := returns_bind.mp ((hdisp q t).mp ht)
  rw [(returns_pure.mp hp).2]
  exact hall pass t' hadv

/-! ## Runs -/

/-- The channel that a call connects. -/
def Call.connects : Call → Option ChannId
  | .channConnect n _ _ => n
  | _ => none

/-- Calls that leave handshakes to be resumed. A handshake that waits for output has been begun by
`mnet_chann_connect`, with an event queue and nothing turned down, and nobody replaces the queue. -/
structure Attends (s : Sys Tls) (c : Call) (t : Sys Tls) : Prop where
  reset : c = .multiResetEvent → ∀ n < s.nextChann, ¬ Stalled s n
  connect : ∀ n ∈ c.connects, Blocked t n → s.mnet.kq = true ∧ Adds (fun e => ¬ e.denied) s t
  other : c.connects = none → Unstalled s t

/-- Moves that neither call a handshake nor open a socket stall nobody. -/
theorem Moves.unstalled (h : Moves tlsTable {d | d = .plain ∨ d = .queue ∨ ∃ n, d = .forget n ∨ d = .ctl n} s t)
    (hs : ∀ n, ¬ Stalled s n) : ∀ n, ¬ Stalled t n := by
  refine h.keeps (I := fun a => ∀ n, ¬ Stalled a n) (fun d a b hd hm ha n hst => ha n ?_) hs
  cases hm with
  | plain h => exact h.bypasses.stalled hst
  | queue => exact hst.back rfl rfl
  | @forget m c hc => exact (Bypasses.of_set (d := { c with epollEvents := 0 }) hc rfl).stalled hst
  | ctl h =>
    obtain ⟨c, _, hctl, _⟩ := evtCtl_cases h
    refine hst.back hctl.ext ?_
    rw [hctl.heap]
    by_cases hp : n = ‹ChannId›
    · subst hp
      rw [Function.update_self, hctl.was]
      rfl
    · rw [Function.update_of_ne hp]
  | _ => simp at hd

theorem plain_mnetInit (hkq : s.mnet.kq = true) : Within Plain (mnetInit) s := by
  refine .read_bind <| .ite (fun _ => within_pure _) fun _ => .bind (within_of_eq fun _ t h => ?_) fun _ _ _ =>
    .bind outside_sysClock.outside fun _ _ _ => .bind (plain_modifyMnet fun _ => ⟨rfl, rfl, fun _ h => by simp [h], rfl⟩)
      fun _ _ _ => within_pure _
  rw [evtInit, returns_modify, if_pos hkq] at h
  exact h

theorem Step.watchful {l : Call × Ret} (h : Step tlsTable s l t) (hl : Attends s l.1 t) (ho : Ordered s)
    (hs : Watchful s) : Watchful t := by
  have hown := h.owned ho hs.owned
  have hberth := h.berthed obedient_tlsTable hs.berthed
  have hnobody : (∀ n, ¬ Stalled t n) → Watchful t := fun hno => ⟨hown, hberth, fun n hst => absurd hst (hno n)⟩
  obtain ⟨c, r⟩ := l
  have hcalm : (∀ d ∈ c.deeds, d.calm) → Unstalled s t → Watchful t := fun hA hq =>
    (Moves.calm (moves_apiCall c r t h) hs.sound hA).watchful hq
  have hq := hl.other
  cases c with
  | mnetInit =>
    obtain ⟨_, _, h⟩ := returns_ret.mp h
    by_cases hkq : s.mnet.kq = true
    · exact ((plain_mnetInit hkq _ _ h).sound hs.sound).watchful (hq rfl)
    · -- without a queue nothing is expected
      refine hnobody (Moves.unstalled ((moves_mnetInit _ _ h).mono ?_) fun n hst => ?_)
      · rintro d (rfl | rfl) <;> simp
      · obtain ⟨_, _, he⟩ := hs.expected n hst
        exact hkq he.kq
  | mnetFini =>
    obtain ⟨_, _, h⟩ := returns_ret.mp h
    obtain rfl | ⟨b, _, rfl, hnone⟩ := mnetFini_moves ho h
    · exact hs
    · refine hnobody fun n hst => ?_
      obtain ⟨_, d, hd, _⟩ := hst
      rw [hnone n] at hd
      cases hd
  | multiResetEvent =>
    obtain ⟨_, _, h⟩ := returns_ret.mp h
    refine hnobody (Moves.unstalled ((moves_mnetMultiResetEvent _ _ h).mono ?_) fun n hst => ?_)
    · rintro d (rfl | ⟨n, rfl | rfl⟩) <;> simp
    · obtain ⟨_, d, hd, _⟩ := id hst
      exact hl.reset rfl n (hs.owned.below n d hd) hst
  | resultNext fuel =>
    obtain ⟨_, _, h⟩ := returns_ret.mp h
    exact (evtLoop_sound hs.sound h).watchful (hq rfl)
  | channConnect n host port =>
    obtain ⟨_, _, h⟩ := returns_ret.mp h
    cases n with
    | none => exact (returns_pure.mp h).2 ▸ hs
    | some n => exact mnetChannConnect_watchful hs h (hl.connect n rfl)
  | channListen n host port backlog =>
    obtain ⟨_, _, h⟩ := returns_ret.mp h
    cases n with
    | none => exact (returns_pure.mp h).2 ▸ hs
    | some n => exact mnetChannListen_watchful hs h
  | channActiveEvent n et value =>
    obtain ⟨_, _, h⟩ := returns_ret.mp h
    cases n with
    | none => exact (returns_pure.mp h).2 ▸ hs
    | some n => exact (mnetChannActiveEvent_sound hs h).watchful (hq rfl)
  | channSend n buf =>
    cases n with
    | none => exact hcalm (by simp [Call.deeds, Deed.calm, Deed.tends]) (hq rfl)
    | some n =>
      obtain ⟨_, _, h⟩ := returns_ret.mp h
      exact (mnetChannSend_sound hs h).watchful (hq rfl)
  | dgramSend n addr buf =>
    cases n with
    | none => exact hcalm (by simp [Call.deeds, Deed.calm, Deed.tends]) (hq rfl)
    | some n =>
      obtain ⟨_, _, h⟩ := returns_ret.mp h
      exact (mnetDgramSend_sound hs h).watchful (hq rfl)
  | multiAcceptBalancer | extRegister | channSetOpaque | socketSetBufsize | poll | channOpen =>
    refine hcalm ?_ (hq rfl)
    simp [Call.deeds, Deed.calm, Deed.tends, pollDeeds]
  | channClose n | channDisconnect n =>
    refine hcalm ?_ (hq rfl)
    cases n <;> simp [Call.deeds, Deed.calm, Deed.tends]
  | channRecv n | dgramRecv n =>
    refine hcalm ?_ (hq rfl)
    cases n with
    | none => simp [Call.deeds, Deed.calm, Deed.tends]
    | some n => rintro d ((rfl | rfl | rfl) | rfl) <;> exact fun _ => trivial

theorem watchful_start (o : Oracle) : Watchful (Sys.start o {} : Sys Tls) where
  owned := owned_start o
  berthed := berthed_start o _
  expected n hst := by
    obtain ⟨_, d, hd, _⟩ := hst
    cases hd

/-- Whether a list has grown by elements of a kind is seen from the two ends. -/
def decidableGrown {α : Type} [DecidableEq α] (P : α → Prop) [DecidablePred P] (l l' : List α) :
    Decidable (∃ k, (∀ e ∈ k, P e) ∧ l' = k ++ l) :=
  decidable_of_iff (l' = l'.take (l'.length - l.length) ++ l ∧ ∀ e ∈ l'.take (l'.length - l.length), P e) (by
    constructor
    · exact fun ⟨hl, hk⟩ => ⟨_, hk, hl⟩
    · rintro ⟨k, hk, rfl⟩
      simpa using hk)

instance (s t : Sys Tls) : Decidable (Unstalled s t) :=
  decidableGrown (fun ev : SslEvent => ¬ ev.stalls) s.ext.log t.ext.log

instance (s t : Sys Tls) (P : SysEvent → Prop) [DecidablePred P] : Decidable (Adds P s t) :=
  decidableGrown P s.kernel.trace t.kernel.trace

instance (s : Sys Tls) (n : ChannId) : Decidable (Stalled s n) :=
  inferInstanceAs (Decidable (Blocked s n ∧ ∃ c ∈ s.heap n, 0 < c.fd))

instance (s : Sys Tls) (c : Call) (t : Sys Tls) : Decidable (Attends s c t) :=
  decidable_of_iff ((c = .multiResetEvent → ∀ n < s.nextChann, ¬ Stalled s n) ∧
    (∀ n ∈ c.connects, Blocked t n → s.mnet.kq = true ∧ Adds (fun e => ¬ e.denied) s t) ∧
      (c.connects = none → Unstalled s t)) ⟨fun ⟨h, h', h''⟩ => ⟨h, h', h''⟩, fun h => ⟨h.reset, h.connect, h.other⟩⟩

/-- An environment in which handshakes wait for output, and descriptor 4 is ready for `flags`. At
tick 12 a socket is asked for its error. -/
def stalledOracle (flags : BitVec 32) : Oracle :=
  { quietOracle with
    val := fun tick => if tick = 12 then 0 else SSL_ERROR_WANT_WRITE
    events := fun _ => [(4, flags)] }

end MNet
