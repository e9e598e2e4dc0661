import MNet.Moves.Spec
import MNet.Core.Run
import Mathlib.Data.List.Perm.Subperm

/-! # Datagrams

A datagram channel has one address, and what waits in its cache is sent to whatever that address is
at the flush. A datagram reaches its destination unless the address is changed while it waits. -/

namespace MNet
open MNet.Lib MNet.Lib.Exec

variable {ε : Type} {x : ExtTable ε} {s t : Sys ε} {n : ChannId} {c d : Chann} {fd : Int}

/-- A destination and the bytes for it. -/
abbrev Datagram := SockAddr × List UInt8

/-- What the socket `fd` took. -/
def SysEvent.handed (fd : Int) : SysEvent → Option Datagram
  | .sendto fd' addr data ret => if fd' = fd ∧ 0 ≤ ret then some (addr, data.take ret.toNat) else none
  | _ => none

/-- The datagrams the socket was handed, oldest first. -/
def Kernel.handed (k : Kernel) (fd : Int) : List Datagram := (k.trace.filterMap (SysEvent.handed fd)).reverse

theorem handed_cons {k k' : Kernel} {e : SysEvent} (h : k'.trace = e :: k.trace) :
    k'.handed fd = k.handed fd ++ (e.handed fd).toList := by
  rw [Kernel.handed, h, Kernel.handed]
  cases he : e.handed fd with
  | none => rw [List.filterMap_cons_none he, Option.toList_none, List.append_nil]
  | some d => rw [List.filterMap_cons_some he, List.reverse_cons, Option.toList_some]

theorem handed_adds (h : Adds SysEvent.plain s t) : t.kernel.handed fd = s.kernel.handed fd := by
  obtain ⟨l, hl, ht⟩ := h
  have hnil : l.filterMap (SysEvent.handed fd) = [] := by
    refine List.filterMap_eq_nil_iff.mpr fun e he => ?_
    have hplain := hl e he
    cases e with
    | sendto => exact hplain.elim
    | _ => rfl
  rw [Kernel.handed, ht, List.filterMap_append, hnil, List.nil_append, Kernel.handed]

/-- What decides where the datagrams of a channel go. -/
def Chann.outlet (c : Chann) : Int × ChannState × Nat × SockAddr × RwbHead :=
  (c.fd, c.state, c.ctype, c.addr, c.rwbSend)

/-- Data can be sent. -/
def Chann.Linked (c : Chann) : Prop := c.state = .connected ∨ c.state = .listening

theorem Chann.Linked.congr (h : d.Linked) (ho : d.outlet = c.outlet) : c.Linked := by
  have hst : d.state = c.state := congrArg (·.2.1) ho
  rwa [Chann.Linked, hst] at h

/-- Nothing is handed to the socket, and the channel keeps its address and its cache unless it loses
the socket. -/
structure Mute (n : ChannId) (fd : Int) (s t : Sys ε) : Prop where
  handed : t.kernel.handed fd = s.kernel.handed fd
  outlet : ∀ d, t.heap n = some d → d.Linked → ∃ c, s.heap n = some c ∧ d.outlet = c.outlet
  ctype : ∀ d, t.heap n = some d → ∃ c, s.heap n = some c ∧ d.ctype = c.ctype
  trace : s.kernel.trace <:+ t.kernel.trace

namespace Mute

theorem of_heap (hheap : t.heap = s.heap) (htrace : t.kernel.trace = s.kernel.trace) : Mute n fd s t where
  handed := by rw [Kernel.handed, htrace, Kernel.handed]
  outlet d hd _ := ⟨d, hheap ▸ hd, rfl⟩
  ctype d hd := ⟨d, hheap ▸ hd, rfl⟩
  trace := htrace ▸ List.suffix_refl _

theorem refl (s : Sys ε) : Mute n fd s s := of_heap rfl rfl

theorem trans {a : Sys ε} (h : Mute n fd s a) (h' : Mute n fd a t) : Mute n fd s t where
  handed := h'.handed.trans h.handed
  outlet d hd hlinked := by
    obtain ⟨b, hb, hdb⟩ := h'.outlet d hd hlinked
    obtain ⟨c, hc, hbc⟩ := h.outlet b hb (hlinked.congr hdb)
    exact ⟨c, hc, hdb.trans hbc⟩
  ctype d hd := by
    obtain ⟨b, hb, hdb⟩ := h'.ctype d hd
    obtain ⟨c, hc, hbc⟩ := h.ctype b hb
    exact ⟨c, hc, hdb.trans hbc⟩
  trace := h.trace.trans h'.trace

theorem of_update {e : Chann} (hc : s.heap n = some c) (he : t.heap n = some e)
    (hout : e.Linked → e.outlet = c.outlet) (hty : e.ctype = c.ctype)
    (hhanded : t.kernel.handed fd = s.kernel.handed fd) (htrace : s.kernel.trace <:+ t.kernel.trace) :
    Mute n fd s t where
  handed := hhanded
  outlet d hd hlinked := by
    rw [he, Option.some.injEq] at hd
    subst hd
    exact ⟨c, hc, hout hlinked⟩
  ctype d hd := by
    rw [he, Option.some.injEq] at hd
    subst hd
    exact ⟨c, hc, hty⟩
  trace := htrace

theorem of_set (hc : s.heap n = some c) (hd : d.outlet = c.outlet) : Mute n fd s (s.setChann n d) :=
  of_update hc (setChann_self ..) (fun _ => hd) (congrArg (·.2.2.1) hd) rfl (List.suffix_refl _)

theorem recorded {e : SysEvent} (he : e.handed fd = none) : Mute n fd s (s.recorded e) where
  handed := by
    rw [show (s.recorded e).kernel.handed fd = _ from handed_cons rfl, he, Option.toList_none, List.append_nil]
  outlet d hd _ := ⟨d, hd, rfl⟩
  ctype d hd := ⟨d, hd, rfl⟩
  trace := List.suffix_cons _ _

end Mute

instance : Std.Refl (Mute (ε := ε) n fd) := ⟨Mute.refl⟩

instance : IsTrans (Sys ε) (Mute n fd) := ⟨fun _ _ _ => Mute.trans⟩

theorem mute_modifyChann {f : Chann → Chann} (hf : ∀ c, (f c).outlet = c.outlet) :
    Within (Mute n fd) (modifyChann n f) s := by
  intro _ t h
  obtain ⟨c, hc, rfl⟩ := returns_modifyChann.mp h
  exact .of_set hc (hf c)

theorem Controlled.mute {ev : BitVec 32} (h : Controlled n c ev s t) : Mute n fd s t :=
  .of_update h.was h.chann (fun _ => rfl) rfl (handed_adds h.trace) h.trace.suffix

theorem mute_evtAdd {set : EvtSet} : Within (Mute n fd) (evtAdd n set) s := by
  intro _ t h
  obtain ⟨c, ev, hc⟩ := evtAdd_cases h
  exact hc.mute

theorem mute_evtDel {set : EvtSet} : Within (Mute n fd) (evtDel n set) s := by
  intro _ t h
  obtain ⟨c, ev, hc⟩ := evtDel_cases h
  exact hc.mute

theorem mute_pushDis : Within (Mute n fd) (pushDis n) s :=
  .read_bind <| .bind (mute_modifyChann fun _ => rfl) fun _ _ _ _ t h => by
    rw [returns_modifyMnet] at h
    subst h
    exact .of_heap rfl rfl

/-! ## Datagram channels -/

theorem builtin_of_dgram {ctype : Nat} (h : isDgram ctype = true) :
    ctype ≤ CHANN_TYPE_BROADCAST ∧ ctype ≠ CHANN_TYPE_STREAM := by
  have hty : ctype = CHANN_TYPE_DGRAM ∨ ctype = CHANN_TYPE_BROADCAST := by simpa [isDgram] using h
  obtain rfl | rfl := hty <;> decide

theorem extConfig_dgram (x : ExtTable ε) {ctype : Nat} (h : isDgram ctype = true) :
    extConfig x ctype = internalExt ctype := extConfig_builtin x (builtin_of_dgram h).1

theorem internalExt_dgram {ctype : Nat} (h : isDgram ctype = true) :
    (internalExt ctype : Ext ε).sendFn = extDgramSend ∧ (internalExt ctype : Ext ε).recvFn = extDgramRecv :=
  ⟨if_neg (builtin_of_dgram h).2, if_neg (builtin_of_dgram h).2⟩

/-- The channel has a socket, and it is for datagrams. -/
structure Carries (s : Sys ε) (n : ChannId) (fd : Int) (c : Chann) : Prop where
  chann : s.heap n = some c
  dgram : isDgram c.ctype = true
  socket : c.fd = fd
  linked : c.Linked

namespace Carries

theorem ready {r : Bool} (hc : Carries s n fd c) (h : Returns (channReady x n) s r t) : r = true ∧ t = s := by
  rw [channReady, (returns_read.mpr ⟨rfl, rfl⟩).bind_iff, (returns_deref.mpr ⟨hc.chann, rfl⟩).bind_iff,
    returns_pure, channState, extConfig_dgram x hc.dgram] at h
  refine ⟨h.1.trans (decide_eq_true ?_), h.2⟩
  show c.state.val ≥ ChannState.connected.val
  obtain hst | hst := hc.linked
  · rw [hst]
  · rw [hst]
    decide

theorem typed (hc : Carries s n fd c) : ∀ d, s.heap n = some d → isDgram d.ctype = true := by
  intro d hd
  rw [hc.chann, Option.some.injEq] at hd
  exact hd ▸ hc.dgram

theorem congr (hc : Carries s n fd c) (hd : t.heap n = some d) (ho : d.outlet = c.outlet) : Carries t n fd d where
  chann := hd
  dgram := (congrArg (fun o => isDgram o.2.2.1) ho).trans hc.dgram
  socket := (congrArg (·.1) ho).trans hc.socket
  linked := hc.linked.congr ho.symm

end Carries

/-- The filter of a built-in type lets everything pass. -/
theorem mute_channMsg {event : ChannEvent} {r : Option ChannId} {err : Int}
    (hty : ∀ c, s.heap n = some c → isDgram c.ctype = true) :
    Within (Mute n fd) (channMsg x n event r err) s := by
  intro pass t h
  obtain ⟨c, hc, h⟩ := channMsg_cases h
  rw [extConfig_dgram x (hty c hc)] at h
  rw [(returns_pure.mp h).2]
  exact .of_set hc rfl

theorem mute_emit {event : ChannEvent} {r : Option ChannId} {err : Int}
    (hty : ∀ c, s.heap n = some c → isDgram c.ctype = true) : Within (Mute n fd) (emit x n event r err) s :=
  (mute_channMsg hty).bind fun _ _ _ => within_pure _

theorem mute_disconnectSocket (hty : ∀ c, s.heap n = some c → isDgram c.ctype = true) :
    Within (Mute n fd) (channDisconnectSocket (opsOf x) n) s := by
  intro r t h
  obtain ⟨c, hc, ⟨_, _, rfl⟩ | ⟨_, _, _, a, d, u, hcb, hrel⟩⟩ := channDisconnectSocket_cases h
  · exact .refl _
  rw [opsConfig_opsOf, extConfig_dgram x (hty c hc)] at hcb
  obtain rfl := (returns_pure.mp hcb).2
  have hwas := hrel.was
  rw [show (s.recorded (.extOp .disconnectCb n)).heap n = s.heap n from rfl, hc, Option.some.injEq] at hwas
  subst hwas
  have hd : t.heap n = some { c with rwbSend := [], fd := -1, state := .disconnect, epollEvents := 0 } := by
    rw [hrel.heap, Function.update_self]
  refine .of_update hc hd (fun hlinked => ?_) rfl ?_ ?_
  · obtain hst | hst := hlinked <;> cases hst
  · rw [handed_cons hrel.trace, (Mute.recorded (n := n) rfl).handed]
    exact List.append_nil _
  · rw [hrel.trace]
    exact (List.suffix_cons _ _).trans (List.suffix_cons _ _)

/-- The type of a channel does not change. -/
theorem Mute.dgram (h : Mute n fd s t) (hty : ∀ c, s.heap n = some c → isDgram c.ctype = true) :
    ∀ d, t.heap n = some d → isDgram d.ctype = true := by
  intro d hd
  obtain ⟨c, hc, he⟩ := h.ctype d hd
  rw [he]
  exact hty c hc

theorem mute_channFail (hty : ∀ c, s.heap n = some c → isDgram c.ctype = true) :
    Within (Mute n fd) (channFail x n) s :=
  (mute_disconnectSocket hty).bind fun _ _ hdis => .read_bind <|
    (mute_channMsg (Mute.dgram (mute_disconnectSocket hty _ _ hdis : Mute n 0 _ _) hty)).bind fun _ _ _ =>
      .when fun _ => mute_pushDis

/-! ## Receiving -/

theorem wouldBlock_cases {q r : Int} (h : Returns (wouldBlock r) s q t) : t = s ∧ (q = r ∨ (q = 0 ∧ r < 0)) := by
  simp only [wouldBlock, readErrno, returns_bind, returns_read, returns_pure, and_assoc, exists_and_left,
    exists_eq_left] at h
  obtain ⟨hq, rfl⟩ := h
  refine ⟨rfl, ?_⟩
  by_cases hblock : r < 0 ∧ t.kernel.errno = EWOULDBLOCK
  · exact .inr ⟨hq.trans (if_pos hblock), hblock.1⟩
  · exact .inl (hq.trans (if_neg hblock))

/-- A datagram that is there comes from somewhere. -/
theorem sysRecv_cases {len : Nat} {p : Int × SockAddr} (h : Returns (sysRecv fd len) s p t) :
    t.heap = s.heap ∧ t.kernel.trace = .recv fd len p.1 :: s.kernel.trace ∧
      p.2 = s.kernel.oracle.peer s.kernel.tick ∧ (0 ≤ p.1 → 0 ≤ s.kernel.oracle.ret s.kernel.tick) := by
  simp only [sysRecv, returns_bind, returns_read, returns_record, returns_pure, and_assoc, exists_and_left,
    exists_eq_left] at h
  obtain ⟨r, a, hr, rfl, _, rfl⟩ := h
  obtain ⟨rfl, rfl⟩ := sysRet_spec hr
  refine ⟨rfl, rfl, rfl, fun hpos => Int.not_lt.mp fun hneg => ?_⟩
  have hlost : transferred (max (s.kernel.oracle.ret s.kernel.tick) (-1)) len = -1 := if_pos (by omega)
  have hno : ¬ 0 ≤ (-1 : Int) := by decide
  exact hno (hlost ▸ hpos)

/-- Nothing but the address of the channel may be another one. -/
structure Readdressed (n : ChannId) (fd : Int) (c : Chann) (a : SockAddr) (s t : Sys ε) : Prop where
  handed : t.kernel.handed fd = s.kernel.handed fd
  outlet : ∀ d, t.heap n = some d → d.Linked → d.outlet = { c with addr := a }.outlet

theorem Readdressed.mute {a : SockAddr} {b : Sys ε} (h : Readdressed n fd c a s b) (hm : Mute n fd b t) :
    Readdressed n fd c a s t := by
  refine ⟨hm.handed.trans h.handed, fun d hd hlinked => ?_⟩
  obtain ⟨e, he, hde⟩ := hm.outlet d hd hlinked
  exact hde.trans (h.outlet e he (hlinked.congr hde))

theorem Mute.readdressed (h : Mute n fd s t) (hc : s.heap n = some c) : Readdressed n fd c c.addr s t := by
  refine ⟨h.handed, fun d hd hlinked => ?_⟩
  obtain ⟨c', hc', hdc⟩ := h.outlet d hd hlinked
  rw [hc, Option.some.injEq] at hc'
  exact hc' ▸ hdc

/-- The address of a channel after a datagram has come in: that of the sender. -/
def sender (s : Sys ε) (c : Chann) : SockAddr :=
  if 0 ≤ s.kernel.oracle.ret s.kernel.tick then s.kernel.oracle.peer s.kernel.tick else c.addr

theorem extDgramRecv_cases {len : Nat} {r : Int} (hc : s.heap n = some c)
    (h : Returns (extDgramRecv n len) s r t) :
    (∃ d, t.heap n = some d ∧ d.ctype = c.ctype) ∧
      (Readdressed n fd c c.addr s t ∨ Readdressed n fd c (sender s c) s t) := by
  simp only [extDgramRecv, returns_bind, returns_deref, returns_modifyChann, and_assoc, exists_and_left,
    exists_eq_left] at h
  obtain ⟨c', hc', p, a, hrecv, _, _, ⟨d, hd, rfl⟩, hblock⟩ := h
  obtain ⟨rfl, _⟩ := wouldBlock_cases hblock
  obtain ⟨hheap, htrace, hpeer, hgot⟩ := sysRecv_cases hrecv
  rw [hheap, hc, Option.some.injEq] at hd
  subst hd
  have hd : (a.setChann n (if 0 ≤ p.1 then { c with addr := p.2 } else c)).heap n =
      some (if 0 ≤ p.1 then { c with addr := p.2 } else c) := Function.update_self ..
  have hhanded : a.kernel.handed fd = s.kernel.handed fd := by
    rw [handed_cons htrace]
    exact List.append_nil _
  by_cases hpos : 0 ≤ p.1
  · simp only [if_pos hpos] at hd ⊢
    refine ⟨⟨_, hd, rfl⟩, .inr ⟨hhanded, fun e he _ => ?_⟩⟩
    rw [hd, Option.some.injEq] at he
    rw [← he, sender, if_pos (hgot hpos), hpeer]
  · simp only [if_neg hpos] at hd ⊢
    refine ⟨⟨_, hd, rfl⟩, .inl ⟨hhanded, fun e he _ => ?_⟩⟩
    rw [hd, Option.some.injEq] at he
    rw [← he]

theorem Carries.recv {buf : Bool} {len r : Int} (hc : Carries s n fd c)
    (h : Returns (mnetChannRecv x (some n) buf len) s r t) :
    Readdressed n fd c c.addr s t ∨
      (buf = true ∧ 0 < len ∧ Readdressed n fd c (sender s c) s t) := by
  rw [mnetChannRecv, (returns_require.mpr ⟨rfl, rfl⟩).bind_iff, returns_bind] at h
  obtain ⟨ready, a, hready, h⟩ := h
  obtain ⟨rfl, rfl⟩ := hc.ready hready
  rcases returns_ite.mp h with ⟨⟨hbuf, hlen, _⟩, h⟩ | ⟨_, h⟩
  swap
  · rw [(returns_pure.mp h).2]
    exact .inl ((Mute.refl a).readdressed hc.chann)
  rw [(returns_deref.mpr ⟨hc.chann, rfl⟩).bind_iff, extConfig_dgram x hc.dgram] at h
  simp only [returns_bind, returns_record, returns_pure] at h
  obtain ⟨q, b, hfn, _, _, rfl, _, e, hfail, _, v, hcount, _, rfl⟩ := h
  rw [(internalExt_dgram hc.dgram).2] at hfn
  obtain ⟨⟨d, hd, hty⟩, hcases⟩ := extDgramRecv_cases hc.chann hfn
  have hrest : Mute n fd b t := by
    refine (Mute.recorded (e := .recvFn n q) rfl).trans (Mute.trans (a := e) ?_ ?_)
    · refine Within.when (fun _ => mute_channFail fun e he => ?_) _ _ hfail
      rw [show (b.recorded (.recvFn n q)).heap n = some d from hd, Option.some.injEq] at he
      rw [← he, hty]
      exact hc.dgram
    · refine mute_modifyChann ?_ _ _ hcount
      exact fun _ => rfl
  obtain hsame | hmoved := hcases
  · exact .inl (hsame.mute hrest)
  · exact .inr ⟨hbuf, hlen, hmoved.mute hrest⟩

/-! ## Sending -/

/-- No send of `n` fails: `sendto` takes the datagram, or would block. -/
def SysEvent.answered (n : ChannId) : SysEvent → Prop
  | .sendFn m _ ret => m = n → 0 ≤ ret
  | _ => True

/-- What is true of all new events is true of those before and after a point. -/
theorem Adds.split {P : SysEvent → Prop} {a : Sys ε} (h : Adds P s t) (ha : s.kernel.trace <:+ a.kernel.trace)
    (ht : a.kernel.trace <:+ t.kernel.trace) : Adds P s a ∧ Adds P a t := by
  obtain ⟨new, hnew, h⟩ := h
  obtain ⟨l, hl⟩ := ha
  obtain ⟨l', hl'⟩ := ht
  have heq : new = l' ++ l := by
    have hboth : new ++ s.kernel.trace = (l' ++ l) ++ s.kernel.trace := by
      rw [← h, ← hl', ← hl, List.append_assoc]
    exact List.append_cancel_right hboth
  refine ⟨⟨l, fun e he => hnew e ?_, hl.symm⟩, ⟨l', fun e he => hnew e ?_, hl'.symm⟩⟩
  · rw [heq]
    exact List.mem_append_right l' he
  · rw [heq]
    exact List.mem_append_left l he

theorem sysSendto_cases {addr : SockAddr} {data : List UInt8} {r : Int} (h : Returns (sysSendto fd addr data) s r t) :
    t.heap = s.heap ∧ t.kernel.trace = .sendto fd addr data r :: s.kernel.trace ∧ (r = data.length ∨ r < 0) := by
  simp only [sysSendto, returns_bind, returns_record, returns_pure] at h
  obtain ⟨q, a, hr, _, b, rfl, rfl, rfl⟩ := h
  obtain ⟨_, rfl⟩ := sysRet_spec hr
  refine ⟨rfl, rfl, ?_⟩
  split
  · exact .inr (by decide)
  · exact .inl rfl

theorem extDgramSend_cases {data : List UInt8} {r : Int} (hc : s.heap n = some c)
    (h : Returns (extDgramSend n data) s r t) : t.heap = s.heap ∧
      ∃ ret, t.kernel.trace = .sendto c.fd c.addr data ret :: s.kernel.trace ∧ (ret = data.length ∨ ret < 0) ∧
        (r = ret ∨ (r = 0 ∧ ret < 0)) := by
  rw [extDgramSend, (returns_deref.mpr ⟨hc, rfl⟩).bind_iff, returns_bind] at h
  obtain ⟨ret, a, hsend, hblock⟩ := h
  obtain ⟨rfl, hr⟩ := wouldBlock_cases hblock
  obtain ⟨hheap, htrace, hwhole⟩ := sysSendto_cases hsend
  exact ⟨hheap, ret, htrace, hwhole, hr⟩

/-- A call of `sendto` hands the datagram over, or does nothing. -/
theorem Carries.channSend {data : List UInt8} {r : Int} (hc : Carries s n fd c)
    (h : Returns (channSend x n data) s r t) : s.kernel.trace <:+ t.kernel.trace ∧
      (∃ d, t.heap n = some d ∧ d.outlet = c.outlet) ∧ (Adds (SysEvent.answered n) s t →
        (r = data.length ∧ t.kernel.handed fd = s.kernel.handed fd ++ [(c.addr, data)]) ∨
          (r = 0 ∧ t.kernel.handed fd = s.kernel.handed fd)) := by
  obtain ⟨c', a, hc', hfn, hcases⟩ := channSend_cases h
  rw [hc.chann, Option.some.injEq] at hc'
  subst hc'
  rw [extConfig_dgram x hc.dgram, (internalExt_dgram hc.dgram).1] at hfn
  obtain ⟨hheap, ret, ha, hwhole, hr⟩ := extDgramSend_cases hc.chann hfn
  rw [hc.socket] at ha
  have ht : t.kernel.trace = .sendFn n data r :: .sendto fd c.addr data ret :: s.kernel.trace := by
    obtain ⟨_, rfl⟩ | ⟨_, d, _, rfl⟩ := hcases
    · exact congrArg _ ha
    · exact congrArg _ ha
  have hhanded : t.kernel.handed fd =
      s.kernel.handed fd ++ (SysEvent.handed fd (.sendto fd c.addr data ret)).toList := by
    rw [handed_cons (k := a.kernel) (by rw [ht, ha]), handed_cons ha]
    exact List.append_nil _
  refine ⟨ht ▸ (List.suffix_cons _ _).trans (List.suffix_cons _ _), ?_, fun hall => ?_⟩
  · obtain ⟨_, rfl⟩ | ⟨_, d, hd, rfl⟩ := hcases
    · exact ⟨c, (congrFun hheap n).trans hc.chann, rfl⟩
    · rw [hheap, hc.chann, Option.some.injEq] at hd
      subst hd
      exact ⟨_, Function.update_self .., rfl⟩
  obtain ⟨l, hl, hnew⟩ := hall
  obtain rfl : l = [.sendFn n data r, .sendto fd c.addr data ret] :=
    List.append_cancel_right (hnew.symm.trans ht)
  have hfine : 0 ≤ r := hl _ List.mem_cons_self rfl
  obtain rfl | hneg := hwhole
  · have htaken : SysEvent.handed fd (.sendto fd c.addr data data.length) = some (c.addr, data) := by
      rw [SysEvent.handed, if_pos ⟨rfl, Int.natCast_nonneg _⟩, Int.toNat_natCast, List.take_length]
    rw [htaken] at hhanded
    obtain rfl | ⟨_, hneg⟩ := hr
    · exact .inl ⟨rfl, hhanded⟩
    · exact absurd (Int.natCast_nonneg _) (Int.not_le.mpr hneg)
  · have hlost : SysEvent.handed fd (.sendto fd c.addr data ret) = none :=
      if_neg fun hno => absurd hno.2 (Int.not_le.mpr hneg)
    rw [hlost, Option.toList_none, List.append_nil] at hhanded
    obtain rfl | ⟨rfl, _⟩ := hr
    · exact absurd hfine (Int.not_le.mpr hneg)
    · exact .inr ⟨rfl, hhanded⟩

/-! ## What was asked for -/

/-- The datagrams wait in the cache, for the address of the channel if that is to be flushed. -/
structure Chann.Queues (c : Chann) (q : List Datagram) : Prop where
  cache : c.rwbSend = q.map fun d => rwbNew d.2
  filled : ∀ d ∈ q, d.2 ≠ []
  aimed : c.state = .connected → ∀ d ∈ q, d.1 = c.addr

theorem Chann.Queues.congr {q : List Datagram} (h : c.Queues q) (ho : d.outlet = c.outlet) : d.Queues q where
  cache := (congrArg (·.2.2.2.2) ho).trans h.cache
  filled := h.filled
  aimed hst a ha := by
    have haddr : d.addr = c.addr := congrArg (·.2.2.2.1) ho
    have hstate : d.state = c.state := congrArg (·.2.1) ho
    rw [haddr]
    exact h.aimed (hstate.symm.trans hst) a ha

/-- What was asked for has been handed over, or waits, in order. -/
def Settled (n : ChannId) (fd : Int) (asked : List Datagram) (s : Sys ε) : Prop :=
  ∃ q, asked = s.kernel.handed fd ++ q ∧ ∀ c, s.heap n = some c → c.Linked → c.Queues q

variable {asked : List Datagram}

theorem Settled.mute (h : Settled n fd asked s) (hm : Mute n fd s t) : Settled n fd asked t := by
  obtain ⟨q, hq, hcache⟩ := h
  refine ⟨q, hm.handed.symm ▸ hq, fun d hd hlinked => ?_⟩
  obtain ⟨c, hc, ho⟩ := hm.outlet d hd hlinked
  exact (hcache c hc (hlinked.congr ho)).congr ho

/-- The address may change while nothing waits for it. -/
theorem Settled.readdressed {a : SockAddr} (h : Settled n fd asked s) (hc : s.heap n = some c)
    (hr : Readdressed n fd c a s t) (ha : c.state = .connected → c.rwbSend ≠ [] → a = c.addr) :
    Settled n fd asked t := by
  obtain ⟨q, hq, hcache⟩ := h
  refine ⟨q, hr.handed.symm ▸ hq, fun d hd hlinked => ?_⟩
  have ho := hr.outlet d hd hlinked
  have hold := hcache c hc (hlinked.congr (c := { c with addr := a }) ho)
  refine Chann.Queues.congr (c := { c with addr := a }) ⟨hold.cache, hold.filled, fun hst d hdq => ?_⟩ ho
  have hne : c.rwbSend ≠ [] := by
    rw [hold.cache]
    exact fun hnil => List.ne_nil_of_mem hdq (List.map_eq_nil_iff.mp hnil)
  exact (hold.aimed hst d hdq).trans (ha hst hne).symm

/-- The datagram is handed over if nothing waits, and else waits behind the others. -/
theorem Carries.send {data : List UInt8} {r : Int} (hc : Carries s n fd c) (hacc : Settled n fd asked s)
    (hdata : data ≠ []) (h : Returns (mnetChannSend x (some n) (some data)) s r t)
    (hall : Adds (SysEvent.answered n) s t) : Settled n fd (asked ++ [(c.addr, data)]) t := by
  obtain ⟨q, hq, hcache⟩ := hacc
  have hqueue := hcache c hc.chann hc.linked
  rw [mnetChannSend, (returns_require.mpr ⟨rfl, rfl⟩).bind_iff, returns_bind] at h
  obtain ⟨ready, a, hready, h⟩ := h
  obtain ⟨rfl, rfl⟩ := hc.ready hready
  rcases returns_ite.mp h with ⟨_, h⟩ | ⟨hno, _⟩
  swap
  · exact absurd ⟨hdata, rfl⟩ hno
  rw [(returns_deref.mpr ⟨hc.chann, rfl⟩).bind_iff] at h
  -- where the datagram has to wait
  have hbehind : ∀ {b : Sys ε} {d : Chann}, b.kernel.handed fd = a.kernel.handed fd → b.heap n = some d →
      d.outlet = { c with rwbSend := rwbCache c.rwbSend data }.outlet →
        Settled n fd (asked ++ [(c.addr, data)]) b := by
    intro b d hhanded hd ho
    refine ⟨q ++ [(c.addr, data)], by rw [hq, hhanded, List.append_assoc], fun e he hlinked => ?_⟩
    rw [hd, Option.some.injEq] at he
    subst he
    refine Chann.Queues.congr (c := { c with rwbSend := rwbCache c.rwbSend data }) ⟨?_, ?_, ?_⟩ ho
    · simp [hqueue.cache, rwbCache, rwbCreateTail]
    · exact List.forall_mem_append.mpr ⟨hqueue.filled, by simpa using hdata⟩
    · exact fun hst => List.forall_mem_append.mpr ⟨hqueue.aimed hst, by simp⟩
  rcases returns_ite.mp h with ⟨_, h⟩ | ⟨hcount, h⟩
  · simp only [returns_bind, returns_modifyChann, returns_pure] at h
    obtain ⟨_, _, ⟨d, hd, rfl⟩, _, rfl⟩ := h
    rw [hc.chann, Option.some.injEq] at hd
    subst hd
    exact hbehind rfl (Function.update_self ..) rfl
  have hnil : c.rwbSend = [] := List.eq_nil_of_length_eq_zero (Nat.eq_zero_of_not_pos hcount)
  have hq₀ : q = [] := List.map_eq_nil_iff.mp (hqueue.cache.symm.trans hnil)
  obtain ⟨v, b, hsend, h⟩ := returns_bind.mp h
  obtain ⟨hab, ⟨d, hd, ho⟩, hanswer⟩ := hc.channSend hsend
  have hcd : Carries b n fd d := hc.congr hd ho
  rcases returns_ite.mp h with ⟨hneg, h⟩ | ⟨_, h⟩
  · -- no send of the channel fails
    obtain ⟨_, e, hfail, h⟩ := returns_bind.mp h
    rw [(returns_pure.mp h).2] at hall
    have hfail : Mute n fd b e := mute_channFail hcd.typed _ _ hfail
    obtain ⟨rfl, _⟩ | ⟨rfl, _⟩ := hanswer (hall.split hab hfail.trace).1
    · exact absurd (Int.natCast_nonneg _) (Int.not_le.mpr hneg)
    · exact absurd hneg (by decide)
  rcases returns_ite.mp h with ⟨hlt, h⟩ | ⟨hge, h⟩
  · simp only [returns_bind, returns_modifyChann, returns_pure] at h
    obtain ⟨_, _, ⟨d', hd', rfl⟩, _, e, hadd, _, rfl⟩ := h
    rw [hd, Option.some.injEq] at hd'
    subst hd'
    have hadd : Mute n fd _ t := mute_evtAdd _ _ hadd
    obtain ⟨rfl, _⟩ | ⟨rfl, hhanded⟩ := hanswer (hall.split hab hadd.trace).1
    · exact absurd hlt (Int.lt_irrefl _)
    · have hd' : (b.setChann n { d with rwbSend := rwbCache d.rwbSend (data.drop (Int.toNat 0)) }).heap n = _ :=
        setChann_self ..
      refine Settled.mute (hbehind (b := b.setChann n _) hhanded hd' ?_) hadd
      have hcache : d.rwbSend = c.rwbSend := congrArg (·.2.2.2.2) ho
      rw [Int.toNat_zero, List.drop_zero, hcache]
      rw [Chann.outlet, Chann.outlet, Prod.mk.injEq, Prod.mk.injEq, Prod.mk.injEq, Prod.mk.injEq] at ho ⊢
      exact ⟨ho.1, ho.2.1, ho.2.2.1, ho.2.2.2.1, rfl⟩
  · rw [(returns_pure.mp h).2] at hall ⊢
    obtain ⟨rfl, hhanded⟩ | ⟨rfl, _⟩ := hanswer hall
    · refine ⟨[], by simp [hq, hhanded, hq₀], fun e he _ => ?_⟩
      rw [hd, Option.some.injEq] at he
      subst he
      exact Chann.Queues.congr ⟨hnil, by simp, by simp⟩ ho
    · exact absurd (Int.natCast_pos.mpr (List.length_pos_iff.mpr hdata)) hge

/-- The first datagram of the queue is handed over, and the cache is drained by its length. -/
theorem Settled.drained {p : Datagram} {q : List Datagram} {b : Sys ε} (hst : c.state = .connected)
    (hqueue : c.Queues (p :: q)) (hasked : asked = s.kernel.handed fd ++ p :: q) (ho : d.outlet = c.outlet)
    (hhanded : b.kernel.handed fd = s.kernel.handed fd ++ [(c.addr, p.2)]) :
    Settled n fd asked (b.setChann n { d with rwbSend := rwbDrain d.rwbSend p.2.length }) := by
  have hcache : d.rwbSend = rwbNew p.2 :: q.map fun e => rwbNew e.2 :=
    (congrArg (·.2.2.2.2) ho).trans hqueue.cache
  have hdrain : rwbDrain d.rwbSend p.2.length = q.map fun e => rwbNew e.2 := by
    have hbuffered : rwbBuffered (rwbNew p.2) = p.2.length := Nat.sub_zero _
    have hpos : 0 < p.2.length := List.length_pos_iff.mpr (hqueue.filled p List.mem_cons_self)
    rw [hcache, rwbDrain_of_le _ (Nat.le_of_eq hbuffered) hpos, hbuffered, Nat.sub_self, rwbDrain_zero]
  have haddr : c.addr = p.1 := (hqueue.aimed hst p List.mem_cons_self).symm
  refine ⟨q, ?_, fun e he _ => ?_⟩
  · show asked = b.kernel.handed fd ++ q
    rw [hasked, hhanded, haddr, List.append_assoc, List.singleton_append]
  · rw [setChann_self, Option.some.injEq] at he
    subst he
    refine ⟨hdrain, fun a ha => hqueue.filled a (List.mem_cons_of_mem p ha), fun _ a ha => ?_⟩
    have hkept : d.addr = c.addr := congrArg (·.2.2.2.1) ho
    exact (hqueue.aimed hst a (List.mem_cons_of_mem p ha)).trans hkept.symm

/-- The head of the cache is handed over, and then the next. -/
theorem Carries.sendedLoop {fuel : Nat} {u : Unit} (hc : Carries s n fd c)
    (h : Returns (channSendedLoop x n fuel) s u t) : s.kernel.trace <:+ t.kernel.trace ∧
      (∀ d, t.heap n = some d → isDgram d.ctype = true) ∧
        (c.state = .connected → c.rwbSend ≠ [] → Settled n fd asked s → Adds (SysEvent.answered n) s t →
          Settled n fd asked t ∧ ∃ d, Carries t n fd d) := by
  induction fuel generalizing s c with
  | zero => exact absurd h returns_fail
  | succ fuel ih =>
    rw [channSendedLoop, (returns_deref.mpr ⟨hc.chann, rfl⟩).bind_iff, returns_bind] at h
    obtain ⟨v, b, hsend, h⟩ := h
    obtain ⟨hsb, ⟨d, hd, ho⟩, hanswer⟩ := hc.channSend hsend
    have hcd : Carries b n fd d := hc.congr hd ho
    rcases returns_ite.mp h with ⟨hpos, h⟩ | ⟨hnpos, h⟩
    · simp only [returns_bind, returns_modifyChann, returns_deref, and_assoc, exists_and_left,
        exists_eq_left] at h
      obtain ⟨_, _, ⟨d', hd', rfl⟩, e, he, h⟩ := h
      rw [hd, Option.some.injEq] at hd'
      subst hd'
      rw [setChann_self, Option.some.injEq] at he
      subst he
      have hce : Carries (b.setChann n { d with rwbSend := rwbDrain d.rwbSend v.toNat }) n fd
          { d with rwbSend := rwbDrain d.rwbSend v.toNat } :=
        ⟨setChann_self .., hcd.dgram, hcd.socket, hcd.linked⟩
      obtain ⟨hrest, htyped⟩ : b.kernel.trace <:+ t.kernel.trace ∧
          ∀ e, t.heap n = some e → isDgram e.ctype = true := by
        rcases returns_ite.mp h with ⟨_, h⟩ | ⟨_, h⟩
        · obtain ⟨htrace, htyped, _⟩ := ih hce h
          exact ⟨htrace, htyped⟩
        · rw [(returns_pure.mp h).2]
          exact ⟨List.suffix_refl _, hce.typed⟩
      refine ⟨hsb.trans hrest, htyped, fun hst hne hacc hall => ?_⟩
      obtain ⟨q, hq, hcache⟩ := hacc
      have hqueue := hcache c hc.chann hc.linked
      cases q with
      | nil => exact absurd hqueue.cache hne
      | cons p q =>
        have hhead : rwbDrainParam c.rwbSend = p.2 := by
          rw [hqueue.cache]
          rfl
        rw [hhead] at hanswer h
        obtain ⟨rfl, hhanded⟩ | ⟨rfl, _⟩ := hanswer (hall.split hsb hrest).1
        swap
        · exact absurd hpos (Int.lt_irrefl _)
        have hacc := Settled.drained (n := n) hst hqueue hq ho hhanded
        rcases returns_ite.mp h with ⟨⟨_, hcount⟩, h⟩ | ⟨_, h⟩
        · have hstd : d.state = c.state := congrArg (·.2.1) ho
          exact (ih hce h).2.2 (hstd.trans hst) (List.ne_nil_of_length_pos hcount) hacc (hall.split hsb hrest).2
        · rw [(returns_pure.mp h).2]
          exact ⟨hacc, _, hce⟩
    rcases returns_ite.mp h with ⟨hneg, h⟩ | ⟨_, h⟩
    · -- no send of the channel fails
      have hfail : Mute n fd b t := mute_channFail hcd.typed _ _ h
      refine ⟨hsb.trans hfail.trace, hfail.dgram hcd.typed, fun _ _ _ hall => ?_⟩
      obtain ⟨rfl, _⟩ | ⟨rfl, _⟩ := hanswer (hall.split hsb hfail.trace).1
      · exact absurd (Int.natCast_nonneg _) (Int.not_le.mpr hneg)
      · exact absurd hneg (Int.lt_irrefl _)
    · rw [(returns_pure.mp h).2]
      refine ⟨hsb, hcd.typed, fun _ hne hacc hall => ?_⟩
      obtain ⟨rfl, _⟩ | ⟨_, hhanded⟩ := hanswer hall
      · obtain ⟨q, _, hcache⟩ := hacc
        have hqueue := hcache c hc.chann hc.linked
        cases q with
        | nil => exact absurd hqueue.cache hne
        | cons p q =>
          have hhead : rwbDrainParam c.rwbSend = p.2 := by
            rw [hqueue.cache]
            rfl
          rw [hhead] at hnpos
          exact absurd (Int.natCast_pos.mpr (List.length_pos_iff.mpr (hqueue.filled p List.mem_cons_self))) hnpos
      · have hsame : Mute n fd s b :=
          .of_update hc.chann hd (fun _ => ho) (congrArg (·.2.2.1) ho) hhanded hsb
        exact ⟨hacc.mute hsame, d, hcd⟩

theorem Carries.sendedRwb {sent : Bool} (hc : Carries s n fd c) (h : Returns (channSendedRwb x n) s sent t) :
    s.kernel.trace <:+ t.kernel.trace ∧ (∀ d, t.heap n = some d → isDgram d.ctype = true) ∧
      (c.state = .connected → Settled n fd asked s → Adds (SysEvent.answered n) s t →
        Settled n fd asked t) := by
  rw [channSendedRwb, (returns_deref.mpr ⟨hc.chann, rfl⟩).bind_iff] at h
  rcases returns_ite.mp h with ⟨_, h⟩ | ⟨hcount, h⟩
  · rw [(returns_pure.mp h).2]
    exact ⟨List.suffix_refl _, hc.typed, fun _ hacc _ => hacc⟩
  simp only [returns_bind, returns_deref, returns_pure] at h
  obtain ⟨_, a, hloop, _, _, ⟨_, rfl⟩, _, rfl⟩ := h
  obtain ⟨htrace, htyped, hrest⟩ := hc.sendedLoop hloop
  refine ⟨htrace, htyped, fun hst hacc hall => (hrest hst ?_ hacc hall).1⟩
  exact fun hnil => hcount (Nat.le_of_eq (congrArg List.length hnil))

/-- A record that tells of room to write: the cache is flushed, if the channel is connected. -/
theorem Carries.flush {kev : Kev} {p : Pass} (hc : Carries s n fd c) (hacc : Settled n fd asked s)
    (hptr : kev.ptr = some n) (hfine : kev.events &&& (EPOLLERR ||| (EPOLLRDHUP ||| EPOLLHUP)) = 0)
    (h : Returns (evtDispatch x kev) s p t) (hall : Adds (SysEvent.answered n) s t) : Settled n fd asked t := by
  obtain ⟨m, c', hm, hc', ⟨_, _, rfl⟩ | ⟨_, _, hno, _⟩ | ⟨_, _, _, hcases⟩⟩ := evtDispatch_cases h
  · exact hacc
  · exact absurd hfine hno
  rw [hptr, Option.some.injEq] at hm
  subst hm
  rw [hc.chann, Option.some.injEq] at hc'
  subst hc'
  obtain ⟨_, h⟩ | ⟨hst, _⟩ | ⟨hst, h⟩ | ⟨_, _, rfl⟩ := hcases
  · have hraw : (internalExt c.ctype : Ext ε).typeFn c.ctype ≠ CHANN_TYPE_STREAM := (builtin_of_dgram hc.dgram).2
    rw [extConfig_dgram x hc.dgram, evtListening, if_neg hraw] at h
    exact hacc.mute (mute_emit hc.typed _ _ h)
  · obtain hl | hl := hc.linked <;> rw [hst] at hl <;> cases hl
  · rcases returns_ite.mp h with ⟨_, h⟩ | ⟨_, h⟩
    · exact hacc.mute (mute_emit hc.typed _ _ h)
    rcases returns_ite.mp h with ⟨_, h⟩ | ⟨_, h⟩
    swap
    · rw [(returns_pure.mp h).2]
      exact hacc
    obtain ⟨sent, a, hsent, h⟩ := returns_bind.mp h
    obtain ⟨hsa, htyped, hflush⟩ := hc.sendedRwb hsent
    have hrest : Mute n fd a t := by
      rcases returns_ite.mp h with ⟨_, h⟩ | ⟨_, h⟩
      swap
      · rw [(returns_pure.mp h).2]
        exact .refl _
      simp only [returns_bind, returns_deref, and_assoc, exists_and_left, exists_eq_left] at h
      obtain ⟨_, _, h⟩ := h
      rcases returns_ite.mp h with ⟨_, h⟩ | ⟨_, h⟩
      · exact mute_emit htyped _ _ h
      · simp only [returns_bind, returns_pure] at h
        obtain ⟨_, b, hdel, _, rfl⟩ := h
        exact mute_evtDel _ _ hdel
    exact (hflush hst hacc (hall.split hsa hrest.trace).1).mute hrest
  · exact hacc

/-! ## Runs -/

/-- What happens to a channel: calls on it, records of room to write, and whatever has nothing to do
with its datagrams. -/
inductive DgramOp where
  | send (host : Nat) (port : Int) (buf : List UInt8)
  | dgramRecv (buf : Bool) (len : Int)
  | channRecv (buf : Bool) (len : Int)
  | flush (kev : Kev)
  | elsewhere

/-- The address as `_chann_fill_addr` writes it. -/
def destination (host : Nat) (port : Int) : SockAddr := { ip := host, port := (port % 65536).toNat }

/-- The datagram a call asks to send. -/
def DgramOp.asks : DgramOp → Option Datagram
  | .send host port buf => some (destination host port, buf)
  | _ => none

/-- A step of a channel that has a socket for datagrams. -/
inductive DgramStep (x : ExtTable ε) (n : ChannId) (fd : Int) : Sys ε → DgramOp → Sys ε → Prop
  | send {s t : Sys ε} {c : Chann} {host : Nat} {port : Int} {buf : List UInt8} {r : Int} : Carries s n fd c →
    Returns (mnetDgramSend x (some n) (some (host, port)) (some buf)) s r t →
    DgramStep x n fd s (.send host port buf) t
  | dgramRecv {s t : Sys ε} {c : Chann} {buf : Bool} {len : Int} {p : Int × Option SockAddr} : Carries s n fd c →
    Returns (mnetDgramRecv x (some n) buf len) s p t → DgramStep x n fd s (.dgramRecv buf len) t
  | channRecv {s t : Sys ε} {c : Chann} {buf : Bool} {len r : Int} : Carries s n fd c →
    Returns (mnetChannRecv x (some n) buf len) s r t → DgramStep x n fd s (.channRecv buf len) t
  | flush {s t : Sys ε} {c : Chann} {kev : Kev} {p : Pass} : Carries s n fd c → kev.ptr = some n →
    kev.events &&& EPOLLOUT ≠ 0 → kev.events &&& (EPOLLERR ||| (EPOLLRDHUP ||| EPOLLHUP)) = 0 →
    Returns (evtDispatch x kev) s p t → DgramStep x n fd s (.flush kev) t
  | elsewhere {s t : Sys ε} : Mute n fd s t → DgramStep x n fd s .elsewhere t

/-- A step during which no send of the channel fails. -/
def AnsweredStep (x : ExtTable ε) (n : ChannId) (fd : Int) (s : Sys ε) (op : DgramOp) (t : Sys ε) : Prop :=
  DgramStep x n fd s op t ∧ Adds (SysEvent.answered n) s t

/-- The address of the channel stays as it is: the next datagram goes there too, and the next one
that comes in comes from there. -/
def DgramOp.Keeps (s : Sys ε) (c : Chann) : DgramOp → Prop
  | .send host port buf => buf ≠ [] → destination host port = c.addr
  | .dgramRecv buf len | .channRecv buf len => buf = true → 0 < len → sender s c = c.addr
  | _ => True

/-- While datagrams wait to be flushed, the address stays as it is. -/
def Undiverted (n : ChannId) (s : Sys ε) (op : DgramOp) : Prop :=
  ∀ c, s.heap n = some c → c.state = .connected → c.rwbSend ≠ [] → op.Keeps s c

/-- What was handed to the socket was asked for, each datagram by a call of its own. -/
def Delivered (fd : Int) (ops : List DgramOp) (s t : Sys ε) : Prop :=
  ∃ new, t.kernel.handed fd = s.kernel.handed fd ++ new ∧ new.Subperm (ops.filterMap DgramOp.asks)

/-- The datagrams that are more than nothing. -/
def wanted (ops : List DgramOp) : List Datagram := (ops.filterMap DgramOp.asks).filter (·.2 ≠ [])

theorem Carries.dgramSend {host : Nat} {port r : Int} {data : List UInt8} (hc : Carries s n fd c)
    (hacc : Settled n fd asked s)
    (hkeep : c.state = .connected → c.rwbSend ≠ [] → data ≠ [] → destination host port = c.addr)
    (h : Returns (mnetDgramSend x (some n) (some (host, port)) (some data)) s r t)
    (hall : Adds (SysEvent.answered n) s t) :
    Settled n fd (asked ++ wanted [.send host port data]) t := by
  rw [mnetDgramSend, (returns_require.mpr ⟨rfl, rfl⟩).bind_iff, (returns_deref.mpr ⟨hc.chann, rfl⟩).bind_iff] at h
  rcases returns_ite.mp h with ⟨⟨_, hdata⟩, h⟩ | ⟨hno, h⟩
  swap
  · have hnil : data = [] := by
      by_contra hdata
      exact hno ⟨hc.dgram, hdata⟩
    rw [(returns_pure.mp h).2]
    have hnone : wanted [.send host port data] = [] := by simp [wanted, DgramOp.asks, hnil]
    rw [hnone, List.append_nil]
    exact hacc
  have hdata : data ≠ [] := hdata
  have hone : wanted [.send host port data] = [(destination host port, data)] := by
    simp [wanted, DgramOp.asks, hdata]
  rw [hone]
  obtain ⟨_, a, haim, hsend⟩ := returns_bind.mp h
  rw [dgramAim, returns_bind] at haim
  obtain ⟨ready, b, hready, haim⟩ := haim
  obtain ⟨rfl, rfl⟩ := hc.ready hready
  rw [if_pos rfl, channFillAddr, returns_modifyChann] at haim
  obtain ⟨c', hc', rfl⟩ := haim
  rw [hc.chann, Option.some.injEq] at hc'
  subst hc'
  have hca : Carries (b.setChann n { c with addr := destination host port }) n fd
      { c with addr := destination host port } := ⟨setChann_self .., hc.dgram, hc.socket, hc.linked⟩
  have hmoved : Readdressed n fd c (destination host port) b
      (b.setChann n { c with addr := destination host port }) := by
    refine ⟨rfl, fun d hd _ => ?_⟩
    rw [setChann_self, Option.some.injEq] at hd
    exact hd ▸ rfl
  exact hca.send (hacc.readdressed hc.chann hmoved fun hst hne => hkeep hst hne hdata) hdata hsend hall

/-- A step that keeps the address, or has none to keep. -/
theorem DgramStep.settled {op : DgramOp} (h : DgramStep x n fd s op t) (hall : Adds (SysEvent.answered n) s t)
    (hkeep : Undiverted n s op) (hacc : Settled n fd asked s) : Settled n fd (asked ++ wanted [op]) t := by
  have hrecv : ∀ {c : Chann} {buf : Bool} {len r : Int}, Carries s n fd c →
      (c.state = .connected → c.rwbSend ≠ [] → buf = true → 0 < len → sender s c = c.addr) →
      Returns (mnetChannRecv x (some n) buf len) s r t → Settled n fd asked t := by
    intro c buf len r hc hk h
    obtain hsame | ⟨hbuf, hlen, hmoved⟩ := hc.recv h
    · exact hacc.readdressed hc.chann hsame fun _ _ => rfl
    · exact hacc.readdressed hc.chann hmoved fun hst hne => hk hst hne hbuf hlen
  cases h with
  | send hc h =>
    exact hc.dgramSend hacc (fun hst hne => hkeep _ hc.chann hst hne) h hall
  | dgramRecv hc h =>
    refine (List.append_nil asked).symm ▸ ?_
    obtain rfl | ⟨_, h⟩ := mnetDgramRecv_cases h
    · exact hacc
    · exact hrecv hc (fun hst hne => hkeep _ hc.chann hst hne) h
  | channRecv hc h =>
    refine (List.append_nil asked).symm ▸ ?_
    exact hrecv hc (fun hst hne => hkeep _ hc.chann hst hne) h
  | flush hc hptr _ hfine h =>
    refine (List.append_nil asked).symm ▸ ?_
    exact hc.flush hacc hptr hfine h hall
  | elsewhere hm =>
    refine (List.append_nil asked).symm ▸ ?_
    exact hacc.mute hm

/-- A run that never changes the address over datagrams that wait. -/
abbrev AimedRun (x : ExtTable ε) (n : ChannId) (fd : Int) : Sys ε → List DgramOp → Sys ε → Prop :=
  Path fun s op t => AnsweredStep x n fd s op t ∧ Undiverted n s op

theorem AimedRun.settled {ops : List DgramOp} (h : AimedRun x n fd s ops t) (hacc : Settled n fd asked s) :
    Settled n fd (asked ++ wanted ops) t ∧ s.kernel.handed fd <+: t.kernel.handed fd := by
  induction h generalizing asked with
  | nil => exact ⟨(List.append_nil asked).symm ▸ hacc, List.prefix_refl _⟩
  | @cons s u t op ops hs _ ih =>
    obtain ⟨⟨hstep, hall⟩, hkeep⟩ := hs
    obtain ⟨ht, hpre⟩ := ih (hstep.settled hall hkeep hacc)
    have hmore : wanted (op :: ops) = wanted [op] ++ wanted ops := by
      rw [wanted, ← List.singleton_append, List.filterMap_append, List.filter_append]
      rfl
    refine ⟨by rwa [hmore, ← List.append_assoc], List.IsPrefix.trans ?_ hpre⟩
    obtain ⟨l, hl⟩ := hall.suffix
    rw [Kernel.handed, Kernel.handed, ← hl, List.filterMap_append, List.reverse_append]
    exact List.prefix_append _ _

/-- If the address is not changed while datagrams wait for it, each datagram the socket is handed was
asked for by a call of its own, and goes where that call said. -/
theorem dgram_delivered {ops : List DgramOp} (hc : Carries s n fd c) (hempty : c.rwbSend = [])
    (h : AimedRun x n fd s ops t) : Delivered fd ops s t := by
  have hstart : Settled n fd (s.kernel.handed fd) s := by
    refine ⟨[], (List.append_nil _).symm, fun d hd _ => ?_⟩
    rw [hc.chann, Option.some.injEq] at hd
    subst hd
    exact ⟨hempty, by simp, by simp⟩
  obtain ⟨⟨q, hq, _⟩, new, hnew⟩ := h.settled hstart
  refine ⟨new, hnew.symm, ?_⟩
  rw [← hnew, List.append_assoc] at hq
  have hpre : new <+: wanted ops := ⟨q, (List.append_cancel_left hq).symm⟩
  exact (hpre.sublist.trans List.filter_sublist).subperm

/-! ## A datagram that has to wait -/

/-- A datagram to `p`, which has to wait, another one to `q`, and a flush. -/
def blockedOps (p q : Nat × Int) : List DgramOp :=
  [.send p.1 p.2 [1], .send q.1 q.2 [2], .flush { events := EPOLLOUT, ptr := some 0 }]

instance SysEvent.decidableAnswered : (e : SysEvent) → Decidable (e.answered n)
  | .sendFn m _ ret => inferInstanceAs (Decidable (m = n → 0 ≤ ret))
  | .socket .. | .setup .. | .nonblock .. | .connect .. | .accept .. | .close .. | .send .. | .sendto ..
  | .recv .. | .epollCtl .. | .extOp .. | .recvFn .. => instDecidableTrue

/-- The last `k` events of the history are new, and answered. -/
def AnsweredSince (k : Nat) (s t : Sys Unit) : Prop :=
  t.kernel.trace.drop k = s.kernel.trace ∧ ∀ e ∈ t.kernel.trace.take k, e.answered 0

instance (k : Nat) (s t : Sys Unit) : Decidable (AnsweredSince k s t) :=
  inferInstanceAs (Decidable (_ ∧ ∀ e ∈ t.kernel.trace.take k, SysEvent.answered 0 e))

theorem AnsweredSince.adds {k : Nat} {s t : Sys Unit} (h : AnsweredSince k s t) : Adds (SysEvent.answered 0) s t :=
  ⟨t.kernel.trace.take k, h.2, by rw [← h.1, List.take_append_drop]⟩

/-- The channel is connected on descriptor 4, with this address and so many blocks in its cache. -/
def OnFour (a : SockAddr) (k : Nat) (s : Sys Unit) : Prop :=
  (s.heap 0).map (fun c => (c.fd, c.state, c.ctype, c.addr, c.rwbSend.length)) =
    some (4, .connected, CHANN_TYPE_DGRAM, a, k)

instance (a : SockAddr) (k : Nat) (s : Sys Unit) : Decidable (OnFour a k s) := inferInstanceAs (Decidable (_ = _))

theorem OnFour.carries {a : SockAddr} {k : Nat} {s : Sys Unit} (h : OnFour a k s) :
    ∃ c, Carries s 0 4 c ∧ c.addr = a ∧ c.rwbSend.length = k := by
  obtain ⟨c, hc, hvals⟩ := Option.map_eq_some_iff.mp h
  simp only [Prod.mk.injEq] at hvals
  obtain ⟨hfd, hst, hty, haddr, hlen⟩ := hvals
  exact ⟨c, ⟨hc, by rw [hty]; rfl, hfd, .inl hst⟩, haddr, hlen⟩

/-- One byte for `p` has to wait behind `depth` others, and then `P`. -/
def SendWaits (p : Nat × Int) (byte : UInt8) (k depth : Nat) (P : Sys Unit → Prop) (s : Sys Unit) : Prop :=
  Ends (mnetDgramSend noExt (some 0) (some p) (some [byte])) s fun _ t =>
    AnsweredSince k s t ∧ OnFour (destination p.1 p.2) (depth + 1) t ∧ P t

instance (p : Nat × Int) (byte : UInt8) (k depth : Nat) (P : Sys Unit → Prop) [DecidablePred P] (s : Sys Unit) :
    Decidable (SendWaits p byte k depth P s) :=
  inferInstanceAs (Decidable (Ends _ s fun _ t => AnsweredSince k s t ∧ OnFour (destination p.1 p.2) (depth + 1) t ∧ P t))

/-- Room to write, and both bytes go to `a`. -/
def FlushesTo (a : SockAddr) (s : Sys Unit) : Prop :=
  Ends (evtDispatch noExt { events := EPOLLOUT, ptr := some 0 }) s fun _ t =>
    AnsweredSince 5 s t ∧ t.kernel.handed 4 = [(a, [1]), (a, [2])]

instance (a : SockAddr) : DecidablePred (FlushesTo a) := fun s =>
  inferInstanceAs (Decidable (Ends _ s fun _ t => AnsweredSince 5 s t ∧ t.kernel.handed 4 = [(a, [1]), (a, [2])]))

/-- The run, evaluated. -/
def BlockedRun (p q : Nat × Int) : Prop :=
  After noExt [.mnetInit, .channOpen 2, .channConnect (some 0) (some 0) 80] (Sys.start blockedOracle ()) fun _ s =>
    OnFour (destination 0 80) 0 s ∧ s.kernel.handed 4 = [] ∧
      SendWaits p 1 3 0 (SendWaits q 2 0 1 (FlushesTo (destination q.1 q.2))) s

instance (p q : Nat × Int) : Decidable (BlockedRun p q) :=
  inferInstanceAs (Decidable (After noExt _ _ fun _ s => OnFour (destination 0 80) 0 s ∧ s.kernel.handed 4 = [] ∧
    SendWaits p 1 3 0 (SendWaits q 2 0 1 (FlushesTo (destination q.1 q.2))) s))

theorem BlockedRun.path {p q : Nat × Int} (h : BlockedRun p q) : ∃ s t c, Reachable noExt s ∧ Carries s 0 4 c ∧
    c.rwbSend = [] ∧ s.kernel.handed 4 = [] ∧
    t.kernel.handed 4 = [(destination q.1 q.2, [1]), (destination q.1 q.2, [2])] ∧
    Path (fun s op t => AnsweredStep noExt 0 4 s op t ∧
      (destination q.1 q.2 = destination p.1 p.2 → Undiverted 0 s op)) s (blockedOps p q) t := by
  obtain ⟨_, s, hs, hready, hnone, _, a, hsend, ha, hwait, _, b, hsend', hb, hwait', _, t, hflush, ht, hhanded⟩ := h.run
  obtain ⟨c, hc, haddr, hlen⟩ := hready.carries
  obtain ⟨d, hd, haddr', _⟩ := hwait.carries
  obtain ⟨e, he, _⟩ := hwait'.carries
  have hempty : c.rwbSend = [] := List.eq_nil_of_length_eq_zero hlen
  refine ⟨s, t, c, ⟨_, _, _, hs⟩, hc, hempty, hnone, hhanded,
    .cons ⟨⟨.send hc hsend, ha.adds⟩, fun _ c' hc' _ hne => ?_⟩ <|
    .cons ⟨⟨.send hd hsend', hb.adds⟩, fun hpq d' hd' _ _ _ => ?_⟩ <|
    .single ⟨⟨.flush he rfl (by decide) (by decide) hflush, ht.adds⟩, fun _ _ _ _ _ => trivial⟩⟩
  · rw [hc.chann, Option.some.injEq] at hc'
    exact absurd (hc' ▸ hempty) hne
  · rw [hd.chann, Option.some.injEq] at hd'
    rw [← hd', haddr', hpq]

/-- Both datagrams are for the same address. -/
theorem dgram_delivered_once : ∃ (s t : Sys Unit), Delivered 4 (blockedOps (1, 7) (1, 7)) s t ∧
    t.kernel.handed 4 = [(destination 1 7, [1]), (destination 1 7, [2])] := by
  have hrun : BlockedRun (1, 7) (1, 7) := by decide +kernel
  obtain ⟨s, t, c, _, hc, hempty, _, hhanded, hpath⟩ := hrun.path
  exact ⟨s, t, dgram_delivered hc hempty (hpath.mono fun _ _ _ h => ⟨h.1, h.2 rfl⟩), hhanded⟩

/-- The second datagram is for another address, and both go there. -/
theorem not_dgram_delivered : ¬ ∀ (s t : Sys Unit) (n : ChannId) (fd : Int) (c : Chann) (ops : List DgramOp),
    Reachable noExt s → Carries s n fd c → c.rwbSend = [] → Path (AnsweredStep noExt n fd) s ops t →
      Delivered fd ops s t := by
  have hrun : BlockedRun (1, 7) (2, 7) := by decide +kernel
  obtain ⟨s, t, c, hreach, hc, hempty, hnone, hhanded, hpath⟩ := hrun.path
  intro hall
  obtain ⟨new, hnew, hsub⟩ := hall s t 0 4 c _ hreach hc hempty (hpath.mono fun _ _ _ h => h.1)
  rw [hnone, hhanded, List.nil_append] at hnew
  have hmem : (destination 2 7, [1]) ∈ new := by
    rw [← hnew]
    exact List.mem_cons_self
  exact absurd (hsub.subset hmem) (by decide)

end MNet
