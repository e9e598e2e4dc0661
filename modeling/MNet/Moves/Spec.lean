import MNet.Core.RefineChann
import MNet.Moves.Chann

/-! # What the compound moves change

Tearing a socket down, closing and freeing a channel, and the message slot, whatever the
callbacks on the way do. -/

namespace MNet
open MNet.Lib MNet.Lib.Exec

variable {ε : Type} {x : ExtTable ε} {o : OpsTable ε} {s t : Sys ε} {n : ChannId} {u : Unit}

/-- A channel up to its place in the list. -/
def Chann.bare (c : Chann) : Chann := { c.face with prev := none, next := none }

/-- The socket of `n`, whose contents are `d`, is closed. -/
structure Released (n : ChannId) (d : Chann) (s t : Sys ε) : Prop where
  was : s.heap n = some d
  spent : Spent d.rwbSend
  heap : t.heap = Function.update s.heap n
    (some { d with rwbSend := [], fd := -1, state := .disconnect, epollEvents := 0 })
  nextChann : t.nextChann = s.nextChann
  mnet : t.mnet = s.mnet
  socks : t.kernel.socks = Function.update s.kernel.socks d.fd none
  nextSock : t.kernel.nextSock = s.kernel.nextSock
  epoll : t.kernel.epoll = Function.update s.kernel.epoll d.fd none
  oracle : t.kernel.oracle = s.kernel.oracle
  ext : t.ext = s.ext
  trace : t.kernel.trace = .close d.fd :: s.kernel.trace

/-- What `close` changes in the kernel. -/
theorem sysClose_cases {fd : Int} (h : Returns (sysClose fd) s u t) :
    t.heap = s.heap ∧ t.nextChann = s.nextChann ∧ t.mnet = s.mnet ∧ t.ext = s.ext ∧
      t.kernel.socks = Function.update s.kernel.socks fd none ∧
      t.kernel.nextSock = s.kernel.nextSock ∧
      t.kernel.epoll = Function.update s.kernel.epoll fd none ∧
      t.kernel.oracle = s.kernel.oracle ∧ t.kernel.trace = .close fd :: s.kernel.trace := by
  simp only [sysClose, returns_bind, returns_modifyKernel, returns_record] at h
  obtain ⟨r, e, hr, _, _, rfl, rfl⟩ := h
  obtain ⟨_, rfl⟩ := sysRet_spec hr
  exact ⟨rfl, rfl, rfl, rfl, rfl, rfl, rfl, rfl, rfl⟩

theorem returns_callback {op : ExtOp} {cb : ChannId → M ε Unit} :
    Returns (callback op cb n) s u t ↔
      ∃ v a, a = s.recorded (.extOp op n) ∧ Returns (cb n) a v t := by
  simp only [callback, returns_bind, returns_record]
  rfl

/-- Nothing happens to a channel without a socket. For another one the callback runs, and then
the socket is closed. -/
theorem channDisconnectSocket_cases {r : Int} (h : Returns (channDisconnectSocket o n) s r t) :
    ∃ c, s.heap n = some c ∧
      ((¬ (0 < c.fd ∧ c.state.active) ∧ r = 0 ∧ t = s) ∨
        (0 < c.fd ∧ c.state.active ∧ r = 1 ∧ ∃ a d u,
          Returns ((opsConfig o c.ctype).disconnectCb n) (s.recorded (.extOp .disconnectCb n)) u a ∧
            Released n d a t)) := by
  simp only [channDisconnectSocket, returns_bind, returns_deref, and_assoc, exists_and_left,
    exists_eq_left] at h
  obtain ⟨c, hc, h⟩ := h
  have hval : c.state.val > ChannState.disconnect.val ↔ c.state.active := by
    cases c.state <;> simp [ChannState.val, ChannState.active]
  refine ⟨c, hc, ?_⟩
  rcases returns_ite.mp h with ⟨⟨hfd, hst⟩, h⟩ | ⟨hno, h⟩
  · simp only [destroyCache, returns_bind, returns_deref, returns_require, returns_modifyChann,
      returns_pure, and_assoc, exists_and_left, exists_eq_left] at h
    obtain ⟨_, a, hcb, d, hd, _, b, hclose, _, _, ⟨e, he, q, hq, _, hb', rfl⟩,
      _, _, ⟨f, hf, rfl⟩, rfl, rfl⟩ := h
    obtain ⟨_, _, rfl, hcb⟩ := returns_callback.mp hcb
    obtain ⟨hheap, hnext, hmnet, hext, hsocks, hsock, hepoll, horacle, htrace⟩ := sysClose_cases hclose
    obtain ⟨rfl, hspent⟩ := rwbDestroy_eq_some.mp hq
    rw [hheap, hd, Option.some.injEq] at he
    subst he
    rw [hheap, hd, Option.some.injEq] at hb'
    subst hb'
    simp only [Sys.setChann, Function.update_self, Option.some.injEq] at hf
    subst hf
    refine .inr ⟨hfd, hval.mp hst, rfl, a, d, (), hcb, hd, hspent, ?_, hnext, hmnet, hsocks, hsock, hepoll,
      horacle, hext, htrace⟩
    simp only [Sys.setChann, hheap, Function.update_idem]
  · obtain ⟨rfl, rfl⟩ := returns_pure.mp h
    exact .inl ⟨fun hc => hno ⟨hc.1, hval.mpr hc.2⟩, rfl, rfl⟩

/-- Afterwards the channel has no socket that was announced. -/
theorem channDisconnectSocket_down {r : Int} {c : Chann}
    (h : Returns (channDisconnectSocket o n) s r t) (hc : t.heap n = some c) :
    ¬ (0 < c.fd ∧ c.state.active) := by
  obtain ⟨d, hd, ⟨hno, _, rfl⟩ | ⟨_, _, _, a, e, _, _, hrel⟩⟩ := channDisconnectSocket_cases h
  · rw [hd, Option.some.injEq] at hc
    rwa [← hc]
  · rw [hrel.heap, Function.update_self, Option.some.injEq] at hc
    rw [← hc]
    exact fun hact => hact.2

/-- A channel that is open is closed after its callback ran. -/
theorem channCloseSocket_cases (h : Returns (channCloseSocket o n) s u t) :
    ∃ c, s.heap n = some c ∧ ((c.state = .closed ∧ t = s) ∨
      (c.state ≠ .closed ∧ ∃ a d v,
        Returns ((opsConfig o c.ctype).closeCb n) (s.recorded (.extOp .closeCb n)) v a ∧
        a.heap n = some d ∧
        t = { a.setChann n { d with delNext := a.mnet.delChanns, state := .closed, opaquePtr := 0 } with
          mnet := { a.mnet with delChanns := some n } })) := by
  simp only [channCloseSocket, returns_bind, returns_deref, and_assoc, exists_and_left,
    exists_eq_left] at h
  obtain ⟨c, hc, h⟩ := h
  refine ⟨c, hc, ?_⟩
  rcases returns_ite.mp h with ⟨hst, h⟩ | ⟨hst, h⟩
  · simp only [returns_bind, returns_readMnet, returns_modifyChann, returns_modifyMnet, and_assoc,
      exists_and_left, exists_eq_left] at h
    obtain ⟨_, a, hcb, _, _, ⟨d, hd, rfl⟩, _, e, he, rfl⟩ := h
    obtain ⟨_, _, rfl, hcb⟩ := returns_callback.mp hcb
    simp only [Sys.setChann, Function.update_self, Option.some.injEq] at he
    subst he
    refine .inr ⟨?_, a, d, (), hcb, hd, ?_⟩
    · intro hcl
      rw [hcl] at hst
      exact absurd hst (by decide)
    · simp only [Sys.setChann, Function.update_idem]
  · obtain ⟨_, rfl⟩ := returns_pure.mp h
    refine .inl ⟨?_, rfl⟩
    revert hst
    cases c.state <;> simp [ChannState.val]

/-- The message is put in the slot, and the filter decides. -/
theorem returns_channMsg {event : ChannEvent} {q : Option ChannId} {err : Int} {pass : Bool} :
    Returns (channMsg x n event q err) s pass t ↔ ∃ c, s.heap n = some c ∧
      Returns ((extConfig x c.ctype).filterFn n) (s.setChann n { c with msg := msgOf n c event q err })
        pass t := by
  simp only [channMsg, returns_bind, returns_deref, returns_modifyChann, and_assoc, exists_and_left,
    exists_eq_left]
  constructor
  · rintro ⟨_, _, ⟨c, hc, rfl⟩, d, hd, h⟩
    simp only [Sys.setChann, Function.update_self, Option.some.injEq] at hd
    subst hd
    exact ⟨c, hc, h⟩
  · rintro ⟨c, hc, h⟩
    exact ⟨(), _, ⟨c, hc, rfl⟩, _, Function.update_self .., h⟩

theorem channMsg_cases {event : ChannEvent} {q : Option ChannId} {err : Int} {pass : Bool}
    (h : Returns (channMsg x n event q err) s pass t) : ∃ c, s.heap n = some c ∧
      Returns ((extConfig x c.ctype).filterFn n) (s.setChann n { c with msg := msgOf n c event q err })
        pass t := returns_channMsg.mp h

/-- The callback of the channel's type, the record of the call, and the byte count. -/
theorem channSend_cases {data : List UInt8} {r : Int} (h : Returns (channSend x n data) s r t) :
    ∃ c a, s.heap n = some c ∧ Returns ((extConfig x c.ctype).sendFn n data) s r a ∧
      ((r ≤ 0 ∧ t = a.recorded (.sendFn n data r)) ∨ (0 < r ∧ ∃ d, a.heap n = some d ∧
        t = (a.recorded (.sendFn n data r)).setChann n { d with bytesSend := d.bytesSend + r })) := by
  simp only [channSend, returns_bind, returns_deref, returns_record, and_assoc, exists_and_left,
    exists_eq_left] at h
  obtain ⟨c, hc, q, a, hsend, _, h⟩ := h
  rcases returns_ite.mp h with ⟨hpos, h⟩ | ⟨hno, h⟩
  · simp only [returns_bind, returns_modifyChann, returns_pure] at h
    obtain ⟨_, _, ⟨d, hd, rfl⟩, rfl, rfl⟩ := h
    exact ⟨c, a, hc, hsend, .inr ⟨hpos, d, hd, rfl⟩⟩
  · obtain ⟨rfl, rfl⟩ := returns_pure.mp h
    exact ⟨c, a, hc, hsend, .inl ⟨Int.not_lt.mp hno, rfl⟩⟩

/-- The same but for the places in the list. -/
structure Relinked (s t : Sys ε) : Prop where
  bare : ∀ m, (t.heap m).map Chann.bare = (s.heap m).map Chann.bare
  nextChann : t.nextChann = s.nextChann
  reserved : t.mnet.reserved = s.mnet.reserved
  kq : t.mnet.kq = s.mnet.kq
  kernel : t.kernel = s.kernel
  ext : t.ext = s.ext

theorem Relinked.trans {a b : Sys ε} (h : Relinked s a) (h' : Relinked a b) : Relinked s b where
  bare m := (h'.bare m).trans (h.bare m)
  nextChann := h'.nextChann.trans h.nextChann
  reserved := h'.reserved.trans h.reserved
  kq := h'.kq.trans h.kq
  kernel := h'.kernel.trans h.kernel
  ext := h'.ext.trans h.ext

theorem relinked_modifyChann {f : Chann → Chann} (h : Returns (modifyChann n f) s u t)
    (hf : ∀ c, (f c).bare = c.bare) : Relinked s t := by
  obtain ⟨c, hc, rfl⟩ := returns_modifyChann.mp h
  refine ⟨fun m => ?_, rfl, rfl, rfl, rfl, rfl⟩
  by_cases hm : m = n
  · rw [hm, hc]
    simp [Sys.setChann, hf]
  · simp [Sys.setChann, Function.update_of_ne hm]

theorem unlinkChann_relinked (h : Returns (unlinkChann n) s u t) : Relinked s t := by
  simp only [unlinkChann, returns_bind, returns_deref, and_assoc, exists_and_left,
    exists_eq_left] at h
  obtain ⟨c, hc, _, a, hnext, h⟩ := h
  have ha : Relinked s a := by
    cases hx : c.next with
    | none =>
      rw [hx] at hnext
      rw [returns_forSome_none.mp hnext]
      exact ⟨fun _ => rfl, rfl, rfl, rfl, rfl, rfl⟩
    | some m =>
      rw [hx] at hnext
      exact relinked_modifyChann (returns_forSome_some.mp hnext) fun _ => rfl
  cases hp : c.prev with
  | none =>
    rw [hp] at h
    rw [returns_modifyMnet] at h
    subst h
    exact ha.trans ⟨fun _ => rfl, rfl, rfl, rfl, rfl, rfl⟩
  | some m =>
    rw [hp] at h
    exact ha.trans (relinked_modifyChann h fun _ => rfl)

/-- The places of the channels in the list. -/
def linksOf (heap : Heap) (n : ChannId) : Option (Option ChannId × Option ChannId) :=
  (heap n).map fun c => (c.prev, c.next)

/-- The list is what the places say. -/
theorem Registered.congr {heap heap' : Heap} {channs : Option ChannId} {count : Int} {fresh : ChannId}
    (h : Registered heap channs count fresh) (he : ∀ m, linksOf heap' m = linksOf heap m) :
    Registered heap' channs count fresh := by
  have hx : nextOf heap' = nextOf heap := by
    funext m
    have hm := congrArg (Option.bind · Prod.snd) (he m)
    simp only [linksOf, Option.bind_map] at hm
    exact hm
  have hp : prevOf heap' = prevOf heap := by
    funext m
    have hm := congrArg (Option.bind · Prod.fst) (he m)
    simp only [linksOf, Option.bind_map] at hm
    exact hm
  have hnone : ∀ m, heap' m ≠ none ↔ heap m ≠ none := by
    intro m
    have hm := congrArg Option.isSome (he m)
    simpa [linksOf, ← Option.isSome_iff_ne_none] using hm
  obtain ⟨l, hl, hmem, hcount⟩ := h.list
  refine ⟨⟨l, ?_, fun m => (hnone m).trans (hmem m), hcount⟩, fun m hm => h.lt m ((hnone m).mp hm)⟩
  rw [hx, hp]
  exact hl

/-- A closed channel is freed and leaves the list, which the others stay on. -/
structure Destroyed (n : ChannId) (c : Chann) (s t : Sys ε) : Prop where
  was : s.heap n = some c
  closed : c.state = .closed
  gone : t.heap n = none
  bare : ∀ m ≠ n, (t.heap m).map Chann.bare = (s.heap m).map Chann.bare
  nextChann : t.nextChann = s.nextChann
  reserved : ∀ ctype, s.mnet.reserved ctype = true → t.mnet.reserved ctype = true
  kq : t.mnet.kq = s.mnet.kq
  socks : t.kernel.socks = s.kernel.socks
  nextSock : t.kernel.nextSock = s.kernel.nextSock
  epoll : t.kernel.epoll = s.kernel.epoll
  oracle : t.kernel.oracle = s.kernel.oracle
  trace : Adds SysEvent.plain s t
  ext : t.ext = s.ext
  reg : Registered s.core.heap s.mnet.channs s.mnet.channCount s.nextChann →
    Registered t.core.heap t.mnet.channs t.mnet.channCount t.nextChann
  head : Registered s.core.heap s.mnet.channs s.mnet.channCount s.nextChann →
    s.mnet.channs = some n → t.mnet.channs = c.next

theorem links_core (s : Sys ε) (m : ChannId) :
    linksOf s.core.heap m = (s.heap m).map fun c => (c.prev, c.next) := by
  simp only [linksOf, core_heap, Option.map_map]
  rfl

theorem Plain.links (h : Plain s t) (m : ChannId) : linksOf t.core.heap m = linksOf s.core.heap m := by
  have hm := congrArg (Option.map fun c : Chann => (c.prev, c.next)) (h.face m)
  rw [Option.map_map, Option.map_map] at hm
  rw [links_core, links_core]
  exact hm

theorem Plain.bare (h : Plain s t) (m : ChannId) :
    (t.heap m).map Chann.bare = (s.heap m).map Chann.bare := by
  have hm := congrArg (Option.map fun c : Chann => { c with prev := none, next := none }) (h.face m)
  rw [Option.map_map, Option.map_map] at hm
  exact hm

theorem channDestroy_cases (h : Returns (channDestroy n) s u t) :
    ∃ c, s.heap n = some c ∧ ((c.state ≠ .closed ∧ t = s) ∨ Destroyed n c s t) := by
  simp only [channDestroy, returns_bind, returns_deref, and_assoc, exists_and_left,
    exists_eq_left] at h
  obtain ⟨c, hc, h⟩ := h
  refine ⟨c, hc, ?_⟩
  rcases returns_ite.mp h with ⟨hst, h⟩ | ⟨hst, h⟩
  swap
  · exact .inl ⟨hst, (returns_pure.mp h).2⟩
  simp only [destroyCache, returns_bind, returns_deref, returns_require, returns_modifyChann, returns_modifyMnet,
    and_assoc, exists_and_left, exists_eq_left] at h
  obtain ⟨_, a, hunlink, _, _, ⟨d, hd, q, _, d', hd', rfl⟩, _, b, hkill, _, hfree⟩ := h
  rw [hd, Option.some.injEq] at hd'
  subst hd'
  rw [freeChann, returns_modify] at hfree
  subst hfree
  have ha := unlinkChann_relinked hunlink
  have hb := plain_tmKill _ _ hkill
  obtain ⟨c', hc', hacore⟩ := unlinkChann_spec hunlink
  rw [core_heap_some hc, Option.some.injEq] at hc'
  subst hc'
  have hchanns : b.mnet.channs = (s.core.unlinked c.core).channs := by
    rw [hb.channs, ← hacore]
    rfl
  have hcount : b.mnet.channCount = s.mnet.channCount := by
    rw [hb.channCount]
    show a.core.channCount = _
    rw [hacore]
    rfl
  refine .inr ⟨hc, hst, Function.update_self .., fun m hm => ?_, hb.nextChann.trans ha.nextChann,
    fun ctype hr => hb.reserved ctype (by rw [← ha.reserved] at hr; exact hr), hb.kq.trans ha.kq,
    hb.socks.trans (congrArg Kernel.socks ha.kernel), hb.nextSock.trans (congrArg Kernel.nextSock ha.kernel),
    hb.epoll.trans (congrArg Kernel.epoll ha.kernel), hb.oracle.trans (congrArg Kernel.oracle ha.kernel),
    ?_, hb.ext.trans ha.ext, fun hreg => ?_, fun hreg hhead => ?_⟩
  · show (Function.update b.heap n none m).map Chann.bare = _
    rw [Function.update_of_ne hm, hb.bare m]
    simp only [Sys.setChann, Function.update_of_ne hm]
    exact ha.bare m
  · obtain ⟨l, hl, hlt⟩ := hb.trace
    refine ⟨l, hl, hlt.trans ?_⟩
    show l ++ a.kernel.trace = l ++ s.kernel.trace
    rw [ha.kernel]
  · have hdes := hreg.destroyed (core_heap_some hc)
    have hnext : b.nextChann = s.nextChann := hb.nextChann.trans ha.nextChann
    show Registered _ b.mnet.channs (b.mnet.channCount - 1) b.nextChann
    rw [hchanns, hcount, hnext]
    refine hdes.congr fun m => ?_
    by_cases hm : m = n
    · subst hm
      simp [linksOf]
    · have hup : ∀ (h₁ h₂ : Heap), linksOf h₁ m = linksOf h₂ m →
          linksOf h₁ m = linksOf (Function.update h₂ n none) m := by
        intro h₁ h₂ he
        rw [he]
        simp [linksOf, Function.update_of_ne hm]
      refine hup _ _ ?_
      have hlinks : linksOf a.core.heap m = linksOf (s.core.unlinked c.core).heap m := by rw [hacore]
      refine Eq.trans ?_ hlinks
      have hbm := hb.links m
      rw [links_core] at hbm
      rw [links_core, links_core]
      show (Function.update b.heap n none m).map _ = _
      rw [Function.update_of_ne hm, hbm, links_core]
      simp [Sys.setChann, Function.update_of_ne hm]
  · obtain ⟨l, hl, _, _⟩ := hreg.list
    have hprev : c.prev = none := by
      rw [hhead] at hl
      cases hl with
      | cons hp _ =>
        rw [prevOf, core_heap_some hc] at hp
        exact hp
    show b.mnet.channs = c.next
    rw [hchanns, Core.unlinked, show c.core.prev = none from hprev]
    rfl

end MNet
