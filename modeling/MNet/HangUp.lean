import MNet.Teardown

/-! # Hang-ups

`_evt_result_next` looks at the error flags of a record first. So a record that also tells
of received data disconnects the channel, and its data is never announced. -/

namespace MNet
open MNet.Lib MNet.Lib.Exec

variable {ε : Type} {x : ExtTable ε} {s t u : Sys ε} {n : ChannId} {c : Chann} {kev : Kev}

/-- Received data and a hang-up that is no error, reported for a connected stream channel. -/
structure HangUp (s : Sys ε) (kev : Kev) (n : ChannId) (c : Chann) : Prop where
  ptr : kev.ptr = some n
  chann : s.heap n = some c
  state : c.state = .connected
  ctype : c.ctype = CHANN_TYPE_STREAM
  recv : kev.events &&& EPOLLIN ≠ 0
  hup : kev.events &&& (EPOLLRDHUP ||| EPOLLHUP) ≠ 0
  err : kev.events &&& EPOLLERR = 0

/-- Bytes are waiting for the channel: a read now would get some. -/
def Readable (x : ExtTable ε) (s : Sys ε) (n : ChannId) : Prop :=
  ∃ len r t, 0 < r ∧ Returns (mnetChannRecv x (some n) true len) s r t

/-- Waiting data is announced before the hang-up. -/
def RecvFirst (x : ExtTable ε) : Prop :=
  ∀ s u t fuel kev n c rounds q, Inside x s → Fetches x fuel s u kev → HangUp u kev n c →
    Readable x u n → Returns (evtLoop x fuel (rounds + 1)) s q t →
    q = some n ∧ ∃ d, t.heap n = some d ∧ d.state = .connected ∧ d.msg.event = some .recv

/-- A channel with nothing cached is disconnected and its DISCONNECT message is returned. -/
theorem reportDown_builtin (hx : Tame x) (hr : Returning x) (hb : Base s.core) (err : Int)
    (hc : s.heap n = some c) (hact : c.state.active) (hty : c.ctype ≤ CHANN_TYPE_BROADCAST)
    (hnil : c.rwbSend = []) :
    ∃ t, Returns (reportDown x n err) s (.ret (some n)) t ∧ t.kernel.socks c.fd = none ∧
      ∃ d, t.heap n = some d ∧ d.state = .disconnect ∧ d.msg.event = some .disconnect ∧
        d.msg.err = err ∧ d.msg.n = some n := by
  have hn := core_heap_some hc
  obtain ⟨r, a, hdis⟩ := channDisconnectSocket_terminates hx hr.toReleasing hn hnil
  have hba := (channDisconnectSocket_steps hx.ops hb hdis).base hb
  obtain ⟨c', hc', ⟨_, _, _, ha⟩ | ⟨hno, _⟩⟩ := channDisconnectSocket_spec hx.ops hb hdis
  all_goals
    rw [hc] at hc'
    cases hc'
  swap
  · exact absurd hact hno
  have han : a.core.heap n = some c.core.released := by rw [ha, Core.set_heap, Function.update_self]
  obtain ⟨p, t, hemit⟩ := emit_terminates hr han id .disconnect none err
  obtain ⟨d, hd, _, _, hbuiltin⟩ := emit_spec hx hba hemit
  have hdc : d.core = c.core.released := Option.some.inj ((core_heap_some hd).symm.trans han)
  have hdty : d.ctype = c.ctype := congrArg CChann.ctype hdc
  obtain ⟨rfl, rfl⟩ := hbuiltin (hdty ▸ hty)
  refine ⟨_, returns_bind.mpr ⟨r, a, hdis, hemit⟩, ?_, { d with msg := msgOf n d .disconnect none err },
    Function.update_self .., congrArg CChann.state hdc, rfl, rfl, rfl⟩
  have hsocks : a.core.socks c.fd = none := by
    rw [ha]
    exact Function.update_self ..
  exact hsocks

/-- However much data is waiting, the hang-up closes the socket at once, and the message
returned is a DISCONNECT with the flags of the record. -/
theorem hangUp_disconnects (hx : Tame x) (hr : Returning x) {fuel : Nat} (hs : Inside x s)
    (hf : Fetches x fuel s u kev) (h : HangUp u kev n c) (hnil : c.rwbSend = []) (rounds : Nat) :
    ∃ t, Returns (evtLoop x fuel (rounds + 1)) s (some n) t ∧ t.kernel.socks c.fd = none ∧
      ∃ d, t.heap n = some d ∧ d.state = .disconnect ∧ d.msg.event = some .disconnect ∧
        d.msg.err = kev.events.toInt ∧ d.msg.n = some n := by
  have hb : Base u.core := AtRecord.base hx ⟨s, fuel, hs, hf⟩
  have hact : c.state.active := by
    rw [h.state]
    trivial
  have hfd : 0 < c.fd := (hb.own.opened n c.core (core_heap_some h.chann) hact).1
  have hflags : kev.events &&& (EPOLLERR ||| (EPOLLRDHUP ||| EPOLLHUP)) ≠ 0 := by
    rw [BitVec.and_or_distrib_left, h.err, show (0 : BitVec 32) = 0#32 from rfl, BitVec.zero_or]
    exact h.hup
  obtain ⟨t, hdown, hpost⟩ := reportDown_builtin hx hr hb kev.events.toInt h.chann hact
    (by rw [h.ctype]; decide) hnil
  have hdisp := (evtDispatch_hangup h.ptr h.chann (by rw [h.state]; decide) (by omega) hflags h.err
    (.ret (some n)) t).mpr hdown
  refine ⟨t, ?_, hpost⟩
  rw [evtLoop, ((hf.pass (.ret (some n)) t).mpr hdisp).bind_iff]
  exact returns_pure.mpr ⟨rfl, rfl⟩

/-- An environment that connects, and then reports data and a hang-up together. -/
def hangUpOracle : Oracle :=
  { quietOracle with
    events := fun tick => if tick < 14 then [(4, EPOLLOUT)] else [(4, EPOLLIN ||| EPOLLRDHUP)] }

set_option synthInstance.maxSize 1000 in
/-- With eight bytes waiting, the next message is a DISCONNECT. -/
theorem hangUp_run : ∃ (s u t : Sys Unit) (c : Chann) (kev : Kev) (q : Option ChannId), Inside noExt s ∧
    Fetches noExt 5 s u kev ∧ HangUp u kev 0 c ∧ c.rwbSend = [] ∧ Readable noExt u 0 ∧
    Returns (evtLoop noExt 5 5) s q t ∧
    (t.heap 0).map (fun d => d.msg.event) = some (some .disconnect) := by
  have hrun : After noExt [.mnetInit, .channOpen 1, .channConnect (some 0) (some 0) 80, .poll,
      .resultNext 5, .resultNext 5, .poll] (Sys.start hangUpOracle ()) fun _ s =>
        (s.mnet.tmPos = none ∧ s.mnet.disChanns = none ∧ s.mnet.fdIndex = -1 ∧ s.mnet.fdCount = 1 ∧
          s.mnet.evtArray = [⟨EPOLLIN ||| EPOLLRDHUP, some 0, some 0⟩] ∧
          (s.heap 0).map (fun c => (c.state, c.ctype, c.rwbSend)) = some (.connected, 1, [])) ∧
        After noExt [.channRecv (some 0) true 8]
          { s with mnet := { s.mnet with fdIndex := s.mnet.fdIndex + 1 } } (fun rs _ => rs = [.int 8]) ∧
        After noExt [.resultNext 5] s fun _ t =>
          (t.heap 0).map (fun d => d.msg.event) = some (some .disconnect) := by decide +kernel
  obtain ⟨_, s, hs, ⟨hpos, hdis, hidx, hcount, hevts, hchann⟩, hrecv, hnext⟩ := hrun.run
  obtain ⟨c, hc, hvals⟩ := Option.map_eq_some_iff.mp hchann
  obtain ⟨hst, hty, hnil⟩ : c.state = .connected ∧ c.ctype = 1 ∧ c.rwbSend = [] := by
    simpa using hvals
  obtain ⟨r, v, hcall, hr⟩ := hrecv.step
  obtain ⟨len, rfl, hread⟩ := returns_ret.mp hcall
  obtain rfl : len = 8 := by simpa using hr
  obtain ⟨r, t, hret, hmsg⟩ := hnext.step
  obtain ⟨q, _, hret⟩ := returns_ret.mp hret
  refine ⟨s, _, t, c, ⟨EPOLLIN ||| EPOLLRDHUP, some 0, some 0⟩, q, .call ⟨_, _, _, hs⟩,
    ⟨⟨s, tmNext_none hpos 4, hdis, rfl⟩, ?_, ?_⟩, ⟨rfl, hc, hst, hty, ?_, ?_, ?_⟩, hnil, ⟨8, 8, v, by decide, hread⟩,
    hret, hmsg⟩
  · simp [hidx, hcount]
  · simp [hidx, hevts]
  all_goals decide

theorem not_recvFirst : ¬ RecvFirst noExt := by
  intro h
  obtain ⟨s, u, t, c, kev, q, hs, hf, hup, _, hread, hret, hmsg⟩ := hangUp_run
  obtain ⟨_, d, hd, _, hev⟩ := h s u t 5 kev 0 c 4 q hs hf hup hread hret
  rw [hd, Option.map_some, hev] at hmsg
  cases hmsg

/-- The DISCONNECT comes while the data is waiting. -/
theorem hangUp_disconnects_waiting : ∃ (u t : Sys Unit) (d : Chann), Readable noExt u 0 ∧
    t.heap 0 = some d ∧ d.msg.event = some .disconnect := by
  obtain ⟨s, u, _, c, kev, _, hs, hf, hup, hnil, hread, _⟩ := hangUp_run
  obtain ⟨t, _, _, d, hd, _, hev, _⟩ := hangUp_disconnects tame_noExt returning_noExt hs hf hup hnil 4
  exact ⟨u, t, d, hread, hd, hev⟩

end MNet
