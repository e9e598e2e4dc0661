import MNet.Tls.Filter

/-! # The slot of a message

A message is a slot inside a channel. Between one message and the next only the failure of a
transfer on that channel writes to it. -/

namespace MNet
open MNet.Lib MNet.Lib.Exec

variable {ε : Type} {x : ExtTable ε} {gone : Prop} {s t : Sys ε} {n p : ChannId} {c d : Chann}

/-- How many transfers on the channel have not worked. -/
def Sys.failures (s : Sys ε) (n : ChannId) : Nat := s.kernel.trace.countP fun e => decide (e.fails n)

theorem failures_mono (h : s.kernel.trace <:+ t.kernel.trace) : s.failures n ≤ t.failures n :=
  h.sublist.countP_le

theorem failures_recorded {e : SysEvent} (h : e.fails n) : (s.recorded e).failures n = s.failures n + 1 :=
  List.countP_cons_of_pos (decide_eq_true h)

/-- The channel is there, with the message it had. -/
def SlotKept (p : ChannId) (s t : Sys ε) : Prop := ∀ c, s.heap p = some c → ∃ d, t.heap p = some d ∧ d.msg = c.msg

theorem SlotKept.trans {a : Sys ε} (h : SlotKept p s a) (h' : SlotKept p a t) : SlotKept p s t := by
  intro c hc
  obtain ⟨d, hd, hmsg⟩ := h c hc
  obtain ⟨e, he, hmsg'⟩ := h' d hd
  exact ⟨e, he, hmsg'.trans hmsg⟩

/-- What shows the same holds the same message. -/
theorem slotKept_of_shown (h : (t.heap p).map Chann.shown = (s.heap p).map Chann.shown) : SlotKept p s t := by
  intro c hc
  rw [hc, Option.map_some] at h
  obtain ⟨d, hd, hshown⟩ := Option.map_eq_some_iff.mp h
  exact ⟨d, hd, congrArg (·.1) hshown⟩

theorem Discreet.slotKept (h : Discreet gone s t) (hg : ¬ gone) (hs : Fresh s) : SlotKept p s t := fun c hc =>
  slotKept_of_shown ((h.shown p (hs.lt hc)).resolve_right fun h => hg h.1) c hc

theorem Reworded.slotKept (h : Reworded n s t) (hn : p ≠ n) (hs : Fresh s) : SlotKept p s t := fun c hc =>
  slotKept_of_shown (h.others p (hs.lt hc) hn) c hc

/-- A write to a channel with another slot, or past its own. -/
theorem slotKept_update (hc : s.heap n = some c) (hd : p = n → d.msg = c.msg)
    (hheap : t.heap = Function.update s.heap n (some d)) : SlotKept p s t := by
  intro e he
  rw [hheap]
  by_cases hp : p = n
  · rw [hp, hc, Option.some.injEq] at he
    subst he
    rw [hp, Function.update_self]
    exact ⟨d, rfl, hd hp⟩
  · rw [Function.update_of_ne hp]
    exact ⟨e, he, rfl⟩

/-- The calls an application may make before it asks for the next message. -/
def Call.between : Call → Prop
  | .poll | .mnetFini | .resultNext _ => False
  | _ => True

instance : (c : Call) → Decidable c.between
  | .poll | .mnetFini | .resultNext _ => instDecidableFalse
  | .mnetInit | .multiAcceptBalancer .. | .multiResetEvent | .extRegister .. |
    .channOpen .. | .channClose .. | .channConnect .. | .channDisconnect .. |
    .channListen .. | .channSetOpaque .. | .channActiveEvent .. | .channRecv .. |
    .channSend .. | .dgramRecv .. | .dgramSend .. | .socketSetBufsize .. => instDecidableTrue

section

variable (hp : Polite x)
include hp

/-- The failure of a transfer is filed in its own channel. -/
theorem channFail_slot {u : Unit} (hs : Fresh s) (hn : p ≠ n) (h : Returns (channFail x n) s u t) :
    SlotKept p s t := by
  obtain ⟨a, err, pass, b, ha, hmsg, hpush⟩ := hp.failed h
  have hfiled : SlotKept p s b :=
    (ha.slotKept id hs).trans ((hp.rewords _ _ hmsg).slotKept hn (ha.fresh hs))
  obtain ⟨_, hpush⟩ | ⟨_, rfl⟩ := hpush
  · obtain ⟨d, hd, hheap, _⟩ := pushDis_cases hpush
    exact hfiled.trans (slotKept_update hd (fun he => absurd he hn) hheap)
  · exact hfiled

theorem channFail_trace {u : Unit} (h : Returns (channFail x n) s u t) : s.kernel.trace <:+ t.kernel.trace := by
  obtain ⟨a, err, pass, b, ha, hmsg, hpush⟩ := hp.failed h
  have hb := ha.trace.trans (hp.rewords _ _ hmsg).trace
  obtain ⟨_, hpush⟩ | ⟨_, rfl⟩ := hpush
  · obtain ⟨_, _, _, _, _, hkernel⟩ := pushDis_cases hpush
    rw [hkernel]
    exact hb
  · exact hb

/-- A transfer on another channel, or one that works. -/
theorem Transfers.slotKept (h : Transfers x n s t) (hs : Fresh s) (hf : t.failures p = s.failures p) :
    SlotKept p s t := by
  cases h with
  | fine h => exact h.slotKept id hs
  | @failed a b e u ha he hfail hb =>
    have hfa := ha.fresh hs
    have hn : p ≠ n := by
      intro hpn
      rw [← hpn] at he
      have hgrows : (a.recorded e).failures p ≤ t.failures p :=
        failures_mono ((channFail_trace hp hfail).trans hb.trace)
      have hbefore : s.failures p ≤ a.failures p := failures_mono ha.trace
      rw [failures_recorded he] at hgrows
      omega
    have hrec : Fresh (a.recorded e) := hfa
    exact (ha.slotKept id hs).trans ((channFail_slot hp hrec hn hfail).trans
      (hb.slotKept id (hp.channFail_fresh hrec hfail)))

/-- A close drops the user pointer, and leaves the message. -/
theorem mnetChannClose_slot {q : Option ChannId} {u : Unit} (hs : Fresh s)
    (h : Returns (mnetChannClose x q) s u t) : SlotKept p s t := by
  have hsame : SlotKept p s s := fun c hc => ⟨c, hc, rfl⟩
  cases q with
  | none =>
    rw [(returns_pure.mp h).2]
    exact hsame
  | some n =>
    simp only [mnetChannClose, returns_bind, returns_deref, and_assoc, exists_and_left, exists_eq_left] at h
    obtain ⟨_, _, h⟩ := h
    rcases returns_ite.mp h with ⟨_, h⟩ | ⟨_, h⟩
    swap
    · rw [(returns_pure.mp h).2]
      exact hsame
    obtain ⟨_, a, hdis, h⟩ := returns_bind.mp h
    have ha : Discreet False s a := hp.channDisconnectSocket _ _ hdis
    obtain ⟨d, _, ⟨_, rfl⟩ | ⟨_, b, e, w, hcb, he, rfl⟩⟩ := channCloseSocket_cases h
    · exact ha.slotKept id hs
    rw [opsConfig_opsOf] at hcb
    have hb : Discreet False s b := ha.trans ((discreet_recorded _ _).trans
      (hp.cb d.ctype .closeCb n _ _ _ hcb))
    refine (hb.slotKept id hs).trans (slotKept_update he (fun _ => ?_) rfl)
    rfl

/-- One call. -/
theorem Step.slotKept {i : Call × Ret} (h : Step x s i t) (hi : i.1.between) (hs : Fresh s)
    (hf : t.failures p = s.failures p) : SlotKept p s t := by
  obtain ⟨call, r⟩ := i
  by_cases hd : call.discreet
  · refine (hp.apiCall hd _ _ h).slotKept ?_ hs
    intro hreaps
    cases call with
    | poll => exact hi
    | _ => exact hreaps
  cases hn : call.transfers with
  | some n => exact (hp.transfer hn h).slotKept hp hs hf
  | none =>
    obtain rfl | ⟨fuel, rfl⟩ | ⟨n, rfl⟩ | ⟨n, q, rfl⟩ := transfer_null hd hn h
    · exact hi.elim
    · exact hi.elim
    · obtain ⟨_, _, h⟩ := returns_ret.mp h
      exact mnetChannClose_slot hp hs h
    · obtain ⟨_, _, h⟩ := returns_ret.mp h
      cases n with
      | none =>
        rw [(returns_pure.mp h).2]
        exact fun c hc => ⟨c, hc, rfl⟩
      | some n =>
        obtain ⟨c, hc, rfl⟩ := returns_modifyChann.mp h
        refine slotKept_update hc (fun _ => ?_) rfl
        rfl

end

/-- With polite types, a message stays as it was given out until a transfer on the channel of its slot
fails. -/
theorem message_stable (hx : Obedient x) (hp : Polite x) {o : Oracle} {e : ε} {l l' : List (Call × Ret)} {fuel : Nat}
    {u : Sys ε} (h : Run x (Sys.start o e) l s) (hnext : Step x s (.resultNext fuel, .msg (some p)) t)
    (hcalls : Path (fun a i b => Step x a i b ∧ i.1.between ∧ b.failures p = a.failures p) t l' u) :
    ∃ c d, t.heap p = some c ∧ u.heap p = some d ∧ d.msg = c.msg := by
  have hs : Ordered s := h.keeps (fun _ _ _ hs => hs.ordered hx) (ordered_start o e)
  obtain ⟨q, hq, hloop⟩ := returns_ret.mp hnext
  cases hq
  obtain ⟨c, hc⟩ := (hp.evtLoop_stays hs.fresh hloop).2 p rfl
  have hkept : Ordered u ∧ SlotKept p t u := hcalls.keeps (I := fun a => Ordered a ∧ SlotKept p t a)
    (fun a i b hi ha => ⟨hi.1.ordered hx ha.1,
      ha.2.trans (hi.1.slotKept hp hi.2.1 ha.1.fresh hi.2.2)⟩)
    ⟨hnext.ordered hx hs, fun c hc => ⟨c, hc, rfl⟩⟩
  obtain ⟨d, hd, hmsg⟩ := hkept.2 c hc
  exact ⟨c, d, hc, hd, hmsg⟩

/-- An environment in which every descriptor is readable, and the calls at the given ticks fail. -/
def readableOracle (ticks : List Nat) : Oracle :=
  { failingOracle ticks with events := fun _ => [(5, EPOLLIN), (4, EPOLLIN)] }

/-- What leads to a message of channel 0. -/
def readableCalls : List Call :=
  [.mnetInit, .channOpen 2, .channOpen 2, .channConnect (some 0) (some 0) 80,
    .channConnect (some 1) (some 0) 80, .poll]

set_option synthInstance.maxSize 1000 in
/-- The channel is written to and closed, and a transfer on another one fails. -/
theorem message_stable_once : ∃ (t u : Sys Tls) (c d : Chann), t.heap 0 = some c ∧ u.heap 0 = some d ∧
    d.msg = c.msg ∧ c.msg.event = some .recv ∧ u.failures 1 = 1 ∧ d.state = .closed := by
  have hrun : After tlsTable readableCalls (Sys.start (readableOracle [17]) {}) fun _ s =>
      After tlsTable [.resultNext 5] s fun rs t => rs = [.msg (some 0)] ∧
        (t.heap 0).map (·.msg.event) = some (some .recv) ∧
        AfterWhere tlsTable (fun a c => c.between ∧ After tlsTable [c] a fun _ b => b.failures 0 = a.failures 0)
          [.channSend (some 0) (some [1]), .channSend (some 1) (some [1]), .channSetOpaque (some 0) 9,
            .channDisconnect (some 0), .channClose (some 0)] t
          fun u => u.failures 1 = 1 ∧ (u.heap 0).map (·.state) = some .closed := by decide +kernel
  obtain ⟨rs, s, h, hnext⟩ := hrun.run
  obtain ⟨r, t, ht, hr, hevent, hcalls⟩ := hnext.step
  obtain rfl : r = .msg (some 0) := by simpa using hr
  obtain ⟨l, u, hpath, hfail, hstate⟩ := hcalls.run
  obtain ⟨c, d, hc, hd, hmsg⟩ := message_stable obedient_tlsTable polite_tlsTable h ht (hpath.mono fun a i b hi => by
    obtain ⟨r', b', hs', hsame⟩ := hi.2.2.step
    obtain ⟨_, rfl⟩ := Returns.det hi.1 hs'
    exact ⟨hi.1, hi.2.1, hsame⟩)
  rw [hc] at hevent
  rw [hd] at hstate
  exact ⟨t, u, c, d, hc, hd, hmsg, Option.some.inj hevent, hfail, Option.some.inj hstate⟩

set_option synthInstance.maxSize 1000 in
/-- The answer to a message of the channel fails. -/
theorem not_message_stable : ¬ ∀ (o : Oracle) (l l' : List (Call × Ret)) (s t u : Sys Tls) (fuel : Nat)
    (p : ChannId), Run tlsTable (Sys.start o {}) l s → Step tlsTable s (.resultNext fuel, .msg (some p)) t →
    Path (fun a i b => Step tlsTable a i b ∧ i.1.between) t l' u →
    ∃ c d, t.heap p = some c ∧ u.heap p = some d ∧ d.msg = c.msg := by
  have hrun : After tlsTable readableCalls (Sys.start (readableOracle [16]) {}) fun _ s =>
      After tlsTable [.resultNext 5] s fun rs t => rs = [.msg (some 0)] ∧
        (t.heap 0).map (·.msg.event) = some (some .recv) ∧
        After tlsTable [.channSend (some 0) (some [1])] t fun _ u =>
          (u.heap 0).map (·.msg.event) = some (some .disconnect) := by decide +kernel
  obtain ⟨rs, s, h, hnext⟩ := hrun.run
  obtain ⟨r, t, ht, hr, hevent, hsend⟩ := hnext.step
  obtain rfl : r = .msg (some 0) := by simpa using hr
  obtain ⟨r', u, hu, hevent'⟩ := hsend.step
  intro hall
  obtain ⟨c, d, hc, hd, hmsg⟩ := hall _ _ _ s t u 5 0 h ht (.cons ⟨hu, trivial⟩ .nil)
  rw [hc, Option.map_some, Option.some.injEq] at hevent
  rw [hd, Option.map_some, Option.some.injEq, hmsg, hevent] at hevent'
  cases hevent'

end MNet
