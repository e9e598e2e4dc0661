import MNet.Tls.Filter

/-! # The user pointer of a message

It is copied from the channel when the message is produced. A report waits in the queue until it
is given out, and the message that announces an accepted TLS channel is given its listener's
name. -/

namespace MNet
open MNet.Lib MNet.Lib.Exec

section

variable {ε : Type} {s t : Sys ε} {n p : ChannId} {c d : Chann}

/-- The message names its channel and has its user pointer. -/
def Proper (n : ChannId) (msg : ChannMsg) (ptr : Nat) : Prop := msg.n = some n ∧ msg.opaquePtr = ptr

theorem fits_proper : Fits tlsTable Proper := fits_tlsTable fun _ _ _ _ _ _ => ⟨rfl, rfl⟩

/-! ## What a message says -/

@[simp] theorem returns_getOpaque_none {v : Nat} :
    Returns (mnetChannGetOpaque none : M ε Nat) s v t ↔ v = 0 ∧ t = s := returns_pure

@[simp] theorem returns_getOpaque_some {v : Nat} : Returns (mnetChannGetOpaque (some n) : M ε Nat) s v t ↔
    ∃ c, s.heap n = some c ∧ v = c.opaquePtr ∧ t = s := by
  simp only [mnetChannGetOpaque, returns_bind, returns_deref, returns_pure, and_assoc, exists_and_left,
    exists_eq_left]

/-- The message in the slot of `p` carries the user pointer of the channel it names. -/
def Own (s : Sys ε) (p : ChannId) : Prop :=
  ∃ c, s.heap p = some c ∧ Returns (mnetChannGetOpaque c.msg.n) s c.msg.opaquePtr s

theorem Proper.own (hc : s.heap n = some c) (h : Proper n c.msg c.opaquePtr) : Own s n := by
  refine ⟨c, hc, ?_⟩
  rw [h.1, returns_getOpaque_some]
  exact ⟨c, hc, h.2, rfl⟩

/-- The user pointers of the channels there are stay. -/
def Pointing (s t : Sys ε) : Prop :=
  ∀ n c, s.heap n = some c → ∃ d, t.heap n = some d ∧ d.opaquePtr = c.opaquePtr

theorem Pointing.trans {a : Sys ε} (h : Pointing s a) (h' : Pointing a t) : Pointing s t := by
  intro n c hc
  obtain ⟨d, hd, hptr⟩ := h n c hc
  obtain ⟨e, he, hptr'⟩ := h' n d hd
  exact ⟨e, he, hptr'.trans hptr⟩

theorem Pointing.getOpaque {q : Option ChannId} {v : Nat} (h : Pointing s t)
    (hv : Returns (mnetChannGetOpaque q) s v s) : Returns (mnetChannGetOpaque q) t v t := by
  cases q with
  | none => exact returns_getOpaque_none.mpr ⟨(returns_getOpaque_none.mp hv).1, rfl⟩
  | some n =>
    obtain ⟨c, hc, rfl, _⟩ := returns_getOpaque_some.mp hv
    obtain ⟨d, hd, hptr⟩ := h n c hc
    exact returns_getOpaque_some.mpr ⟨d, hd, hptr.symm, rfl⟩

theorem Discreet.pointing (hs : Fresh s) (h : Discreet False s t) : Pointing s t := by
  intro n c hc
  obtain ⟨d, hd, hshown⟩ := h.stays (hs.lt hc) hc
  exact ⟨d, hd, congrArg (·.2.1) hshown⟩

theorem pointing_update (hc : s.heap n = some c) (hd : d.opaquePtr = c.opaquePtr)
    (hheap : t.heap = Function.update s.heap n (some d)) : Pointing s t := by
  intro m e he
  rw [hheap]
  by_cases hm : m = n
  · rw [hm, hc, Option.some.injEq] at he
    rw [hm, Function.update_self, ← he]
    exact ⟨d, rfl, hd⟩
  · rw [Function.update_of_ne hm]
    exact ⟨e, he, rfl⟩

/-- A message that is left alone goes on to say so. -/
theorem Own.discreet (hs : Fresh s) (h : Discreet False s t) (ho : Own s p) : Own t p := by
  obtain ⟨c, hc, hown⟩ := ho
  obtain ⟨d, hd, hshown⟩ := h.stays (hs.lt hc) hc
  have hmsg : d.msg = c.msg := congrArg (·.1) hshown
  refine ⟨d, hd, ?_⟩
  rw [hmsg]
  exact (h.pointing hs).getOpaque hown

end

/-! ## A round of the loop -/

variable {s t : Sys Tls} {n p : ChannId} {c : Chann}

/-- The channel of the record has the user pointer of its listener, when it is an accepted TLS
channel and the handshake ends with this record. -/
def Matched (u : Sys Tls) (kev : Kev) : Prop :=
  ∀ n c d, kev.ptr = some n → u.heap n = some c → c.ctype = CHANN_TYPE_TLS →
    u.mnet.reserved c.ctype = true → c.extUd ≠ 0 → u.ext.uds c.extUd = some d → d.state = .listening →
    (∃ p t i err, Returns (evtDispatch tlsTable kev) u p t ∧
      t.ext.log = .handshake i .accept 1 err :: u.ext.log) →
    Returns (mnetChannGetOpaque d.ln) u c.opaquePtr u

/-- The slot as it was filled, with its event changed or not. -/
theorem Own.filled {msg : ChannMsg} (hs : Fresh s)
    (hn : msg.n = some n) (hp : msg.opaquePtr = c.opaquePtr) (hc : s.heap n = some { c with msg := msg })
    (h : Discreet False s t) : Own t n := (Proper.own hc ⟨hn, hp⟩).discreet hs h

/-- A message, when it is given out, has the user pointer of the channel it names. -/
theorem emit_own {event : ChannEvent} {q : Option ChannId} {err : Int} {p : Pass} (hs : Fresh s)
    (hann : event = .connected ∨ event = .recv → ∀ c d, s.heap n = some c → c.ctype = CHANN_TYPE_TLS →
      s.mnet.reserved c.ctype = true → c.extUd ≠ 0 → s.ext.uds c.extUd = some d → d.state = .listening →
      (∃ i err, t.ext.log = .handshake i .accept 1 err :: s.ext.log) →
      Returns (mnetChannGetOpaque d.ln) s c.opaquePtr s)
    (h : Returns (emit tlsTable n event q err) s p t) : ∀ m, p = .ret (some m) → Own t m := by
  obtain ⟨pass, a, hmsg, h⟩ := returns_bind.mp h
  obtain ⟨hr, rfl⟩ := returns_pure.mp h
  obtain ⟨c, d, hc, rfl, hfil, haccept, hplain⟩ := channMsg_filtered hmsg
  have hset := hs.set hc { c with msg := msgOf n c event q err }
  have hslot : (s.setChann n { c with msg := msgOf n c event q err }).heap n =
      some { c with msg := msgOf n c event q err } := Function.update_self ..
  have hall : pass = true → Own t n := by
    intro hpass
    by_cases hev : event = .connected ∨ event = .recv
    swap
    · -- every filter lets it pass, or hides it
      obtain ⟨hno, hno'⟩ := not_or.mp hev
      have hst : Discreet False (s.setChann n { c with msg := msgOf n c event q err }) t := by
        by_cases hacc : event = .accept
        · exact haccept hacc
        · rw [(hplain hacc hno hno').2]
          exact .refl _
      exact .filled hset rfl rfl hslot hst
    cases hfil with
    | left hst => exact .filled hset rfl rfl hslot hst
    | renamed _ ha hca hst => exact .filled ((ha.fresh hset).set hca _) rfl rfl (Function.update_self ..) hst
    | @announced a d i err' e _ ha hca hty hres hud hd hst hlog ht =>
      have hown := hann hev c d hc hty hres hud hd hst ⟨i, err', by rw [ht]; exact hlog⟩
      subst ht
      refine ⟨_, Function.update_self .., ?_⟩
      -- the pointers are as they were before the slot was filled
      have hp : Pointing s ((a.setChann n { c with
          msg := { msgOf n c event q err with event := some .accept, r := some n, n := d.ln } }).withExt e) := by
        refine Pointing.trans (pointing_update hc ?_ rfl) ((ha.pointing hset).trans (pointing_update hca ?_ rfl))
        · rfl
        · rfl
      exact hp.getOpaque hown
  intro m hm
  rw [hr] at hm
  cases pass with
  | true =>
    cases hm
    exact hall rfl
  | false => cases hm

/-- What a round gives out has the user pointer of the channel it names. -/
theorem evtPass_own {fuel : Nat} {p : Pass} (hf : Filed Proper s)
    (hm : ∀ u kev, Fetches tlsTable fuel s u kev → Matched u kev) (h : Returns (evtPass tlsTable fuel) s p t) :
    ∀ q, p = .ret (some q) → Own t q := by
  intro q hq
  obtain ⟨n, rfl, htm⟩ | ⟨n, a, rfl, htm, hdis⟩ | ⟨a, rfl, _⟩ | ⟨u, kev, hfetch, hdisp⟩ := evtPass_cases h
  · cases hq
    obtain ⟨hno, _⟩ | ⟨m, v, hq, hv, hmsg⟩ := polite_tlsTable.tmNext_emits htm
    · cases hno
    cases hq
    obtain ⟨c, d, hc, rfl, _, _, hplain⟩ := channMsg_filtered hmsg
    obtain ⟨_, rfl⟩ := hplain (by simp) (by simp) (by simp)
    exact Proper.own (Function.update_self ..) ⟨rfl, rfl⟩
  · cases hq
    obtain ⟨c, hc, hp⟩ := ((hf.quiet polite_tlsTable htm).pop hdis).2 q rfl
    exact hp.own hc
  · cases hq
  have hfu := hf.fetched polite_tlsTable hfetch
  obtain ⟨rfl, _⟩ | ⟨n, c, v, event, r, err, hn, hc, hfaults, hemit, _, _, hstill⟩ := polite_tlsTable.evtDispatch_emits hdisp
  · cases hq
  refine emit_own (polite_tlsTable.faults_fresh hfaults hfu.fresh) (fun hev c' e hc' hty' hres hne he hst ⟨i, err', hlog⟩ => ?_) hemit q hq
  obtain ⟨huv, _, hext, hmnet, _, _, d, hd, hty, hud, _⟩ := hstill hev
  rw [hd, Option.some.injEq] at hc'
  subst hc'
  -- the channel is the one the record is of
  obtain ⟨d', hd', hshown⟩ := huv.stays (hfu.fresh.lt hc) hc
  rw [hd, Option.some.injEq] at hd'
  subst hd'
  have hptr : d.opaquePtr = c.opaquePtr := congrArg (·.2.1) hshown
  rw [hty] at hty' hres
  rw [hud] at hne he
  rw [hext] at he hlog
  rw [hmnet] at hres
  rw [hptr]
  exact (huv.pointing hfu.fresh).getOpaque
    (hm u kev hfetch n c e hn hc hty' hres hne he hst ⟨p, t, i, err', hdisp, hlog⟩)

/-- Every record the loop may come to is of a channel that has the user pointer of its listener. -/
def AllMatched (fuel : Nat) (s : Sys Tls) : Prop :=
  ∀ a u kev, Rounds tlsTable fuel s a → Fetches tlsTable fuel a u kev → Matched u kev

theorem evtLoop_own {fuel rounds : Nat} {q : Option ChannId} (hf : Filed Proper s) (hm : AllMatched fuel s)
    (h : Returns (evtLoop tlsTable fuel rounds) s q t) : ∀ p, q = some p → Own t p := by
  obtain ⟨a, ha, hret⟩ := evtLoop_rounds h
  have hfa : Filed Proper a := ha.keeps hf fun b c hfb hpass => evtPass_filed polite_tlsTable fits_proper hfb hpass
  exact fun p hp => evtPass_own hfa (hm a · · ha) hret p (by rw [hp])

/-! ## Runs -/

/-- The user pointer of a channel is left alone while a report of it waits. -/
def Suits (s : Sys Tls) : Call → Prop
  | .channSetOpaque (some n) p => Waiting s n → ∀ c, s.heap n = some c → c.opaquePtr = p
  | .channClose (some n) => Waiting s n → ∀ c, s.heap n = some c → c.state ≠ .closed → c.opaquePtr = 0
  | .resultNext fuel => AllMatched fuel s
  | _ => True

theorem Suits.reports {call : Call} (hf : Filed Proper s) (h : Suits s call) : SuitsReports Proper s call := by
  have hwas : ∀ {n : ChannId} {c : Chann} {p : Nat}, Waiting s n → s.heap n = some c → c.opaquePtr = p →
      Proper n c.msg p := by
    intro n c p hw hc hp
    obtain ⟨hn, hptr⟩ := (hf.waiting n hw).2 c hc
    exact ⟨hn, hptr.trans hp⟩
  cases call with
  | channSetOpaque n p =>
    cases n with
    | none => trivial
    | some n => exact fun hw c hc => hwas hw hc (h hw c hc)
  | channClose n =>
    cases n with
    | none => trivial
    | some n => exact fun hw c hc hst => hwas hw hc (h hw c hc hst)
  | _ => trivial

/-- A report that waits is given out before any record is looked at. -/
theorem allMatched_queued {fuel : Nat} (hd : s.mnet.disChanns = some n) : AllMatched fuel s := by
  have hno : ∀ {u : Sys Tls} {kev : Kev}, ¬ Fetches tlsTable fuel s u kev := by
    intro u kev hfetch
    obtain ⟨a, htm, hnone, _⟩ := hfetch.quiet
    obtain ⟨_, ha⟩ | ⟨_, _, hsome, _⟩ := polite_tlsTable.tmNext_emits htm
    · rw [ha.disChanns, hd] at hnone
      cases hnone
    · cases hsome
  intro a u kev ha hfetch
  cases ha using Relation.ReflTransGen.head_induction_on with
  | refl => exact absurd hfetch hno
  | head hpass _ =>
    obtain ⟨_, hret, _⟩ | ⟨_, _, hret, _⟩ | ⟨_, hret, _⟩ | ⟨_, _, hfetch', _⟩ := evtPass_cases hpass
    · cases hret
    · cases hret
    · cases hret
    · exact absurd hfetch' hno

/-- If no user pointer is changed while a report of its channel waits, and every TLS handshake is
finished with the pointer of the listener, a message carries the pointer of its channel. -/
theorem message_opaque {o : Oracle} {e : Tls} {l : List (Call × Ret)} {fuel : Nat}
    (h : RunWhere tlsTable Suits (Sys.start o e) l s) (hs : Suits s (.resultNext fuel))
    (hnext : Step tlsTable s (.resultNext fuel, .msg (some p)) t) : Own t p := by
  have hinv : Ordered s ∧ Filed Proper s := Path.keeps (I := fun s => Ordered s ∧ Filed Proper s) h
    (fun _ _ _ hs hb => ⟨hs.1.ordered obedient_tlsTable hb.1,
      hs.1.filed polite_tlsTable obedient_tlsTable fits_proper (hs.2.reports hb.2) hb.1 hb.2⟩) ⟨ordered_start o e, filed_start o e⟩
  obtain ⟨q, hq, hloop⟩ := returns_ret.mp hnext
  cases hq
  exact evtLoop_own hinv.2 hs hloop p rfl

/-- The calls that set a connection up, and a transfer. -/
def Call.keepsOpaque (queue : Option ChannId) : Call → Prop
  | .mnetInit | .channOpen _ | .channConnect .. | .channSend .. => True
  | .channSetOpaque .. => queue = none
  | _ => False

instance (queue : Option ChannId) : (c : Call) → Decidable (c.keepsOpaque queue)
  | .mnetInit | .channOpen _ | .channConnect .. | .channSend .. => instDecidableTrue
  | .channSetOpaque .. => inferInstanceAs (Decidable (queue = none))
  | .mnetFini | .multiAcceptBalancer .. | .multiResetEvent | .extRegister .. | .poll |
    .resultNext .. | .channClose .. | .channDisconnect .. | .channListen .. |
    .channActiveEvent .. | .channRecv .. | .dgramRecv .. | .dgramSend .. |
    .socketSetBufsize .. => instDecidableFalse

theorem Call.keepsOpaque.suits {call : Call} (h : call.keepsOpaque s.mnet.disChanns) : Suits s call := by
  cases call with
  | channSetOpaque m q =>
    have hnone : s.mnet.disChanns = none := h
    cases m with
    | none => trivial
    | some m =>
      rintro ⟨a, ha, _⟩
      rw [hnone] at ha
      cases ha
  | mnetInit | channOpen | channConnect | channSend => trivial
  | _ => exact h.elim

set_option synthInstance.maxSize 1000 in
/-- A channel is given its pointer, a transfer on it fails, and the report carries the pointer. -/
theorem message_opaque_once : ∃ t : Sys Tls, Own t 0 ∧
    (t.heap 0).map (fun c => (c.msg.event, c.msg.n, c.msg.opaquePtr)) = some (some .disconnect, some 0, 7) := by
  have hrun : AfterWhere tlsTable (fun s c => c.keepsOpaque s.mnet.disChanns)
      [.mnetInit, .channOpen 2, .channConnect (some 0) (some 0) 80, .channSetOpaque (some 0) 7,
        .channSend (some 0) (some [1])] (Sys.start (failingOracle [8]) {})
      fun s => s.mnet.disChanns = some 0 ∧ After tlsTable [.resultNext 5] s fun rs t => rs = [.msg (some 0)] ∧
        (t.heap 0).map (fun c => (c.msg.event, c.msg.n, c.msg.opaquePtr)) =
          some (some .disconnect, some 0, 7) := by
    decide +kernel
  obtain ⟨l, s, h, hdis, hnext⟩ := hrun.run
  obtain ⟨r, t, ht, hr, hmsg⟩ := hnext.step
  obtain rfl : r = .msg (some 0) := by simpa using hr
  exact ⟨t, message_opaque (h.mono fun _ _ _ hs => ⟨hs.1, hs.2.suits⟩) (allMatched_queued hdis) ht, hmsg⟩

set_option synthInstance.maxSize 1000 in
/-- The pointer is changed while the report waits. -/
theorem not_message_opaque : ¬ ∀ (o : Oracle) (l : List (Call × Ret)) (s t : Sys Tls) (fuel : Nat) (p : ChannId),
    Run tlsTable (Sys.start o {}) l s → Step tlsTable s (.resultNext fuel, .msg (some p)) t → Own t p := by
  have hrun : After tlsTable [.mnetInit, .channOpen 2, .channConnect (some 0) (some 0) 80,
      .channSetOpaque (some 0) 7, .channSend (some 0) (some [1]), .channSetOpaque (some 0) 8]
      (Sys.start (failingOracle [8]) {}) fun _ s => After tlsTable [.resultNext 5] s fun rs t =>
        rs = [.msg (some 0)] ∧ (t.heap 0).map (fun c => (c.msg.n, c.msg.opaquePtr, c.opaquePtr)) =
          some (some 0, 7, 8) := by
    decide +kernel
  obtain ⟨rs, s, h, hnext⟩ := hrun.run
  obtain ⟨r, t, ht, hr, hmsg⟩ := hnext.step
  obtain rfl : r = .msg (some 0) := by simpa using hr
  obtain ⟨c, hc, hmsg⟩ := Option.map_eq_some_iff.mp hmsg
  simp only [Prod.mk.injEq] at hmsg
  obtain ⟨hn, hp, hq⟩ := hmsg
  intro hall
  obtain ⟨d, hd, hown⟩ := hall _ _ s t 5 0 h ht
  rw [hc, Option.some.injEq] at hd
  subst hd
  rw [hn, hp, returns_getOpaque_some] at hown
  obtain ⟨e, he, h7, _⟩ := hown
  rw [hc, Option.some.injEq] at he
  rw [← he, hq] at h7
  omega

end MNet
