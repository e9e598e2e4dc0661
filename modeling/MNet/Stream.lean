import MNet.Core.Run

/-! # Outgoing streams

From when a stream channel becomes CONNECTED until it leaves that state, the bytes its
socket took and those still cached are the buffers of the accepted sends, in order. A write
appends its data, a flush moves bytes from the cache to the socket, and no other act does
anything to either. -/

namespace MNet
open MNet.Lib MNet.Lib.Exec

/-- `n` is a connected stream, and its socket and cache together hold `w`. -/
def Core.Stream (k : Core) (n : ChannId) (w : List UInt8) : Prop :=
  ∃ c i, k.heap n = some c ∧ c.state = .connected ∧ c.ctype = CHANN_TYPE_STREAM ∧
    k.socks c.fd = some i ∧ k.wire i ++ unsent c.rwbSend = w

/-- `n` has no socket, and is not to be allocated again. -/
def Core.Offline (k : Core) (n : ChannId) : Prop :=
  n < k.nextChann ∧ ∀ c, k.heap n = some c → ¬ c.state.active

section Socket

variable {k k' : Core} {a : Act} {n m : ChannId} {c d : CChann} {fd : Int} {i : SockId}
  {bytes : List UInt8}

theorem Core.onWire_wire (h : c.ctype = CHANN_TYPE_STREAM) (hs : k.socks c.fd = some i) :
    (k.onWire c bytes).wire i = k.wire i ++ bytes := by
  unfold Core.onWire
  rw [if_pos h, hs]
  exact Function.update_self ..

/-- Bytes on the wire of another channel. -/
theorem Base.onWire_of_ne (hb : Base k) (hn : k.heap n = some c) (ha : c.state.active)
    (hs : k.socks c.fd = some i) (hm : k.heap m = some d) (hda : d.state.active) (hne : m ≠ n) :
    (k.onWire d bytes).wire i = k.wire i := by
  unfold Core.onWire
  split
  · split
    · rename_i j hj
      have hij : i ≠ j := by
        rintro rfl
        exact hne (hb.own.inj m n d c hm hn hda ha (hb.own.sid _ _ _ hj hs))
      exact Function.update_of_ne hij ..
    · rfl
  · rfl

/-- The socket of a channel is its own until it disconnects. -/
theorem CStep.keeps_sock (hs : CStep k a k') (hb : Base k) (hn : k.heap n = some c)
    (ha : c.state.active) (hi : k.socks c.fd = some i) (hne : a ≠ .disconnect n) :
    k'.socks c.fd = some i := by
  have hopen : ∀ {fd}, k.socks fd = none → c.fd ≠ fd := by
    rintro fd hfd rfl
    rw [hfd] at hi
    cases hi
  cases hs with
  | accept hm hpos hfd | leak hpos hfd | attach hm hst hpos hfd | refuse hm hst hpos hfd =>
    exact (Function.update_of_ne (hopen hfd) ..).trans hi
  | bounce hpos hfd =>
    exact (Function.update_of_ne (hopen hfd) ..).trans
      ((Function.update_of_ne (hopen hfd) ..).trans hi)
  | @disconnect m d hm hpos hact =>
    have hfd : c.fd ≠ d.fd := fun e => hne (by rw [hb.own.inj n m c d hn hm ha hact e])
    exact (Function.update_of_ne hfd ..).trans hi
  | write | flush => exact (congrFun (Core.onWire_socks ..) _).trans hi
  | slot => exact hi
  | create | established | close | destroy | watch | unwatch | rewatch | mute | forget | openQueue
  | closeQueue | sendFlag | report | deliver | arm | rearm | disarm | fire | schedule | park
  | batch | noBatch | consume | reaped | boot | shutdown => exact hi

/-- What the socket of a channel took changes only when the channel writes or flushes. -/
theorem CStep.keeps_wire (hs : CStep k a k') (hb : Base k) (hn : k.heap n = some c)
    (ha : c.state.active) (hi : k.socks c.fd = some i) (hw : ∀ data j, a ≠ .write n data j)
    (hf : ∀ j, a ≠ .flush n j) : k'.wire i = k.wire i := by
  cases hs with
  | @write m d data j hm hst =>
    have hne : m ≠ n := fun e => hw data j (by rw [e])
    exact hb.onWire_of_ne hn ha hi hm (ChannState.active_of_connected hst) hne
  | @flush m d j hm hst =>
    have hne : m ≠ n := fun e => hf j (by rw [e])
    exact hb.onWire_of_ne hn ha hi hm (by rw [hst]; trivial) hne
  | slot => rfl
  | create | accept | leak | bounce | attach | refuse | established | disconnect | close
  | destroy | watch | unwatch | rewatch | mute | forget | openQueue | closeQueue | sendFlag | report
  | deliver | arm | rearm | disarm | fire | schedule | park | batch | noBatch | consume
  | reaped | boot | shutdown => rfl

end Socket

/-! ## One act -/

section Act

variable {k k' : Core} {a : Act} {n : ChannId} {c : CChann} {w : List UInt8} {data : List UInt8}

/-- A write appends its data. -/
theorem CStep.stream_write {i : Nat} (hs : CStep k (.write n data i) k') (h : k.Stream n w) :
    k'.Stream n (w ++ data) := by
  obtain ⟨c, j, hn, hst, hty, hsock, rfl⟩ := h
  cases hs with
  | write hn' hst' hd hi hc =>
    rw [hn] at hn'
    cases hn'
    refine ⟨_, j, Function.update_self .., hst, hty, (congrFun (Core.onWire_socks ..) _).trans hsock, ?_⟩
    have hwire : (k.onWire c (data.take i)).wire j = k.wire j ++ data.take i :=
      Core.onWire_wire hty hsock
    change (k.onWire c (data.take i)).wire j ++ unsent (if i < data.length then _ else _) = _
    rw [hwire]
    have hcache : unsent (if i < data.length then rwbCache c.rwbSend (data.drop i) else c.rwbSend) =
        unsent c.rwbSend ++ data.drop i := by
      split
      · exact unsent_rwbCache _ _
      · rw [List.drop_eq_nil_of_le (by omega), List.append_nil]
    rw [hcache]
    -- nothing overtakes what is cached: then the socket was offered nothing
    rcases hc with hc | rfl
    · simp [hc]
    · simp

/-- A flush moves bytes from the front of the cache to the socket. -/
theorem CStep.stream_flush {i : Nat} (hs : CStep k (.flush n i) k') (h : k.Stream n w) :
    k'.Stream n w := by
  obtain ⟨c, j, hn, hst, hty, hsock, rfl⟩ := h
  cases hs with
  | flush hn' hst' hne hi =>
    rw [hn] at hn'
    cases hn'
    refine ⟨_, j, Function.update_self .., hst, hty, (congrFun (Core.onWire_socks ..) _).trans hsock, ?_⟩
    have hwire : (k.onWire c ((rwbDrainParam c.rwbSend).take i)).wire j =
        k.wire j ++ (rwbDrainParam c.rwbSend).take i := Core.onWire_wire hty hsock
    change (k.onWire c ((rwbDrainParam c.rwbSend).take i)).wire j ++ unsent (rwbDrain c.rwbSend i) = _
    rw [hwire, unsent_rwbDrain, List.append_assoc]
    have hfront : (rwbDrainParam c.rwbSend).take i = (unsent c.rwbSend).take i :=
      take_rwbDrainParam (hi hty)
    rw [hfront, List.take_append_drop]

/-- Another act leaves a stream alone, or disconnects it. -/
theorem CStep.stream_keep (hs : CStep k a k') (hb : Base k) (hw : ∀ data i, a ≠ .write n data i)
    (h : k.Stream n w) : k'.Stream n w ∨ k'.Offline n := by
  by_cases hf : ∃ i, a = .flush n i
  · obtain ⟨i, rfl⟩ := hf
    exact .inl (hs.stream_flush h)
  obtain ⟨c, j, hn, hst, hty, hsock, rfl⟩ := h
  have hact : c.state.active := by rw [hst]; trivial
  have hwire := hs.keeps_wire hb hn hact hsock hw fun i e => hf ⟨i, e⟩
  obtain ⟨_, hcl, _⟩ | ⟨c', hc', ht⟩ := hs.at hb hn
  · rw [hst] at hcl
    cases hcl
  have hgo : a ≠ .disconnect n → c'.state = .connected → c'.ctype = c.ctype → c'.fd = c.fd →
      c'.rwbSend = c.rwbSend → k'.Stream n (k.wire j ++ unsent c.rwbSend) := by
    intro hne hst' hty' hfd hr
    refine ⟨c', j, hc', hst', hty'.trans hty, ?_, by rw [hwire, hr]⟩
    rw [hfd]
    exact hs.keeps_sock hb hn hact hsock hne
  cases ht with
  | links htar => exact .inl (hgo (by rintro rfl; exact htar rfl) hst rfl rfl rfl)
  | attach hd | refuse hd | established hd | close hd =>
    rw [hst] at hd
    cases hd
  | disconnect =>
    refine .inr ⟨Nat.lt_of_lt_of_le (hb.reg.lt n (by simp [hn])) hs.nextChann_le, fun d hd => ?_⟩
    rw [hc'] at hd
    cases hd
    exact id
  | interest hi =>
    refine .inl (hgo ?_ hst rfl rfl rfl)
    rintro rfl
    simp at hi
  | write => exact absurd rfl (hw _ _)
  | flush => exact absurd ⟨_, rfl⟩ hf
  | sendFlag | slot => exact .inl (hgo (by simp) hst rfl rfl rfl)
  | report hno => exact absurd hact hno
  | timer hi =>
    refine .inl (hgo ?_ hst rfl rfl rfl)
    rintro rfl
    simp at hi

/-- A channel without a socket gets none but by connecting and listening. -/
theorem CStep.offline (hs : CStep k a k') (hb : Base k) (hatt : ∀ fd st, a ≠ .attach n fd st)
    (h : k.Offline n) : k'.Offline n := by
  obtain ⟨hlt, hidle⟩ := h
  refine ⟨Nat.lt_of_lt_of_le hlt hs.nextChann_le, fun d hd => ?_⟩
  cases hn : k.heap n with
  | none =>
    obtain ⟨he, _⟩ := hs.appears hb hn hd
    exact absurd hlt (he ▸ Nat.lt_irrefl _)
  | some c =>
    have hno := hidle c hn
    obtain ⟨_, _, hnone⟩ | ⟨c', hc', ht⟩ := hs.at hb hn
    · rw [hnone] at hd
      cases hd
    · rw [hd] at hc'
      cases hc'
      cases ht with
      | attach => exact absurd rfl (hatt _ _)
      | established hst | flush hst =>
        rw [hst] at hno
        exact absurd trivial hno
      | disconnect hact => exact absurd hact hno
      | close => exact id
      | write hst => exact absurd (ChannState.active_of_connected hst) hno
      | _ => exact hno

end Act

/-! ## The start of a stream -/

/-- Sockets to come, and those of connections in progress, have taken nothing. -/
structure Core.Pristine (k : Core) : Prop where
  fresh : ∀ i, k.nextSock ≤ i → k.wire i = []
  connecting : ∀ n c i, k.heap n = some c → c.state = .connecting → k.socks c.fd = some i →
    k.wire i = []

section Start

variable {k k' : Core} {a : Act} {n : ChannId} {c : CChann} {fd : Int} {st : ChannState}

theorem CStep.attach_sock (hs : CStep k (.attach n fd st) k') :
    k'.socks fd = some k.nextSock ∧ k'.wire = k.wire := by
  cases hs with
  | attach => exact ⟨Function.update_self .., rfl⟩

/-- Bytes go on the wires of open sockets only. -/
theorem CStep.wire_fresh (hs : CStep k a k') (hb : Base k) {i : SockId} (hi : k.nextSock ≤ i) :
    k.nextSock ≤ k'.nextSock ∧ k'.wire i = k.wire i := by
  have hwire : ∀ c bytes, (k.onWire c bytes).nextSock = k.nextSock ∧
      (k.onWire c bytes).wire i = k.wire i := by
    intro c bytes
    unfold Core.onWire
    split
    · split
      · rename_i j hj
        have hne : i ≠ j := fun e => absurd (hb.own.lt _ _ hj) (Nat.not_lt.mpr (e ▸ hi))
        exact ⟨rfl, Function.update_of_ne hne ..⟩
      · exact ⟨rfl, rfl⟩
    · exact ⟨rfl, rfl⟩
  cases hs with
  | accept | leak | bounce | attach | refuse => exact ⟨Nat.le_succ _, rfl⟩
  | write | flush => exact ⟨Nat.le_of_eq (hwire _ _).1.symm, (hwire _ _).2⟩
  | _ => exact ⟨Nat.le_refl _, rfl⟩

theorem CStep.pristine (hs : CStep k a k') (hb : Base k) (h : k.Pristine) : k'.Pristine := by
  refine ⟨fun i hi => ?_, fun n d i hd hst hi => ?_⟩
  · have hle := Nat.le_trans (hs.wire_fresh hb (Nat.le_refl _)).1 hi
    rw [(hs.wire_fresh hb hle).2]
    exact h.fresh i hle
  cases hn : k.heap n with
  | none =>
    obtain ⟨_, ⟨_, _, rfl⟩ | ⟨_, _, _, _, _, _, _, _, rfl⟩⟩ := hs.appears hb hn hd <;> cases hst
  | some c =>
    obtain ⟨_, _, hnone⟩ | ⟨c', hc', ht⟩ := hs.at hb hn
    · rw [hnone] at hd
      cases hd
    rw [hd] at hc'
    cases hc'
    have hgo : c.state = .connecting → d.fd = c.fd → a ≠ .disconnect n →
        (∀ data j, a ≠ .write n data j) → (∀ j, a ≠ .flush n j) → k'.wire i = [] := by
      intro hst hfd hdis hw hf
      have hact : c.state.active := by rw [hst]; trivial
      obtain ⟨j, hj⟩ := Option.ne_none_iff_exists'.mp (hb.own.opened n c hn hact).2
      have hkeep := hs.keeps_sock hb hn hact hj hdis
      rw [hfd, hkeep] at hi
      rw [← Option.some.inj hi, hs.keeps_wire hb hn hact hj hw hf]
      exact h.connecting n c j hn hst hj
    cases ht with
    | attach =>
      obtain ⟨hsock, hwire⟩ := hs.attach_sock
      rw [hsock] at hi
      cases hi
      rw [hwire]
      exact h.fresh _ (Nat.le_refl _)
    | established | disconnect | close => cases hst
    | write hle =>
      have hst' : c.state = .connecting := hst
      rw [hst'] at hle
      exact absurd hle (by decide)
    | flush hcon =>
      have hst' : c.state = .connecting := hst
      rw [hst'] at hcon
      cases hcon
    | refuse hdis =>
      have hst' : c.state = .connecting := hst
      rw [hst'] at hdis
      cases hdis
    | report hno =>
      have hst' : c.state = .connecting := hst
      rw [hst'] at hno
      exact absurd trivial hno
    | links htar =>
      refine hgo hst rfl ?_ ?_ ?_ <;> intros <;> rintro rfl <;> exact htar rfl
    | interest hi | timer hi => refine hgo hst rfl ?_ ?_ ?_ <;> intros <;> rintro rfl <;> simp at hi
    | sendFlag | slot => exact hgo hst rfl (by simp) (by simp) (by simp)

/-- Nothing of `n` was sent yet, if it is a connected stream. -/
def Core.Unsent (k : Core) (n : ChannId) : Prop :=
  ∀ c, k.heap n = some c → c.state = .connected → c.ctype = CHANN_TYPE_STREAM → k.Stream n []

theorem CStep.unsent (hs : CStep k a k') (hb : Base k) (hp : k.Pristine)
    (hw : ∀ data i, a ≠ .write n data i) (h : k.Unsent n) : k'.Unsent n := by
  intro d hd hst hty
  cases hn : k.heap n with
  | none =>
    obtain ⟨_, ⟨_, _, rfl⟩ | ⟨fd, _, _, _, _, hsock, hwire, _, rfl⟩⟩ := hs.appears hb hn hd
    · cases hst
    · refine ⟨_, _, hd, rfl, hty, hsock, ?_⟩
      rw [hwire, hp.fresh _ (Nat.le_refl _)]
      rfl
  | some c =>
    by_cases hcon : c.state = .connected
    · obtain ⟨c', hc', htyc⟩ : ∃ c', k'.heap n = some c' ∧ c'.ctype = c.ctype := by
        refine hs.same_type hb ?_ hn
        rintro rfl
        cases hs with
        | destroy hn' hcl =>
          rw [hn] at hn'
          cases hn'
          rw [hcon] at hcl
          cases hcl
      rw [hd] at hc'
      cases hc'
      rcases hs.stream_keep hb hw (h c hn hcon (htyc ▸ hty)) with hk | hoff
      · exact hk
      · exact absurd (by rw [hst]; trivial) (hoff.2 d hd)
    · obtain ⟨_, _, hnone⟩ | ⟨c', hc', ht⟩ := hs.at hb hn
      · rw [hnone] at hd
        cases hd
      rw [hd] at hc'
      cases hc'
      cases ht with
      | attach hdis =>
        obtain ⟨hsock, hwire⟩ := hs.attach_sock
        have hnil := (hb.cache n c hn).2 (by rw [hdis]; decide)
        refine ⟨_, _, hd, hst, hty, hsock, ?_⟩
        rw [hwire, hp.fresh _ (Nat.le_refl _), hnil]
        rfl
      | established hcon' =>
        have hact : c.state.active := by rw [hcon']; trivial
        obtain ⟨j, hj⟩ := Option.ne_none_iff_exists'.mp (hb.own.opened n c hn hact).2
        have hnil := (hb.cache n c hn).2 (by rw [hcon']; decide)
        have hsock := hs.keeps_sock hb hn hact hj (by simp)
        refine ⟨_, j, hd, rfl, hty, hsock, ?_⟩
        rw [hs.keeps_wire hb hn hact hj (by simp) (by simp), hp.connecting n c j hn hcon' hj, hnil]
        rfl
      | disconnect | close => cases hst
      | _ => exact absurd hst hcon

/-- A channel becomes a connected stream in three ways. -/
theorem CStep.stays_down (hs : CStep k a k') (hb : Base k) (hatt : ∀ fd st, a ≠ .attach n fd st)
    (hest : a ≠ .established n) (hacc : ∀ fd, a ≠ .accept n fd)
    (h : ∀ c, k.heap n = some c → c.state = .connected → c.ctype ≠ CHANN_TYPE_STREAM) :
    ∀ c, k'.heap n = some c → c.state = .connected → c.ctype ≠ CHANN_TYPE_STREAM := by
  intro d hd hst
  cases hn : k.heap n with
  | none =>
    obtain ⟨_, ⟨_, _, rfl⟩ | ⟨_, _, _, he, _⟩⟩ := hs.appears hb hn hd
    · cases hst
    · exact absurd he (hacc _)
  | some c =>
    obtain ⟨_, _, hnone⟩ | ⟨c', hc', ht⟩ := hs.at hb hn
    · rw [hnone] at hd
      cases hd
    rw [hd] at hc'
    cases hc'
    cases ht with
    | attach => exact absurd rfl (hatt _ _)
    | established => exact absurd rfl hest
    | disconnect | close => cases hst
    | _ => exact h c hn hst

end Start

/-! ## Calls -/

variable {ε : Type} {x : ExtTable ε} {s t : Sys ε} {n : ChannId} {w : List UInt8}

/-- `n` is a connected stream channel. -/
def Sys.Connected (s : Sys ε) (n : ChannId) : Prop :=
  ∃ c, s.heap n = some c ∧ c.state = .connected ∧ c.ctype = CHANN_TYPE_STREAM

theorem Sys.Connected.online (h : s.Connected n) : ¬ s.core.Offline n := by
  obtain ⟨c, hc, hst, _⟩ := h
  intro hoff
  refine hoff.2 c.core (core_heap_some hc) ?_
  rw [Chann.core, hst]
  trivial

theorem Steps.stream_keep {A : Set Act} {k k' : Core} (h : Steps A k k') (hb : Base k)
    (hw : ∀ data i, .write n data i ∉ A) (hatt : ∀ fd st, .attach n fd st ∉ A)
    (hk : k.Stream n w) : k'.Stream n w ∨ k'.Offline n := by
  refine (h.keeps (I := fun k => Base k ∧ (k.Stream n w ∨ k.Offline n)) ?_ ⟨hb, .inl hk⟩).2
  rintro a k k' ha hs ⟨hb, hk | hoff⟩
  · exact ⟨hb.step hs, hs.stream_keep hb (fun data i e => hw data i (e ▸ ha)) hk⟩
  · exact ⟨hb.step hs, .inr (hs.offline hb (fun fd st e => hatt fd st (e ▸ ha)) hoff)⟩

/-- The data of a send that was accepted. -/
def accepted (n : ChannId) : Call × Ret → List UInt8
  | (.channSend m buf, .int r) => if m = some n ∧ 0 < r then buf.getD [] else []
  | _ => []

/-- A send that is accepted is accepted whole. -/
def Whole (n : ChannId) (i : Call × Ret) : Prop :=
  ∀ buf r, i = (.channSend (some n) buf, .int r) → 0 < r → r = (buf.getD []).length

theorem accepted_of_ne {i : Call × Ret} (h : ∀ buf, i.1 ≠ .channSend (some n) buf) :
    accepted n i = [] := by
  obtain ⟨c, r⟩ := i
  unfold accepted
  split
  · rename_i m buf q he
    cases he
    exact if_neg fun hc => h buf (by rw [hc.1])
  · rfl

/-- A send on a connected stream. -/
theorem mnetChannSend_stream (hx : Tame x) (hb : Base s.core) {buf : Option (List UInt8)} {r : Int}
    (h : Returns (mnetChannSend x (some n) buf) s r t) (hk : s.core.Stream n w)
    (hup : t.Connected n) :
    t.core.Stream n (w ++ accepted n (.channSend (some n) buf, .int r)) ∧
      (0 < r → r = (buf.getD []).length) := by
  obtain ⟨rfl, rfl⟩ | ⟨c, i, k, hn, hpos, hlen, hw, hk'⟩ | ⟨_, rfl, a, ha, hfail, _⟩ :=
    mnetChannSend_spec hx h
  · exact ⟨by simpa [accepted] using hk, fun h => absurd h (by decide)⟩
  · have hwritten := hw.stream_write hk
    obtain ⟨d, j, hn', _, hty, _⟩ := hk
    rw [hn] at hn'
    cases hn'
    refine ⟨?_, fun _ => hlen hty⟩
    rw [accepted, if_pos ⟨rfl, hpos⟩]
    rcases hk' with ⟨ht, _⟩ | ⟨_, b, q, hbk, hadd, _⟩
    · rw [ht]
      exact hwritten
    · obtain ⟨e, _, he, hest, _⟩ := id hwritten
      have hbb := hb.step hw
      rw [← hbk] at hwritten he hbb
      have hwatch := evtAdd_steps (by simp) he (by rw [hest]; trivial) hadd
      exact (hwatch.stream_keep hbb (by simp) (by simp) hwritten).resolve_right hup.online
  · rw [← ha] at hk hb
    have hkeep := (channFail_steps hx hb hfail).stream_keep hb (by simp) (by simp) hk
    exact ⟨by simpa [accepted] using hkeep.resolve_right hup.online, fun h => absurd h (by decide)⟩

/-- Another call on a connected stream. -/
theorem apiCall_stream (hx : Tame x) (hb : Base s.core) {c : Call} {r : Ret}
    (h : Returns (apiCall x c) s r t) (hc : ∀ buf, c ≠ .channSend (some n) buf)
    (hk : s.core.Stream n w) (hup : t.Connected n) : t.core.Stream n w := by
  obtain ⟨d, j, hn, hst, hty, _⟩ := id hk
  have hidle : d.state ≠ .disconnect := by rw [hst]; simp
  have hbounce : Steps {a | ∃ fd, a = .bounce fd} s.core t.core → t.core.Stream n w :=
    fun hs => (hs.stream_keep hb (by simp) (by simp) hk).resolve_right hup.online
  by_cases hdg : ∃ addr buf, c = .dgramSend (some n) addr buf
  · obtain ⟨addr, buf, rfl⟩ := hdg
    obtain ⟨q, _, h⟩ := returns_ret.mp h
    obtain ⟨rfl, _⟩ | ⟨e, _, _, _, he, hdgram, _⟩ := mnetDgramSend_cases h
    · exact hk
    · rw [core_heap_some he] at hn
      cases hn
      have hty' : e.ctype = CHANN_TYPE_STREAM := hty
      rw [hty'] at hdgram
      exact absurd hdgram (by decide)
  by_cases hatt : ∃ fd st, .attach n fd st ∈ c.acts
  · obtain ⟨fd, st, hatt⟩ := hatt
    obtain ⟨host, port, rfl⟩ | ⟨host, port, backlog, rfl⟩ | ⟨addr, buf, rfl⟩ := Call.attach_acts hatt
    · obtain ⟨q, _, h⟩ := returns_ret.mp h
      exact hbounce (mnetChannConnect_busy hn hidle h)
    · obtain ⟨q, _, h⟩ := returns_ret.mp h
      exact hbounce (mnetChannListen_busy hn hidle h)
    · exact absurd ⟨addr, buf, rfl⟩ hdg
  · refine ((apiCall_steps hx hb h).stream_keep hb (fun data i hw => ?_)
      (fun fd st ha => hatt ⟨fd, st, ha⟩) hk).resolve_right hup.online
    obtain ⟨buf, rfl⟩ | hw := Call.write_acts hw
    · exact hc buf rfl
    · exact hdg hw

/-- A call that leaves a stream connected hands over what it accepted, whole. -/
theorem Step.stream (hx : Tame x) (hb : Base s.core) {i : Call × Ret} (h : Step x s i t)
    (hk : s.core.Stream n w) (hup : t.Connected n) :
    t.core.Stream n (w ++ accepted n i) ∧ Whole n i := by
  obtain ⟨c, r⟩ := i
  by_cases hsend : ∃ buf, c = .channSend (some n) buf
  · obtain ⟨buf, rfl⟩ := hsend
    obtain ⟨q, rfl, hcall⟩ := returns_ret.mp h
    obtain ⟨hs, hlen⟩ := mnetChannSend_stream hx hb hcall hk hup
    refine ⟨hs, fun buf' r' he => ?_⟩
    cases he
    exact hlen
  · have hne : ∀ buf, c ≠ .channSend (some n) buf := fun buf e => hsend ⟨buf, e⟩
    rw [accepted_of_ne hne, List.append_nil]
    exact ⟨apiCall_stream hx hb h hne hk hup, fun buf r' he => by cases he; exact absurd rfl (hne buf)⟩

/-- Sending connects nothing. -/
theorem send_stays_down (hx : Tame x) (hb : Base s.core) {c : Call} {r : Ret}
    {data : List UInt8} {i : Nat} (h : Returns (apiCall x c) s r t)
    (hw : .write n data i ∈ c.acts) (hdown : ¬ s.Connected n) : ¬ t.Connected n := by
  rintro ⟨d, hd, hst, hty⟩
  have hsteps := apiCall_steps hx hb h
  obtain ⟨buf, rfl⟩ | ⟨addr, buf, rfl⟩ := Call.write_acts hw
  · have hkeep := hsteps.keeps
      (I := fun k => Base k ∧ ∀ c, k.heap n = some c → c.state = .connected → c.ctype ≠ CHANN_TYPE_STREAM)
      (fun a k k' ha hs hk => ⟨hk.1.step hs, hs.stays_down hk.1 ?_ ?_ ?_ hk.2⟩) ⟨hb, ?_⟩
    · exact hkeep.2 d.core (core_heap_some hd) hst hty
    · rintro fd st rfl
      simp [Call.acts, sendActs] at ha
    · rintro rfl
      simp [Call.acts, sendActs] at ha
    · rintro fd rfl
      simp [Call.acts, sendActs] at ha
    · intro c hc hcst hcty
      rw [core_heap, Option.map_eq_some_iff] at hc
      obtain ⟨e, he, rfl⟩ := hc
      exact hdown ⟨e, he, hcst, hcty⟩
  · obtain ⟨q, _, h⟩ := returns_ret.mp h
    obtain ⟨rfl, _⟩ | ⟨e, _, _, _, he, hdgram, _⟩ := mnetDgramSend_cases h
    · exact hdown ⟨d, hd, hst, hty⟩
    · obtain ⟨e', he', hty'⟩ := hsteps.same_type hb (by simp [Call.acts, connectActs, sendActs])
        (core_heap_some he)
      rw [core_heap_some hd] at he'
      cases he'
      have htye : e.ctype = CHANN_TYPE_STREAM := hty'.symm.trans hty
      rw [htye] at hdgram
      exact absurd hdgram (by decide)

/-- A stream that a call connects starts out empty. -/
theorem Step.stream_start (hx : Tame x) (hb : Base s.core) (hp : s.core.Pristine)
    {i : Call × Ret} (h : Step x s i t) (hdown : ¬ s.Connected n) (hup : t.Connected n) :
    t.core.Stream n [] := by
  have hw : ∀ data j, .write n data j ∉ i.1.acts :=
    fun data j hw => send_stays_down hx hb h hw hdown hup
  have hnew : s.core.Unsent n := by
    intro d hd hst hty
    rw [core_heap, Option.map_eq_some_iff] at hd
    obtain ⟨e, he, rfl⟩ := hd
    exact absurd ⟨e, he, hst, hty⟩ hdown
  have hkeep := (apiCall_steps hx hb h).keeps (I := fun k => Base k ∧ k.Pristine ∧ k.Unsent n)
    (fun a _ _ ha hs hk => ⟨hk.1.step hs, hs.pristine hk.1 hk.2.1,
      hs.unsent hk.1 hk.2.1 (fun data j e => hw data j (e ▸ ha)) hk.2.2⟩) ⟨hb, hp, hnew⟩
  obtain ⟨d, hd, hst, hty⟩ := hup
  exact hkeep.2.2 d.core (core_heap_some hd) hst hty

theorem Reachable.pristine (hx : Tame x) (h : Reachable x s) : s.core.Pristine :=
  h.keeps hx (fun _ _ => ⟨fun _ _ => rfl, fun _ _ _ hn => by simp [Sys.start, Sys.core] at hn⟩)
    fun _ _ _ => CStep.pristine

/-! ## Connections -/

/-- A run during which `n` stays a connected stream channel. -/
def Session (x : ExtTable ε) (n : ChannId) : Sys ε → List (Call × Ret) → Sys ε → Prop :=
  Path fun s i t => Step x s i t ∧ t.Connected n

theorem Session.stream (hx : Tame x) {l : List (Call × Ret)} (h : Session x n s l t)
    (hb : Base s.core) (hk : s.core.Stream n w) :
    t.core.Stream n (w ++ l.flatMap (accepted n)) ∧ ∀ i ∈ l, Whole n i := by
  induction h generalizing w with
  | nil => exact ⟨by simpa using hk, by simp⟩
  | @cons s u t i l hs _ ih =>
    obtain ⟨hstep, hup⟩ := hs
    obtain ⟨hku, hwhole⟩ := hstep.stream hx hb hk hup
    obtain ⟨hkt, hall⟩ := ih (Step.base hx hstep hb) hku
    refine ⟨by simpa using hkt, fun j hj => ?_⟩
    rcases List.mem_cons.mp hj with rfl | hj
    · exact hwhole
    · exact hall j hj

/-- From the call that connects a stream channel on, the bytes its socket took and those it
has cached are the data of the accepted sends, each accepted whole. -/
theorem stream_integrity (hx : Tame x) {a b : Sys ε} {i : Call × Ret} {l : List (Call × Ret)}
    (ha : Reachable x a) (hopen : Step x a i b) (hdown : ¬ a.Connected n) (hup : b.Connected n)
    (h : Session x n b l t) :
    (∃ c j, t.heap n = some c ∧ t.kernel.socks c.fd = some j ∧
      t.kernel.wire j ++ unsent c.rwbSend = l.flatMap (accepted n)) ∧ ∀ e ∈ l, Whole n e := by
  have hstart := hopen.stream_start hx (ha.base hx) (ha.pristine hx) hdown hup
  obtain ⟨hk, hwhole⟩ := h.stream hx (Step.base hx hopen (ha.base hx)) hstart
  refine ⟨?_, hwhole⟩
  obtain ⟨d, j, hd, _, _, hsock, hbytes⟩ := hk
  rw [core_heap, Option.map_eq_some_iff] at hd
  obtain ⟨c, hc, rfl⟩ := hd
  have hwire : t.kernel.wire j ++ unsent c.rwbSend = [] ++ l.flatMap (accepted n) := hbytes
  exact ⟨c, j, hc, hsock, by rw [hwire, List.nil_append]⟩

/-- An environment that reports the descriptor 4 as writable, and takes one byte at a time
after the first calls. -/
def writableOracle : Oracle :=
  { quietOracle with
    ret := fun tick => if 13 < tick then 1 else tick + 3
    events := fun _ => [(4, EPOLLOUT)] }

instance (s : Sys ε) (n : ChannId) : Decidable (s.Connected n) :=
  match h : s.heap n with
  | none => isFalse fun ⟨_, hc, _⟩ => by
      rw [h] at hc
      cases hc
  | some c => decidable_of_iff (c.state = .connected ∧ c.ctype = CHANN_TYPE_STREAM)
    ⟨fun hc => ⟨c, h, hc⟩, fun ⟨d, hd, hc⟩ => by
      rw [h] at hd
      cases hd
      exact hc⟩

/-- Two bytes are sent on a new connection. -/
theorem stream_integrity_partial : ∃ (t : Sys Unit) (c : Chann) (i : SockId), t.heap 0 = some c ∧
    t.kernel.wire i ++ unsent c.rwbSend = [1, 2] := by
  have hrun : After noExt [.mnetInit, .channOpen 1, .channConnect (some 0) (some 0) 80, .poll]
      (Sys.start writableOracle ()) fun _ a => ¬ a.Connected 0 ∧
        After noExt [.resultNext 5] a fun _ b => b.Connected 0 ∧
          After noExt [.channSend (some 0) (some [1, 2])] b fun rs t => t.Connected 0 ∧
            rs = [.int 2] := by decide +kernel
  obtain ⟨_, a, ha, hdown, hnext⟩ := hrun.run
  obtain ⟨_, b, hopen, hup, hsend⟩ := hnext.step
  obtain ⟨r, t, hstep, hup', hr⟩ := hsend.step
  obtain rfl : r = .int 2 := by simpa using hr
  have hsession : Session noExt 0 b [(.channSend (some 0) (some [1, 2]), .int 2)] t :=
    .single ⟨hstep, hup'⟩
  obtain ⟨⟨c, i, hc, _, hbytes⟩, _⟩ :=
    stream_integrity tame_noExt ⟨_, _, _, ha⟩ hopen hdown hup hsession
  exact ⟨t, c, i, hc, hbytes⟩

end MNet
