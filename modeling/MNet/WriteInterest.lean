import MNet.Core.Progress
import MNet.Stale

/-! # Interest for writing

A channel may want write events for two reasons: it has cached data, or the application asked
for SEND events. Interest for writing is given up when a connect is done, when a flush has
emptied the cache, and when SEND events are turned off; each must spare the other reason. -/

namespace MNet
open MNet.Lib MNet.Lib.Exec

variable {ε : Type} {x : ExtTable ε} {s t : Sys ε} {n : ChannId}

/-- The kernel watches the descriptor of the channel for writing. -/
def WriteArmed (s : Sys ε) (c : Chann) : Prop :=
  ∃ reg, s.kernel.epoll c.fd = some reg ∧ reg.events &&& EPOLLOUT ≠ 0

/-- Connected channels for which `W` holds have asked for write events. -/
def Armed (W : CChann → Prop) (k : Core) : Prop :=
  ∀ n c, k.heap n = some c → c.state = .connected → W c → c.epollEvents &&& EPOLLOUT ≠ 0

/-- The acts that may take interest away from `n`. -/
def Act.lowers (n : ChannId) (a : Act) : Prop :=
  (∃ set, a = .unwatch n set) ∨ a = .mute n ∨ a = .rewatch n ∨ a = .forget n

theorem or_and_ne_zero {a b m : BitVec 32} (h : a &&& m ≠ 0 ∨ b &&& m ≠ 0) : (a ||| b) &&& m ≠ 0 := by
  intro h0
  rw [BitVec.and_comm, BitVec.and_or_distrib_left] at h0
  obtain ⟨ha, hb⟩ := BitVec.or_eq_zero_iff.mp h0
  rw [BitVec.and_comm] at ha hb
  exact h.elim (fun h => h ha) fun h => h hb

/-- Adding interest takes none away. -/
theorem addedMask_keeps {old bit : BitVec 32} {set : EvtSet} (hset : set ≠ .del)
    (h : old &&& bit ≠ 0) : addedMask old set &&& bit ≠ 0 := by
  cases set with
  | read | write =>
    exact or_and_ne_zero (.inl (or_and_ne_zero (.inl (or_and_ne_zero (.inl h)))))
  | del => exact absurd rfl hset

theorem addedMask_write (old : BitVec 32) : addedMask old .write &&& EPOLLOUT ≠ 0 :=
  or_and_ne_zero (.inl (or_and_ne_zero (.inl (or_and_ne_zero (.inr (by decide))))))

theorem Armed.interest {W : CChann → Prop} {k : Core} {c : CChann}
    (h : ∀ m d, m ≠ n → k.heap m = some d → d.state = .connected → W d →
      d.epollEvents &&& EPOLLOUT ≠ 0) :
    Armed W (k.interest n c (addedMask c.epollEvents .write)) := by
  intro m d hd hst hw
  obtain ⟨rfl, rfl⟩ | ⟨hm, hd⟩ := update_some hd
  · exact addedMask_write _
  · exact h m d hm hd hst hw

theorem Watched.writeArmed {c : Chann} (h : Watched s.core) (hc : s.heap n = some c)
    (hact : c.state.active) (hout : c.epollEvents &&& EPOLLOUT ≠ 0) : WriteArmed s c := by
  have hmask := h.mirrored.mask n _ (core_heap_some hc) hact
  have hne : c.core.epollEvents ≠ 0 := by
    intro h0
    rw [show c.epollEvents = 0 from h0] at hout
    exact hout BitVec.zero_and
  rw [if_neg hne] at hmask
  exact ⟨_, hmask, hout⟩

section Act

variable {k k' : Core} {a : Act} {W : CChann → Prop} {c c' : CChann}

/-- An act keeps channels armed when it gives no connected channel a reason to be, connects
none that has one, and lowers the interest of none. -/
theorem CStep.armed (hs : CStep k a k') (hb : Base k) (h : Armed W k)
    (hkeep : ∀ n c c', k.heap n = some c → k'.heap n = some c' → c.state = .connected →
      W c' → W c)
    (hup : ∀ n c', k'.heap n = some c' → c'.state = .connected →
      (∀ c, k.heap n = some c → c.state ≠ .connected) → ¬ W c')
    (hdown : ∀ n c, k.heap n = some c → c.state = .connected → a.lowers n → ¬ W c) :
    Armed W k' := by
  intro n c' hc' hst' hw'
  by_cases hold : ∃ c, k.heap n = some c ∧ c.state = .connected
  swap
  · exact absurd hw' (hup n c' hc' hst' fun c hc hst => hold ⟨c, hc, hst⟩)
  obtain ⟨c, hc, hst⟩ := hold
  have hw := hkeep n c c' hc hc' hst hw'
  have harmed := h n c hc hst hw
  obtain ⟨_, _, hgone⟩ | ⟨d, hd, ht⟩ := hs.at hb hc
  · rw [hgone] at hc'
    cases hc'
  rw [hc'] at hd
  cases hd
  cases ht with
  | @interest _ events hi =>
    obtain ⟨set, rfl, _, rfl⟩ | ⟨set, rfl, _⟩ | ⟨rfl, _⟩ | ⟨rfl, _⟩ | ⟨rfl, _⟩ := hi
    · cases hs with
      | watch _ _ _ _ hset => exact addedMask_keeps hset harmed
    · exact absurd hw (hdown n c hc hst (.inl ⟨set, rfl⟩))
    · exact absurd hw (hdown n c hc hst (.inr (.inl rfl)))
    · exact absurd hw (hdown n c hc hst (.inr (.inr (.inl rfl))))
    · exact absurd hw (hdown n c hc hst (.inr (.inr (.inr rfl))))
  | disconnect => cases hst'
  | _ => exact harmed

theorem Act.keepsMask.not_lowers (ha : a.keepsMask) (h : a.lowers n) :
    (∃ set, a = .unwatch n set) ∨ a = .mute n := by
  obtain h | h | rfl | rfl := h
  · exact .inl h
  · exact .inr h
  · exact ha.elim
  · exact ha.elim

end Act

/-! ## Cached data -/

/-- There is something to flush. -/
def CChann.cached (c : CChann) : Prop := c.rwbSend ≠ []

/-- A channel that is connected by an act has nothing cached. -/
theorem CStep.connected_uncached {k k' : Core} {a : Act} {c' : CChann} (hs : CStep k a k')
    (hb : Base k) (hc' : k'.heap n = some c') (hst' : c'.state = .connected)
    (hnew : ∀ c, k.heap n = some c → c.state ≠ .connected) : ¬ c'.cached := by
  cases hc : k.heap n with
  | none =>
    obtain ⟨_, ⟨_, _, rfl⟩ | ⟨_, _, _, _, _, _, _, _, rfl⟩⟩ := hs.appears hb hc hc'
    · exact fun h => h rfl
    · exact fun h => h rfl
  | some c =>
    obtain ⟨_, _, hgone⟩ | ⟨d, hd, ht⟩ := hs.at hb hc
    · rw [hgone] at hc'
      cases hc'
    rw [hc'] at hd
    cases hd
    cases ht with
    | attach hst | established hst =>
      have hnil := (hb.cache n c hc).2 (by rw [hst]; decide)
      exact fun h => h hnil
    | disconnect | close => cases hst'
    | _ => exact absurd hst' (hnew c hc)

theorem CStep.cache_armed {k k' : Core} {a : Act} (hs : CStep k a k') (hb : Base k)
    (h : Armed CChann.cached k) (ha : a.keepsMask)
    (hwrite : ∀ n data i c, a = .write n data i → k.heap n = some c → c.rwbSend = [] →
      data.length ≤ i)
    (hmute : ∀ n c, a = .mute n → k.heap n = some c → c.state = .connected → c.rwbSend = []) :
    Armed CChann.cached k' := by
  refine hs.armed hb h (fun n c c' hc hc' _ hw hnil => ?_)
    (fun n c' hc' hst' hnew => hs.connected_uncached hb hc' hst' hnew) fun n c hc hst hlow hw => ?_
  · obtain ⟨_, _, hgone⟩ | ⟨d, hd, ht⟩ := hs.at hb hc
    · rw [hgone] at hc'
      cases hc'
    rw [hc'] at hd
    cases hd
    cases ht with
    | @write data i _ _ hi =>
      have hle := hwrite n data i c rfl hc hnil
      exact hw (by rw [if_neg (Nat.not_lt.mpr hle)]; exact hnil)
    | flush _ hne => exact hne hnil
    | disconnect => exact hw rfl
    | _ => exact hw hnil
  · obtain ⟨set, rfl⟩ | rfl := ha.not_lowers hlow
    · cases hs with
      | unwatch hc' _ _ _ hgo =>
        rw [hc] at hc'
        cases hc'
        obtain hgo | hgo := hgo
        · rw [hst] at hgo
          cases hgo
        · exact hw hgo
    · exact hw (hmute n c rfl hc hst)

/-- Only `mnet_chann_active_event` mutes a channel. -/
theorem Call.mute_acts {c : Call} (h : .mute n ∈ c.acts) :
    ∃ et value, c = .channActiveEvent (some n) et value := by
  cases c with
  | channActiveEvent m et value =>
    cases m with
    | none => exact absurd h id
    | some m =>
      obtain rfl : n = m := by simpa [Call.acts, activeActs, activeSendActs, activeTimerActs] using h
      exact ⟨et, value, rfl⟩
  | channConnect m | channListen m | channClose m | channDisconnect m | channSend m | dgramSend m
  | channRecv m | dgramRecv m =>
    cases m <;> simp [Call.acts, connectActs, listenActs, sendActs] at h
  | _ => simp [Call.acts, finiActs, reapActs, resetActs, loopActs, timerActs, recordActs] at h

theorem Steps.cache_armed {A : Set Act} {k k' : Core} (h : Steps A k k') (hb : Base k)
    (harm : Armed CChann.cached k)
    (hA : ∀ a ∈ A, a.keepsMask ∧ (∀ n data i, a ≠ .write n data i) ∧ ∀ n, a ≠ .mute n) :
    Armed CChann.cached k' := by
  refine (h.keeps (I := fun k => Base k ∧ Armed CChann.cached k) ?_ ⟨hb, harm⟩).2
  intro a k k' ha hs ⟨hb, harm⟩
  obtain ⟨hmask, hwrite, hmute⟩ := hA a ha
  exact ⟨hb.step hs, hs.cache_armed hb harm hmask (fun n data i _ he => absurd he (hwrite n data i))
    fun n _ he => absurd he (hmute n)⟩

/-- The bytes in the cache, each block but the first counted as a full one. -/
def cachedBytes : RwbHead → Int
  | [] => 0
  | b :: h => rwbBuffered b + h.length * MNET_BUF_SIZE

/-- `mnet_chann_cached` tells that there is something in the cache. -/
theorem rwbCached_pos {h : RwbHead} (hpos : 0 < cachedBytes h % 2 ^ 32)
    (hlt : cachedBytes h % 2 ^ 32 < 2 ^ 31) : 0 < rwbCached h := by
  have hwrap : rwbCached h = wrap32 (cachedBytes h) := by
    cases h with
    | nil => rfl
    | cons b h => simp [rwbCached, cachedBytes, rwbCount]
  rw [hwrap, wrap32, Int.bmod]
  omega

/-- Turning SEND events off on a channel with cached data, `mnet_chann_cached` counts it as a
positive number. -/
def SparesCached (s : Sys ε) (c : Call) : Prop :=
  KeepsQueue s c ∧ match c with
    | .channActiveEvent (some n) .send value => ∀ d, s.heap n = some d → value = 0 →
        d.state = .connected → d.activeSendEvent = true → d.rwbSend ≠ [] →
        0 < cachedBytes d.rwbSend % 2 ^ 32 ∧ cachedBytes d.rwbSend % 2 ^ 32 < 2 ^ 31
    | _ => True

/-- The first block that is cached arms the channel. -/
theorem mnetChannSend_cache_armed (hx : Tame x) {buf : Option (List UInt8)} {r : Int}
    (hb : Base s.core) (hw : Watched s.core) (hctl : ∀ i, s.core.ctl i = true)
    (harm : Armed CChann.cached s.core) (h : Returns (mnetChannSend x (some n) buf) s r t) :
    Armed CChann.cached t.core := by
  obtain ⟨_, rfl⟩ | ⟨c, i, k, hn, _, _, hwrite, hk⟩ | ⟨_, _, a, ha, hfail, _⟩ := mnetChannSend_spec hx h
  · exact harm
  · rcases hk with ⟨ht, hfull, _⟩ | ⟨hnil, b, q, hbk, hadd, _⟩
    · rw [ht]
      refine hwrite.cache_armed hb harm trivial ?_ (by simp)
      intro m data j d he hd hnil
      cases he
      rw [hn] at hd
      cases hd
      exact hfull hnil
    · subst hbk
      have hwb := hwrite.watched hb hw trivial (by simp)
      have hctlb : ∀ i, b.core.ctl i = true := by
        rw [hwrite.ctl]
        exact hctl
      have hbb := hb.step hwrite
      obtain ⟨e, he, hact, hothers⟩ : ∃ e, b.core.heap n = some e ∧ e.state.active ∧
          ∀ m, m ≠ n → b.core.heap m = s.core.heap m := by
        generalize b.core = k at hwrite
        cases hwrite with
        | write hn' hst =>
          refine ⟨_, Function.update_self .., ChannState.active_of_connected hst, fun m hm => ?_⟩
          rw [Core.set_heap, Function.update_of_ne hm, Core.onWire_heap]
      obtain ⟨_, ht⟩ := evtAdd_watched (by simp) hbb hwb hctlb he hact hadd
      rw [ht]
      refine .interest fun m d hm hd => ?_
      rw [hothers m hm] at hd
      exact harm m d hd
  · have hs := channFail_steps hx (ha ▸ hb) hfail
    rw [ha] at hs
    refine hs.cache_armed hb harm fun a ha => ?_
    obtain rfl | rfl | rfl := ha <;> exact ⟨trivial, by simp, by simp⟩

theorem activeSend_cache_armed {value : Bool} {c : CChann} {u : Unit} (hb : Base s.core)
    (harm : Armed CChann.cached s.core) (hn : s.core.heap n = some c) (hact : c.state.active)
    (hoff : value = false → c.state = .connected → c.rwbSend ≠ [] → 0 < rwbCached c.rwbSend)
    (h : Returns (activeSend n value) s u t) : Armed CChann.cached t.core := by
  obtain ⟨a, ha, _, hrest⟩ := activeSend_spec hn h
  have hflag : CStep s.core (.sendFlag n value) a.core := by
    rw [ha]
    exact .sendFlag hn
  have hba := hb.step hflag
  have harma := hflag.cache_armed hb harm trivial (by simp) (by simp)
  have han : a.core.heap n = some { c with activeSendEvent := value } := by rw [ha]; simp
  obtain ⟨_, q, hadd⟩ | ⟨hv, hle, q, hdel⟩ | ⟨_, _, rfl⟩ := hrest
  · refine (evtAdd_steps (by simp) han hact hadd).cache_armed hba harma fun b hb => ?_
    obtain rfl : b = .watch n .write := hb
    exact ⟨trivial, by simp, by simp⟩
  · obtain ⟨d, hd, ⟨_, hkq, he, ht⟩ | ⟨_, ht, _⟩⟩ := evtDel_spec hdel
    · rw [han] at hd
      cases hd
      have hmute : CStep a.core (.mute n) t.core := by
        rw [ht]
        exact .mute han hact hkq he hle
      refine hmute.cache_armed hba harma trivial (by simp) fun m d hm hd hst => ?_
      cases hm
      rw [han] at hd
      cases hd
      by_contra hne
      exact absurd (hoff hv hst hne) (Int.not_lt.mpr hle)
    · rw [ht]
      exact harma
  · exact harma

theorem Step.cache_armed (hx : Tame x) {i : Call × Ret} (h : Step x s i t)
    (hp : SparesCached s i.1) (hb : Base s.core) (hw : Watched s.core)
    (hctl : ∀ i, s.core.ctl i = true) (harm : Armed CChann.cached s.core) :
    Armed CChann.cached t.core := by
  obtain ⟨c, r⟩ := i
  have hreset : c ≠ .multiResetEvent := by
    rintro rfl
    exact hp.1
  by_cases hsend : (∃ n buf, c = .channSend (some n) buf) ∨ ∃ n addr buf, c = .dgramSend (some n) addr buf
  · obtain ⟨n, buf, rfl⟩ | ⟨n, addr, buf, rfl⟩ := hsend
    · obtain ⟨_, _, h⟩ := returns_ret.mp h
      exact mnetChannSend_cache_armed hx hb hw hctl harm h
    · obtain ⟨_, _, h⟩ := returns_ret.mp h
      obtain ⟨rfl, _⟩ | ⟨_, _, _, a, _, _, _, _, haim, h⟩ := mnetDgramSend_cases h
      · exact harm
      have ha := dgramAim_steps hx hb haim
      have hcalm : ∀ a ∈ connectActs n, a.keepsMask ∧ (∀ n data i, a ≠ .write n data i) ∧
          (∀ n, a ≠ .mute n) ∧ ∀ n ctype, a ≠ .create n ctype := by
        intro a ha
        obtain ⟨fd, rfl⟩ | ⟨fd, rfl⟩ | ⟨fd, st, rfl⟩ | rfl | rfl | rfl := ha <;>
          exact ⟨trivial, by simp, by simp, by simp⟩
      refine mnetChannSend_cache_armed hx (ha.base hb)
        (ha.watched hb hw fun a ha => ⟨(hcalm a ha).1, (hcalm a ha).2.2.2⟩) ?_
        (ha.cache_armed hb harm fun a ha => ⟨(hcalm a ha).1, (hcalm a ha).2.1, (hcalm a ha).2.2.1⟩) h
      rw [ha.ctl]
      exact hctl
  by_cases hevent : ∃ n et value, c = .channActiveEvent (some n) et value
  · obtain ⟨n, et, value, rfl⟩ := hevent
    obtain ⟨_, _, h⟩ := returns_ret.mp h
    obtain ⟨d, hn, ⟨rfl, hst, hflag, h⟩ | ⟨_, hst, h⟩ | rfl⟩ := mnetChannActiveEvent_cases hx h
    · refine activeSend_cache_armed hb harm hn (ChannState.active_of_connected hst)
        (fun hv hst hne => ?_) h
      obtain ⟨e, he, rfl⟩ := Option.map_eq_some_iff.mp hn
      have hzero : value = 0 := by simpa using hv
      have hon : e.activeSendEvent = true := by
        rw [hv] at hflag
        exact Bool.eq_true_of_not_eq_false hflag
      obtain ⟨hpos, hlt⟩ := hp.2 e he hzero hst hon hne
      exact rwbCached_pos hpos hlt
    · refine (activeTimer_steps hn hst h).cache_armed hb harm fun a ha => ?_
      obtain rfl | rfl | rfl := ha <;> exact ⟨trivial, by simp, by simp⟩
    · exact harm
  refine (apiCall_steps hx hb h).cache_armed hb harm fun a ha =>
    ⟨Call.keepsMask_acts hreset ha, ?_, ?_⟩
  · rintro n data i rfl
    obtain ⟨buf, he⟩ | ⟨addr, buf, he⟩ := Call.write_acts ha
    · exact hsend (.inl ⟨n, buf, he⟩)
    · exact hsend (.inr ⟨n, addr, buf, he⟩)
  · rintro n rfl
    obtain ⟨et, value, he⟩ := Call.mute_acts ha
    exact hevent ⟨n, et, value, he⟩

/-- A connection on descriptor 4, whose socket takes nothing at tick 15. -/
def stuckOracle : Oracle :=
  { quietOracle with
    ret := fun tick => if tick = 15 then 0 else tick + 3
    events := fun _ => [(4, EPOLLOUT)] }

/-- A connection that wants SEND events, and a byte that is cached. -/
def stuckCalls : List Call :=
  [.mnetInit, .channOpen 1, .channConnect (some 0) (some 0) 80, .poll, .resultNext 5,
    .channActiveEvent (some 0) .send 1, .channSend (some 0) (some [1])]

/-- A connected channel with cached blocks of one byte. -/
structure Stuck (s : Sys Unit) (c : Chann) : Prop where
  chann : s.heap 0 = some c
  state : c.state = .connected
  flag : c.activeSendEvent = true
  mask : c.epollEvents ≠ 0
  cache : c.rwbSend ≠ []
  small : ∀ b ∈ c.rwbSend, rwbBuffered b = 1

set_option synthInstance.maxSize 1000 in
theorem stuck_run : ∃ l s c,
    RunWhere noExt (fun s c => KeepsQueue s c ∧ c ∈ stuckCalls) (Sys.start stuckOracle ()) l s ∧
      Stuck s c ∧ c.rwbSend.length = 1 := by
  have hrun : AfterWhere noExt (fun s c => KeepsQueue s c ∧ c ∈ stuckCalls) stuckCalls
      (Sys.start stuckOracle ()) fun s =>
        (s.heap 0).map (fun c => (c.state, c.activeSendEvent, decide (c.epollEvents ≠ 0), c.rwbSend)) =
          some (.connected, true, true, [rwbNew [1]]) := by decide +kernel
  obtain ⟨l, s, h, hvals⟩ := hrun.run
  obtain ⟨c, hc, hvals⟩ := Option.map_eq_some_iff.mp hvals
  obtain ⟨hst, hflag, hmask, hcache⟩ : c.state = .connected ∧ c.activeSendEvent = true ∧
      c.epollEvents ≠ 0 ∧ c.rwbSend = [rwbNew [1]] := by simpa using hvals
  refine ⟨l, s, c, h, ⟨hc, hst, hflag, hmask, by rw [hcache]; simp, fun b hb => ?_⟩,
    by rw [hcache]; rfl⟩
  rw [hcache] at hb
  obtain rfl : b = rwbNew [1] := by simpa using hb
  rfl

/-- Data for a channel that has some cached goes behind it. -/
theorem channSend_behind {c : Chann} {data : List UInt8} (hc : s.heap n = some c)
    (hst : channState x s n c ≥ ChannState.connected.val) (hne : c.rwbSend ≠ []) (hdata : data ≠ []) :
    Step x s (.channSend (some n) (some data), .int data.length)
      (s.setChann n { c with rwbSend := rwbCache c.rwbSend data }) := by
  refine returns_ret.mpr ⟨_, rfl, ?_⟩
  rw [mnetChannSend, (returns_require.mpr ⟨rfl, rfl⟩).bind_iff, (channReady_of hc hst).bind_iff]
  simp only [Option.getD_some]
  rw [if_pos ⟨hdata, trivial⟩, (returns_deref.mpr ⟨hc, rfl⟩).bind_iff,
    if_pos (show rwbCount c.rwbSend > 0 from List.length_pos_iff.mpr hne), (returns_modifyChann (u := ()) |>.mpr ⟨c, hc, rfl⟩).bind_iff]
  exact returns_pure.mpr ⟨rfl, rfl⟩

/-- Any number of bytes sent one by one. -/
theorem Stuck.sends {s : Sys Unit} {c : Chann} (h : Stuck s c) (count : Nat) :
    ∃ l t d, RunWhere noExt KeepsQueue s l t ∧ Stuck t d ∧
      d.rwbSend.length = c.rwbSend.length + count := by
  induction count with
  | zero => exact ⟨[], s, c, .nil, h, rfl⟩
  | succ count ih =>
    obtain ⟨l, t, d, hrun, hd, hlen⟩ := ih
    have hst : channState noExt t 0 d ≥ ChannState.connected.val := by
      rw [channState, extConfig_noExt, hd.state]
      exact Int.le_refl _
    have hone : [(1 : UInt8)] ≠ [] := List.cons_ne_nil 1 []
    have hsend := channSend_behind hd.chann hst hd.cache hone
    refine ⟨_, _, { d with rwbSend := rwbCache d.rwbSend [1] }, hrun.snoc ⟨hsend, trivial⟩,
      ⟨Function.update_self 0 _ t.heap, hd.state, hd.flag, hd.mask, ?_, ?_⟩, ?_⟩
    · simp [rwbCache, rwbCreateTail]
    · intro b hb
      obtain hb | hb := List.mem_append.mp hb
      · exact hd.small b hb
      · obtain rfl : b = rwbNew [1] := by simpa using hb
        rfl
    · simp [rwbCache, rwbCreateTail, hlen]
      omega

/-- Interest in writing that is given up is gone. -/
theorem deletedMask_write (old : BitVec 32) : deletedMask old .write &&& EPOLLOUT = 0 := by
  show old &&& ~~~EPOLLOUT &&& EPOLLOUT = 0
  rw [BitVec.and_assoc, show ~~~EPOLLOUT &&& EPOLLOUT = 0#32 by decide, BitVec.and_zero]
  rfl

/-- Turning SEND events off on a channel whose cache counts as empty. -/
theorem activeSend_off_mutes {c : Chann} (hw : Watched s.core) (hb : Base s.core)
    (hctl : ∀ i, s.core.ctl i = true) (hc : s.heap n = some c) (hact : c.state.active)
    (hmask : c.epollEvents ≠ 0) (hle : rwbCached c.rwbSend ≤ 0) :
    ∃ t d, Returns (activeSend n false) s () t ∧ t.heap n = some d ∧ d.state = c.state ∧
      d.rwbSend = c.rwbSend ∧ ¬ WriteArmed t d := by
  obtain ⟨a, ha⟩ : ∃ a, a = s.setChann n { c with activeSendEvent := false } := ⟨_, rfl⟩
  have hmod : Returns (modifyChann n fun c => { c with activeSendEvent := false }) s () a :=
    returns_modifyChann.mpr ⟨c, hc, ha⟩
  have hflag : CStep s.core (.sendFlag n false) a.core := by
    rw [ha, core_setChann]
    exact .sendFlag (core_heap_some hc)
  have han : a.heap n = some { c with activeSendEvent := false } := by
    rw [ha]
    exact Function.update_self n _ s.heap
  have hwa := hflag.watched hb hw trivial (by simp)
  obtain ⟨q, t, hdel⟩ := evtDel_terminates (core_heap_some han) .write
  have hoff : Returns (activeSend n false) s () t := by
    rw [activeSend, hmod.bind_iff, if_neg (by simp), (returns_deref.mpr ⟨han, rfl⟩).bind_iff,
      if_pos (show channCached { c with activeSendEvent := false } ≤ 0 from hle), hdel.bind_iff]
    exact returns_pure.mpr ⟨rfl, rfl⟩
  have hreg : a.core.epoll c.fd = some ⟨c.epollEvents, n⟩ :=
    (hwa.mirrored.mask n _ (core_heap_some han) hact).trans (if_neg hmask)
  obtain ⟨d, hd, ⟨_, _, _, ht⟩ | ⟨_, _, hno⟩⟩ := evtDel_spec hdel
  all_goals
    rw [core_heap_some han] at hd
    cases hd
  · have htn := (congrArg (fun k => k.heap n) ht).trans (Core.interest_heap ..)
    obtain ⟨d, hd, hdc⟩ := Option.map_eq_some_iff.mp htn
    refine ⟨t, d, hoff, hd, congrArg CChann.state hdc, congrArg CChann.rwbSend hdc, ?_⟩
    rintro ⟨reg, hr, hout⟩
    have hfd : d.fd = c.fd := congrArg CChann.fd hdc
    have hmuted := (congrArg (fun k => k.epoll c.fd) ht).trans (Core.interest_epoll ..)
    rw [show t.core.epoll c.fd = some reg from hfd ▸ hr] at hmuted
    split at hmuted
    · cases hmuted
    · cases hmuted
      exact hout (deletedMask_write _)
  · refine absurd ⟨hwa.queue n (by rw [core_heap_some han]; simp), ?_,
      show a.core.epoll c.fd ≠ none by rw [hreg]; simp, ?_⟩ hno
    · exact Int.le_of_lt ((hb.step hflag).own.opened n _ (core_heap_some han) hact).1
    · rw [hflag.ctl]
      exact hctl _

/-- Blocks of one byte count as full ones, all but the first. -/
theorem rwbCached_overflow {h : RwbHead} (hsmall : ∀ b ∈ h, rwbBuffered b = 1)
    (hlen : h.length = 32769) : rwbCached h ≤ 0 := by
  cases h with
  | nil => cases hlen
  | cons b h =>
    have hb := hsmall b (by simp)
    have hcount : rwbCount (b :: h) = 32769 := hlen
    show wrap32 (rwbBuffered b + (rwbCount (b :: h) - 1) * MNET_BUF_SIZE) ≤ 0
    rw [hb, hcount]
    decide

/-- The raw type of the channel type is STREAM. -/
def StreamType (x : ExtTable ε) (ctype : Nat) : Prop :=
  (extConfig x ctype).typeFn ctype = CHANN_TYPE_STREAM

/-- The application asked for SEND events. -/
def CChann.flagged (x : ExtTable ε) (c : CChann) : Prop :=
  StreamType x c.ctype ∧ c.activeSendEvent = true

section Act

variable {k k' : Core} {a : Act} {c : CChann}

/-- Only `mnet_chann_active_event` changes the flag. -/
theorem CStep.same_flag (hs : CStep k a k') (hb : Base k) {c' : CChann} (hc : k.heap n = some c)
    (hc' : k'.heap n = some c') (ha : ∀ on, a ≠ .sendFlag n on) :
    c'.flagged x ↔ c.flagged x := by
  obtain ⟨_, _, hgone⟩ | ⟨d, hd, ht⟩ := hs.at hb hc
  · rw [hgone] at hc'
    cases hc'
  rw [hc'] at hd
  cases hd
  cases ht with
  | sendFlag => exact absurd rfl (ha _)
  | _ => exact Iff.rfl

/-- A channel that an act connects, or begins to connect, was not new with the flag set. -/
theorem CStep.unflagged_new (hs : CStep k a k') (hb : Base k) {c' : CChann} (hn : k.heap n = none)
    (hc' : k'.heap n = some c') : ¬ c'.flagged x := by
  obtain ⟨_, ⟨_, _, rfl⟩ | ⟨_, _, _, _, _, _, _, _, rfl⟩⟩ := hs.appears hb hn hc'
  · exact fun h => Bool.noConfusion h.2
  · exact fun h => Bool.noConfusion h.2

/-- The acts that connect `n`, or may take interest away from it. -/
def Act.disarms (n : ChannId) (a : Act) : Prop :=
  (∃ fd, a = .attach n fd .connected) ∨ a = .established n ∨ (∃ set, a = .unwatch n set) ∨ a = .mute n

/-- Channels stay armed when the act connects no flagged channel and lowers the interest of none. -/
theorem CStep.flag_armed (hs : CStep k a k') (hb : Base k) (h : Armed (CChann.flagged x) k)
    (ha : a.keepsMask) (hflag : ∀ n on, a ≠ .sendFlag n on)
    (hspare : ∀ n c, k.heap n = some c → c.flagged x → ¬ a.disarms n) :
    Armed (CChann.flagged x) k' := by
  refine hs.armed hb h (fun n c c' hc hc' _ hw => (hs.same_flag hb hc hc' (hflag n)).mp hw) ?_ ?_
  · intro n c' hc' hst' hnew hw'
    cases hc : k.heap n with
    | none => exact hs.unflagged_new hb hc hc' hw'
    | some c =>
      have hno := hspare n c hc ((hs.same_flag hb hc hc' (hflag n)).mp hw')
      obtain ⟨_, _, hgone⟩ | ⟨d, hd, ht⟩ := hs.at hb hc
      · rw [hgone] at hc'
        cases hc'
      rw [hc'] at hd
      cases hd
      cases ht with
      | attach =>
        obtain rfl : _ = ChannState.connected := hst'
        exact hno (.inl ⟨_, rfl⟩)
      | established => exact hno (.inr (.inl rfl))
      | disconnect | close => cases hst'
      | _ => exact hnew c hc hst'
  · intro n c hc _ hlow hw
    exact hspare n c hc hw (.inr (.inr (ha.not_lowers hlow)))

/-- Acts that disarm only channels that were not flagged when they began. -/
theorem Steps.flag_armed {A : Set Act} (h : Steps A k k') (hb : Base k) (hk : Armed (CChann.flagged x) k)
    (hA : ∀ a ∈ A, a.keepsMask ∧ (∀ n on, a ≠ .sendFlag n on) ∧
      ∀ n, a.disarms n → ∀ c, k.heap n = some c → ¬ c.flagged x) : Armed (CChann.flagged x) k' := by
  refine (h.keeps (I := fun j => Base j ∧ Armed (CChann.flagged x) j ∧ ∀ n d, j.heap n = some d →
    d.flagged x → ∃ c, k.heap n = some c ∧ c.flagged x) ?_ ⟨hb, hk, fun n d hd hw => ⟨d, hd, hw⟩⟩).2.1
  intro a j j' ha hs ⟨hb, hj, hold⟩
  obtain ⟨hmask, hflag, hspare⟩ := hA a ha
  refine ⟨hb.step hs, hs.flag_armed hb hj hmask hflag fun n d hd hw hdis => ?_, fun n d' hd' hw => ?_⟩
  · obtain ⟨c, hc, hwc⟩ := hold n d hd hw
    exact hspare n hdis c hc hwc
  · cases hd : j.heap n with
    | none => exact absurd hw (hs.unflagged_new hb hd hd')
    | some d => exact hold n d hd ((hs.same_flag hb hd hd' (hflag n)).mp hw)

/-- The acts that cannot unsettle a flagged channel. -/
def Act.calm : Act → Prop
  | .attach _ _ st => st ≠ .connected
  | .established _ | .sendFlag .. | .unwatch .. | .mute _ => False
  | a => a.keepsMask

theorem Act.calm.spares (h : a.calm) :
    a.keepsMask ∧ (∀ n on, a ≠ .sendFlag n on) ∧ ∀ n, ¬ a.disarms n := by
  refine ⟨?_, ?_, ?_⟩
  · cases a <;> first | exact h.elim | exact trivial
  · rintro n on rfl
    exact h
  · rintro n (⟨fd, rfl⟩ | rfl | ⟨set, rfl⟩ | rfl)
    · exact h rfl
    all_goals exact h

theorem Steps.flag_armed_calm {A : Set Act} (h : Steps A k k') (hb : Base k)
    (hk : Armed (CChann.flagged x) k) (hA : ∀ a ∈ A, a.calm) : Armed (CChann.flagged x) k' := by
  refine h.flag_armed hb hk fun a ha => ?_
  obtain ⟨hmask, hflag, hno⟩ := (hA a ha).spares
  exact ⟨hmask, hflag, fun n hdis => absurd hdis (hno n)⟩

/-- No waiting record is about to connect a stream channel that has SEND events turned on. -/
def Core.spared (x : ExtTable ε) (k : Core) : Prop :=
  ∀ kev ∈ k.pending, ∀ n c, kev.ptr = some n → k.heap n = some c → c.state = .connecting →
    kev.events &&& (EPOLLERR ||| (EPOLLRDHUP ||| EPOLLHUP)) = 0 → ¬ c.flagged x

/-- What the loop does makes no channel connect, and turns no SEND events on. -/
theorem Steps.spared (h : Steps loopActs k k') (hb : Base k) (hi : -1 ≤ k.fdIndex) (hk : k.spared x) :
    k'.spared x := by
  refine (h.keeps (I := fun j => Base j ∧ -1 ≤ j.fdIndex ∧ j.spared x) ?_ ⟨hb, hi, hk⟩).2.2
  intro a j j' ha hs ⟨hb, hi, hj⟩
  have hkinds : a ≠ .batch ∧ (∀ n on, a ≠ .sendFlag n on) ∧ ∀ n fd st, a ≠ .attach n fd st := by
    obtain (rfl | ⟨_, rfl | rfl | rfl⟩) | ⟨_, rfl⟩ | rfl | ⟨_, _, rfl | rfl | rfl | rfl | rfl | ⟨_, rfl⟩ |
      ⟨_, rfl⟩ | ⟨_, rfl⟩ | rfl | rfl⟩ := ha <;> simp
  obtain ⟨hbatch, hflag, hattach⟩ := hkinds
  refine ⟨hb.step hs, hs.index hi, fun kev hkev n c' hn hc' hst' hok hw' => ?_⟩
  cases hc : j.heap n with
  | none => exact hs.unflagged_new hb hc hc' hw'
  | some c =>
    have hw := (hs.same_flag hb hc hc' (hflag n)).mp hw'
    have hold := hj kev (hs.pending hi hbatch hkev) n c hn hc
    obtain ⟨_, _, hgone⟩ | ⟨d, hd, ht⟩ := hs.at hb hc
    · rw [hgone] at hc'
      cases hc'
    rw [hc'] at hd
    cases hd
    cases ht with
    | attach => exact hattach _ _ _ rfl
    | established | disconnect | close => cases hst'
    | _ => exact hold hst' hok hw

end Act

/-- A record for a connected channel that asks for SEND events: interest stays. -/
theorem evtConnected_flagged (hx : Tame x) (hb : Base s.core) {c : CChann} {kev : Kev} {p : Pass}
    (hn : s.core.heap n = some c) (hst : c.state = .connected) (hflag : c.activeSendEvent = true)
    (h : Returns (evtConnected x n kev) s p t) :
    Steps {a | (∃ i, a = .flush n i) ∨ a = .slot n ∨ a = .disconnect n} s.core t.core := by
  have hmsg : ({.slot n, .disconnect n} : Set Act) ⊆
      {a | (∃ i, a = .flush n i) ∨ a = .slot n ∨ a = .disconnect n} := fun a ha => .inr ha
  simp only [evtConnected] at h
  rcases returns_ite.mp h with ⟨_, h⟩ | ⟨_, h⟩
  · exact (emit_steps hx hb h).mono hmsg
  rcases returns_ite.mp h with ⟨_, h⟩ | ⟨_, h⟩
  swap
  · exact .of_eq (congrArg Sys.core (returns_pure.mp h).2)
  simp only [returns_bind] at h
  obtain ⟨sent, a, hflush, h⟩ := h
  obtain ⟨⟨hfl, d, hd, _⟩, _⟩ := channSendedRwb_spec hx hb hn hst hflush
  have hon : d.activeSendEvent = true := by
    have hkeep := hfl.keeps (I := fun k => Base k ∧ ∃ d, k.heap n = some d ∧ d.activeSendEvent = true)
      (fun b k k' hb hs ⟨hbk, d, hd, hon⟩ => ?_) ⟨hb, c, hn, hflag⟩
    · obtain ⟨_, e, he, hon⟩ := hkeep
      rw [hd] at he
      cases he
      exact hon
    · obtain ⟨i, rfl⟩ := hb
      obtain ⟨he, _⟩ | ⟨e, he, ht⟩ := hs.at hbk hd
      · cases he
      · exact ⟨hbk.step hs, e, he, by cases ht <;> exact hon⟩
  have ha : Steps {a : Act | (∃ i, a = .flush n i) ∨ a = .slot n ∨ a = .disconnect n} s.core
      a.core := by
    refine hfl.mono fun b hb => ?_
    obtain ⟨i, rfl⟩ := hb
    exact .inl ⟨i, rfl⟩
  rcases returns_ite.mp h with ⟨_, h⟩ | ⟨_, h⟩
  · simp only [returns_bind, returns_deref, and_assoc, exists_and_left, exists_eq_left] at h
    obtain ⟨e, he, h⟩ := h
    rw [core_heap_some he] at hd
    cases hd
    rcases returns_ite.mp h with ⟨_, h⟩ | ⟨hoff, _⟩
    · exact ha.trans ((emit_steps hx (ha.base hb) h).mono hmsg)
    · exact absurd hon hoff
  · rw [(returns_pure.mp h).2]
    exact ha

theorem evtDispatch_flag_armed (hx : Tame x) {kev : Kev} {p : Pass} (hb : Base s.core)
    (hk : Armed (CChann.flagged x) s.core)
    (hsp : ∀ n c, kev.ptr = some n → s.core.heap n = some c → c.state = .connecting →
      kev.events &&& (EPOLLERR ||| (EPOLLRDHUP ||| EPOLLHUP)) = 0 → ¬ c.flagged x)
    (h : Returns (evtDispatch x kev) s p t) : Armed (CChann.flagged x) t.core := by
  obtain ⟨n, c, hptr, hc, hcase⟩ := evtDispatch_cases h
  have hn := core_heap_some hc
  by_cases hflag : c.core.flagged x
  · obtain ⟨_, _, rfl⟩ | ⟨_, _, _, a, b, r, err, ha, hdis, hemit, _⟩ |
      ⟨_, _, hok, ⟨_, h⟩ | ⟨hst, _⟩ | ⟨hst, h⟩ | ⟨_, _, rfl⟩⟩ := hcase
    · exact hk
    · refine (evtDown_steps hx hb ha hdis hemit).flag_armed_calm hb hk fun a ha => ?_
      obtain rfl | rfl := ha <;> trivial
    · refine (evtListening_spec hx hb h).flag_armed_calm hb hk fun a ha => ?_
      obtain rfl | rfl | ⟨fd, rfl⟩ | ⟨fd, rfl⟩ | rfl | rfl := ha <;> trivial
    · exact absurd hflag (hsp n _ hptr hn hst hok)
    · refine (evtConnected_flagged hx hb hn hst hflag.2 h).flag_armed_calm hb hk fun a ha => ?_
      obtain ⟨i, rfl⟩ | rfl | rfl := ha <;> trivial
    · exact hk
  · obtain ⟨m, hm, hs⟩ := evtDispatch_steps hx hb h
    obtain rfl : n = m := Option.some.inj (hptr.symm.trans hm)
    -- interest is given up for the channel of the record only
    have hself : ∀ m, m = n → ∀ d, s.core.heap m = some d → ¬ d.flagged x := by
      rintro m rfl d hd
      rw [hn] at hd
      cases hd
      exact hflag
    refine hs.flag_armed hb hk fun a ha => ?_
    obtain rfl | rfl | rfl | rfl | rfl | ⟨i, rfl⟩ | ⟨fd, rfl⟩ | ⟨fd, rfl⟩ | rfl | rfl := ha
    all_goals refine ⟨trivial, by simp, fun m hdis => ?_⟩
    case inr.inr.inl | inr.inr.inr.inl => exact hself m (by simpa [Act.disarms, eq_comm] using hdis)
    all_goals simp [Act.disarms] at hdis

theorem evtPass_flag_armed (hx : Tame x) {fuel : Nat} {p : Pass} (hb : Base s.core)
    (hi : -1 ≤ s.core.fdIndex) (hk : Armed (CChann.flagged x) s.core) (hsp : s.core.spared x)
    (h : Returns (evtPass x fuel) s p t) : Armed (CChann.flagged x) t.core := by
  have hidle : ∀ {k : Core}, Steps idleActs s.core k → Armed (CChann.flagged x) k := by
    intro k hs
    refine hs.flag_armed_calm hb hk fun a ha => ?_
    obtain (rfl | ⟨n, rfl | rfl | rfl⟩) | ⟨n, rfl⟩ | rfl := ha <;> trivial
  obtain ⟨_, hs⟩ | ⟨u, kev, hf, hd⟩ := evtPass_split hx hb h
  · exact hidle hs
  have hs := hf.idle_steps hx hb
  refine evtDispatch_flag_armed hx (hs.base hb) (hidle hs) (fun n c hn hc => ?_) hd
  obtain ⟨k, hq, hmem, hu⟩ := hf.pending hx hb hi (by rw [hn]; simp)
  rw [hu] at hc
  exact (hq.mono fun a ha => .inl ha).spared hb hi hsp kev hmem n c hn hc

/-- Results are fetched while no waiting record connects a stream channel that still has SEND
events turned on. -/
def SparesFlag (x : ExtTable ε) (s : Sys ε) (c : Call) : Prop :=
  KeepsQueue s c ∧ ∀ fuel, c = .resultNext fuel → s.core.spared x

/-- A stream channel begins to connect; others are connected at once. -/
theorem mnetChannConnect_flag_armed (hx : Tame x) {host : Option Nat} {port r : Int} (hb : Base s.core)
    (hk : Armed (CChann.flagged x) s.core)
    (h : Returns (mnetChannConnect x (some n) host port) s r t) : Armed (CChann.flagged x) t.core := by
  obtain rfl | ⟨fd, a, host, _, ⟨rfl, ha | ⟨f, ha⟩⟩ | ⟨_, _, _, _, _, href⟩ |
    ⟨b, e, f, g, c, q, st, set, ctype, _, _, _, hst, hatt, hfn, hc, hadd, hcb⟩⟩ :=
    mnetChannConnect_parts h
  · exact hk
  · rw [ha]
    exact hk
  · exact (Steps.single (A := {.bounce f}) ha rfl).flag_armed_calm hb hk fun a ha => ha ▸ trivial
  · exact (Steps.single (A := {.refuse n fd}) href rfl).flag_armed_calm hb hk fun a ha => ha ▸ trivial
  have hset : set ≠ .del := by obtain ⟨_, rfl⟩ | ⟨_, rfl, _⟩ := hst <;> simp
  have hact : c.state.active := by
    rw [hc]
    obtain ⟨rfl, _⟩ | ⟨rfl, _⟩ := hst <;> trivial
  have hkf : Armed (CChann.flagged x) f.core := by
    refine hatt.flag_armed hb hk trivial (by simp) fun m d hd hw hdis => ?_
    obtain ⟨rfl, rfl⟩ : m = n ∧ st = .connected := by
      simpa [Act.disarms, eq_comm] using hdis
    obtain ⟨hno, _⟩ | ⟨_, _, hraw⟩ := hst
    · cases hno
    · exact hraw ((hatt.same_flag hb hd hfn (by simp)).mpr hw).1
  refine (connect_finish hx (hb.step hatt) hset hfn hact hadd hcb).flag_armed_calm (hb.step hatt) hkf
    fun a ha => ?_
  obtain rfl | rfl := ha <;> trivial

theorem dgramAim_flag_armed (hx : Tame x) {host : Nat} {port : Int} {u : Unit} (hb : Base s.core)
    (hk : Armed (CChann.flagged x) s.core) (h : Returns (dgramAim x n host port) s u t) :
    Armed (CChann.flagged x) t.core := by
  obtain hsame | ⟨r, hconn⟩ := dgramAim_cases hx h
  · rw [hsame]
    exact hk
  · exact mnetChannConnect_flag_armed hx hb hk hconn

/-- Turning SEND events on arms the channel. -/
theorem activeSend_flag_armed {value : Bool} {c : CChann} {u : Unit} (hb : Base s.core)
    (hw : Watched s.core) (hctl : ∀ i, s.core.ctl i = true) (hk : Armed (CChann.flagged x) s.core)
    (hn : s.core.heap n = some c) (hact : c.state.active)
    (h : Returns (activeSend n value) s u t) : Armed (CChann.flagged x) t.core := by
  obtain ⟨a, ha, _, hrest⟩ := activeSend_spec hn h
  have hflag : CStep s.core (.sendFlag n value) a.core := by
    rw [ha]
    exact .sendFlag hn
  have hba := hb.step hflag
  have hwa := hflag.watched hb hw trivial (by simp)
  have han : a.core.heap n = some { c with activeSendEvent := value } := by rw [ha]; simp
  have hctla : ∀ i, a.core.ctl i = true := by
    rw [hflag.ctl]
    exact hctl
  have hothers : ∀ m d, m ≠ n → a.core.heap m = some d → s.core.heap m = some d := by
    intro m d hm hd
    rw [ha, Core.set_heap, Function.update_of_ne hm] at hd
    exact hd
  cases value with
  | true =>
    obtain ⟨_, q, hadd⟩ | ⟨hv, _⟩ | ⟨hv, _⟩ := hrest
    · obtain ⟨_, ht⟩ := evtAdd_watched (by simp) hba hwa hctla han hact hadd
      rw [ht]
      exact .interest fun m d hm hd hst hf => hk m d (hothers m d hm hd) hst hf
    · cases hv
    · cases hv
  | false =>
    -- without the flag, nothing is required of the channel any more
    have hoff : ∀ d, a.core.heap n = some d → ¬ d.flagged x := by
      intro d hd hf
      rw [han] at hd
      cases hd
      exact Bool.noConfusion hf.2
    have hka : Armed (CChann.flagged x) a.core := by
      intro m d hd hst hf
      by_cases hm : m = n
      · exact absurd hf (hoff d (hm ▸ hd))
      · exact hk m d (hothers m d hm hd) hst hf
    obtain ⟨hv, _⟩ | ⟨_, hle, q, hdel⟩ | ⟨_, _, rfl⟩ := hrest
    · cases hv
    · obtain ⟨d, hd, ⟨_, hkq, he, ht⟩ | ⟨_, ht, _⟩⟩ := evtDel_spec hdel
      · rw [han] at hd
        cases hd
        have hmute : CStep a.core (.mute n) t.core := by
          rw [ht]
          exact .mute han hact hkq he hle
        refine hmute.flag_armed hba hka trivial (by simp) fun m d hd hf hdis => ?_
        obtain rfl : m = n := by simpa [Act.disarms, eq_comm] using hdis
        exact hoff d hd hf
      · rw [ht]
        exact hka
    · exact hka

/-- The acts of the other calls are all calm. -/
theorem Call.calm_acts {c : Call} {a : Act} (ha : a ∈ c.acts) (hreset : c ≠ .multiResetEvent)
    (hnext : ∀ fuel, c ≠ .resultNext fuel) (hconn : ∀ n host port, c ≠ .channConnect (some n) host port)
    (hlisten : ∀ n host port backlog, c ≠ .channListen (some n) host port backlog)
    (hevent : ∀ n et value, c ≠ .channActiveEvent (some n) et value)
    (hdgram : ∀ n addr buf, c ≠ .dgramSend (some n) addr buf) : a.calm := by
  cases a with
  | attach m fd st =>
    obtain ⟨host, port, rfl⟩ | ⟨host, port, backlog, rfl⟩ | ⟨addr, buf, rfl⟩ := Call.attach_acts ha
    · exact (hconn _ _ _ rfl).elim
    · exact (hlisten _ _ _ _ rfl).elim
    · exact (hdgram _ _ _ rfl).elim
  | mute m =>
    obtain ⟨et, value, rfl⟩ := Call.mute_acts ha
    exact (hevent _ _ _ rfl).elim
  | sendFlag m | unwatch m | established m =>
    cases c with
    | resultNext fuel => exact absurd rfl (hnext fuel)
    | channActiveEvent n et value =>
      cases n with
      | none => exact absurd ha id
      | some n => exact (hevent _ _ _ rfl).elim
    | channConnect n | channListen n | channClose n | channDisconnect n | channSend n | dgramSend n
    | channRecv n | dgramRecv n =>
      cases n <;> simp [Call.acts, connectActs, listenActs, sendActs] at ha
    | _ => simp [Call.acts, finiActs, reapActs, resetActs] at ha
  | rewatch m | forget m | closeQueue => exact Call.keepsMask_acts hreset ha
  | _ => trivial

theorem Step.flag_armed (hx : Tame x) {i : Call × Ret} (h : Step x s i t)
    (hp : SparesFlag x s i.1) (hb : Base s.core) (hi : -1 ≤ s.core.fdIndex) (hw : Watched s.core)
    (hctl : ∀ i, s.core.ctl i = true) (hk : Armed (CChann.flagged x) s.core) :
    Armed (CChann.flagged x) t.core := by
  obtain ⟨c, r⟩ := i
  have hreset : c ≠ .multiResetEvent := by
    rintro rfl
    exact hp.1
  by_cases hconn : ∃ n host port, c = .channConnect (some n) host port
  · obtain ⟨n, host, port, rfl⟩ := hconn
    obtain ⟨_, _, h⟩ := returns_ret.mp h
    exact mnetChannConnect_flag_armed hx hb hk h
  by_cases hlisten : ∃ n host port backlog, c = .channListen (some n) host port backlog
  · obtain ⟨n, host, port, backlog, rfl⟩ := hlisten
    obtain ⟨_, _, h⟩ := returns_ret.mp h
    refine (mnetChannListen_spec hx h).flag_armed_calm hb hk fun a ha => ?_
    obtain ⟨fd, rfl⟩ | ⟨fd, rfl⟩ | rfl := ha
    · trivial
    · simp [Act.calm]
    · trivial
  by_cases hdgram : ∃ n addr buf, c = .dgramSend (some n) addr buf
  · obtain ⟨n, addr, buf, rfl⟩ := hdgram
    obtain ⟨_, _, h⟩ := returns_ret.mp h
    obtain ⟨rfl, _⟩ | ⟨d, _, _, a, hd, _, _, _, haim, hsend⟩ := mnetDgramSend_cases h
    · exact hk
    have hba := (dgramAim_steps hx hb haim).base hb
    have hka := dgramAim_flag_armed hx hb hk haim
    refine (mnetChannSend_steps hx hba hsend).flag_armed_calm hba hka fun a ha => ?_
    obtain ⟨data, i, rfl⟩ | rfl | rfl | rfl | rfl := ha <;> trivial
  by_cases hevent : ∃ n et value, c = .channActiveEvent (some n) et value
  · obtain ⟨n, et, value, rfl⟩ := hevent
    obtain ⟨_, _, h⟩ := returns_ret.mp h
    obtain ⟨d, hn, ⟨_, hst, _, h⟩ | ⟨_, hst, h⟩ | rfl⟩ := mnetChannActiveEvent_cases hx h
    · exact activeSend_flag_armed hb hw hctl hk hn (ChannState.active_of_connected hst) h
    · refine (activeTimer_steps hn hst h).flag_armed_calm hb hk fun a ha => ?_
      obtain rfl | rfl | rfl := ha <;> trivial
    · exact hk
  by_cases hnext : ∃ fuel, c = .resultNext fuel
  · obtain ⟨fuel, rfl⟩ := hnext
    obtain ⟨_, _, h⟩ := returns_ret.mp h
    refine (evtLoop_keeps (I := fun a => (Base a.core ∧ -1 ≤ a.core.fdIndex ∧ a.core.spared x) ∧
      Armed (CChann.flagged x) a.core) ⟨⟨hb, hi, hp.2 fuel rfl⟩, hk⟩ (fun a p b ⟨⟨hb, hi, hsp⟩, hk⟩ hpass => ?_) h).2
    have hs := evtPass_steps hx hb hpass
    exact ⟨⟨hs.base hb, hs.index hi, hs.spared hb hi hsp⟩, evtPass_flag_armed hx hb hi hk hsp hpass⟩
  refine (apiCall_steps hx hb h).flag_armed_calm hb hk fun a ha => Call.calm_acts ha hreset
    (fun fuel he => hnext ⟨fuel, he⟩) (fun n host port he => hconn ⟨n, host, port, he⟩)
    (fun n host port backlog he => hlisten ⟨n, host, port, backlog, he⟩)
    (fun n et value he => hevent ⟨n, et, value, he⟩) fun n addr buf he => hdgram ⟨n, addr, buf, he⟩

theorem RunWhere.flag_armed (hx : Tame x) {o : Oracle} {e : ε} {l : List (Call × Ret)}
    (ho : ∀ i, o.ctl i = true) (h : RunWhere x (SparesFlag x) (Sys.start o e) l s) :
    Watched s.core ∧ -1 ≤ s.core.fdIndex ∧ (∀ i, s.core.ctl i = true) ∧ Armed (CChann.flagged x) s.core := by
  refine h.keeps (I := fun k => Watched k ∧ -1 ≤ k.fdIndex ∧ (∀ i, k.ctl i = true) ∧
    Armed (CChann.flagged x) k) hx ⟨watched_start o e, (current_start o e).index, ho, ?_⟩
    fun a i b hs hp hb ⟨hw, hi, hctl, hk⟩ => ?_
  · intro n c hc
    cases hc
  refine ⟨hs.watched hx hp.1 hb hw, (apiCall_steps hx hb hs).index hi, ?_,
    hs.flag_armed hx hp hb hi hw hctl hk⟩
  rw [hs.ctl hx hb]
  exact hctl

/-- SEND events are on after they were turned on, whether they were before or not. -/
theorem mnetChannActiveEvent_on {c : Chann} {value : Int} {u : Unit} (hc : s.heap n = some c)
    (hst : channState x s n c = ChannState.connected.val) (hv : value ≠ 0)
    (h : Returns (mnetChannActiveEvent x (some n) .send value) s u t) :
    ∃ d, t.heap n = some d ∧ d.state = c.state ∧ d.ctype = c.ctype ∧ d.activeSendEvent = true := by
  have hon : decide (value ≠ 0) = true := by simpa using hv
  simp only [mnetChannActiveEvent, returns_bind, returns_read, returns_deref, and_assoc,
    exists_and_left, exists_eq_left] at h
  obtain ⟨c', hc', h⟩ := h
  rw [hc] at hc'
  cases hc'
  rcases returns_ite.mp h with ⟨_, h⟩ | ⟨hno, h⟩
  · obtain ⟨a, ha, _, ⟨_, q, hadd⟩ | ⟨hoff, _⟩ | ⟨hoff, _⟩⟩ := activeSend_spec (core_heap_some hc) h
    · have han : a.core.heap n = some { c.core with activeSendEvent := decide (value ≠ 0) } := by
        rw [ha, Core.set_heap, Function.update_self]
      obtain ⟨e, he, ht⟩ : ∃ e, t.core.heap n = some e ∧
          (e.state = c.state ∧ e.ctype = c.ctype ∧ e.activeSendEvent = decide (value ≠ 0)) := by
        obtain ⟨e, he, ⟨_, _, _, _, ht⟩ | ⟨_, ht, _⟩⟩ := evtAdd_spec (by simp) hadd
        all_goals
          rw [han] at he
          cases he
        · exact ⟨_, (congrArg (fun k => k.heap n) ht).trans (Core.interest_heap ..), rfl, rfl, rfl⟩
        · exact ⟨_, ht ▸ han, rfl, rfl, rfl⟩
      obtain ⟨d, hd, rfl⟩ := Option.map_eq_some_iff.mp he
      exact ⟨d, hd, ht.1, ht.2.1, ht.2.2.trans hon⟩
    · rw [hon] at hoff
      cases hoff
    · rw [hon] at hoff
      cases hoff
  · rw [if_neg (by simp)] at h
    obtain ⟨_, rfl⟩ := returns_pure.mp h
    refine ⟨c, hc, rfl, rfl, ?_⟩
    by_contra hoff
    exact hno ⟨trivial, hst, fun he => hoff (he.trans hon)⟩

/-- While no record connects a stream channel that has SEND events turned on already, those that
are connected are watched for writing, and turning SEND events on has that effect. -/
theorem send_event_armed (hx : Tame x) {o : Oracle} {e : ε} {l : List (Call × Ret)} {c : Chann}
    (ho : ∀ i, o.ctl i = true) (h : RunWhere x (SparesFlag x) (Sys.start o e) l s)
    (hc : s.heap n = some c) (hst : c.state = .connected) (hty : StreamType x c.ctype) :
    (c.activeSendEvent = true → WriteArmed s c) ∧
    ∀ value r t, value ≠ 0 → channState x s n c = ChannState.connected.val →
      Step x s (.channActiveEvent (some n) .send value, r) t →
      ∃ d, t.heap n = some d ∧ d.state = .connected ∧ WriteArmed t d := by
  obtain ⟨hw, _, _, hk⟩ := h.flag_armed hx ho
  refine ⟨fun hon => ?_, fun value r t hv hstate hs => ?_⟩
  · exact hw.writeArmed hc (by rw [hst]; trivial) (hk n _ (core_heap_some hc) hst ⟨hty, hon⟩)
  · obtain ⟨hwt, _, _, hkt⟩ := RunWhere.flag_armed hx ho (Path.snoc h ⟨hs, trivial, by simp⟩)
    obtain ⟨_, _, hs⟩ := returns_ret.mp hs
    obtain ⟨d, hd, hdst, hdty, hon⟩ := mnetChannActiveEvent_on hc hstate hv hs
    have hdst' := hdst.trans hst
    refine ⟨d, hd, hdst', hwt.writeArmed hd (by rw [hdst']; trivial) ?_⟩
    exact hkt n _ (core_heap_some hd) hdst' ⟨by rw [show d.core.ctype = c.ctype from hdty]; exact hty, hon⟩

set_option synthInstance.maxSize 1000 in
/-- A first connection with SEND events turned on. -/
theorem send_event_armed_first : ∃ (s : Sys Unit) (c : Chann), c.activeSendEvent = true ∧
    WriteArmed s c := by
  have hrun : AfterWhere noExt (fun s c => KeepsQueue s c ∧ c ∈ stuckCalls ∧
      (c = .resultNext 5 → ∀ kev ∈ s.core.pending, kev.ptr = some 0 ∧
        (s.heap 0).map (fun d => d.activeSendEvent) = some false)) stuckCalls
      (Sys.start stuckOracle ()) fun s =>
        (s.heap 0).map (fun c => (c.state, c.activeSendEvent, c.ctype)) =
          some (.connected, true, 1) := by decide +kernel
  obtain ⟨l, s, h, hvals⟩ := hrun.run
  obtain ⟨c, hc, hvals⟩ := Option.map_eq_some_iff.mp hvals
  obtain ⟨hst, hflag, hty⟩ : c.state = .connected ∧ c.activeSendEvent = true ∧ c.ctype = 1 := by
    simpa using hvals
  have hspares : RunWhere noExt (SparesFlag noExt) (Sys.start stuckOracle ()) l s := by
    refine Path.mono h fun a i b ⟨hs, hqueue, hmem, hfirst⟩ => ⟨hs, hqueue, fun fuel he => ?_⟩
    rw [he] at hmem hfirst
    obtain rfl : fuel = 5 := by simpa [stuckCalls] using hmem
    intro kev hkev n d hn hd _ _ hw
    obtain ⟨hzero, hoff⟩ := hfirst rfl kev hkev
    obtain rfl : n = 0 := Option.some.inj (hn.symm.trans hzero)
    obtain ⟨e, he, rfl⟩ := Option.map_eq_some_iff.mp hd
    rw [he] at hoff
    exact Bool.noConfusion (hw.2.symm.trans (Option.some.inj hoff))
  have hstream : StreamType noExt c.ctype := by rw [hty]; rfl
  exact ⟨s, c, hflag,
    (send_event_armed tame_noExt (fun _ => rfl) hspares hc hst hstream).1 hflag⟩

/-- Two connections of one channel, on the descriptors 4 and 19. -/
def reconnectOracle : Oracle :=
  { quietOracle with events := fun _ => [(4, EPOLLOUT), (19, EPOLLOUT)] }

set_option synthInstance.maxSize 1000 in
/-- On the second connection SEND events are on, and nobody watches for them; nor does turning
them on once more help. -/
theorem not_send_event_armed_reconnect :
    ∃ (l : List (Call × Ret)) (s t : Sys Unit) (c d : Chann),
      RunWhere noExt KeepsQueue (Sys.start reconnectOracle ()) l s ∧
      (∀ i, reconnectOracle.ctl i = true) ∧ s.heap 0 = some c ∧ c.state = .connected ∧
      StreamType noExt c.ctype ∧ c.activeSendEvent = true ∧ ¬ WriteArmed s c ∧
      Step noExt s (.channActiveEvent (some 0) .send 1, .unit) t ∧ t.heap 0 = some d ∧
      d.state = .connected ∧ ¬ WriteArmed t d := by
  have hrun : AfterWhere noExt KeepsQueue
      [.mnetInit, .channOpen 1, .channConnect (some 0) (some 0) 80, .poll, .resultNext 5,
        .channActiveEvent (some 0) .send 1, .channDisconnect (some 0),
        .channConnect (some 0) (some 0) 80, .poll, .resultNext 5] (Sys.start reconnectOracle ())
      fun s => ((s.heap 0).map (fun c => (c.state, c.ctype, c.activeSendEvent,
          (s.kernel.epoll c.fd).map fun reg => reg.events &&& EPOLLOUT)) =
            some (.connected, 1, true, some 0)) ∧
        After noExt [.channActiveEvent (some 0) .send 1] s fun rs t => rs = [.unit] ∧
          (t.heap 0).map (fun c => (c.state,
            (t.kernel.epoll c.fd).map fun reg => reg.events &&& EPOLLOUT)) =
              some (.connected, some 0) := by decide +kernel
  have hunarmed : ∀ {s : Sys Unit} {c : Chann},
      ((s.kernel.epoll c.fd).map fun reg => reg.events &&& EPOLLOUT) = some 0 → ¬ WriteArmed s c := by
    intro s c hzero ⟨reg, hreg, hout⟩
    rw [hreg] at hzero
    exact hout (Option.some.inj hzero)
  obtain ⟨l, s, h, hvals, hagain⟩ := hrun.run
  obtain ⟨c, hc, hvals⟩ := Option.map_eq_some_iff.mp hvals
  obtain ⟨hst, hty, hflag, hzero⟩ := by simpa only [Prod.mk.injEq] using hvals
  obtain ⟨r, t, hs, hr, hvals'⟩ := hagain.step
  obtain rfl : r = .unit := by simpa using hr
  obtain ⟨d, hd, hvals'⟩ := Option.map_eq_some_iff.mp hvals'
  obtain ⟨hst', hzero'⟩ := by simpa only [Prod.mk.injEq] using hvals'
  exact ⟨l, s, t, c, d, h, fun _ => rfl, hc, hst, by rw [hty]; rfl, hflag, hunarmed hzero, hs, hd, hst',
    hunarmed hzero'⟩

end MNet
