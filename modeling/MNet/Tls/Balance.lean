import MNet.Tls.Owned

/-! # The balance of SSL objects

Every object is created for a channel and freed with it, unless the user data that holds it
gets another one, or is dropped, on the way. -/

namespace MNet
open MNet.Lib MNet.Lib.Exec

variable {s t a : Sys Tls} {n : ChannId} {c : Chann} {tu : Nat} {u : Unit}

/-! ## The balance -/

/-- Every object that was created for a channel has been freed once, or is still held by the channel. -/
structure Balanced (s : Sys Tls) : Prop extends Owned s where
  unfreed : ∀ i, s.ext.nextSsl ≤ i → s.ext.log.count (.free i) = 0
  live : ∀ i, s.ext.ssls i ≠ none → s.ext.log.count (.free i) = 0
  balance : ∀ n i, .new n i ∈ s.ext.log →
    (s.ext.ssls i = none ∧ s.ext.log.count (.free i) = 1) ∨
      ∃ c d, s.heap n = some c ∧ c.extUd ≠ 0 ∧ s.ext.uds c.extUd = some d ∧ d.ssl = some i

theorem Steady.free (h : Steady s t) (i : SslId) :
    t.ext.log.count (.free i) = s.ext.log.count (.free i) := by
  rw [← List.count_filter (p := SslEvent.isLife) (l := t.ext.log) (by rfl), h.life,
    List.count_filter (by rfl)]

theorem Steady.new (h : Steady s t) {i : SslId} (hi : .new n i ∈ t.ext.log) : .new n i ∈ s.ext.log := by
  have hm : SslEvent.new n i ∈ t.ext.log.filter SslEvent.isLife := List.mem_filter.mpr ⟨hi, rfl⟩
  rw [h.life] at hm
  exact (List.mem_filter.mp hm).1

theorem Balanced.steady (hb : Balanced s) (h : Steady s t) : Balanced t where
  toOwned := hb.toOwned.steady h
  unfreed i hi := by
    rw [h.nextSsl] at hi
    rw [h.free]
    exact hb.unfreed i hi
  live i hi := by
    rw [h.free]
    exact hb.live i (by rwa [Ne, ← h.live])
  balance n i hi := by
    obtain ⟨hdead, hcount⟩ | ⟨c, d, hc, hu, hd, hssl⟩ := hb.balance n i (h.new hi)
    · rw [h.live, h.free]
      exact .inl ⟨hdead, hcount⟩
    · obtain ⟨c', hc', hu'⟩ := h.chann' hc
      obtain ⟨d', hd', hssl'⟩ := h.uds' hd
      exact .inr ⟨c', d', hc', hu' ▸ hu, hu' ▸ hd', hssl'.trans hssl⟩

/-! ## Channels that hold nothing -/

/-- Only channels that hold nothing are different. -/
theorem Balanced.unheld (hb : Balanced s) (ht : Owned t) (hext : t.ext = s.ext)
    (hkeep : ∀ m c, s.heap m = some c → c.extUd ≠ 0 → ∃ d, t.heap m = some d ∧ d.holder = c.holder) :
    Balanced t where
  toOwned := ht
  unfreed := hext ▸ hb.unfreed
  live := hext ▸ hb.live
  balance m i hi := by
    rw [hext] at hi ⊢
    refine (hb.balance m i hi).imp_right fun ⟨c, d, hc, hne, hd, hssl⟩ => ?_
    obtain ⟨e, he, hh⟩ := hkeep m c hc hne
    have hu : e.extUd = c.extUd := congrArg Prod.fst hh
    exact ⟨e, d, he, hu ▸ hne, hu ▸ hd, hssl⟩

theorem Balanced.created {ctype : Nat} {st : ChannState} (hb : Balanced s)
    (h : Created n ctype st s t) (hres : s.mnet.reserved ctype = true) : Balanced t := by
  refine hb.unheld (hb.toOwned.created h hres) h.ext fun m c hc _ => ?_
  have hm : m ≠ n := by
    intro hm
    have := hb.below m c hc
    rw [hm, h.id] at this
    exact Nat.lt_irrefl _ this
  have ho := h.holder hm
  rw [hc] at ho
  exact Option.map_eq_some_iff.mp ho

/-- A channel that holds nothing is rewritten. -/
theorem Balanced.closed {d : Chann} (hb : Balanced s) (hc : s.heap n = some c)
    (hheap : t.heap = Function.update s.heap n (some d)) (hext : t.ext = s.ext)
    (hnext : t.nextChann = s.nextChann) (hres : t.mnet.reserved = s.mnet.reserved)
    (hty : d.ctype = c.ctype) (hnone : c.extUd = 0 ∧ d.extUd = 0) : Balanced t := by
  refine hb.unheld (hb.toOwned.closed hc hheap hext hnext hres hty hnone.2) hext fun m e he hne => ?_
  have hm : m ≠ n := by
    intro hm
    rw [hm, hc, Option.some.injEq] at he
    exact hne (he ▸ hnone.1)
  exact ⟨e, by rw [hheap, Function.update_of_ne hm, he], rfl⟩

theorem Balanced.destroyed (hb : Balanced s) (h : Destroyed n c s t) : Balanced t := by
  refine hb.unheld (hb.toOwned.destroyed h) h.ext fun m e he hne => ?_
  have hm : m ≠ n := by
    intro hm
    rw [hm, h.was, Option.some.injEq] at he
    exact (hb.ud n c h.was (he ▸ hne)).2.1 h.closed
  have ho := h.holder hm
  rw [he] at ho
  exact Option.map_eq_some_iff.mp ho

/-! ## User data and objects -/

/-- New user data, in which there is no object. -/
theorem Balanced.alloc (st : ChannState) (hb : Balanced s) (hc : s.heap n = some c)
    (htls : c.ctype = CHANN_TYPE_TLS) (hopen : c.state ≠ .closed) (hst : st ≠ .closed)
    (hnone : c.extUd = 0) :
    Balanced ((s.setChann n { c with extUd := s.ext.nextUd }).withExt (s.ext.alloc st)) where
  toOwned := hb.toOwned.alloc st hc htls hopen hst
  unfreed := hb.unfreed
  live := hb.live
  balance m i hi := by
    refine (hb.balance m i hi).imp_right fun hheld => ?_
    obtain ⟨e, d, he, hne, hd, hssl⟩ := hheld
    have hm : m ≠ n := by
      intro hm
      rw [hm, hc, Option.some.injEq] at he
      exact hne (he ▸ hnone)
    refine ⟨e, d, ?_, hne, ?_, hssl⟩
    · simp only [Sys.withExt_heap, Sys.setChann, Function.update_of_ne hm]
      exact he
    · simp only [Sys.withExt_ext, Tls.alloc, Tls.setUd, Function.update_of_ne (hb.ne_nextUd he hne)]
      exact hd

/-- A new object, in user data that holds none. -/
theorem Balanced.begun {d : TlsUd} {fd ret err : Int} {op : SslOp} (hb : Balanced s)
    (hc : s.heap n = some c) (hne : c.extUd ≠ 0) (hd : s.ext.uds c.extUd = some d)
    (hnone : d.ssl = none) : Balanced (s.withExt (s.ext.begun n c.extUd d fd op ret err)) := by
  have hcount : ∀ i, (s.ext.begun n c.extUd d fd op ret err).log.count (.free i) =
      s.ext.log.count (.free i) := by
    intro i
    simp [Tls.begun]
  refine ⟨hb.toOwned.begun hd, fun i hi => ?_, fun i hi => ?_, fun m i hi => ?_⟩
  · have hlt : s.ext.nextSsl < i := hi
    rw [Sys.withExt_ext, hcount]
    exact hb.unfreed i (Nat.le_of_lt hlt)
  · rw [Sys.withExt_ext, hcount]
    by_cases hi' : i = s.ext.nextSsl
    · exact hb.unfreed i (Nat.le_of_eq hi'.symm)
    · simp only [Sys.withExt_ext, Tls.begun, Function.update_of_ne hi'] at hi
      exact hb.live i hi
  · rw [Sys.withExt_ext, hcount]
    have hcases : (m = n ∧ i = s.ext.nextSsl) ∨ .new m i ∈ s.ext.log := by
      simpa [Tls.begun] using hi
    obtain ⟨rfl, rfl⟩ | hi := hcases
    · refine .inr ⟨c, _, hc, hne, Function.update_self .., rfl⟩
    obtain ⟨hdead, hfreed⟩ | ⟨e, d', he, hne', hd', hssl⟩ := hb.balance m i hi
    · have hi' : i ≠ s.ext.nextSsl := by
        intro hi'
        have := hb.unfreed i (Nat.le_of_eq hi'.symm)
        omega
      refine .inl ⟨?_, hfreed⟩
      simp only [Tls.begun, Function.update_of_ne hi']
      exact hdead
    · have hu : e.extUd ≠ c.extUd := by
        intro hu
        rw [hu, hd, Option.some.injEq] at hd'
        rw [← hd', hnone] at hssl
        cases hssl
      refine .inr ⟨e, d', he, hne', ?_, hssl⟩
      simp only [Tls.begun, Function.update_of_ne hu]
      exact hd'

theorem Tls.drop_count (e : Tls) (tu : Nat) (d : TlsUd) (i : SslId) :
    (e.drop tu d).log.count (.free i) =
      e.log.count (.free i) + if d.ssl = some i then 1 else 0 := by
  unfold Tls.drop
  cases d.ssl with
  | none => rfl
  | some j => simp [Tls.logged, List.count_cons]

theorem Tls.drop_new {e : Tls} {tu : Nat} {d : TlsUd} {i : SslId} :
    .new n i ∈ (e.drop tu d).log ↔ .new n i ∈ e.log := by
  unfold Tls.drop
  cases d.ssl with
  | none => rfl
  | some j => simp [Tls.logged]

/-- The user data of a channel is freed, with its object. -/
theorem Balanced.dropped {d : TlsUd} (hb : Balanced s) (hc : s.heap n = some c)
    (hd : s.ext.uds c.extUd = some d) :
    Balanced ((s.setChann n { c with extUd := 0 }).withExt (s.ext.drop c.extUd d)) := by
  refine ⟨hb.toOwned.drop hc hd, fun i hi => ?_, fun i hi => ?_, fun m i hi => ?_⟩
  · rw [Sys.withExt_ext, (s.ext.drop_next _ _).2] at hi
    have hno : d.ssl ≠ some i := fun hi' => hb.held _ d i hd hi' (hb.unborn i hi)
    rw [Sys.withExt_ext, Tls.drop_count, if_neg hno]
    exact hb.unfreed i hi
  · rw [Sys.withExt_ext, Tls.drop_ssls] at hi
    have hno : d.ssl ≠ some i := fun hi' => hi (if_pos hi')
    rw [if_neg hno] at hi
    rw [Sys.withExt_ext, Tls.drop_count, if_neg hno]
    exact hb.live i hi
  · rw [Sys.withExt_ext] at hi ⊢
    rw [Tls.drop_ssls, Tls.drop_count]
    obtain ⟨hdead, hfreed⟩ | ⟨e, d', he, hne', hd', hssl⟩ := hb.balance m i (Tls.drop_new.mp hi)
    · have hno : d.ssl ≠ some i := fun hi' => hb.held _ d i hd hi' hdead
      rw [if_neg hno, if_neg hno]
      exact .inl ⟨hdead, hfreed⟩
    · by_cases hm : m = n
      · subst hm
        rw [hc, Option.some.injEq] at he
        subst he
        rw [hd, Option.some.injEq] at hd'
        subst hd'
        rw [if_pos hssl, if_pos hssl, hb.live i (hb.held _ d i hd hssl)]
        exact .inl ⟨rfl, rfl⟩
      · refine .inr ⟨e, d', ?_, hne', ?_, hssl⟩
        · simp only [Sys.withExt_heap, Sys.setChann, Function.update_of_ne hm]
          exact he
        · rw [Tls.drop_uds, Function.update_of_ne fun hu => hm (hb.inj m n e c he hc hu hne')]
          exact hd'

/-! ## Moves -/

theorem tlsBegin_balanced {d : TlsUd} {op : SslOp} (hb : Balanced s) (hc : s.heap n = some c)
    (hne : c.extUd ≠ 0) (hd : s.ext.uds c.extUd = some d) (hnone : d.ssl = none)
    (h : Returns (tlsBegin n c.extUd op) s u t) : Balanced t := by
  obtain ⟨c', d', ret, err, a, hc', hd', hk, hheap, hext, hcases⟩ := tlsBegin_cases h
  rw [hc, Option.some.injEq] at hc'
  subst hc'
  rw [hd, Option.some.injEq] at hd'
  subst hd'
  have ha : Balanced a := by
    refine (hb.begun hc hne hd hnone).steady (steady_of_ext hext hk.nextChann (fun ctype hr => ?_)
      fun m => by rw [hheap]; rfl)
    rw [hk.mnet]
    exact hr
  obtain ⟨_, rfl⟩ | ⟨_, _, hdown⟩ := hcases
  · exact ha
  · exact ha.steady (steady_tlsDisconnect _ _ hdown)

theorem opened_balanced {ctype : Nat} (hb : Balanced s) (hres : s.mnet.reserved ctype = true)
    (hnew : Returns (channCreate ctype .disconnect) s n a)
    (hcb : Returns (callback .openCb (extConfig tlsTable ctype).openCb n) a u t) : Balanced t := by
  have hcr := channCreate_created hnew
  have ha : Balanced a := hb.created hcr hres
  obtain ⟨_, _, rfl, hcb⟩ := returns_callback.mp hcb
  have har : Balanced (a.recorded (.extOp .openCb n)) := ha.steady steady_recorded
  obtain ⟨p, hp⟩ := hcr.chann
  obtain ⟨hty, he⟩ | ⟨_, he⟩ := extConfig_cases ctype
  · rw [he] at hcb
    have hcb : Returns (tlsOpenCb n) _ _ t := hcb
    rw [tlsOpenCb_cases (s := a.recorded _) hp (har.typed n _ hp) hcb]
    exact har.alloc _ hp hty (by simp) (by simp) rfl
  · rw [he] at hcb
    rw [(returns_pure.mp hcb).2]
    exact har

theorem accept_balanced {b : Sys Tls} {l : ChannId} {lc : Chann} {fd : Int} {addr : SockAddr}
    (hb : Balanced s) (hl : s.heap l = some lc) (hnew : NewFd fd s a) (hheap : a.heap = s.heap)
    (hcreate : Returns (channCreate lc.ctype .connected) a n b) (hc : b.heap n = some c)
    (hcb : Returns ((extConfig tlsTable c.ctype).acceptCb n)
      ((b.setChann n { c with fd := fd, addr := addr }).recorded (.extOp .acceptCb n)) u t) :
    Balanced t := by
  obtain ⟨ha, hcr, hla, hst, hud, hset⟩ := accept_created addr hl hnew hheap hcreate hc
  have hbal := ((hb.steady ha).created hcr ((hb.steady ha).typed l lc hla)).steady hset
  have hn : ((b.setChann n { c with fd := fd, addr := addr }).recorded (.extOp .acceptCb n)).heap n =
      some { c with fd := fd, addr := addr } := Function.update_self ..
  obtain ⟨hty, he⟩ | ⟨_, he⟩ := extConfig_cases c.ctype
  · rw [he] at hcb
    have hbegin := tlsAcceptCb_cases hn (hbal.typed n _ hn) hcb
    have halloc := hbal.alloc .listening hn hty (by simp [hst]) (by simp) hud
    exact tlsBegin_balanced halloc (Function.update_self ..) (Nat.ne_of_gt hbal.pos)
      (d := { state := .listening }) (by simp [Tls.alloc, Tls.setUd]) rfl hbegin
  · rw [he] at hcb
    rw [(returns_pure.mp hcb).2]
    exact hbal

theorem attach_balanced {b : Sys Tls} {fd r : Int} {addr : SockAddr} {st : ChannState} {op : ExtOp}
    {set : EvtSet} (hb : Balanced s) (hnone : s.sslOf n = none) (hc : s.heap n = some c)
    (hst : c.state = .disconnect) (hnew : NewFd fd s a)
    (hent : Entered ((extConfig tlsTable c.ctype).typeFn c.ctype) op st set)
    (hheap : a.heap = Function.update s.heap n (some { c with fd := fd, addr := addr, state := st }))
    (hadd : Returns (evtAdd n set) a r b)
    (hcb : Returns ((extConfig tlsTable c.ctype).cb op n) (b.recorded (.extOp op n)) u t) :
    Balanced t := by
  by_cases hty : c.ctype = CHANN_TYPE_TLS
  swap
  · exact hb.steady (attach_other hc hty (.attach hc hst hnew hent hheap hadd hcb))
  have hs := attach_steady hc hst hnew hent hheap hadd
  have hbal := hb.steady hs
  obtain ⟨e, he, hue⟩ := hs.chann' hc
  rw [hty, extConfig_tls] at hcb
  have hres := hbal.typed n e he
  -- the user data of the channel, if any, is what it was
  have hud : ∀ d, (b.recorded (.extOp op n)).ext.uds e.extUd = some d → e.extUd ≠ 0 → d.ssl = none := by
    intro d hd hne
    obtain ⟨d', hd', hssl⟩ := hs.uds hd
    rw [hue] at hd' hne
    rw [hssl, ← Sys.sslOf_eq hc hne hd', hnone]
  obtain ⟨rfl, _⟩ | ⟨rfl, _⟩ := hent
  · obtain ⟨_, rfl⟩ | ⟨hne, d, hd, hbegin⟩ := tlsConnectCb_cases he hres hcb
    · exact hbal
    · have hset : Balanced ((b.recorded (.extOp .connectCb n)).withExt
          ((b.recorded (.extOp .connectCb n)).ext.setUd e.extUd { d with state := .connecting })) :=
        hbal.steady (steady_modifyUd (fun d => { d with state := .connecting }) (fun _ => rfl)
          (fun _ hcl => by cases hcl) () _ (returns_modifyUd.mpr ⟨d, hd, rfl⟩))
      exact tlsBegin_balanced hset he hne (Function.update_self ..) (hud d hd hne) hbegin
  · obtain ⟨_, rfl⟩ | ⟨hne, rfl⟩ := tlsListenCb_cases he hres hcb
    · exact hbal
    · obtain ⟨d, hd⟩ := Option.ne_none_iff_exists'.mp (hbal.ud n e he hne).2.2
      have hdrop := hbal.dropped he hd
      rw [Tls.drop, hud d hd hne] at hdrop
      exact hdrop

theorem close_balanced (hb : Balanced s) (h : Returns (channCloseSocket (opsOf tlsTable) n) s u t) :
    Balanced t := by
  obtain ⟨c, hc, ⟨_, rfl⟩ | ⟨hst, a, d, v, hcb, hd, rfl⟩⟩ := channCloseSocket_cases h
  · exact hb
  rw [opsConfig_opsOf] at hcb
  have hs : Balanced (s.recorded (.extOp .closeCb n)) := hb.steady steady_recorded
  have ha : Balanced a ∧ d.extUd = 0 := by
    obtain ⟨hz, rfl⟩ | ⟨ud, hud, rfl⟩ := closeCb_cases hs.toOwned hc hcb
    · obtain rfl := Option.some.inj (hc.symm.trans hd)
      exact ⟨hs, hz⟩
    · refine ⟨hs.dropped hc hud, ?_⟩
      simp only [Sys.withExt_heap, Sys.setChann, Function.update_self, Option.some.injEq] at hd
      rw [← hd]
  exact ha.1.closed hd rfl rfl rfl rfl rfl ⟨ha.2, ha.2⟩

theorem Move.balanced {d : Deed} (h : Move tlsTable s d t) (hb : Balanced s) (hw : d ≠ .wipe)
    (hd : ∀ n op, d = .attach n op → s.sslOf n = none) : Balanced t := by
  by_cases hidle : d.idle
  · exact hb.steady (h.steady hidle)
  cases h with
  | opened hres hnew hcb => exact opened_balanced hb hres hnew hcb
  | accept hl hnew hheap hcreate hc hcb => exact accept_balanced hb hl hnew hheap hcreate hc hcb
  | attach hc hst hnew hent hheap hadd hcb =>
    exact attach_balanced hb (hd _ _ rfl) hc hst hnew hent hheap hadd hcb
  | close _ h => exact close_balanced hb h
  | destroy h =>
    obtain ⟨c, hc, ⟨_, rfl⟩ | hdes⟩ := channDestroy_cases h
    · exact hb
    · exact hb.destroyed hdes
  | wipe => exact absurd rfl hw
  | _ => exact absurd trivial hidle

/-! ## Runs -/

/-- A channel that holds an object is neither connected nor made to listen. -/
def Frugal (s : Sys Tls) : Call × Ret → Prop
  | (.channConnect (some n) _ _, r) | (.channListen (some n) _ _ _, r) => r = .int 1 → s.sslOf n = none
  | _ => True

instance (s : Sys Tls) (l : Call × Ret) : Decidable (Frugal s l) := by
  unfold Frugal
  split <;> infer_instance

/-- A call that may be made whatever it returns. -/
theorem Frugal.any {c : Call} {r : Ret} (h : Frugal s (c, .int 1)) : Frugal s (c, r) := by
  cases c with
  | channConnect m | channListen m =>
    cases m with
    | none => trivial
    | some m => exact fun _ => h rfl
  | _ => trivial

theorem Moves.balanced {A : Set Deed} (h : Moves tlsTable A s t) (hw : .wipe ∉ A)
    (hA : ∀ n op, .attach n op ∉ A) (hb : Balanced s) : Balanced t :=
  h.keeps (fun _ _ _ hd hm hb => hm.balanced hb (fun he => hw (he ▸ hd))
    fun n op he => absurd (he ▸ hd) (hA n op)) hb

theorem mnetFini_balanced (hs : Ordered s) (hb : Balanced s)
    (h : Returns (mnetFini tlsTable) s u t) : Balanced t := by
  obtain rfl | ⟨b, hmoves, rfl, hnone⟩ := mnetFini_moves hs h
  · exact hb
  have hbal : Balanced b := hmoves.balanced (by simp) (by simp) hb
  refine hbal.unheld (hbal.toOwned.wiped hnone) rfl fun m d hd => ?_
  rw [hnone m] at hd
  cases hd

theorem dgramSend_balanced {addr : Option (Nat × Int)} {buf : Option (List UInt8)} {r : Int}
    (hb : Balanced s) (h : Returns (mnetDgramSend tlsTable (some n) addr buf) s r t) : Balanced t := by
  obtain ⟨rfl, _⟩ | ⟨c, _, _, _, hc, hdgram, _⟩ := mnetDgramSend_cases h
  · exact hb
  have hty : c.ctype ≠ CHANN_TYPE_TLS := by
    intro he
    rw [he] at hdgram
    cases hdgram
  -- the channel has no user data, and does not get any
  refine (Moves.keeps (I := fun a => Balanced a ∧ ∀ d, a.heap n = some d → d.ctype = c.ctype)
    (moves_mnetDgramSend _ _ h) (fun d a b hd hm ha => ?_) ⟨hb, fun d hd => ?_⟩).1
  · have hsteady : Steady a b := by
      by_cases hidle : d.idle
      · exact hm.steady hidle
      have hatt : d = .attach n .connectCb := by
        simp only [dgramDeeds, connectDeeds, sendDeeds, flushDeeds, failDeeds, Set.mem_ofPred_eq] at hd
        obtain (rfl | rfl | rfl | rfl) | (((rfl | rfl | rfl) | rfl | rfl) | rfl) | rfl := hd
        all_goals first | rfl | exact absurd trivial hidle
      subst hatt
      cases hm with
      | attach hd hst hnew hent hheap hadd hcb =>
        exact attach_other hd (ha.2 _ hd ▸ hty) (.attach hd hst hnew hent hheap hadd hcb)
    refine ⟨ha.1.steady hsteady, fun e he => ?_⟩
    obtain ⟨f, hf, _, hfe, _⟩ := hsteady.chann he
    rw [hfe]
    exact ha.2 f hf
  · rw [hc, Option.some.injEq] at hd
    rw [hd]

theorem Step.balanced {l : Call × Ret} (h : Step tlsTable s l t) (hf : Frugal s l) (hs : Ordered s)
    (hb : Balanced s) : Balanced t := by
  obtain ⟨c, r⟩ := l
  by_cases hatt : ∃ n op, .attach n op ∈ c.deeds
  · obtain ⟨n, op, hatt⟩ := hatt
    obtain ⟨host, port, rfl⟩ | ⟨host, port, backlog, rfl⟩ | ⟨addr, buf, rfl⟩ := Call.attach_deeds hatt
    · obtain ⟨q, rfl, hconn⟩ := returns_ret.mp h
      obtain ⟨_, ht | ht | ht⟩ | ⟨rfl, ht⟩ := mnetChannConnect_cases hconn
      · exact hb.steady ht.steady
      · exact hb.steady (ht.steady trivial)
      · exact hb.steady (ht.steady trivial)
      · exact ht.balanced hb Deed.noConfusion fun m op he => by
          cases he
          exact hf rfl
    · obtain ⟨q, rfl, hlisten⟩ := returns_ret.mp h
      obtain ⟨_, ht | ht⟩ | ⟨rfl, ht⟩ := mnetChannListen_cases hlisten
      · exact hb.steady ht.steady
      · exact hb.steady (ht.steady trivial)
      · exact ht.balanced hb Deed.noConfusion fun m op he => by
          cases he
          exact hf rfl
    · obtain ⟨_, _, h⟩ := returns_ret.mp h
      exact dgramSend_balanced hb h
  · by_cases hc : c = .mnetFini
    · subst hc
      obtain ⟨_, _, h⟩ := returns_ret.mp h
      exact mnetFini_balanced hs hb h
    · exact (moves_apiCall c r t h).balanced (Call.spares hc) (fun n op ha => hatt ⟨n, op, ha⟩) hb

theorem balanced_start (o : Oracle) : Balanced (Sys.start o {} : Sys Tls) where
  toOwned := owned_start o
  unfreed _ _ := rfl
  live _ _ := rfl
  balance n i hi := by cases hi

/-- If no channel that holds an object is connected or made to listen, then once a channel is
closed every object created for it has been freed, and only once. -/
theorem ssl_balanced {o : Oracle} {l : List (Call × Ret)} {i : SslId}
    (h : Path (fun s l t => Step tlsTable s l t ∧ Frugal s l) (Sys.start o {}) l s)
    (hgone : s.phase n = .gone) (hi : .new n i ∈ s.ext.log) : s.ext.log.count (.free i) = 1 := by
  have hinv : Ordered s ∧ Balanced s := Path.keeps (I := fun s => Ordered s ∧ Balanced s) h
    (fun _ _ _ hs hb => ⟨hs.1.ordered obedient_tlsTable hb.1, hs.1.balanced hs.2 hb.1 hb.2⟩)
    ⟨ordered_start o _, balanced_start o⟩
  obtain ⟨_, hfreed⟩ | ⟨c, d, hc, hne, _⟩ := hinv.2.balance n i hi
  · exact hfreed
  · have hopen := (hinv.2.ud n c hc hne).2.1
    rw [Sys.phase_some hc, Chann.phase] at hgone
    revert hgone hopen
    cases c.state <;> simp

/-- An environment in which every call of an SSL object is to be repeated once it can read. -/
def pendingOracle : Oracle := { quietOracle with val := fun _ => SSL_ERROR_WANT_READ }

set_option synthInstance.maxSize 1000 in
/-- A connection that is hung up and closed, a listener, and the shutdown. -/
theorem ssl_balanced_once : ∃ s : Sys Tls, s.phase 0 = .gone ∧ .new 0 0 ∈ s.ext.log ∧
    s.ext.log.count (.free 0) = 1 := by
  have hrun : AfterWhere tlsTable (fun s c => Frugal s (c, .int 1))
      [.mnetInit, .extRegister 4, .channOpen 4, .channConnect (some 0) (some 0) 80,
        .channDisconnect (some 0), .channClose (some 0), .channOpen 4,
        .channListen (some 1) none 80 5, .mnetFini] (Sys.start pendingOracle {})
      fun s => s.phase 0 = .gone ∧ .new 0 0 ∈ s.ext.log := by decide +kernel
  obtain ⟨l, s, h, hgone, hi⟩ := hrun.run
  exact ⟨s, hgone, hi, ssl_balanced (h.mono fun _ _ _ hs => ⟨hs.1, hs.2.any⟩) hgone hi⟩

/-- The object of a connection is lost when its channel connects again. -/
theorem not_ssl_balanced_reconnect : ¬ ∀ (o : Oracle) (l : List (Call × Ret)) (s : Sys Tls)
    (n : ChannId) (i : SslId), Run tlsTable (Sys.start o {}) l s → s.phase n = .gone →
    .new n i ∈ s.ext.log → s.ext.log.count (.free i) = 1 := by
  have hrun : After tlsTable [.mnetInit, .extRegister 4, .channOpen 4,
      .channConnect (some 0) (some 0) 80, .channDisconnect (some 0),
      .channConnect (some 0) (some 0) 80, .channClose (some 0)] (Sys.start pendingOracle {})
      fun _ s => s.phase 0 = .gone ∧ .new 0 0 ∈ s.ext.log ∧ s.ext.log.count (.free 0) = 0 := by
    decide +kernel
  obtain ⟨rs, s, h, hgone, hi, hfreed⟩ := hrun.run
  intro hall
  have := hall _ _ s 0 0 h hgone hi
  omega

end MNet
