import MNet.Tls.Steady

/-! # Who holds user data and SSL objects

Every block of user data is held by one channel at most, and every object by one block, whatever
the application does: what is lost on the way is held by nobody. -/

namespace MNet
open MNet.Lib MNet.Lib.Exec

variable {s t a : Sys Tls} {n : ChannId} {c : Chann} {tu : Nat} {u : Unit}

/-- Who holds what. -/
structure Owned (s : Sys Tls) : Prop where
  typed : ∀ n c, s.heap n = some c → s.mnet.reserved c.ctype = true
  below : ∀ n c, s.heap n = some c → n < s.nextChann
  ud : ∀ n c, s.heap n = some c → c.extUd ≠ 0 → c.ctype = CHANN_TYPE_TLS ∧ c.state ≠ .closed ∧
    s.ext.uds c.extUd ≠ none
  inj : ∀ n m c d, s.heap n = some c → s.heap m = some d → c.extUd = d.extUd → c.extUd ≠ 0 → n = m
  opened : ∀ u d, s.ext.uds u = some d → d.state ≠ .closed
  fresh : ∀ u, s.ext.nextUd ≤ u → s.ext.uds u = none
  pos : 0 < s.ext.nextUd
  held : ∀ u d i, s.ext.uds u = some d → d.ssl = some i → s.ext.ssls i ≠ none
  only : ∀ u v d e i, s.ext.uds u = some d → s.ext.uds v = some e → d.ssl = some i →
    e.ssl = some i → u = v
  unborn : ∀ i, s.ext.nextSsl ≤ i → s.ext.ssls i = none

theorem Steady.chann (h : Steady s t) {d : Chann} (hd : t.heap n = some d) :
    ∃ c, s.heap n = some c ∧ d.extUd = c.extUd ∧ d.ctype = c.ctype ∧
      (d.state = .closed ↔ c.state = .closed) := by
  have hh := h.holder n
  rw [hd] at hh
  obtain ⟨c, hc, he⟩ := Option.map_eq_some_iff.mp hh.symm
  exact ⟨c, hc, congrArg Prod.fst he.symm, congrArg (·.2.1) he.symm,
    decide_eq_decide.mp (congrArg (·.2.2) he.symm)⟩

theorem Steady.chann' (h : Steady s t) (hc : s.heap n = some c) :
    ∃ d, t.heap n = some d ∧ d.extUd = c.extUd := by
  have hh := h.holder n
  rw [hc] at hh
  obtain ⟨d, hd, he⟩ := Option.map_eq_some_iff.mp hh
  exact ⟨d, hd, congrArg Prod.fst he⟩

theorem Steady.uds (h : Steady s t) {d : TlsUd} (hd : t.ext.uds tu = some d) :
    ∃ e, s.ext.uds tu = some e ∧ d.ssl = e.ssl := by
  have hs := h.ssl tu
  rw [hd] at hs
  obtain ⟨e, he, hssl⟩ := Option.map_eq_some_iff.mp hs.symm
  exact ⟨e, he, hssl.symm⟩

theorem Steady.uds' (h : Steady s t) {d : TlsUd} (hd : s.ext.uds tu = some d) :
    ∃ e, t.ext.uds tu = some e ∧ e.ssl = d.ssl := by
  have hs := h.ssl tu
  rw [hd] at hs
  obtain ⟨e, he, hssl⟩ := Option.map_eq_some_iff.mp hs
  exact ⟨e, he, hssl⟩

/-- The object the user data of a channel holds. -/
def Sys.sslOf (s : Sys Tls) (n : ChannId) : Option SslId :=
  (s.heap n).bind fun c => if c.extUd = 0 then none else (s.ext.uds c.extUd).bind TlsUd.ssl

theorem Sys.sslOf_eq {d : TlsUd} (hc : s.heap n = some c) (hne : c.extUd ≠ 0)
    (hd : s.ext.uds c.extUd = some d) : s.sslOf n = d.ssl := by
  simp [Sys.sslOf, hc, hne, hd]

theorem Sys.sslOf_some {i : SslId} (h : s.sslOf n = some i) : ∃ c d, s.heap n = some c ∧ c.extUd ≠ 0 ∧
    s.ext.uds c.extUd = some d ∧ d.ssl = some i := by
  obtain ⟨c, hc, h⟩ := Option.bind_eq_some_iff.mp h
  by_cases hz : c.extUd = 0
  · simp [hz] at h
  · rw [if_neg hz] at h
    obtain ⟨d, hd, hi⟩ := Option.bind_eq_some_iff.mp h
    exact ⟨c, d, hc, hz, hd, hi⟩

theorem Steady.sslOf (h : Steady s t) (n : ChannId) : t.sslOf n = s.sslOf n := by
  cases hc : s.heap n with
  | none =>
    have hh := h.holder n
    rw [hc] at hh
    simp [Sys.sslOf, hc, Option.map_eq_none_iff.mp hh]
  | some c =>
    obtain ⟨d, hd, hud⟩ := h.chann' hc
    have hs := congrArg (Option.bind · id) (h.ssl c.extUd)
    simp only [Option.bind_map, Function.id_comp] at hs
    simp only [Sys.sslOf, hc, hd, hud, Option.bind_some]
    split
    · rfl
    · exact hs

theorem Owned.steady (hb : Owned s) (h : Steady s t) : Owned t where
  typed n d hd := by
    obtain ⟨c, hc, _, hty, _⟩ := h.chann hd
    rw [hty]
    exact h.reserved _ (hb.typed n c hc)
  below n d hd := by
    obtain ⟨c, hc, _⟩ := h.chann hd
    rw [h.nextChann]
    exact hb.below n c hc
  ud n d hd hne := by
    obtain ⟨c, hc, hu, hty, hst⟩ := h.chann hd
    obtain ⟨htls, hopen, hlive⟩ := hb.ud n c hc (hu ▸ hne)
    refine ⟨hty.trans htls, fun he => hopen (hst.mp he), ?_⟩
    obtain ⟨e, he⟩ := Option.ne_none_iff_exists'.mp hlive
    obtain ⟨e', he', _⟩ := h.uds' he
    rw [hu, he']
    exact Option.some_ne_none e'
  inj n m c d hc hd hu hne := by
    obtain ⟨c', hc', hu', _⟩ := h.chann hc
    obtain ⟨d', hd', hv', _⟩ := h.chann hd
    exact hb.inj n m c' d' hc' hd' (by rw [← hu', ← hv', hu]) (hu' ▸ hne)
  opened u d hd hst := by
    obtain ⟨e, he, hcl⟩ := h.opened u d hd hst
    exact hb.opened u e he hcl
  fresh u hu := by
    rw [h.nextUd] at hu
    have hs := h.ssl u
    rw [hb.fresh u hu] at hs
    exact Option.map_eq_none_iff.mp hs
  pos := by
    rw [h.nextUd]
    exact hb.pos
  held u d i hd hi := by
    obtain ⟨e, he, hssl⟩ := h.uds hd
    rw [Ne, h.live]
    exact hb.held u e i he (hssl ▸ hi)
  only u v d e i hd he hi hj := by
    obtain ⟨d', hd', hdssl⟩ := h.uds hd
    obtain ⟨e', he', hessl⟩ := h.uds he
    exact hb.only u v d' e' i hd' he' (hdssl ▸ hi) (hessl ▸ hj)
  unborn i hi := by
    rw [h.nextSsl] at hi
    rw [h.live]
    exact hb.unborn i hi

/-! ## Channels that hold nothing -/

/-- Only channels that hold nothing are different. -/
theorem Owned.unheld (hb : Owned s) (hext : t.ext = s.ext)
    (hall : ∀ m d, t.heap m = some d → t.mnet.reserved d.ctype = true ∧ m < t.nextChann)
    (hold : ∀ m d, t.heap m = some d → d.extUd ≠ 0 → ∃ c, s.heap m = some c ∧ c.holder = d.holder) :
    Owned t where
  typed m d hd := (hall m d hd).1
  below m d hd := (hall m d hd).2
  ud m d hd hne := by
    obtain ⟨c, hc, he⟩ := hold m d hd hne
    have hu : c.extUd = d.extUd := congrArg Prod.fst he
    obtain ⟨hty, hst, hlive⟩ := hb.ud m c hc (hu ▸ hne)
    refine ⟨(congrArg (·.2.1) he).symm.trans hty, ?_, ?_⟩
    · exact fun hcl => hst ((decide_eq_decide.mp (congrArg (·.2.2) he)).mpr hcl)
    · rw [hext, ← hu]
      exact hlive
  inj m i c d hc hd hu hne := by
    obtain ⟨c', hc', he⟩ := hold m c hc hne
    obtain ⟨d', hd', he'⟩ := hold i d hd (hu ▸ hne)
    have hcu : c'.extUd = c.extUd := congrArg Prod.fst he
    have hdu : d'.extUd = d.extUd := congrArg Prod.fst he'
    exact hb.inj m i c' d' hc' hd' (by rw [hcu, hdu, hu]) (hcu ▸ hne)
  opened := hext ▸ hb.opened
  fresh := hext ▸ hb.fresh
  pos := hext ▸ hb.pos
  held := hext ▸ hb.held
  only := hext ▸ hb.only
  unborn := hext ▸ hb.unborn

theorem Created.holder {ctype : Nat} {st : ChannState} (h : Created n ctype st s t) {m : ChannId}
    (hm : m ≠ n) : (t.heap m).map Chann.holder = (s.heap m).map Chann.holder := by
  rw [h.others m hm, Option.map_map]
  congr 1
  funext c
  dsimp only [Function.comp_apply]
  split <;> rfl

theorem Owned.created {ctype : Nat} {st : ChannState} (hb : Owned s)
    (h : Created n ctype st s t) (hres : s.mnet.reserved ctype = true) : Owned t := by
  obtain ⟨p, hp⟩ := h.chann
  have hback : ∀ m d, m ≠ n → t.heap m = some d → ∃ c, s.heap m = some c ∧ c.holder = d.holder := by
    intro m d hm hd
    have ho := h.holder hm
    rw [hd] at ho
    exact Option.map_eq_some_iff.mp ho.symm
  refine hb.unheld h.ext (fun m d hd => ?_) fun m d hd hne => ?_
  · rw [h.mnet, h.nextChann, h.id]
    by_cases hm : m = n
    · subst hm
      rw [hp, Option.some.injEq] at hd
      subst hd
      exact ⟨hres, by rw [h.id]; exact Nat.lt_succ_self _⟩
    · obtain ⟨c, hc, he⟩ := hback m d hm hd
      have hty : c.ctype = d.ctype := congrArg (·.2.1) he
      exact ⟨hty ▸ hb.typed m c hc, Nat.lt_succ_of_lt (hb.below m c hc)⟩
  · refine hback m d (fun hm => ?_) hd
    subst hm
    rw [hp, Option.some.injEq] at hd
    subst hd
    exact hne rfl

/-- A channel that holds nothing is rewritten. -/
theorem Owned.closed {d : Chann} (hb : Owned s) (hc : s.heap n = some c)
    (hheap : t.heap = Function.update s.heap n (some d)) (hext : t.ext = s.ext)
    (hnext : t.nextChann = s.nextChann) (hres : t.mnet.reserved = s.mnet.reserved)
    (hty : d.ctype = c.ctype) (hnone : d.extUd = 0) : Owned t := by
  have hcases : ∀ m e, t.heap m = some e → (m = n ∧ e = d) ∨ s.heap m = some e := by
    intro m e he
    rw [hheap] at he
    by_cases hm : m = n
    · rw [hm, Function.update_self, Option.some.injEq] at he
      exact .inl ⟨hm, he.symm⟩
    · rw [Function.update_of_ne hm] at he
      exact .inr he
  refine hb.unheld hext (fun m e he => ?_) fun m e he hne => ?_
  · rw [hres, hnext]
    obtain ⟨rfl, rfl⟩ | he := hcases m e he
    · rw [hty]
      exact ⟨hb.typed m c hc, hb.below m c hc⟩
    · exact ⟨hb.typed m e he, hb.below m e he⟩
  · obtain ⟨rfl, rfl⟩ | he := hcases m e he
    · exact absurd hnone hne
    · exact ⟨e, he, rfl⟩

theorem Destroyed.holder (h : Destroyed n c s t) {m : ChannId} (hm : m ≠ n) :
    (t.heap m).map Chann.holder = (s.heap m).map Chann.holder := by
  have hbare := congrArg (Option.map Chann.holder) (h.bare m hm)
  rw [Option.map_map, Option.map_map] at hbare
  exact hbare

theorem Owned.destroyed (hb : Owned s) (h : Destroyed n c s t) : Owned t := by
  have hback : ∀ m d, t.heap m = some d → ∃ c, s.heap m = some c ∧ c.holder = d.holder := by
    intro m d hd
    by_cases hm : m = n
    · rw [hm, h.gone] at hd
      cases hd
    · have ho := h.holder hm
      rw [hd] at ho
      exact Option.map_eq_some_iff.mp ho.symm
  refine hb.unheld h.ext (fun m d hd => ?_) fun m d hd _ => hback m d hd
  obtain ⟨e, he, heq⟩ := hback m d hd
  have hty : e.ctype = d.ctype := congrArg (·.2.1) heq
  rw [h.nextChann]
  exact ⟨h.reserved _ (hty ▸ hb.typed m e he), hb.below m e he⟩

/-! ## User data and objects -/

/-- A channel gets other user data, or none. -/
theorem heap_setUd {tu : Nat} {e : Tls} {m : ChannId} {d : Chann}
    (h : ((s.setChann n { c with extUd := tu }).withExt e).heap m = some d) :
    (m = n ∧ d = { c with extUd := tu }) ∨ (m ≠ n ∧ s.heap m = some d) := by
  by_cases hm : m = n
  · subst hm
    simp only [Sys.withExt_heap, Sys.setChann, Function.update_self, Option.some.injEq] at h
    exact .inl ⟨rfl, h.symm⟩
  · simp only [Sys.withExt_heap, Sys.setChann, Function.update_of_ne hm] at h
    exact .inr ⟨hm, h⟩

theorem Tls.alloc_uds {e : Tls} {st : ChannState} {d : TlsUd} (h : (e.alloc st).uds tu = some d) :
    (tu = e.nextUd ∧ d = { state := st }) ∨ (tu ≠ e.nextUd ∧ e.uds tu = some d) := by
  by_cases hu : tu = e.nextUd
  · subst hu
    simp only [Tls.alloc, Tls.setUd, Function.update_self, Option.some.injEq] at h
    exact .inl ⟨rfl, h.symm⟩
  · simp only [Tls.alloc, Tls.setUd, Function.update_of_ne hu] at h
    exact .inr ⟨hu, h⟩

/-- User data that is held is not the next to be allocated. -/
theorem Owned.ne_nextUd (hb : Owned s) (hc : s.heap n = some c) (hne : c.extUd ≠ 0) :
    c.extUd ≠ s.ext.nextUd :=
  fun he => (hb.ud n c hc hne).2.2 (hb.fresh _ (Nat.le_of_eq he.symm))

/-- An object that is held is not the next to be made. -/
theorem Owned.ne_nextSsl (hb : Owned s) {d : TlsUd} {i : SslId} (hd : s.ext.uds tu = some d)
    (hi : d.ssl = some i) : i ≠ s.ext.nextSsl :=
  fun he => hb.held tu d i hd hi (hb.unborn i (Nat.le_of_eq he.symm))

/-- New user data, in which there is no object. -/
theorem Owned.alloc (st : ChannState) (hb : Owned s) (hc : s.heap n = some c)
    (htls : c.ctype = CHANN_TYPE_TLS) (hopen : c.state ≠ .closed) (hst : st ≠ .closed) :
    Owned ((s.setChann n { c with extUd := s.ext.nextUd }).withExt (s.ext.alloc st)) := by
  refine ⟨fun m d hd => ?_, fun m d hd => ?_, fun m d hd hne => ?_, fun m i d e hd he hu hne => ?_,
    fun u d hd => ?_, fun u hu => ?_, Nat.succ_pos _, fun u d i hd hi => ?_,
    fun u v d e i hd he hi hj => ?_, hb.unborn⟩
  · obtain ⟨_, rfl⟩ | ⟨_, hd⟩ := heap_setUd hd
    · exact hb.typed n c hc
    · exact hb.typed m d hd
  · obtain ⟨rfl, rfl⟩ | ⟨_, hd⟩ := heap_setUd hd
    · exact hb.below m c hc
    · exact hb.below m d hd
  · obtain ⟨_, rfl⟩ | ⟨_, hd⟩ := heap_setUd hd
    · refine ⟨htls, hopen, ?_⟩
      simp [Tls.alloc, Tls.setUd]
    · obtain ⟨hty, hst, hlive⟩ := hb.ud m d hd hne
      refine ⟨hty, hst, ?_⟩
      simp only [Sys.withExt_ext, Tls.alloc, Tls.setUd, Function.update_of_ne (hb.ne_nextUd hd hne)]
      exact hlive
  · obtain ⟨rfl, rfl⟩ | ⟨_, hd'⟩ := heap_setUd hd
    all_goals obtain ⟨rfl, rfl⟩ | ⟨_, he'⟩ := heap_setUd he
    · rfl
    · exact absurd hu.symm (hb.ne_nextUd he' (hu ▸ hne))
    · exact absurd hu (hb.ne_nextUd hd' hne)
    · exact hb.inj m i d e hd' he' hu hne
  · obtain ⟨_, rfl⟩ | ⟨_, hd⟩ := Tls.alloc_uds hd
    · exact hst
    · exact hb.opened u d hd
  · have hlt : s.ext.nextUd < u := hu
    simp only [Sys.withExt_ext, Tls.alloc, Tls.setUd, Function.update_of_ne (Nat.ne_of_gt hlt)]
    exact hb.fresh u (Nat.le_of_lt hlt)
  · obtain ⟨_, rfl⟩ | ⟨_, hd⟩ := Tls.alloc_uds hd
    · cases hi
    · exact hb.held u d i hd hi
  · obtain ⟨_, rfl⟩ | ⟨_, hd⟩ := Tls.alloc_uds hd
    · cases hi
    · obtain ⟨_, rfl⟩ | ⟨_, he⟩ := Tls.alloc_uds he
      · cases hj
      · exact hb.only u v d e i hd he hi hj

theorem Tls.begun_uds {e : Tls} {d f : TlsUd} {fd ret err : Int} {op : SslOp} {v : Nat}
    (h : (e.begun n tu d fd op ret err).uds v = some f) :
    (v = tu ∧ f.ssl = some e.nextSsl ∧ (f.state = .connected ∨ f.state = d.state)) ∨
      (v ≠ tu ∧ e.uds v = some f) := by
  by_cases hv : v = tu
  · subst hv
    simp only [Tls.begun, Function.update_self, Option.some.injEq] at h
    subst h
    refine .inl ⟨rfl, rfl, ?_⟩
    dsimp only
    split
    · exact .inl rfl
    · exact .inr rfl
  · simp only [Tls.begun, Function.update_of_ne hv] at h
    exact .inr ⟨hv, h⟩

/-- A new object in user data, in place of the one that is there. -/
theorem Owned.begun {d : TlsUd} {fd ret err : Int} {op : SslOp} (hb : Owned s)
    (hd : s.ext.uds tu = some d) : Owned (s.withExt (s.ext.begun n tu d fd op ret err)) := by
  refine ⟨hb.typed, hb.below, fun m e he hne' => ?_, hb.inj, fun u e he => ?_, fun u hu => ?_, hb.pos,
    fun u e i he hi => ?_, fun u v e f i he hf hi hj => ?_, fun i hi => ?_⟩
  · obtain ⟨hty, hst, hlive⟩ := hb.ud m e he hne'
    refine ⟨hty, hst, ?_⟩
    by_cases hu : e.extUd = tu
    · simp [Tls.begun, hu]
    · simp only [Sys.withExt_ext, Tls.begun, Function.update_of_ne hu]
      exact hlive
  · obtain ⟨_, _, hst | hst⟩ | ⟨_, he⟩ := Tls.begun_uds he
    · rw [hst]
      exact ChannState.noConfusion
    · rw [hst]
      exact hb.opened _ d hd
    · exact hb.opened u e he
  · have hu' : u ≠ tu := fun he => by
      have hf := hb.fresh u hu
      rw [he, hd] at hf
      cases hf
    simp only [Sys.withExt_ext, Tls.begun, Function.update_of_ne hu']
    exact hb.fresh u hu
  · simp only [Sys.withExt_ext, Tls.begun]
    obtain ⟨_, hssl, _⟩ | ⟨_, he⟩ := Tls.begun_uds he
    · cases hssl.symm.trans hi
      rw [Function.update_self]
      exact Option.some_ne_none _
    · rw [Function.update_of_ne (hb.ne_nextSsl he hi)]
      exact hb.held u e i he hi
  · obtain ⟨hu, hssl, _⟩ | ⟨_, he'⟩ := Tls.begun_uds he
    all_goals obtain ⟨hv, hssl', _⟩ | ⟨_, hf'⟩ := Tls.begun_uds hf
    · rw [hu, hv]
    · cases hssl.symm.trans hi
      exact absurd rfl (hb.ne_nextSsl hf' hj)
    · cases hssl'.symm.trans hj
      exact absurd rfl (hb.ne_nextSsl he' hi)
    · exact hb.only u v e f i he' hf' hi hj
  · have hlt : s.ext.nextSsl < i := hi
    simp only [Sys.withExt_ext, Tls.begun, Function.update_of_ne (Nat.ne_of_gt hlt)]
    exact hb.unborn i (Nat.le_of_lt hlt)

/-- The user data of a channel is freed, and the object in it may be. -/
theorem Owned.dropped {d : TlsUd} {e : Tls} (hb : Owned s) (hc : s.heap n = some c)
    (hd : s.ext.uds c.extUd = some d) (huds : e.uds = Function.update s.ext.uds c.extUd none)
    (hssls : ∀ i, d.ssl ≠ some i ∨ s.ext.ssls i = none → e.ssls i = s.ext.ssls i)
    (hnext : e.nextUd = s.ext.nextUd ∧ e.nextSsl = s.ext.nextSsl) :
    Owned ((s.setChann n { c with extUd := 0 }).withExt e) := by
  have hback : ∀ {u f}, e.uds u = some f → u ≠ c.extUd ∧ s.ext.uds u = some f := by
    intro u f hf
    rw [huds] at hf
    by_cases hu : u = c.extUd
    · subst hu
      rw [Function.update_self] at hf
      cases hf
    · rw [Function.update_of_ne hu] at hf
      exact ⟨hu, hf⟩
  refine ⟨fun m f hf => ?_, fun m f hf => ?_, fun m f hf hne' => ?_, fun m i f g hf hg hu hne' => ?_,
    fun u f hf => hb.opened u f (hback hf).2, fun u hu => ?_, ?_, fun u f i hf hi => ?_,
    fun u v f g i hf hg => hb.only u v f g i (hback hf).2 (hback hg).2, fun i hi => ?_⟩
  · obtain ⟨_, rfl⟩ | ⟨_, hf⟩ := heap_setUd hf
    · exact hb.typed n c hc
    · exact hb.typed m f hf
  · obtain ⟨rfl, rfl⟩ | ⟨_, hf⟩ := heap_setUd hf
    · exact hb.below m c hc
    · exact hb.below m f hf
  · obtain ⟨_, rfl⟩ | ⟨hm, hf⟩ := heap_setUd hf
    · exact absurd rfl hne'
    · rw [Sys.withExt_ext, huds, Function.update_of_ne fun hu => hm (hb.inj m n f c hf hc hu hne')]
      exact hb.ud m f hf hne'
  · obtain ⟨_, rfl⟩ | ⟨_, hf⟩ := heap_setUd hf
    · exact absurd rfl hne'
    · obtain ⟨_, rfl⟩ | ⟨_, hg⟩ := heap_setUd hg
      · exact absurd hu hne'
      · exact hb.inj m i f g hf hg hu hne'
  · rw [Sys.withExt_ext, hnext.1] at hu
    rw [Sys.withExt_ext, huds, Function.update_apply, hb.fresh u hu, ite_self]
  · rw [Sys.withExt_ext, hnext.1]
    exact hb.pos
  · obtain ⟨hu, hf⟩ := hback hf
    have hno : d.ssl ≠ some i := fun hi' => hu (hb.only u _ f d i hf hd hi hi')
    rw [Sys.withExt_ext, hssls i (.inl hno)]
    exact hb.held u f i hf hi
  · rw [Sys.withExt_ext, hnext.2] at hi
    rw [Sys.withExt_ext, hssls i (.inr (hb.unborn i hi))]
    exact hb.unborn i hi

theorem Tls.drop_uds (e : Tls) (tu : Nat) (d : TlsUd) :
    (e.drop tu d).uds = Function.update e.uds tu none := by
  unfold Tls.drop
  split <;> rfl

theorem Tls.drop_ssls (e : Tls) (tu : Nat) (d : TlsUd) (i : SslId) :
    (e.drop tu d).ssls i = if d.ssl = some i then none else e.ssls i := by
  unfold Tls.drop
  cases d.ssl with
  | none => rfl
  | some j => by_cases hi : i = j <;> simp [hi, eq_comm]

theorem Tls.drop_next (e : Tls) (tu : Nat) (d : TlsUd) :
    (e.drop tu d).nextUd = e.nextUd ∧ (e.drop tu d).nextSsl = e.nextSsl := by
  unfold Tls.drop
  split <;> exact ⟨rfl, rfl⟩

/-- The user data of a channel is freed, with its object. -/
theorem Owned.drop {d : TlsUd} (hb : Owned s) (hc : s.heap n = some c)
    (hd : s.ext.uds c.extUd = some d) :
    Owned ((s.setChann n { c with extUd := 0 }).withExt (s.ext.drop c.extUd d)) := by
  refine hb.dropped hc hd (s.ext.drop_uds _ _) (fun i hi => ?_) (s.ext.drop_next _ _)
  rw [Tls.drop_ssls]
  obtain hno | hnone := hi
  · rw [if_neg hno]
  · rw [hnone, ite_self]

/-! ## Moves -/

theorem tlsBegin_owned {d : TlsUd} {op : SslOp} (hb : Owned s) (hd : s.ext.uds tu = some d)
    (h : Returns (tlsBegin n tu op) s u t) : Owned t := by
  obtain ⟨c, d', ret, err, a, _, hd', hk, hheap, hext, hcases⟩ := tlsBegin_cases h
  rw [hd, Option.some.injEq] at hd'
  subst hd'
  have ha : Owned a := by
    refine (hb.begun hd).steady (steady_of_ext hext hk.nextChann (fun ctype hr => ?_)
      fun m => by rw [hheap]; rfl)
    rw [hk.mnet]
    exact hr
  obtain ⟨_, rfl⟩ | ⟨_, _, hdown⟩ := hcases
  · exact ha
  · exact ha.steady (steady_tlsDisconnect _ _ hdown)

theorem opened_owned {ctype : Nat} (hb : Owned s) (hres : s.mnet.reserved ctype = true)
    (hnew : Returns (channCreate ctype .disconnect) s n a)
    (hcb : Returns (callback .openCb (extConfig tlsTable ctype).openCb n) a u t) : Owned t := by
  have hcr := channCreate_created hnew
  obtain ⟨_, _, rfl, hcb⟩ := returns_callback.mp hcb
  have har : Owned (a.recorded (.extOp .openCb n)) := (hb.created hcr hres).steady steady_recorded
  obtain ⟨p, hp⟩ := hcr.chann
  obtain ⟨hty, he⟩ | ⟨_, he⟩ := extConfig_cases ctype
  · rw [he] at hcb
    have hcb : Returns (tlsOpenCb n) _ _ t := hcb
    rw [tlsOpenCb_cases (s := a.recorded _) hp (har.typed n _ hp) hcb]
    exact har.alloc _ hp hty (by simp) (by simp)
  · rw [he] at hcb
    rw [(returns_pure.mp hcb).2]
    exact har

/-- The new channel, before its callback. -/
theorem accept_created {b : Sys Tls} {l : ChannId} {lc : Chann} {fd : Int} (addr : SockAddr)
    (hl : s.heap l = some lc) (hnew : NewFd fd s a) (hheap : a.heap = s.heap)
    (hcreate : Returns (channCreate lc.ctype .connected) a n b) (hc : b.heap n = some c) :
    Steady s a ∧ Created n lc.ctype .connected a b ∧ a.heap l = some lc ∧ c.state = .connected ∧ c.extUd = 0 ∧
      Steady b ((b.setChann n { c with fd := fd, addr := addr }).recorded (.extOp .acceptCb n)) := by
  have hcr := channCreate_created hcreate
  obtain ⟨p, hp⟩ := hcr.chann
  rw [hc, Option.some.injEq] at hp
  exact ⟨hnew.steady fun m => by rw [hheap], hcr, hheap ▸ hl, by rw [hp], by rw [hp],
    (steady_setChann hc (by rfl)).trans steady_recorded⟩

theorem accept_owned {b : Sys Tls} {l : ChannId} {lc : Chann} {fd : Int} {addr : SockAddr}
    (hb : Owned s) (hl : s.heap l = some lc) (hnew : NewFd fd s a) (hheap : a.heap = s.heap)
    (hcreate : Returns (channCreate lc.ctype .connected) a n b) (hc : b.heap n = some c)
    (hcb : Returns ((extConfig tlsTable c.ctype).acceptCb n)
      ((b.setChann n { c with fd := fd, addr := addr }).recorded (.extOp .acceptCb n)) u t) :
    Owned t := by
  obtain ⟨ha, hcr, hla, hst, hud, hset⟩ := accept_created addr hl hnew hheap hcreate hc
  have hown := ((hb.steady ha).created hcr ((hb.steady ha).typed l lc hla)).steady hset
  have hn : ((b.setChann n { c with fd := fd, addr := addr }).recorded (.extOp .acceptCb n)).heap n =
      some { c with fd := fd, addr := addr } := Function.update_self ..
  obtain ⟨hty, he⟩ | ⟨_, he⟩ := extConfig_cases c.ctype
  · rw [he] at hcb
    have hbegin := tlsAcceptCb_cases hn (hown.typed n _ hn) hcb
    have halloc := hown.alloc .listening hn hty (by simp [hst]) (by simp)
    exact tlsBegin_owned halloc (d := { state := .listening }) (by simp [Tls.alloc, Tls.setUd]) hbegin
  · rw [he] at hcb
    rw [(returns_pure.mp hcb).2]
    exact hown

/-- Up to its callback, a channel that gets a socket holds what it held. -/
theorem attach_steady {b : Sys Tls} {fd r : Int} {addr : SockAddr} {raw : Nat} {st : ChannState} {op : ExtOp}
    {set : EvtSet} (hc : s.heap n = some c) (hst : c.state = .disconnect) (hnew : NewFd fd s a)
    (hent : Entered raw op st set)
    (hheap : a.heap = Function.update s.heap n (some { c with fd := fd, addr := addr, state := st }))
    (hadd : Returns (evtAdd n set) a r b) : Steady s (b.recorded (.extOp op n)) := by
  have hopen : st ≠ .closed := by
    obtain ⟨hact, _⟩ := hent.active
    intro he
    rw [he] at hact
    exact hact
  have ha : Steady s a := hnew.steady fun m => by
    rw [hheap]
    refine holder_update hc ?_ m
    simp [Chann.holder, hst, hopen]
  obtain ⟨_, _, hctl⟩ := evtAdd_cases hadd
  exact ha.trans (hctl.steady.trans steady_recorded)

/-- A type of which nothing is held. -/
theorem attach_other {op : ExtOp} (hc : s.heap n = some c) (hty : c.ctype ≠ CHANN_TYPE_TLS)
    (h : Move tlsTable s (.attach n op) t) : Steady s t := by
  cases h with
  | attach hc' hst hnew hent hheap hadd hcb =>
    have hs := attach_steady hc' hst hnew hent hheap hadd
    rw [hc, Option.some.injEq] at hc'
    subst hc'
    rw [extConfig_other hty, internalExt_cb] at hcb
    rw [(returns_pure.mp hcb).2]
    exact hs

theorem attach_owned {b : Sys Tls} {fd r : Int} {addr : SockAddr} {st : ChannState} {op : ExtOp}
    {set : EvtSet} (hb : Owned s) (hc : s.heap n = some c) (hst : c.state = .disconnect)
    (hnew : NewFd fd s a) (hent : Entered ((extConfig tlsTable c.ctype).typeFn c.ctype) op st set)
    (hheap : a.heap = Function.update s.heap n (some { c with fd := fd, addr := addr, state := st }))
    (hadd : Returns (evtAdd n set) a r b)
    (hcb : Returns ((extConfig tlsTable c.ctype).cb op n) (b.recorded (.extOp op n)) u t) :
    Owned t := by
  by_cases hty : c.ctype = CHANN_TYPE_TLS
  swap
  · exact hb.steady (attach_other hc hty (.attach hc hst hnew hent hheap hadd hcb))
  have hs := attach_steady hc hst hnew hent hheap hadd
  have hown := hb.steady hs
  obtain ⟨e, he, _⟩ := hs.chann' hc
  rw [hty, extConfig_tls] at hcb
  have hres := hown.typed n e he
  obtain ⟨rfl, _⟩ | ⟨rfl, _⟩ := hent
  · obtain ⟨_, rfl⟩ | ⟨hne, d, hd, hbegin⟩ := tlsConnectCb_cases he hres hcb
    · exact hown
    · refine tlsBegin_owned (hown.steady ?_) (Function.update_self ..) hbegin
      exact steady_modifyUd (fun d => { d with state := .connecting }) (fun _ => rfl)
        (fun _ hcl => by cases hcl) () _ (returns_modifyUd.mpr ⟨d, hd, rfl⟩)
  · obtain ⟨_, rfl⟩ | ⟨hne, rfl⟩ := tlsListenCb_cases he hres hcb
    · exact hown
    · obtain ⟨d, hd⟩ := Option.ne_none_iff_exists'.mp (hown.ud n e he hne).2.2
      exact hown.dropped he hd rfl (fun _ _ => rfl) ⟨rfl, rfl⟩

/-- A channel is closed when its user data is freed with its object. -/
theorem closeCb_cases (hb : Owned s) (hc : s.heap n = some c)
    (hcb : Returns ((extConfig tlsTable c.ctype).closeCb n) s u a) :
    (c.extUd = 0 ∧ a = s) ∨ ∃ d, s.ext.uds c.extUd = some d ∧
      a = (s.setChann n { c with extUd := 0 }).withExt (s.ext.drop c.extUd d) := by
  obtain ⟨hty, he⟩ | ⟨hty, he⟩ := extConfig_cases c.ctype
  · rw [he] at hcb
    obtain ⟨hz, rfl⟩ | ⟨hne, ud, hud, ⟨hcl, _⟩ | ⟨_, _, rfl⟩⟩ := tlsCloseCb_cases hc (hb.typed n c hc) hcb
    · exact .inl ⟨hz, rfl⟩
    · exact absurd hcl (hb.opened _ ud hud)
    · exact .inr ⟨ud, hud, rfl⟩
  · rw [he] at hcb
    refine .inl ⟨?_, (returns_pure.mp hcb).2⟩
    by_contra hne
    exact hty (hb.ud n c hc hne).1

theorem close_owned (hb : Owned s) (h : Returns (channCloseSocket (opsOf tlsTable) n) s u t) :
    Owned t := by
  obtain ⟨c, hc, ⟨_, rfl⟩ | ⟨hst, a, d, v, hcb, hd, rfl⟩⟩ := channCloseSocket_cases h
  · exact hb
  rw [opsConfig_opsOf] at hcb
  have hs : Owned (s.recorded (.extOp .closeCb n)) := hb.steady steady_recorded
  have ha : Owned a ∧ d.extUd = 0 := by
    obtain ⟨hz, rfl⟩ | ⟨ud, hud, rfl⟩ := closeCb_cases hs hc hcb
    · obtain rfl := Option.some.inj (hc.symm.trans hd)
      exact ⟨hs, hz⟩
    · refine ⟨hs.drop hc hud, ?_⟩
      simp only [Sys.withExt_heap, Sys.setChann, Function.update_self, Option.some.injEq] at hd
      rw [← hd]
  exact ha.1.closed hd rfl rfl rfl rfl rfl ha.2

theorem Move.owned {d : Deed} (h : Move tlsTable s d t) (hb : Owned s) (hw : d ≠ .wipe) : Owned t := by
  by_cases hidle : d.idle
  · exact hb.steady (h.steady hidle)
  cases h with
  | opened hres hnew hcb => exact opened_owned hb hres hnew hcb
  | accept hl hnew hheap hcreate hc hcb => exact accept_owned hb hl hnew hheap hcreate hc hcb
  | attach hc hst hnew hent hheap hadd hcb => exact attach_owned hb hc hst hnew hent hheap hadd hcb
  | close _ h => exact close_owned hb h
  | destroy h =>
    obtain ⟨c, hc, ⟨_, rfl⟩ | hdes⟩ := channDestroy_cases h
    · exact hb
    · exact hb.destroyed hdes
  | wipe => exact absurd rfl hw
  | _ => exact absurd trivial hidle

theorem Moves.owned {A : Set Deed} (h : Moves tlsTable A s t) (hw : .wipe ∉ A) (hb : Owned s) : Owned t :=
  h.keeps (fun _ _ _ hd hm hb => hm.owned hb fun he => hw (he ▸ hd)) hb

/-- Where there is no channel, nothing is held. -/
theorem Owned.wiped (hb : Owned s) (hnone : ∀ m, s.heap m = none) : Owned { s with mnet := {} } := by
  refine hb.unheld rfl (fun m d hd => ?_) fun m d hd => ?_
  all_goals
    have hno := hnone m
    rw [show s.heap m = some d from hd] at hno
    cases hno

/-- What the shutdown does before it forgets everything. -/
theorem mnetFini_moves (hs : Ordered s) (h : Returns (mnetFini tlsTable) s u t) : t = s ∨
    ∃ b, Moves tlsTable {d | d = .queue ∨ ∃ n, d = .disconnect n ∨ d = .close n ∨ d = .destroy n} s b ∧
      t = { b with mnet := {} } ∧ ∀ m, b.heap m = none := by
  obtain ⟨_, hnone⟩ := mnetFini_ordered obedient_tlsTable h hs
  simp only [mnetFini, returns_bind, returns_readMnet, and_assoc, exists_and_left,
    exists_eq_left] at h
  rcases returns_ite.mp h with ⟨hinit, h⟩ | ⟨_, h⟩
  · simp only [walkFuel, returns_bind, returns_readMnet, returns_read, returns_modifyMnet, and_assoc,
      exists_and_left, exists_eq_left] at h
    obtain ⟨_, a, hloop, _, b, hfini, rfl⟩ := h
    exact .inr ⟨b, (moves_finiLoop (by simp) _ _ hloop).trans (moves_evtFini (by simp) _ _ hfini), rfl,
      hnone hinit⟩
  · exact .inl (returns_pure.mp h).2

theorem Step.owned {l : Call × Ret} (h : Step tlsTable s l t) (hs : Ordered s) (hb : Owned s) : Owned t := by
  obtain ⟨c, r⟩ := l
  by_cases hc : c = .mnetFini
  · subst hc
    obtain ⟨_, _, h⟩ := returns_ret.mp h
    obtain rfl | ⟨b, hmoves, rfl, hnone⟩ := mnetFini_moves hs h
    · exact hb
    · exact (hmoves.owned (by simp) hb).wiped hnone
  · exact (moves_apiCall c r t h).owned (Call.spares hc) hb

theorem owned_start (o : Oracle) : Owned (Sys.start o {} : Sys Tls) where
  typed n c hc := by cases hc
  below n c hc := by cases hc
  ud n c hc := by cases hc
  inj n m c d hc := by cases hc
  opened u d hd := by cases hd
  fresh _ _ := rfl
  pos := Nat.one_pos
  held u d i hd := by cases hd
  only u v d e i hd := by cases hd
  unborn _ _ := rfl

end MNet
