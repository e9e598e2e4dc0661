import MNet.Dns.Query
import MNet.Dns.Resolver

/-! # Pending lookups

A response is matched to its lookup by the id, and a waiting coroutine by its domain. A domain that
waits keeps an id as long as its last one is not given to another domain. -/

namespace MNet.Dns
open MNet.Lib

variable {s t : Resolver} {m m' : Machine} {qid : Nat} {domain D E : Domain} {callback : Callback}
  {reply : Reply}

/-- `_wait_tbl` holds a callback for the domain. -/
def Resolver.Waits (s : Resolver) (D : Domain) : Prop :=
  ∃ tbl, s.waitTbl D = some tbl ∧ ∃ callback, callback ∈ s.tables tbl

/-- `_qid_tbl` has an entry for the domain. -/
def Resolver.Outstanding (s : Resolver) (D : Domain) : Prop := ∃ qid item, s.qidTbl qid = some item ∧ item.domain = D

/-- Every callback waits for a response that can be matched to it. -/
def Resolver.Answerable (s : Resolver) : Prop := ∀ D, s.Waits D → s.Outstanding D

/-- The domain has this entry and no other. -/
def Resolver.Sole (s : Resolver) (qid : Nat) (D : Domain) : Prop :=
  s.Outstanding D ∧ ∀ q item, s.qidTbl q = some item → item.domain = D → q = qid

/-- The domain is looked up by a request: it has no address yet, and a query can be built for it. -/
def Resolver.Requests (s : Resolver) (qid : Nat) (D : Domain) : Prop :=
  s.domainTbl D = none ∧ ∃ querySize p,
    mdnsQueryBuild (some s.buf) (UInt16.ofNat qid) (some (cstring D)) = .ok (querySize, p) ∧ 0 < querySize

/-- An id is taken away from a domain that waits only if it has another one: when it is drawn for a
second domain, and when the packet it was in has been processed. -/
def Spares (m : Machine) : Input → Prop
  | .lookup qid D _ => m.res.Requests qid D → ∀ E, E ≠ D → m.res.Waits E → ¬ m.res.Sole qid E
  | .done => ∀ f ∈ m.frames.head?, ∀ E, E ≠ f.domain → m.res.Waits E → ¬ m.res.Sole f.qid E
  | _ => True

/-- Each domain has a table of its own. -/
structure Tidy (s : Resolver) : Prop where
  lt : ∀ D tbl, s.waitTbl D = some tbl → tbl < s.nextTbl
  inj : ∀ D E tbl, s.waitTbl D = some tbl → s.waitTbl E = some tbl → D = E

/-! ## The tables -/

/-- Only the entry under the id is different. -/
theorem Resolver.Outstanding.update (h : s.Outstanding E) {entry : Option Item}
    (hqid : t.qidTbl = Function.update s.qidTbl qid entry) (hs : ¬ s.Sole qid E) : t.Outstanding E := by
  have hother : ∃ q item, s.qidTbl q = some item ∧ item.domain = E ∧ q ≠ qid := by
    by_contra hno
    refine hs ⟨h, fun q item hq hitem => ?_⟩
    by_contra hne
    exact hno ⟨q, item, hq, hitem, hne⟩
  obtain ⟨q, item, hq, hitem, hne⟩ := hother
  refine ⟨q, item, ?_, hitem⟩
  rw [hqid, Function.update_of_ne hne, hq]

/-- The table of the domain is there, and the tables of the others are as they were. -/
theorem waiters_cases (domain : Domain) (ht : Tidy s) : ∃ tbl u, s.waiters domain = (tbl, u) ∧ Tidy u ∧
    u.waitTbl domain = some tbl ∧ u.qidTbl = s.qidTbl ∧
    (∀ E, E ≠ domain → ∀ tbl', u.waitTbl E = some tbl' ↔ s.waitTbl E = some tbl') ∧
    ∀ E, E ≠ domain → ∀ tbl', u.waitTbl E = some tbl' → u.tables tbl' = s.tables tbl' := by
  unfold Resolver.waiters
  cases hw : s.waitTbl domain with
  | some tbl => exact ⟨tbl, s, rfl, ht, hw, rfl, fun _ _ _ => Iff.rfl, fun _ _ _ _ => rfl⟩
  | none =>
    have hne : ∀ {E : Domain}, E ≠ domain →
        Function.update s.waitTbl domain (some s.nextTbl) E = s.waitTbl E := fun h => Function.update_of_ne h ..
    have hself : Function.update s.waitTbl domain (some s.nextTbl) domain = some s.nextTbl :=
      Function.update_self ..
    refine ⟨_, _, rfl, ⟨fun E tbl h => ?_, fun E F tbl h h' => ?_⟩, hself, rfl, fun E hE tbl => ?_,
      fun E hE tbl h => ?_⟩
    · by_cases hE : E = domain
      · rw [hE] at h
        have h := hself.symm.trans h
        cases h
        exact Nat.lt_succ_self _
      · have h := (hne hE).symm.trans h
        exact Nat.lt_succ_of_lt (ht.lt E tbl h)
    · -- a new table is no old one
      by_cases hE : E = domain <;> by_cases hF : F = domain
      · rw [hE, hF]
      · rw [hE] at h
        have h := hself.symm.trans h
        cases h
        exact absurd (ht.lt F _ ((hne hF).symm.trans h')) (Nat.lt_irrefl _)
      · rw [hF] at h'
        have h' := hself.symm.trans h'
        cases h'
        exact absurd (ht.lt E _ ((hne hE).symm.trans h)) (Nat.lt_irrefl _)
      · exact ht.inj E F tbl ((hne hE).symm.trans h) ((hne hF).symm.trans h')
    · show Function.update s.waitTbl domain (some s.nextTbl) E = some tbl ↔ _
      rw [hne hE]
    · have h := ht.lt E tbl ((hne hE).symm.trans h)
      exact Function.update_of_ne (Nat.ne_of_lt h) ..

theorem addWaiter_cases (domain : Domain) (callback : Callback) (ht : Tidy s) : Tidy (s.addWaiter domain callback) ∧
    (s.addWaiter domain callback).qidTbl = s.qidTbl ∧
    ∀ E, E ≠ domain → ((s.addWaiter domain callback).Waits E ↔ s.Waits E) := by
  obtain ⟨tbl, u, hu, htidy, hwait, hqid, hothers, htables⟩ := waiters_cases domain ht
  have he : s.addWaiter domain callback =
      { u with tables := Function.update u.tables tbl (u.tables tbl ++ [callback]) } := by
    rw [Resolver.addWaiter, hu]
  rw [he]
  refine ⟨⟨htidy.lt, htidy.inj⟩, hqid, fun E hE => ?_⟩
  have hother : ∀ {tbl' : TblId}, u.waitTbl E = some tbl' →
      Function.update u.tables tbl (u.tables tbl ++ [callback]) tbl' = s.tables tbl' := by
    intro tbl' hwait'
    have hne : tbl' ≠ tbl := by
      intro he
      rw [he] at hwait'
      exact hE (htidy.inj E domain tbl hwait' hwait)
    rw [Function.update_of_ne hne, htables E hE tbl' hwait']
  constructor
  · intro ⟨tbl', hwait', callback', hmem⟩
    exact ⟨tbl', (hothers E hE tbl').mp hwait', callback', hother hwait' ▸ hmem⟩
  · intro ⟨tbl', hwait', callback', hmem⟩
    have hwait' := (hothers E hE tbl').mpr hwait'
    refine ⟨tbl', hwait', callback', ?_⟩
    show callback' ∈ Function.update u.tables tbl (u.tables tbl ++ [callback]) tbl'
    rw [hother hwait']
    exact hmem

/-! ## Lookups -/

/-- The query of a lookup. The array `_domain` holds every domain that comes so far. -/
theorem sendRequest_ok {sent : Bool} (h : sendRequest qid domain callback s = .ok (sent, t)) :
    domain.length < QUERY_DOMAIN_LEN ∧ ∃ querySize p,
      mdnsQueryBuild (some s.buf) (UInt16.ofNat qid) (some (cstring domain)) = .ok (querySize, p) ∧
      ((querySize ≤ 0 ∧ sent = false ∧ t = { s with buf := p.getD [] }) ∨
        (0 < querySize ∧ sent = true ∧
          t = (({ s with buf := p.getD [] } : Resolver).request qid ⟨domain, querySize⟩).addWaiter domain callback)) := by
  unfold sendRequest copyDomain at h
  by_cases hlen : domain.length + 1 ≤ QUERY_DOMAIN_LEN
  · rw [if_pos hlen] at h
    refine ⟨hlen, ?_⟩
    cases hbuild : mdnsQueryBuild (some s.buf) (UInt16.ofNat qid) (some (cstring domain)) with
    | error e =>
      simp only [hbuild, bind, Except.bind] at h
      cases h
    | ok built =>
      obtain ⟨querySize, p⟩ := built
      refine ⟨querySize, p, rfl, ?_⟩
      simp only [hbuild, bind, Except.bind] at h
      by_cases hpos : querySize ≤ 0
      · rw [if_pos hpos] at h
        cases h
        exact .inl ⟨hpos, rfl, rfl⟩
      · rw [if_neg hpos] at h
        cases h
        exact .inr ⟨Int.lt_of_not_ge hpos, rfl, rfl⟩
  · rw [if_neg hlen] at h
    cases h

/-- A lookup that sends a request files it; any other only fills `_buf`. -/
theorem queryHost_ok (h : queryHost qid domain s = .ok (reply, t)) :
    (¬ s.Requests qid domain ∧ reply ≠ .waits ∧
      ∃ buf n, s.nextCallback ≤ n ∧ t = { s with buf := buf, nextCallback := n }) ∨
    (s.Requests qid domain ∧ domain.length < QUERY_DOMAIN_LEN ∧ ∃ querySize buf,
      t = (({ s with buf := buf, nextCallback := s.nextCallback + 1 } : Resolver).request qid
        ⟨domain, querySize⟩).addWaiter domain s.nextCallback) := by
  unfold queryHost at h
  cases hd : s.domainTbl domain with
  | some addr =>
    rw [hd] at h
    cases h
    refine .inl ⟨fun hreq => ?_, nofun, s.buf, s.nextCallback, Nat.le_refl _, rfl⟩
    rw [hreq.1] at hd
    cases hd
  | none =>
    rw [hd] at h
    cases hsend : sendRequest qid domain s.nextCallback { s with nextCallback := s.nextCallback + 1 } with
    | error e =>
      simp only [hsend, bind, Except.bind] at h
      cases h
    | ok result =>
      obtain ⟨sent, u⟩ := result
      simp only [hsend, bind, Except.bind] at h
      cases h
      obtain ⟨hlen, querySize, p, hbuild, ⟨hneg, rfl, rfl⟩ | ⟨hpos, rfl, rfl⟩⟩ := sendRequest_ok hsend
      · refine .inl ⟨fun hreq => ?_, nofun, p.getD [], s.nextCallback + 1, Nat.le_succ _, rfl⟩
        obtain ⟨_, querySize', p', hbuild', hpos'⟩ := hreq
        rw [hbuild, Except.ok.injEq, Prod.mk.injEq] at hbuild'
        rw [hbuild'.1] at hneg
        exact absurd hneg (Int.not_le.mpr hpos')
      · exact .inr ⟨⟨hd, querySize, p, hbuild, hpos⟩, hlen, querySize, p.getD [], rfl⟩

/-- A lookup changes no table, or it files a request. -/
theorem queryHost_cases (ht : Tidy s) (hq : queryHost qid domain s = .ok (reply, t)) :
    (¬ s.Requests qid domain ∧ t.qidTbl = s.qidTbl ∧ t.waitTbl = s.waitTbl ∧ t.tables = s.tables ∧
      t.nextTbl = s.nextTbl) ∨
    (s.Requests qid domain ∧ Tidy t ∧ ∃ item, item.domain = domain ∧
      t.qidTbl = Function.update s.qidTbl qid (some item) ∧ ∀ E, E ≠ domain → (t.Waits E ↔ s.Waits E)) := by
  obtain ⟨hno, _, buf, n, _, rfl⟩ | ⟨hreq, _, querySize, buf, rfl⟩ := queryHost_ok hq
  · exact .inl ⟨hno, rfl, rfl, rfl, rfl⟩
  · have hadd := addWaiter_cases domain s.nextCallback (s := Resolver.request
      { s with buf := buf, nextCallback := s.nextCallback + 1 } qid ⟨domain, querySize⟩) ⟨ht.lt, ht.inj⟩
    exact .inr ⟨hreq, hadd.1, ⟨domain, querySize⟩, rfl, hadd.2.1, hadd.2.2⟩

/-- What C sees of a domain that fits into `_domain` is not too long for a query. -/
theorem cstring_not_overruns (hlen : domain.length < QUERY_DOMAIN_LEN) : ¬ (cstring domain).Overruns := by
  have htake : (cstring domain).bytes.length ≤ domain.length := (List.takeWhile_prefix _).length_le
  unfold QUERY_DOMAIN_LEN at hlen
  exact CString.not_overruns (by omega)

theorem addWaiter_buf : (s.addWaiter domain callback).buf = s.buf := by
  unfold Resolver.addWaiter Resolver.waiters
  cases s.waitTbl domain <;> rfl

/-- The one fault of a lookup is a domain that does not fit into `_domain`. -/
theorem queryHost_returns (qid : Nat) (hb : s.buf.length = DNS_BUF_SIZE) (hlen : domain.length < QUERY_DOMAIN_LEN) :
    ∃ reply t, queryHost qid domain s = .ok (reply, t) ∧ t.buf.length = DNS_BUF_SIZE := by
  unfold queryHost
  cases s.domainTbl domain with
  | some addr => exact ⟨_, s, rfl, hb⟩
  | none =>
    obtain ⟨r, p, hbuild, hp⟩ := mdnsQueryBuild_returns (UInt16.ofNat qid) (Nat.le_of_eq hb.symm)
      (cstring_not_overruns hlen)
    have hlen : domain.length + 1 ≤ QUERY_DOMAIN_LEN := hlen
    simp only [sendRequest, copyDomain, if_pos hlen, bind, Except.bind, hbuild]
    by_cases hpos : r ≤ 0
    · rw [if_pos hpos]
      exact ⟨_, _, rfl, hp.trans hb⟩
    · rw [if_neg hpos]
      exact ⟨_, _, rfl, (congrArg List.length addWaiter_buf).trans (hp.trans hb)⟩

/-- An address that is known is found whatever the length of the domain. -/
theorem queryHost_long (hlen : ¬ domain.length < QUERY_DOMAIN_LEN) (hq : queryHost qid domain s = .ok (reply, t)) :
    t = s := by
  unfold queryHost at hq
  cases hd : s.domainTbl domain with
  | some addr =>
    rw [hd] at hq
    cases hq
    rfl
  | none =>
    have hlen : ¬ domain.length + 1 ≤ QUERY_DOMAIN_LEN := hlen
    rw [hd] at hq
    simp only [sendRequest, copyDomain, if_neg hlen, bind, Except.bind] at hq
    cases hq

/-- The first lookup that waits has its id to itself. -/
theorem queryHost_sole (ht : Tidy s) (hempty : s.qidTbl = fun _ => none)
    (hq : queryHost qid domain s = .ok (.waits, t)) : t.Sole qid domain := by
  obtain ⟨_, hno, _⟩ | ⟨hreq, _⟩ := queryHost_ok hq
  · exact absurd rfl hno
  obtain ⟨hno, _⟩ | ⟨_, _, item, hitem, hqid, _⟩ := queryHost_cases ht hq
  · exact absurd hreq hno
  rw [hempty] at hqid
  refine ⟨⟨qid, item, ?_, hitem⟩, fun q it hit _ => ?_⟩
  · rw [hqid, Function.update_self]
  · by_contra hne
    rw [hqid, Function.update_of_ne hne] at hit
    cases hit

/-! ## Packets -/

/-- A packet that is processed leaves the tables to its frame, which is that of its domain, with no
callback called yet. If nobody waits there is no frame, and the id is dropped at once. -/
theorem recvResponse_cases {pkgData out : List UInt8} {item : Item} {ret : Int} {f : Option Frame}
    (h : recvResponse pkgData qid item ret out s = (f, t)) : t.waitTbl = s.waitTbl ∧ t.tables = s.tables ∧
      t.nextTbl = s.nextTbl ∧ t.nextCallback = s.nextCallback ∧
      ((f = none ∧ s.waitTbl item.domain = none ∧ t.qidTbl = Function.update s.qidTbl qid none) ∨
        (∃ g, f = some g ∧ g.domain = item.domain ∧ s.waitTbl item.domain = some g.tbl ∧ g.next = 0 ∧
          t.qidTbl = s.qidTbl)) := by
  simp only [recvResponse] at h
  -- the copy of the address makes no difference
  generalize hu : (if ret ≤ 0 then _ else _ : Resolver) = u at h
  have hwait : u.waitTbl = s.waitTbl := by rw [← hu]; split <;> rfl
  have htables : u.tables = s.tables := by rw [← hu]; split <;> rfl
  have hnext : u.nextTbl = s.nextTbl := by rw [← hu]; split <;> rfl
  have hcallback : u.nextCallback = s.nextCallback := by rw [← hu]; split <;> rfl
  have hqid : u.qidTbl = s.qidTbl := by rw [← hu]; split <;> rfl
  rw [← hwait]
  cases hw : u.waitTbl item.domain with
  | some tbl =>
    simp only [hw] at h
    cases h
    exact ⟨rfl, htables, hnext, hcallback, .inr ⟨_, rfl, rfl, rfl, rfl, hqid⟩⟩
  | none =>
    simp only [hw] at h
    cases h
    exact ⟨rfl, htables, hnext, hcallback, .inl ⟨rfl, rfl, hqid ▸ rfl⟩⟩

theorem recvResponse_buf {pkgData out : List UInt8} {item : Item} {ret : Int} :
    (recvResponse pkgData qid item ret out s).2.buf = (s.filled pkgData).buf := by
  simp only [recvResponse]
  split <;> split <;> rfl

/-! ## Runs -/

/-- What waits and what is outstanding depends on the tables. -/
theorem answerable_congr (hqid : t.qidTbl = s.qidTbl) (hwait : t.waitTbl = s.waitTbl)
    (htables : t.tables = s.tables) (h : s.Answerable) : t.Answerable := by
  intro D hw
  obtain ⟨tbl, htbl, callback, hmem⟩ := hw
  obtain ⟨qid, item, hitem, hD⟩ := h D ⟨tbl, hwait ▸ htbl, callback, htables ▸ hmem⟩
  exact ⟨qid, item, hqid ▸ hitem, hD⟩

theorem Next.tidy {l : Input} (h : Next m l m') (ht : Tidy m.res) : Tidy m'.res := by
  have hsame : ∀ {t : Resolver}, t.waitTbl = m.res.waitTbl → t.nextTbl = m.res.nextTbl → Tidy t := by
    intro t hwait hnext
    exact ⟨fun D tbl h => hnext ▸ ht.lt D tbl (hwait ▸ h), fun D E tbl h h' => ht.inj D E tbl (hwait ▸ h) (hwait ▸ h')⟩
  cases h with
  | lookup _ _ _ hq =>
    obtain ⟨_, _, hwait, _, hnext⟩ | ⟨_, htidy, _⟩ := queryHost_cases ht hq
    · exact hsame hwait hnext
    · exact htidy
  | noPacket | unknown | call => exact hsame rfl rfl
  | packet =>
    obtain ⟨hwait, _, hnext, _⟩ := recvResponse_cases rfl
    exact hsame hwait hnext
  | @done f =>
    have hkept : ∀ {D : Domain} {tbl : TblId}, (m.res.finish f).waitTbl D = some tbl → m.res.waitTbl D = some tbl := by
      intro D tbl h
      by_cases hD : D = f.domain
      · rw [hD, show (m.res.finish f).waitTbl f.domain = none from Function.update_self ..] at h
        cases h
      · exact (Function.update_of_ne hD ..).symm.trans h
    exact ⟨fun D tbl h => ht.lt D tbl (hkept h), fun D E tbl h h' => ht.inj D E tbl (hkept h) (hkept h')⟩

theorem length_store {buf bytes : List UInt8} (h : bytes.length ≤ buf.length) :
    (store buf 0 bytes).length = buf.length := by
  simp only [store, List.length_append, List.length_take, List.length_drop]
  omega

theorem Next.length_buf {l : Input} (h : Next m l m') (hb : m.res.buf.length = DNS_BUF_SIZE) :
    m'.res.buf.length = DNS_BUF_SIZE := by
  have hfilled : ∀ {pkgData : List UInt8}, pkgData.length ≤ DNS_BUF_SIZE →
      (m.res.filled pkgData).buf.length = DNS_BUF_SIZE := fun hlen => (length_store (hb ▸ hlen)).trans hb
  cases h with
  | @lookup qid domain reply t _ _ _ hq =>
    by_cases hlen : domain.length < QUERY_DOMAIN_LEN
    · obtain ⟨reply', t', hq', ht'⟩ := queryHost_returns qid hb hlen
      rw [hq, Except.ok.injEq, Prod.mk.injEq] at hq'
      rw [hq'.2]
      exact ht'
    · rw [queryHost_long hlen hq]
      exact hb
  | noPacket | call | done => exact hb
  | unknown _ hlen => exact hfilled hlen
  | packet _ hlen => exact (congrArg List.length recvResponse_buf).trans (hfilled hlen)

/-- A lookup of a domain that fits has an outcome at any time. -/
theorem lookup_returns {svrTbl : List Nat} {l : List Input} (h : Path Next (Machine.start svrTbl) l m) (qid : Nat)
    (hlen : domain.length < QUERY_DOMAIN_LEN) : ∃ reply t, queryHost qid domain m.res = .ok (reply, t) := by
  have hb : m.res.buf.length = DNS_BUF_SIZE := h.keeps (I := fun m => m.res.buf.length = DNS_BUF_SIZE)
    (fun _ _ _ hs hb => hs.length_buf hb) List.length_replicate
  obtain ⟨reply, t, hq, _⟩ := queryHost_returns qid hb hlen
  exact ⟨reply, t, hq⟩

theorem Next.answerable {l : Input} (h : Next m l m') (ht : Tidy m.res) (ha : m.res.Answerable)
    (hs : Spares m l) : m'.res.Answerable := by
  cases h with
  | @lookup qid domain reply t _ _ _ hq =>
    show t.Answerable
    obtain ⟨_, hqid, hwait, htables, _⟩ | ⟨hreq, _, item, hitem, hqid, hothers⟩ := queryHost_cases ht hq
    · exact answerable_congr hqid hwait htables ha
    · intro D hw
      by_cases hD : D = domain
      · refine ⟨qid, item, ?_, hitem.trans hD.symm⟩
        rw [hqid, Function.update_self]
      · have hw := (hothers D hD).mp hw
        exact (ha D hw).update hqid (hs hreq D hD hw)
  | noPacket | unknown | call => exact answerable_congr rfl rfl rfl ha
  | @packet pkgData out qid item ret _ _ _ hitem =>
    show (recvResponse pkgData qid item ret out m.res).2.Answerable
    obtain ⟨f, t, hr⟩ : ∃ f t, recvResponse pkgData qid item ret out m.res = (f, t) := ⟨_, _, rfl⟩
    rw [hr]
    obtain ⟨hwait, htables, _, _, ⟨_, hnone, hqid⟩ | ⟨_, _, _, _, _, hqid⟩⟩ := recvResponse_cases hr
    · intro D hw
      obtain ⟨tbl, htbl, callback, hmem⟩ := hw
      rw [hwait] at htbl
      rw [htables] at hmem
      refine (ha D ⟨tbl, htbl, callback, hmem⟩).update hqid fun hsole => ?_
      -- nobody waits for the domain of the id
      obtain ⟨q, it, hq, hD⟩ := hsole.1
      obtain rfl := hsole.2 q it hq hD
      rw [hitem, Option.some.injEq] at hq
      rw [hq, hD, htbl] at hnone
      cases hnone
    · exact answerable_congr hqid hwait htables ha
  | @done f fs hf =>
    intro D hw
    obtain ⟨tbl, htbl, callback, hmem⟩ := hw
    have hD : D ≠ f.domain := by
      intro he
      rw [he, show (m.res.finish f).waitTbl f.domain = none from Function.update_self ..] at htbl
      cases htbl
    have hw : m.res.Waits D := ⟨tbl, (Function.update_of_ne hD ..).symm.trans htbl, callback, hmem⟩
    exact (ha D hw).update rfl (hs f (by rw [hf]; rfl) D hD hw)

/-- The condition cannot be weakened: a step that takes the last id of a domain that waits leaves it
without one. -/
theorem Next.unanswerable {l : Input} (h : Next m l m') (ht : Tidy m.res) (hs : ¬ Spares m l) :
    ¬ m'.res.Answerable := by
  have hgone : ∀ {t : Resolver} {qid : Nat} {E : Domain} {e : Option Item}, m.res.Sole qid E → t.Waits E →
      t.qidTbl = Function.update m.res.qidTbl qid e → (∀ item ∈ e, item.domain ≠ E) → ¬ t.Answerable := by
    intro t qid E e hsole hw hqid hentry ha
    obtain ⟨q, item, hq, hE⟩ := ha E hw
    rw [hqid] at hq
    by_cases hne : q = qid
    · rw [hne, Function.update_self] at hq
      exact hentry item hq hE
    · rw [Function.update_of_ne hne] at hq
      exact hne (hsole.2 q item hq hE)
  cases h with
  | noPacket | unknown | call | packet => exact absurd trivial hs
  | @lookup qid domain reply t _ _ _ hq =>
    show ¬ t.Answerable
    simp only [Spares, not_forall, not_not] at hs
    obtain ⟨hreq, E, hE, hw, hsole⟩ := hs
    obtain ⟨hno, _⟩ | ⟨_, _, item, hitem, hqid, hothers⟩ := queryHost_cases ht hq
    · exact absurd hreq hno
    · refine hgone hsole ((hothers E hE).mpr hw) hqid fun it hit => ?_
      cases hit
      rw [hitem]
      exact hE.symm
  | @done f fs hf =>
    simp only [Spares, hf, List.head?_cons, Option.mem_some_iff, forall_eq', not_forall, not_not] at hs
    obtain ⟨E, hE, ⟨tbl, htbl, callback, hmem⟩, hsole⟩ := hs
    have hw : (m.res.finish f).Waits E := ⟨tbl, (Function.update_of_ne hE ..).trans htbl, callback, hmem⟩
    exact hgone (e := none) hsole hw rfl (by simp)

theorem tidy_start (svrTbl : List Nat) : Tidy (Machine.start svrTbl).res where
  lt D tbl h := by cases h
  inj D E tbl h := by cases h

/-- As long as no lookup is given the last id of another domain that waits, every waiting callback has
an entry by which a response can be matched to it. -/
theorem pending_answerable {svrTbl : List Nat} {l : List Input}
    (h : Path (fun m l m' => Next m l m' ∧ Spares m l) (Machine.start svrTbl) l m) : m.res.Answerable := by
  have hinv : Tidy m.res ∧ m.res.Answerable := h.keeps (I := fun m => Tidy m.res ∧ m.res.Answerable)
    (fun _ _ _ hs hi => ⟨hs.1.tidy hi.1, hs.1.answerable hi.1 hi.2 hs.2⟩) ⟨tidy_start svrTbl, fun D hw => ?_⟩
  · exact hinv.2
  · obtain ⟨_, h, _⟩ := hw
    cases h

/-- An id that is not in use can be drawn. -/
theorem spares_unused (h : m.res.qidTbl qid = none) : Spares m (.lookup qid D reply) := by
  intro _ E _ _ hsole
  obtain ⟨q, item, hq, hE⟩ := hsole.1
  rw [hsole.2 q item hq hE, h] at hq
  cases hq

/-- The id of a packet can be dropped while it is that of its domain. -/
theorem spares_done (h : ∀ f ∈ m.frames.head?, ∀ item ∈ m.res.qidTbl f.qid, item.domain = f.domain) :
    Spares m .done := by
  intro f hf E hE _ hsole
  obtain ⟨q, item, hq, hitem⟩ := hsole.1
  rw [hsole.2 q item hq hitem] at hq
  exact hE (hitem.symm.trans (h f hf item hq))

theorem parsed_of {pkgData out : List UInt8} {item : Item} {ret : Int} (stack : Nat → UInt8)
    (h : mdnsResponseParse stack (some (s.filled pkgData).buf) pkgData.length item.querySize
      (some (cstring item.domain)) (some s.outIpv4) = .ok (ret, some out)) : s.Parsed pkgData item ret out := by
  refine ⟨stack, ?_⟩
  rw [h]
  exact ⟨rfl, rfl⟩

/-- What a lookup leaves behind. -/
def Resolver.lookedUp (s : Resolver) (qid : Nat) (domain : Domain) : Resolver :=
  match queryHost qid domain s with
  | .ok (_, t) => t
  | .error _ => s

theorem queryHost_lookedUp (h : (queryHost qid domain s).toOption.map Prod.fst = some reply) :
    queryHost qid domain s = .ok (reply, s.lookedUp qid domain) := by
  unfold Resolver.lookedUp
  cases hq : queryHost qid domain s with
  | error e =>
    rw [hq] at h
    cases h
  | ok result =>
    rw [hq] at h
    cases h
    rfl

/-- `a.b` and `c.d` -/
def domains : Domain × Domain := ([97, 46, 98], [99, 46, 100])

/-- Two lookups, and a broken response to the first. -/
theorem pending_answerable_once : ∃ m : Machine, m.res.Waits domains.2 ∧ m.invoked = [(0, none)] ∧
    m.res.Answerable := by
  let a : Machine := { Machine.start [4] with res := (Machine.start [4]).res.lookedUp 1 domains.1 }
  let b : Machine := { a with res := a.res.lookedUp 2 domains.2 }
  let c : Machine := { b with
    res := (recvResponse [1, 0] 1 ⟨domains.1, 21⟩ (-10) [0, 0, 0, 0] b.res).2
    frames := (recvResponse [1, 0] 1 ⟨domains.1, 21⟩ (-10) [0, 0, 0, 0] b.res).1.toList ++ b.frames }
  let d : Machine := { c with frames := [⟨1, domains.1, none, 0, 1⟩], invoked := [(0, none)] }
  let e : Machine := { d with frames := [], res := d.res.finish ⟨1, domains.1, none, 0, 1⟩ }
  have hfirst : queryHost 1 domains.1 (Machine.start [4]).res = .ok (.waits, (Machine.start [4]).res.lookedUp 1 domains.1) :=
    queryHost_lookedUp (by decide +kernel)
  have hsecond : queryHost 2 domains.2 a.res = .ok (.waits, a.res.lookedUp 2 domains.2) :=
    queryHost_lookedUp (by decide +kernel)
  have hb : Next b (.packet (some [1, 0])) c := by
    refine .packet (fun f hf => by cases hf) (by decide) (by decide +kernel) (by decide +kernel)
      (parsed_of (fun _ => 0) ?_)
    decide +kernel
  have hrun : Path (fun m l m' => Next m l m' ∧ Spares m l) (Machine.start [4])
      [.lookup 1 domains.1 .waits, .lookup 2 domains.2 .waits, .packet (some [1, 0]), .call 0 none, .done] e :=
    .cons ⟨.lookup (fun f hf => by cases hf) (by decide) (by decide) hfirst, spares_unused rfl⟩ <|
    .cons ⟨.lookup (fun f hf => by cases hf) (by decide) (by decide) hsecond,
      spares_unused (by decide +kernel)⟩ <|
    .cons ⟨hb, trivial⟩ <|
    .cons ⟨.call (f := ⟨1, domains.1, none, 0, 0⟩) (by decide +kernel) (by decide +kernel), trivial⟩ <|
    .cons ⟨.done rfl (by decide +kernel), spares_done (by decide +kernel)⟩ .nil
  exact ⟨e, ⟨1, by decide +kernel, 1, by decide +kernel⟩, rfl, pending_answerable hrun⟩

/-- Two domains are given the same id. -/
theorem not_pending_answerable : ¬ ∀ (svrTbl : List Nat) (l : List Input) (m : Machine),
    Path Next (Machine.start svrTbl) l m → m.res.Answerable := by
  obtain ⟨s, t, hfirst, hsecond, hw⟩ : ∃ s t,
      queryHost 7 domains.1 (Machine.start [4]).res = .ok (.waits, s) ∧
      queryHost 7 domains.2 s = .ok (.waits, t) ∧ s.Waits domains.1 :=
    ⟨_, _, queryHost_lookedUp (by decide +kernel), queryHost_lookedUp (by decide +kernel),
      0, by decide +kernel, 0, by decide +kernel⟩
  let a : Machine := { Machine.start [4] with res := s }
  let b : Machine := { a with res := t }
  have hrun : Path Next (Machine.start [4]) [.lookup 7 domains.1 .waits] a :=
    .single (.lookup (fun f hf => by cases hf) (by decide) (by decide) hfirst)
  have hstep : Next a (.lookup 7 domains.2 .waits) b :=
    .lookup (fun f hf => by cases hf) (by decide) (by decide) hsecond
  have ha : Tidy a.res := hrun.keeps (fun _ _ _ hs => hs.tidy) (tidy_start [4])
  intro hall
  refine hstep.unanswerable ha (fun hspares => ?_) (hall _ _ b (hrun.snoc hstep))
  -- the first domain waits, and the id is its only one
  have hsole := queryHost_sole (tidy_start [4]) rfl hfirst
  obtain ⟨_, hno, _⟩ | ⟨hreq, _⟩ := queryHost_ok hsecond
  · exact hno rfl
  · exact hspares hreq domains.1 (by decide) hw hsole

end MNet.Dns
