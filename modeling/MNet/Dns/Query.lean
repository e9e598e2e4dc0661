import MNet.Dns.Writes

/-! # Queries

The packet of a query: the header, the field of the name and the question behind each other in the
cleared buffer. Reading it in the sense of RFC 1035 gives the labels back. -/

namespace MNet.Dns
open MNet.Lib MNet.Lib.Exec MNet.Lib.Rfc1035

variable {domain : CString} {w : DomainBuf}

/-! ## The packet -/

theorem load16_bytes16 (v : UInt16) :
    load16 (UInt8.ofNat v.toNat) (UInt8.ofNat (v.toNat / 256)) = v := by
  have hv := v.toNat_lt
  refine UInt16.toNat_inj.mp ?_
  simp only [load16, UInt16.toNat_ofNat', UInt8.toNat_ofNat']
  omega

/-- A part of a buffer is replaced. -/
theorem store_append (pre : List UInt8) {mid post bytes : List UInt8} (h : bytes.length = mid.length) :
    store (pre ++ (mid ++ post)) pre.length bytes = pre ++ (bytes ++ post) := by
  have hdrop : (pre ++ (mid ++ post)).drop (pre.length + bytes.length) = post := by
    rw [← List.drop_drop, List.drop_left, h, List.drop_left]
  rw [store, List.take_left, hdrop, List.append_assoc]

/-- What a query for the domain consists of. -/
def queryBytes (qid : UInt16) (domain : CString) : List UInt8 :=
  bytes16 qid ++ [1, 0, 0, 1, 0, 0, 0, 0, 0, 0] ++ (labelsBytes domain.labels ++ 0 :: [0, 1, 0, 1])

theorem header_bytes (qid : UInt16) : ({ id := qid, rd := 1, qdcount := htons 1 } : DnsHeader).bytes =
    bytes16 qid ++ [1, 0, 0, 1, 0, 0, 0, 0, 0, 0] := by
  simp only [DnsHeader.bytes, List.append_assoc]
  exact congrArg (bytes16 qid ++ ·) (by decide)

theorem length_queryBytes (qid : UInt16) (domain : CString) :
    (queryBytes qid domain).length = 12 + (domain.bytes.length + 1) + 1 + 4 := by
  simp only [queryBytes, List.length_append, List.length_cons, length_labelsBytes_labels]
  rfl

/-- The length of a field that fits is kept in a byte. -/
theorem toNat_dlen {n : Nat} (h : n ≤ 254) : (UInt8.ofNat (n + 1)).toNat = n + 1 := by
  rw [UInt8.toNat_ofNat']
  omega

theorem dlen_ne_zero {n : Nat} (h : n ≤ 254) : UInt8.ofNat (n + 1) ≠ 0 := by
  intro he
  have hnat := toNat_dlen h
  rw [he] at hnat
  cases hnat

theorem mdnsQueryBuild_named {b : List UInt8} {qid : UInt16} (hq : qid ≠ 0) (hd : domain.Named)
    (hlen : domain.bytes.length ≤ 254) (hb : DNS_BUF_SIZE ≤ b.length) :
    ∃ post, (queryBytes qid domain ++ post).length = b.length ∧ mdnsQueryBuild (some b) qid (some domain) =
      .ok (((12 + (domain.bytes.length + 1) + 1 + 4 : Nat) : Int), some (queryBytes qid domain ++ post)) := by
  obtain ⟨hfield, _⟩ := constructDomainField_named (w := { byte := fun _ => 0 }) hd (by omega)
  have hbytes := constructDomainField_bytes (w := { byte := fun _ => 0 }) hd (by omega)
  have hlabels := length_labelsBytes_labels domain
  have hnat := toNat_dlen hlen
  have hne := dlen_ne_zero hlen
  -- the cleared buffer, in the parts that are written next
  obtain ⟨r, hr⟩ : ∃ r, DNS_BUF_SIZE = 12 + (domain.bytes.length + 1 + (1 + (4 + r))) :=
    ⟨DNS_BUF_SIZE - (12 + (domain.bytes.length + 1 + (1 + 4))), by unfold DNS_BUF_SIZE; omega⟩
  let z (n : Nat) : List UInt8 := List.replicate n 0
  let post := z r ++ b.drop DNS_BUF_SIZE
  let header : List UInt8 := bytes16 qid ++ [1, 0, 0, 1, 0, 0, 0, 0, 0, 0]
  let field := labelsBytes domain.labels
  have hclear : store b 0 (z DNS_BUF_SIZE) =
      [] ++ (z 12 ++ (z (domain.bytes.length + 1) ++ (z 1 ++ (z 4 ++ post)))) := by
    have hsplit : z DNS_BUF_SIZE =
        z 12 ++ (z (domain.bytes.length + 1) ++ (z 1 ++ (z 4 ++ z r))) := by
      simp only [z, List.replicate_append_replicate, ← hr]
    rw [store, hsplit]
    simp only [post, z, List.take_zero, List.nil_append, List.append_assoc, List.length_append,
      List.length_replicate, ← hr, Nat.zero_add]
  have hheader : store (store b 0 (z DNS_BUF_SIZE)) 0 header =
      header ++ (z (domain.bytes.length + 1) ++ (z 1 ++ (z 4 ++ post))) := by
    rw [hclear]
    exact store_append [] rfl
  have hqname : store (header ++ (z (domain.bytes.length + 1) ++ (z 1 ++ (z 4 ++ post)))) 12 field =
      header ++ (field ++ (z 1 ++ (z 4 ++ post))) :=
    store_append header (by simp [field, z, hlabels])
  have hquestion : store (header ++ (field ++ (z 1 ++ (z 4 ++ post)))) (12 + (domain.bytes.length + 1) + 1)
      [0, 1, 0, 1] = header ++ field ++ z 1 ++ ([0, 1, 0, 1] ++ post) := by
    have hpre : (header ++ field ++ z 1).length = 12 + (domain.bytes.length + 1) + 1 := by
      simp only [List.length_append, header, field, z, hlabels, List.length_replicate]
      rfl
    rw [← hpre, ← List.append_assoc, ← List.append_assoc]
    exact store_append _ rfl
  refine ⟨post, ?_, ?_⟩
  · simp only [post, z, List.length_append, length_queryBytes, List.length_replicate, List.length_drop]
    omega
  show (if qid = 0 then _ else _) = _
  rw [if_neg hq]
  rw [domainField_of_le _ (by omega)]
  show (if UInt8.ofNat (constructDomainField { byte := fun _ => 0 } domain).1 = 0 then _ else _) = _
  rw [hfield, if_neg hne, if_neg (Nat.not_lt.mpr hb)]
  dsimp only
  have hh : ({ id := qid, rd := 1, qdcount := htons 1 } : DnsHeader).bytes = header :=
    header_bytes qid
  have hq : ({ qtype := htons 1, qclass := htons 1 } : DnsQuestion).bytes = [0, 1, 0, 1] := rfl
  rw [hnat, hbytes, hh, hq]
  refine congrArg Except.ok (Prod.ext rfl (congrArg some ?_))
  show store (store (store (store b 0 (z DNS_BUF_SIZE)) 0 header) 12 field)
    (12 + (domain.bytes.length + 1) + 1) [0, 1, 0, 1] = _
  rw [hheader, hqname, hquestion]
  simp only [queryBytes, List.append_assoc]
  rfl

/-- Any other domain is refused, if it is not too long for the array before that. -/
theorem mdnsQueryBuild_not (b : List UInt8) (qid : UInt16)
    (h : ¬ (domain.Named ∧ domain.bytes.length ≤ 254)) (hin : ¬ domain.Overruns) :
    ∃ r, mdnsQueryBuild (some b) qid (some domain) = .ok (r, some b) ∧ r ≤ 0 := by
  have hzero : UInt8.ofNat (constructDomainField { byte := fun _ => 0 } domain).1 = 0 := by
    by_cases hd : domain.Named ∧ domain.bytes.length ≤ 255
    -- a field of 256 bytes
    · have hlen : domain.bytes.length = 255 := by
        by_contra hne
        exact h ⟨hd.1, by omega⟩
      rw [(constructDomainField_named hd.1 hd.2).1, hlen]
      rfl
    · rw [constructDomainField_not hd]
      rfl
  by_cases hq : qid = 0
  · exact ⟨-1, by simp [mdnsQueryBuild, hq], by decide⟩
  · exact ⟨-2, by simp [mdnsQueryBuild, hq, hzero, domainField_eq, hin], by decide⟩

theorem mdnsQueryBuild_overruns (b : List UInt8) {qid : UInt16} (hq : qid ≠ 0) (h : domain.Overruns) :
    mdnsQueryBuild (some b) qid (some domain) = .error .outOfBounds := by
  simp [mdnsQueryBuild, hq, h, domainField_eq]

/-- In a buffer of the size that is asked for, only the array can be left. -/
theorem mdnsQueryBuild_returns {b : List UInt8} (qid : UInt16) (hb : DNS_BUF_SIZE ≤ b.length)
    (hin : ¬ domain.Overruns) :
    ∃ r p, mdnsQueryBuild (some b) qid (some domain) = .ok (r, some p) ∧ p.length = b.length := by
  by_cases h : domain.Named ∧ domain.bytes.length ≤ 254
  · by_cases hq : qid = 0
    · exact ⟨-1, b, by rw [mdnsQueryBuild, if_pos hq], rfl⟩
    · obtain ⟨post, hlen, hbuild⟩ := mdnsQueryBuild_named hq h.1 h.2 hb
      exact ⟨_, _, hbuild, hlen⟩
  · obtain ⟨r, hbuild, _⟩ := mdnsQueryBuild_not b qid h hin
    exact ⟨r, b, hbuild, rfl⟩

/-- A domain that a query was built for. -/
theorem named_of_built {b : List UInt8} {qid : UInt16} {querySize : Int} {p : Option (List UInt8)}
    (h : mdnsQueryBuild (some b) qid (some domain) = .ok (querySize, p)) (hpos : 0 < querySize) :
    qid ≠ 0 ∧ domain.Named ∧ domain.bytes.length ≤ 254 ∧
      ∃ post, querySize = (domain.bytes.length + 18 : Nat) ∧ p = some (queryBytes qid domain ++ post) := by
  have hq : qid ≠ 0 := by
    intro hq
    rw [mdnsQueryBuild, if_pos hq, Except.ok.injEq, Prod.mk.injEq] at h
    rw [← h.1] at hpos
    exact absurd hpos (by decide)
  have hin : ¬ domain.Overruns := by
    intro hover
    rw [mdnsQueryBuild_overruns b hq hover] at h
    cases h
  have hd : domain.Named ∧ domain.bytes.length ≤ 254 := by
    by_contra hno
    obtain ⟨r, hr, hneg⟩ := mdnsQueryBuild_not b qid hno hin
    rw [hr, Except.ok.injEq, Prod.mk.injEq] at h
    rw [← h.1] at hpos
    exact absurd hpos (Int.not_lt.mpr hneg)
  have hb : DNS_BUF_SIZE ≤ b.length := by
    by_contra hshort
    have hfield := (constructDomainField_named (w := { byte := fun _ => 0 }) hd.1 (by omega)).1
    simp only [mdnsQueryBuild, if_neg hq, domainField_of_le _ (Nat.le_succ_of_le hd.2), hfield,
      if_neg (dlen_ne_zero hd.2), if_pos (Nat.lt_of_not_le hshort)] at h
    cases h
  obtain ⟨post, _, hbuild⟩ := mdnsQueryBuild_named hq hd.1 hd.2 hb
  rw [hbuild, Except.ok.injEq, Prod.mk.injEq] at h
  refine ⟨hq, hd.1, hd.2, post, ?_, h.2.symm⟩
  rw [← h.1]
  omega

/-! ## The round trip -/

/-- `p` holds a standard query for the address of the domain, of `querySize` octets. -/
structure StandardQuery (p : List UInt8) (qid : UInt16) (domain : CString) (querySize : Nat) : Prop where
  qname : nameAt p SIZEOF_DNS_HEADER = some (domain.labels, querySize - 4)
  qtype : u16At p (querySize - 4) = some TYPE_A
  qclass : u16At p (querySize - 2) = some CLASS_IN
  header : ∃ h, headerOf p = some h ∧ h.qr = 0 ∧ h.opcode = 0 ∧ h.rd = 1 ∧ h.qdcount = 1
  qid : mdnsResponseFetchQid (some p) querySize = .ok qid.toNat

theorem queryBytes_standard (hd : domain.Named) (qid : UInt16) (post : List UInt8) :
    StandardQuery (queryBytes qid domain ++ post) qid domain (12 + (domain.bytes.length + 1) + 1 + 4) := by
  have hlabels := length_labelsBytes_labels domain
  let pre : List UInt8 := bytes16 qid ++ [1, 0, 0, 1, 0, 0, 0, 0, 0, 0]
  have hname : queryBytes qid domain ++ post =
      pre ++ (labelsBytes domain.labels ++ 0 :: ([0, 1, 0, 1] ++ post)) := by
    simp only [queryBytes, pre, List.append_assoc, List.cons_append]
  have hpre : pre.length = 12 := rfl
  refine ⟨?_, ?_, ?_, ?_, ?_⟩
  · rw [hname]
    refine (nameAt_labelsBytes hd.2 pre _).trans ?_
    rw [List.length_append, hlabels, hpre]
    rfl
  · have htype := u16At_append (pre ++ (labelsBytes domain.labels ++ [0])) ([0, 1] ++ post) 0 1
    simp only [List.length_append, hlabels, hpre, List.length_singleton] at htype
    rw [← Nat.add_assoc 12] at htype
    rw [hname]
    simpa [List.append_assoc, TYPE_A] using htype
  · have hclass := u16At_append (pre ++ (labelsBytes domain.labels ++ [0, 0, 1])) post 0 1
    simp only [List.length_append, hlabels, hpre] at hclass
    rw [← Nat.add_assoc 12] at hclass
    rw [hname]
    simpa [List.append_assoc, CLASS_IN] using hclass
  · exact ⟨_, rfl, rfl, rfl, rfl, rfl⟩
  · exact congrArg (fun v : UInt16 => Except.ok (v.toNat : Int)) (load16_bytes16 qid)

/-- A query is built that holds the labels of its domain, and names that do not fit are refused. -/
def RoundTrips (b : List UInt8) (qid : UInt16) (domain : CString) : Prop :=
  ∃ r p, mdnsQueryBuild (some b) qid (some domain) = .ok (r, some p) ∧
    (domain.Named → domain.bytes.length ≤ 253 → r = (12 + (domain.bytes.length + 1) + 1 + 4 : Nat) ∧
      StandardQuery p qid domain (12 + (domain.bytes.length + 1) + 1 + 4)) ∧
    (¬ domain.Named → r ≤ 0 ∧ p = b) ∧
    (0 < r → ∃ e, nameAt p SIZEOF_DNS_HEADER = some (domain.labels, e))

/-- So it is for every domain but those that overrun the array. -/
theorem query_round_trip {b : List UInt8} {qid : UInt16} (domain : CString) (hq : qid ≠ 0)
    (hb : DNS_BUF_SIZE ≤ b.length) : RoundTrips b qid domain ↔ ¬ domain.Overruns := by
  constructor
  · rintro ⟨r, p, hbuild, _⟩ hover
    rw [mdnsQueryBuild_overruns b hq hover] at hbuild
    cases hbuild
  intro hin
  by_cases h : domain.Named ∧ domain.bytes.length ≤ 254
  · obtain ⟨post, _, hbuild⟩ := mdnsQueryBuild_named hq h.1 h.2 hb
    have hquery := queryBytes_standard h.1 qid post
    exact ⟨_, _, hbuild, fun _ _ => ⟨rfl, hquery⟩, fun hno => absurd h.1 hno, fun _ => ⟨_, hquery.qname⟩⟩
  · obtain ⟨r, hbuild, hneg⟩ := mdnsQueryBuild_not b qid h hin
    refine ⟨r, b, hbuild, fun hd hlen => ?_, fun _ => ⟨hneg, rfl⟩, fun hpos => ?_⟩
    · exact absurd ⟨hd, Nat.le_succ_of_le hlen⟩ h
    · exact absurd hpos (Int.not_lt.mpr hneg)

/-- An empty buffer of the size that is asked for. -/
def emptyBuf : List UInt8 := List.replicate DNS_BUF_SIZE 0

/-- `a.b` -/
def abDomain : CString := ⟨[97, 46, 98], by decide⟩

/-- The packet of a query for `a.b`. -/
def abQuery : List UInt8 := queryBytes 7 abDomain ++ List.replicate 1003 0

theorem abQuery_built : mdnsQueryBuild (some emptyBuf) 7 (some abDomain) = .ok (21, some abQuery) := by
  decide +kernel

theorem query_round_trip_ab : ∃ p, mdnsQueryBuild (some emptyBuf) 7 (some abDomain) = .ok (21, some p) ∧
    StandardQuery p 7 abDomain 21 := by
  have hbuf : DNS_BUF_SIZE ≤ emptyBuf.length := Nat.le_of_eq List.length_replicate.symm
  have htrips : RoundTrips emptyBuf 7 abDomain := (query_round_trip abDomain (by decide) hbuf).mpr (by decide)
  obtain ⟨r, p, hbuild, hnamed, _⟩ := htrips
  obtain ⟨rfl, hquery⟩ := hnamed (by decide) (by decide)
  exact ⟨p, hbuild, hquery⟩

/-- One label of 300 characters. -/
def longDomain : CString where
  bytes := List.replicate 300 97
  noNul := by decide +kernel

/-- It has no dot, and is not refused: the array is left. -/
theorem not_query_round_trip : ¬ longDomain.Named ∧
    mdnsQueryBuild (some emptyBuf) 7 (some longDomain) = .error .outOfBounds ∧
    ¬ RoundTrips emptyBuf 7 longDomain := by
  have hover : longDomain.Overruns := by decide +kernel
  have hbuild : mdnsQueryBuild (some emptyBuf) 7 (some longDomain) = .error .outOfBounds :=
    mdnsQueryBuild_overruns emptyBuf (by decide) hover
  refine ⟨by decide +kernel, hbuild, ?_⟩
  rintro ⟨r, p, hok, _⟩
  rw [hbuild] at hok
  cases hok

end MNet.Dns
