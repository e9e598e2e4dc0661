import MNet.Dns.Bounds

/-! # The walk from record to record

Where the first zero behind the start of an owner's name is the high byte of the type, the walk
reads the section as it was written. The results then depend on the records alone. -/

namespace MNet.Dns
open MNet.Lib MNet.Lib.Exec MNet.Lib.Rfc1035

variable {s t : Resp} {stack : Nat → UInt8} {contentLen querySize : Int} {domain : CString}
  {msg : List UInt8} {count pos e : Nat} {rr : Record}

/-! ## Records that are read as they were written -/

/-- The walk ends with such a record, and takes its data for an address. -/
def Taken (rr : Record) : Prop := rr.cls = CLASS_IN ∧ (rr.type = TYPE_A ∨ rr.type = TYPE_PTR)

instance : DecidablePred Taken := fun rr => by
  unfold Taken
  infer_instance

/-- Up to the record that is taken, every owner's name ends at the first zero, the record is
complete, and more than 14 bytes from its start on and 10 from its type on are left. The data that
are taken are at least four bytes. -/
def Legible (msg : List UInt8) : Nat → Nat → Prop
  | 0, _ => True
  | count + 1, pos =>
    match nameEnd msg msg.length pos with
    | none => False
    | some e => zeroFrom msg pos = some e ∧
      match recordBody msg e with
      | none => False
      | some (rr, e') =>
        if Taken rr then 4 ≤ rr.rdata.length
        else pos + 14 < msg.length ∧ e + 10 < msg.length ∧ Legible msg count e'

instance Legible.decidable (msg : List UInt8) : (count pos : Nat) → Decidable (Legible msg count pos)
  | 0, _ => isTrue trivial
  | count + 1, pos => by
    have := Legible.decidable msg count
    unfold Legible
    split
    · infer_instance
    · refine @instDecidableAnd _ _ _ ?_
      split <;> infer_instance

/-- The result of the walk over these records, and the output buffer behind it. -/
def outcome (rrs : List Record) (out : List UInt8) : Int × List UInt8 :=
  match rrs.find? Taken with
  | none => (-34, out)
  | some rr => (1, rr.rdata.take 4 ++ out.drop 4)

theorem outcome_taken {rrs : List Record} {out : List UInt8} (h : Taken rr) :
    outcome (rr :: rrs) out = (1, rr.rdata.take 4 ++ out.drop 4) := by
  rw [outcome, List.find?_cons_of_pos (by simpa using h)]

theorem outcome_passed {rrs : List Record} {out : List UInt8} (h : ¬ Taken rr) :
    outcome (rr :: rrs) out = outcome rrs out := by
  rw [outcome, outcome, List.find?_cons_of_neg (by simpa using h)]

/-! ## Owners' names -/

/-- A name without a zero is no less than a pointer. -/
theorem nameEnd_of_zeroFrom {fuel : Nat} (h : nameEnd msg fuel pos = some e) (hz : zeroFrom msg pos = some e) :
    pos + 2 ≤ e := by
  cases fuel with
  | zero => cases h
  | succ fuel =>
    have hlt := lt_nameEnd h
    unfold nameEnd at h
    split at h
    · cases h
    · rename_i hp
      obtain ⟨_, hzero, rfl⟩ | hle := pieceAt_cases hp
      · cases h
        -- the zero that ends the name is the first
        obtain ⟨n, hn, hpos⟩ := Option.map_eq_some_iff.mp hz
        obtain ⟨hin, _, hbefore⟩ := List.findIdx?_eq_some_iff_getElem.mp hn
        obtain rfl : n = 1 := by omega
        refine absurd ?_ (hbefore 0 Nat.one_pos)
        rw [List.getElem_drop]
        exact beq_iff_eq.mpr (List.getElem?_eq_some_iff.mp hzero).2
      · cases h
        exact hle
    · rename_i hp
      obtain ⟨hroot, _⟩ | hle := pieceAt_cases hp
      · cases hroot
      · exact Nat.le_of_lt (Nat.lt_of_le_of_lt hle (lt_nameEnd h))
    · rename_i hp
      obtain ⟨hroot, _⟩ | hle := pieceAt_cases hp
      · cases hroot
      · cases h
        exact hle

/-! ## The walk -/

/-- The data of a record stand behind its numbers, inside the message. -/
theorem recordBody_data {e' : Nat} (h : recordBody msg e = some (rr, e')) :
    e' = e + 10 + rr.rdata.length ∧ e' ≤ msg.length ∧
      rr.rdata = (msg.drop (e + 10)).take rr.rdata.length := by
  have h' := h
  rw [← List.take_length (l := msg)] at h'
  obtain ⟨_, _, _, he', hdata⟩ := recordBody_take h'
  rw [List.take_length] at hdata
  refine ⟨he', ?_, hdata⟩
  unfold recordBody at h
  split at h
  · split at h
    · cases h
      assumption
    · cases h
  · cases h

/-- Four bytes that are there are copied. -/
theorem copyOut_reads {k : Nat} (h : k + 4 ≤ s.buf.length) :
    Returns (copyOut (k : Int)) s () { s with out := (s.buf.drop k).take 4 ++ s.out.drop 4 } := by
  obtain ⟨u, t, ht⟩ := (terminates_copyOut (s := s)).mpr h
  obtain ⟨a, b, c, d, ha, hb, hc, hd, rfl⟩ := returns_copyOut ht
  have hdata : (s.buf.drop k).take 4 = [a, b, c, d] := by
    have hlen : ((s.buf.drop k).take 4).length = 4 := by
      rw [List.length_take, List.length_drop]
      omega
    refine rdata_copied (n := s.buf.length) ?_ hlen ha hb hc hd
    rw [List.take_length]
  rw [hdata]
  exact ht

/-- Over records that are read as they were written, the walk ends as the records say. -/
theorem fetchLoop_legible (h : Legible s.buf count pos) :
    Returns (fetchLoop s.buf.length count pos) s (outcome (recordsAt s.buf count pos) s.out).1
      { s with out := (outcome (recordsAt s.buf count pos) s.out).2 } := by
  induction count generalizing pos with
  | zero => exact returns_pure.mpr ⟨rfl, rfl⟩
  | succ count ih =>
    unfold Legible at h
    split at h
    · cases h
    rename_i e hname
    obtain ⟨hzero, h⟩ := h
    split at h
    · cases h
    rename_i rr e' hbody
    obtain ⟨he', hin, hdata⟩ := recordBody_data hbody
    have htwo := nameEnd_of_zeroFrom hname hzero
    have hrec : recordAt s.buf pos = some (rr, e') := by
      rw [recordAt, hname]
      exact hbody
    rw [recordsAt, hrec]
    dsimp only
    -- more than 14 bytes from the record on, and more than 10 from its type on
    have hlong : pos + 14 < s.buf.length ∧ e + 10 < s.buf.length := by
      split at h
      · omega
      · exact ⟨h.1, h.2.1⟩
    obtain ⟨n, hn, rfl⟩ := Option.map_eq_some_iff.mp hzero
    have hlen : Returns (strlen pos) s n s := returns_strlen.mpr ⟨Int.natCast_nonneg _, hn, rfl⟩
    have hat : ((pos + n : Nat) : Int) + 8 = ((pos + n + 8 : Nat) : Int) := by omega
    have hbehind : ((pos + n : Nat) : Int) + sizeofDnsRrData = ((pos + n + 10 : Nat) : Int) := by
      rw [sizeofDnsRrData]
      omega
    rw [fetchLoop, if_neg (by rw [SIZEOF_DNS_HEADER]; omega), Returns.bind_iff hlen,
      if_neg (by rw [sizeofDnsRrData]; omega), ← Int.natCast_add]
    dsimp only
    rw [hat, hbehind]
    obtain ⟨rdlen, hrd, ⟨_, hnone⟩ | ⟨rr', hwhole, hbody', haddr⟩⟩ := record_reads (s := s) (e := pos + n) hlong.2
    · rw [hbody] at hnone
      cases hnone
    rw [hbody, Option.some.injEq, Prod.mk.injEq] at hbody'
    obtain ⟨rfl, hend⟩ := hbody'
    rw [Returns.bind_iff hrd, if_neg (by omega), Returns.bind_iff haddr]
    by_cases htake : Taken rr
    · rw [if_pos htake] at h
      rw [if_pos (by simpa [Taken] using htake), outcome_taken htake, Returns.bind_iff (copyOut_reads (by omega))]
      refine returns_pure.mpr ⟨rfl, ?_⟩
      rw [hdata, List.take_take, Nat.min_eq_left h]
    · rw [if_neg htake] at h
      rw [if_neg (by simpa [Taken] using htake), outcome_passed htake, ← Int.natCast_add, ← hend]
      exact ih h.2.2

/-! ## Answers -/

/-- A record behind a pointer to its owner's name, as it stands in a response. Neither byte of the
pointer is zero, and the type is below 256 and no pointer to a name. -/
structure Answer where
  hi : UInt8
  lo : UInt8
  type : UInt16
  cls : UInt16
  ttl : UInt32
  rdata : List UInt8
  pointer : 192 ≤ hi.toNat
  nonzero : lo ≠ 0
  low : type.toNat < 256
  notPtr : type.toNat ≠ TYPE_PTR

namespace Answer

def record (a : Answer) : Record where
  type := a.type.toNat
  cls := a.cls.toNat
  ttl := a.ttl.toNat
  rdata := a.rdata

def bytes (a : Answer) : List UInt8 := a.hi :: a.lo :: a.record.bytes

theorem length_bytes (a : Answer) : a.bytes.length = 12 + a.rdata.length := by
  simp only [bytes, List.length_cons, Record.length_bytes]
  show 10 + a.rdata.length + 1 + 1 = _
  omega

theorem inRange {a : Answer} (h : a.rdata.length < 65536) : a.record.InRange where
  type := a.type.toNat_lt
  cls := a.cls.toNat_lt
  ttl := a.ttl.toNat_lt
  rdlength := h

end Answer

/-- The answers are in the message, one behind the other. -/
def answersBytes (as : List Answer) : List UInt8 := as.flatMap Answer.bytes

section Answers

variable {a : Answer} {as : List Answer}

theorem length_answersBytes_of_mem (h : a ∈ as) : 12 + a.rdata.length ≤ (answersBytes as).length := by
  induction as with
  | nil => cases h
  | cons b as ih =>
    rw [answersBytes, List.flatMap_cons, List.length_append, b.length_bytes]
    rcases List.mem_cons.mp h with rfl | h
    · omega
    · have := ih h
      rw [answersBytes] at this
      omega

theorem length_le_answersBytes (as : List Answer) : as.length ≤ (answersBytes as).length := by
  induction as with
  | nil => exact Nat.le_refl _
  | cons b as ih =>
    rw [answersBytes] at ih
    rw [answersBytes, List.flatMap_cons, List.length_append, b.length_bytes, List.length_cons]
    omega

/-- The owner's name of an answer, and the first zero behind its start. -/
theorem answer_owner (a : Answer) (pre post : List UInt8) :
    nameEnd (pre ++ (a.bytes ++ post)) (pre ++ (a.bytes ++ post)).length pre.length = some (pre.length + 2) ∧
      zeroFrom (pre ++ (a.bytes ++ post)) pre.length = some (pre.length + 2) := by
  constructor
  · obtain ⟨fuel, hfuel⟩ : ∃ fuel, (pre ++ (a.bytes ++ post)).length = fuel + 1 :=
      ⟨pre.length + (11 + a.rdata.length + post.length), by
        simp only [List.length_append, a.length_bytes]; omega⟩
    rw [hfuel]
    exact nameEnd_pointer a.pointer pre (a.record.bytes ++ post)
  · have hhi : a.hi ≠ 0 := by
      intro h
      have := a.pointer
      rw [h] at this
      exact absurd this (by decide)
    have hzero : UInt8.ofNat (a.type.toNat / 256) = 0 := by
      rw [Nat.div_eq_of_lt a.low]
      rfl
    have hbytes : a.bytes ++ post = a.hi :: a.lo :: 0 :: (a.bytes ++ post).drop 3 := by
      rw [← hzero]
      rfl
    rw [zeroFrom, List.drop_left, hbytes]
    simp [List.findIdx?_cons, hhi, a.nonzero]

theorem answer_body (a : Answer) (h : a.rdata.length < 65536) (pre post : List UInt8) :
    recordBody (pre ++ (a.bytes ++ post)) (pre.length + 2) =
      some (a.record, (pre ++ a.bytes).length) := by
  have hbody := recordBody_bytes (Answer.inRange h) (pre ++ [a.hi, a.lo]) post
  have hlen : (pre ++ [a.hi, a.lo]).length = pre.length + 2 := by simp
  have hsplit : pre ++ [a.hi, a.lo] ++ (a.record.bytes ++ post) = pre ++ (a.bytes ++ post) := by
    simp [Answer.bytes]
  rw [hlen, hsplit] at hbody
  rw [hbody, List.length_append, a.length_bytes]
  refine congrArg some (Prod.ext rfl ?_)
  show pre.length + 2 + 10 + a.rdata.length = _
  omega

/-- The answers read back. -/
theorem recordsAt_answers (hfit : ∀ a ∈ as, a.rdata.length < 65536) (pre : List UInt8) :
    recordsAt (pre ++ answersBytes as) as.length pre.length = as.map Answer.record := by
  induction as generalizing pre with
  | nil => rfl
  | cons a as ih =>
    have hrec : recordAt (pre ++ (a.bytes ++ answersBytes as)) pre.length =
        some (a.record, (pre ++ a.bytes).length) := by
      rw [recordAt, (answer_owner a pre _).1]
      exact answer_body a (hfit a (by simp)) pre _
    rw [answersBytes, List.flatMap_cons, ← answersBytes, List.length_cons, recordsAt, hrec,
      ← List.append_assoc]
    dsimp only
    rw [ih (fun b hb => hfit b (List.mem_cons_of_mem _ hb)), List.map_cons]

/-- Answers one of which is an address are read as they were written. -/
theorem legible_answers (hfit : ∀ a ∈ as, a.rdata.length < 65536)
    (hfirst : as.find? (fun a => Taken a.record) = some a) (hfour : a.rdata.length = 4) (pre : List UInt8) :
    Legible (pre ++ answersBytes as) as.length pre.length := by
  induction as generalizing pre with
  | nil => cases hfirst
  | cons b as ih =>
    rw [answersBytes, List.flatMap_cons, ← answersBytes, List.length_cons, Legible,
      (answer_owner b pre _).1]
    refine ⟨(answer_owner b pre _).2, ?_⟩
    rw [answer_body b (hfit b (by simp)) pre _]
    dsimp only
    by_cases htake : Taken b.record
    · rw [List.find?_cons_of_pos (by simpa using htake), Option.some.injEq] at hfirst
      subst hfirst
      rw [if_pos htake]
      exact Nat.le_of_eq hfour.symm
    · rw [List.find?_cons_of_neg (by simpa using htake)] at hfirst
      -- the address is still to come
      have hrest := length_answersBytes_of_mem (List.mem_of_find?_eq_some hfirst)
      rw [if_neg htake]
      refine ⟨?_, ?_, ?_⟩
      · simp only [List.length_append, b.length_bytes]
        omega
      · simp only [List.length_append, b.length_bytes]
        omega
      · rw [← List.append_assoc]
        exact ih (fun c hc => hfit c (List.mem_cons_of_mem _ hc)) hfirst _

end Answers

/-! ## The header of a response -/

section Header

variable {h : DnsHeader} {rest : List UInt8}

theorem bitsAt_reads {k i w : Nat} {b : UInt8} (hb : s.buf[k]? = some b) :
    Returns (bitsAt k i w) s (b.toBitVec.extractLsb' i w) s := by
  rw [bitsAt, Returns.bind_iff (returns_byteAt.mpr ⟨by rw [octetAt_natCast, hb], rfl⟩)]
  exact returns_pure.mpr ⟨rfl, rfl⟩

theorem load16At_bytes16 {k : Nat} {v : UInt16} (hlo : s.buf[k]? = some (UInt8.ofNat v.toNat))
    (hhi : s.buf[k + 1]? = some (UInt8.ofNat (v.toNat / 256))) : Returns (load16At k) s v s := by
  refine returns_load16At.mpr ⟨_, _, ?_, ?_, (load16_bytes16 v).symm, rfl⟩
  · rw [octetAt_natCast, hlo]
  · rw [← Int.natCast_succ, octetAt_natCast, hhi]

theorem anyOf_false {ms : List (P Bool)} (h : ∀ m ∈ ms, Returns m s false s) : Returns (anyOf ms) s false s := by
  induction ms with
  | nil => exact returns_pure.mpr ⟨rfl, rfl⟩
  | cons m ms ih =>
    rw [anyOf, Returns.bind_iff (h m (by simp)), if_neg (by simp)]
    exact ih fun m hm => h m (List.mem_cons_of_mem _ hm)

/-- The header of an answer to a standard query is accepted. -/
theorem responseCheckHeader_accepts (hbuf : s.buf = h.bytes ++ rest) (hqr : h.qr = 1) (hop : h.opcode = 0)
    (hrd : h.rd = 1) (hz : h.z = 0) (hrcode : h.rcode = 0) (hqd : h.qdcount = htons 1) (han : h.ancount ≠ 0) :
    Returns responseCheckHeader s 1 s := by
  have hat : ∀ k : Nat, s.buf[k]? = (h.bytes ++ rest)[k]? := fun k => by rw [hbuf]
  have hrcode' : Returns rhRcode s h.rcode s := by
    have := bitsAt_reads (s := s) (k := 3) (i := 0) (w := 4) (hat 3)
    rwa [show (h.ra ++ h.z ++ h.rcode).extractLsb' 0 4 = h.rcode by grind] at this
  have hqr' : Returns rhQr s h.qr s := by
    have := bitsAt_reads (s := s) (k := 2) (i := 7) (w := 1) (hat 2)
    rwa [show (h.qr ++ h.opcode ++ h.aa ++ h.tc ++ h.rd).extractLsb' 7 1 = h.qr by grind] at this
  have hop' : Returns rhOpcode s h.opcode s := by
    have := bitsAt_reads (s := s) (k := 2) (i := 3) (w := 4) (hat 2)
    rwa [show (h.qr ++ h.opcode ++ h.aa ++ h.tc ++ h.rd).extractLsb' 3 4 = h.opcode by grind] at this
  have hrd' : Returns rhRd s h.rd s := by
    have := bitsAt_reads (s := s) (k := 2) (i := 0) (w := 1) (hat 2)
    rwa [show (h.qr ++ h.opcode ++ h.aa ++ h.tc ++ h.rd).extractLsb' 0 1 = h.rd by grind] at this
  have hz' : Returns rhZ s h.z s := by
    have := bitsAt_reads (s := s) (k := 3) (i := 4) (w := 3) (hat 3)
    rwa [show (h.ra ++ h.z ++ h.rcode).extractLsb' 4 3 = h.z by grind] at this
  have hqd' : Returns rhQdcount s h.qdcount s := load16At_bytes16 (k := 4) (hat 4) (hat 5)
  have han' : Returns rhAncount s h.ancount s := load16At_bytes16 (k := 6) (hat 6) (hat 7)
  rw [responseCheckHeader, Returns.bind_iff hrcode', hrcode]
  refine (Returns.bind_iff (anyOf_false fun m hm => ?_)).mpr ?_
  · simp only [List.mem_cons, List.not_mem_nil, or_false] at hm
    obtain rfl | rfl | rfl | rfl | rfl | rfl | rfl := hm
    · exact (Returns.bind_iff hqr').mpr (returns_pure.mpr ⟨by simp [hqr], rfl⟩)
    · exact (Returns.bind_iff hop').mpr (returns_pure.mpr ⟨by simp [hop], rfl⟩)
    · exact (Returns.bind_iff hrd').mpr (returns_pure.mpr ⟨by simp [hrd], rfl⟩)
    · exact (Returns.bind_iff hz').mpr (returns_pure.mpr ⟨by simp [hz], rfl⟩)
    · exact (Returns.bind_iff hqd').mpr (returns_pure.mpr ⟨by simp [hqd], rfl⟩)
    · exact (Returns.bind_iff han').mpr (returns_pure.mpr ⟨by simp [han], rfl⟩)
    · exact returns_pure.mpr ⟨rfl, rfl⟩
  · exact returns_pure.mpr ⟨rfl, rfl⟩

end Header

/-! ## The address that is found -/

/-- The header of a query, made that of a response without an error that has `count` answers. The
other flags and counts are those of `h`. -/
def DnsHeader.answering (h : DnsHeader) (qid : UInt16) (count : Nat) : DnsHeader :=
  { h with id := qid, rd := 1, opcode := 0, qr := 1, rcode := 0, z := 0, qdcount := htons 1
           ancount := htons (UInt16.ofNat count) }

/-- The query `p` of `querySize` bytes with this header, and the answers. -/
def responseBytes (h : DnsHeader) (p : List UInt8) (querySize : Int) (as : List Answer) : List UInt8 :=
  h.bytes ++ (p.take querySize.toNat).drop SIZEOF_DNS_HEADER ++ answersBytes as

/-- What stands between the header of a query and its end. -/
theorem question_of_built {b p : List UInt8} {qid : UInt16}
    (hbuild : mdnsQueryBuild (some b) qid (some domain) = .ok (querySize, some p)) (hpos : 0 < querySize) :
    (p.take querySize.toNat).drop SIZEOF_DNS_HEADER = labelsBytes domain.labels ++ [0, 0, 1, 0, 1] := by
  obtain ⟨_, hd, hlen, post, rfl, hp⟩ := named_of_built hbuild hpos
  cases hp
  have hsize : (queryBytes qid domain).length = domain.bytes.length + 18 := by
    rw [length_queryBytes]
    omega
  rw [Int.toNat_natCast, ← hsize, List.take_left]
  rfl

/-- The question of a query for the domain is accepted. -/
theorem responseCheckQuestion_accepts {pre post : List UInt8} (hd : domain.Named) (hlen : domain.bytes.length ≤ 254)
    (hpre : pre.length = 12) (hbuf : s.buf = pre ++ (labelsBytes domain.labels ++ [0, 0, 1, 0, 1] ++ post)) :
    Returns (responseCheckQuestion stack ((domain.bytes.length + 18 : Nat) : Int) domain) s 1 s := by
  have hlabels := length_labelsBytes_labels domain
  have hcmp : Returns (strncmp SIZEOF_DNS_HEADER (constructDomainField ⟨stack, []⟩ domain).2.byte
      domain.bytes.length 0) s 0 s := by
    refine strncmp_agree (fun j hj => field_byte_ne_zero hd hlen (by omega)) fun j _ hj => ?_
    rw [Nat.zero_add] at hj
    rw [hbuf, SIZEOF_DNS_HEADER, ← hpre, List.getElem?_append_right (Nat.le_add_right _ _), Nat.add_sub_cancel_left,
      List.append_assoc, List.getElem?_append_left (by omega), field_byte hd hlen (by omega)]
  -- the type, behind the name and its zero
  have htype : ∀ k < 2, s.buf[domain.bytes.length + 14 + k]? = [(0 : UInt8), 1][k]? := by
    intro k hk
    rw [hbuf, List.getElem?_append_right (by omega), List.append_assoc, List.getElem?_append_right (by omega),
      show domain.bytes.length + 14 + k - pre.length - (labelsBytes domain.labels).length = k + 1 by omega]
    obtain rfl | rfl : k = 0 ∨ k = 1 := by omega
    · rfl
    · rfl
  have hread : Returns (load16At ((domain.bytes.length + 14 : Nat) : Int)) s (load16 0 1) s := by
    refine returns_load16At.mpr ⟨0, 1, ?_, ?_, rfl, rfl⟩
    · rw [octetAt_natCast]
      exact htype 0 (by decide)
    · rw [← Int.natCast_succ, octetAt_natCast]
      exact htype 1 (by decide)
  rw [responseCheckQuestion, domainField_of_le stack (by omega), require_some_bind, Returns.bind_iff hcmp, if_neg (by decide),
    show ((domain.bytes.length + 18 : Nat) : Int) - (SIZEOF_DNS_QUESTION : Nat) = (domain.bytes.length + 14 : Nat) by
      rw [SIZEOF_DNS_QUESTION]; omega, Returns.bind_iff hread, if_neg (by decide)]
  exact returns_pure.mpr ⟨rfl, rfl⟩

/-- The three results make one. -/
theorem responseParse_reads {rh rq rr : Int} (hh : Returns responseCheckHeader s rh s)
    (hq : Returns (responseCheckQuestion stack querySize domain) s rq s)
    (hr : Returns (responseFetchRes contentLen querySize) s rr t) :
    Returns (responseParse stack contentLen querySize domain) s
      (if rh > 0 ∧ rq > 0 ∧ rr > 0 then 1 else if rh ≤ 0 then rh else if rq ≤ 0 then rq else rr) t := by
  rw [responseParse, Returns.bind_iff hh, Returns.bind_iff hq, Returns.bind_iff hr]
  split
  · exact returns_pure.mpr ⟨rfl, rfl⟩
  · split
    · exact returns_pure.mpr ⟨rfl, rfl⟩
    · split
      · exact returns_pure.mpr ⟨rfl, rfl⟩
      · exact returns_pure.mpr ⟨rfl, rfl⟩

/-- What is returned for the content alone is returned whatever stands behind it. -/
theorem mdnsResponseParse_of_content {out : List UInt8} {r : Int} (post : List UInt8) (hpos : 0 < querySize)
    (hlen : 0 < msg.length) (h : Returns (responseParse stack msg.length querySize domain) ⟨msg, out⟩ r t) :
    mdnsResponseParse stack (some (msg ++ post)) msg.length querySize (some domain) (some out) =
      .ok (r, some t.out) := by
  obtain ⟨u, hu, _, hsame⟩ := follows_responseParse ⟨msg, out⟩ ⟨msg ++ post, out⟩ _ _
    ⟨List.prefix_append _ _, rfl⟩ h
  have hcontent : (0 : Int) < msg.length := by omega
  exact (mdnsResponseParse_eq hcontent hpos).mpr ⟨u, hu, by rw [hsame]⟩

theorem toNat_ntohs_htons {n : Nat} (h : n < 65536) : (ntohs (htons (UInt16.ofNat n))).toNat = n := by
  have hswap : n % 256 * 256 + n / 256 < 65536 := by omega
  rw [toNat_ntohs, htons, UInt16.toNat_ofNat', UInt16.toNat_ofNat', Nat.mod_eq_of_lt h, Nat.mod_eq_of_lt hswap]
  omega

theorem htons_ne_zero {n : Nat} (h : n < 65536) (hpos : 0 < n) : htons (UInt16.ofNat n) ≠ 0 := by
  intro hzero
  have hn := toNat_ntohs_htons h
  rw [hzero] at hn
  exact absurd hn (Nat.ne_of_lt hpos)

/-- A type below 256 that is no pointer to a name is taken when it is that of an address. -/
theorem Answer.taken_iff (a : Answer) : Taken a.record ↔ a.type = 1 ∧ a.cls = 1 := by
  have hptr := a.notPtr
  rw [Taken, ← UInt16.toNat_inj, ← UInt16.toNat_inj]
  exact ⟨fun h => ⟨h.2.resolve_right hptr, h.1⟩, fun h => ⟨h.2, .inl h.1⟩⟩

/-- The walk over the answers that stand behind a question. -/
theorem responseFetchRes_answers {h : DnsHeader} {question : List UInt8} {as : List Answer} {a : Answer}
    (hbuf : s.buf = h.bytes ++ question ++ answersBytes as) (hn : as.length < 65536)
    (hcount : h.ancount = htons (UInt16.ofNat as.length)) (hfit : ∀ a ∈ as, a.rdata.length < 65536)
    (hfirst : as.find? (fun a => Taken a.record) = some a) (hfour : a.rdata.length = 4) :
    Returns (responseFetchRes s.buf.length (h.bytes ++ question).length) s 1
      { s with out := a.rdata ++ s.out.drop 4 } := by
  have hread : Returns rhAncount s h.ancount s := by
    have hat : ∀ k : Nat, s.buf[k]? = (h.bytes ++ (question ++ answersBytes as))[k]? := fun k => by
      rw [hbuf, List.append_assoc]
    exact load16At_bytes16 (k := 6) (hat 6) (hat 7)
  have hlegible := legible_answers hfit hfirst hfour (h.bytes ++ question)
  have hrecords := recordsAt_answers hfit (h.bytes ++ question)
  rw [← hbuf] at hlegible hrecords
  have hloop := fetchLoop_legible hlegible
  have hout : outcome (as.map Answer.record) s.out = (1, a.rdata ++ s.out.drop 4) := by
    have hfind : (as.map Answer.record).find? (fun rr => Taken rr) = some a.record := by
      rw [List.find?_map]
      exact congrArg (Option.map Answer.record) hfirst
    rw [outcome, hfind]
    exact congrArg (fun l => (1, l ++ s.out.drop 4)) (List.take_of_length_le (Nat.le_of_eq hfour))
  rw [hrecords, hout] at hloop
  rw [responseFetchRes, Returns.bind_iff hread, hcount, toNat_ntohs_htons hn]
  exact hloop

/-- The walk finds the first address of a complete response. -/
theorem first_address_found {b p out : List UInt8} {qid : UInt16} {as : List Answer} {a : Answer} (h : DnsHeader)
    (post : List UInt8) (hbuild : mdnsQueryBuild (some b) qid (some domain) = .ok (querySize, some p))
    (hpos : 0 < querySize) (hfirst : as.find? (fun a => a.type = 1 ∧ a.cls = 1) = some a)
    (hfour : a.rdata.length = 4)
    (hlen : (responseBytes (h.answering qid as.length) p querySize as).length ≤ DNS_BUF_SIZE) :
    mdnsResponseParse stack (some (responseBytes (h.answering qid as.length) p querySize as ++ post))
        (responseBytes (h.answering qid as.length) p querySize as).length querySize (some domain) (some out) =
      .ok (1, some (a.rdata ++ out.drop 4)) := by
  obtain ⟨_, hd, hshort, _, hsize, _⟩ := named_of_built hbuild hpos
  have htaken : as.find? (fun a => Taken a.record) = some a := by
    simpa only [Answer.taken_iff] using hfirst
  have hone : 0 < as.length := List.length_pos_of_mem (List.mem_of_find?_eq_some hfirst)
  have hcount := length_le_answersBytes as
  unfold responseBytes at hlen ⊢
  rw [question_of_built hbuild hpos] at hlen ⊢
  let head := h.answering qid as.length
  let question := labelsBytes domain.labels ++ [0, 0, 1, 0, 1]
  let s : Resp := ⟨head.bytes ++ question ++ answersBytes as, out⟩
  have hquery : (head.bytes ++ question).length = domain.bytes.length + 18 := by
    show (head.bytes ++ (labelsBytes domain.labels ++ [0, 0, 1, 0, 1])).length = _
    rw [List.length_append, List.length_append, length_labelsBytes_labels]
    show 12 + (domain.bytes.length + 1 + 5) = _
    omega
  have hbytes : s.buf.length = (head.bytes ++ question).length + (answersBytes as).length := List.length_append ..
  have hlen : s.buf.length ≤ 1024 := hlen
  have hfit : ∀ c ∈ as, c.rdata.length < 65536 := fun c hc => by
    have := length_answersBytes_of_mem hc
    omega
  -- the three checks, on the content alone
  have hassoc : s.buf = head.bytes ++ (question ++ answersBytes as) := List.append_assoc ..
  have hheader : Returns responseCheckHeader s 1 s :=
    responseCheckHeader_accepts hassoc rfl rfl rfl rfl rfl rfl (htons_ne_zero (by omega) hone)
  have hquest : Returns (responseCheckQuestion stack querySize domain) s 1 s := by
    rw [hsize]
    exact responseCheckQuestion_accepts hd hshort rfl hassoc
  have hres : Returns (responseFetchRes s.buf.length querySize) s 1 { s with out := a.rdata ++ out.drop 4 } := by
    rw [hsize, ← hquery]
    exact responseFetchRes_answers rfl (by omega) rfl hfit htaken hfour
  have hlong : 0 < s.buf.length := by omega
  exact mdnsResponseParse_of_content post hpos hlong (responseParse_reads hheader hquest hres)

/-- An alias, and its address. -/
def abAnswers : List Answer :=
  [{ hi := 0xc0, lo := 0x0c, type := 5, cls := 1, ttl := 60, rdata := [1, 99, 0xc0, 0x0e]
     pointer := by decide, nonzero := by decide, low := by decide, notPtr := by decide },
    { hi := 0xc0, lo := 0x21, type := 1, cls := 1, ttl := 60, rdata := [1, 2, 3, 4]
      pointer := by decide, nonzero := by decide, low := by decide, notPtr := by decide }]

theorem first_address_found_ab : mdnsResponseParse (fun _ => 0)
    (some (responseBytes (({ ra := 1 } : DnsHeader).answering 7 abAnswers.length) abQuery 21 abAnswers ++ [9]))
    (responseBytes (({ ra := 1 } : DnsHeader).answering 7 abAnswers.length) abQuery 21 abAnswers).length 21
    (some abDomain) (some [0, 0, 0, 0]) = .ok (1, some ([1, 2, 3, 4] ++ [0, 0, 0, 0].drop 4)) := by
  have hfirst : abAnswers.find? (fun a => a.type = 1 ∧ a.cls = 1) = some abAnswers[1] := rfl
  exact first_address_found { ra := 1 } [9] abQuery_built (by decide) hfirst rfl (by decide +kernel)

end MNet.Dns
