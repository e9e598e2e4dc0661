import MNet.Dns.Spec

/-! # The question of a response

The question's name is compared with the encoded domain for as many bytes as the domain has
characters. The encoded name is a byte longer, and a zero ends it. -/

namespace MNet.Dns
open MNet.Lib MNet.Lib.Exec MNet.Lib.Rfc1035

variable {s t : Resp} {stack : Nat → UInt8} {contentLen querySize : Int} {domain : CString}

/-- Equal strings: no byte of the known one is zero. -/
theorem strncmp_zero {p : Nat} {str : Nat → UInt8} {n k : Nat} (hstr : ∀ m < n, str (k + m) ≠ 0)
    (h : Returns (strncmp p str n k) s 0 t) : ∀ m < n, s.buf[p + k + m]? = some (str (k + m)) := by
  induction n generalizing k with
  | zero => exact fun m hm => absurd hm (Nat.not_lt_zero m)
  | succ n ih =>
    simp only [strncmp, returns_bind, returns_byteAt, and_assoc, exists_and_left, exists_eq_left] at h
    obtain ⟨a, ha, h⟩ := h
    rw [← Int.natCast_add, octetAt_natCast] at ha
    have hk : str k ≠ 0 := hstr 0 (Nat.succ_pos n)
    rcases returns_ite.mp h with ⟨hne, h⟩ | ⟨heq, h⟩
    · obtain ⟨hsub, _⟩ := returns_pure.mp h
      refine absurd (UInt8.toNat_inj.mp ?_) hne
      omega
    · have heq : a = str k := not_not.mp heq
      rw [heq, if_neg hk] at h
      have hrest := ih (k := k + 1) (fun m hm => by
        have hm := hstr (m + 1) (Nat.succ_lt_succ hm)
        rwa [← Nat.add_assoc, Nat.add_right_comm] at hm) h
      intro m hm
      cases m with
      | zero => rw [Nat.add_zero, Nat.add_zero, ha, heq]
      | succ m =>
        have hm := hrest m (Nat.lt_of_succ_lt_succ hm)
        rwa [show p + (k + 1) + m = p + k + (m + 1) by omega, show k + 1 + m = k + (m + 1) by omega] at hm

theorem mem_labelsFrom {acc cs : List UInt8} {l : Label} {c : UInt8} (hl : l ∈ labelsFrom acc cs)
    (hc : c ∈ l) : c ∈ acc ∨ c ∈ cs := by
  induction cs generalizing acc with
  | nil =>
    rw [labelsFrom_nil, List.mem_singleton] at hl
    rw [hl, List.mem_reverse] at hc
    exact .inl hc
  | cons a cs ih =>
    by_cases ha : a = DOT
    · rw [ha, labelsFrom_dot] at hl
      rcases List.mem_cons.mp hl with rfl | hl
      · exact .inl (List.mem_reverse.mp hc)
      · exact .inr (List.mem_cons_of_mem _ ((ih hl).resolve_left (by simp)))
    · rw [labelsFrom_char ha] at hl
      rcases ih hl with hacc | hcs
      · rcases List.mem_cons.mp hacc with rfl | hacc
        · exact .inr (by simp)
        · exact .inl hacc
      · exact .inr (List.mem_cons_of_mem _ hcs)

/-- An encoded domain holds no zero. -/
theorem zero_notMem_labelsBytes (hd : domain.Named) : 0 ∉ labelsBytes domain.labels := by
  intro h
  obtain ⟨l, hl, h⟩ := List.mem_flatMap.mp h
  rcases List.mem_cons.mp h with h | h
  · exact length_ne_zero (hd.2 l hl) h.symm
  · rw [domain.labels_eq] at hl
    exact domain.noNul ((mem_labelsFrom hl h).resolve_left (by simp))

/-! ## The comparison -/

/-- The bytes of the encoded domain that are compared. -/
theorem field_byte {w : DomainBuf} (hd : domain.Named) (hlen : domain.bytes.length ≤ 254) {k : Nat}
    (hk : k < domain.bytes.length + 1) :
    (labelsBytes domain.labels)[k]? = some ((constructDomainField w domain).2.byte k) := by
  have hl := length_labelsBytes_labels domain
  have hget := List.getElem?_eq_getElem (l := labelsBytes domain.labels) (i := k) (by omega)
  rw [hget, (constructDomainField_named (w := w) hd (by omega)).2 k _ hget]

theorem field_byte_ne_zero {w : DomainBuf} (hd : domain.Named) (hlen : domain.bytes.length ≤ 254)
    {k : Nat} (hk : k < domain.bytes.length + 1) : (constructDomainField w domain).2.byte k ≠ 0 := by
  intro h
  refine zero_notMem_labelsBytes hd (List.mem_of_getElem? (i := k) ?_)
  rw [← h, field_byte hd hlen hk]

/-- An accepted question agrees with the encoded domain, its last byte apart. -/
theorem responseCheckQuestion_pos (hd : domain.Named) (hlen : domain.bytes.length ≤ 254) {r : Int}
    (hr : 0 < r) (h : Returns (responseCheckQuestion stack querySize domain) s r t) :
    ∀ k < domain.bytes.length, s.buf[12 + k]? = (labelsBytes domain.labels)[k]? := by
  rw [responseCheckQuestion, domainField_of_le stack (Nat.le_succ_of_le hlen), require_some_bind] at h
  obtain ⟨cmp, u, hcmp, h⟩ := returns_bind.mp h
  have hzero : cmp = 0 := by
    by_contra hne
    rw [if_pos hne] at h
    obtain ⟨rfl, _⟩ := returns_pure.mp h
    exact absurd hr (by decide)
  rw [hzero] at hcmp
  intro k hk
  have hall := strncmp_zero (p := 12) (k := 0) (fun m hm => by
    rw [Nat.zero_add]
    exact field_byte_ne_zero hd hlen (Nat.lt_succ_of_lt hm)) hcmp k hk
  rw [Nat.add_zero, Nat.zero_add] at hall
  rw [hall, field_byte hd hlen (Nat.lt_succ_of_lt hk)]

/-! ## The name that was asked for -/

/-- The octets of the question's name, up to and including the zero before its type. -/
def questionName (buf : List UInt8) (querySize : Nat) : List UInt8 := (buf.drop 12).take (querySize - 16)

theorem take_drop_eq_iff {buf l : List UInt8} {d n : Nat} (hl : l.length = n) :
    (buf.drop d).take n = l ↔ ∀ k < n, buf[d + k]? = l[k]? := by
  rw [List.ext_getElem?_iff]
  refine forall_congr' fun k => ?_
  by_cases hk : k < n
  · rw [List.getElem?_take_of_lt hk, List.getElem?_drop]
    exact ⟨fun h _ => h, fun h => h hk⟩
  · rw [List.getElem?_eq_none (by rw [List.length_take]; omega), List.getElem?_eq_none (by omega)]
    exact ⟨fun _ h => absurd h hk, fun _ => rfl⟩

/-- A response that is accepted is to a question for the domain exactly when the last octet of the
name and the zero behind it, which are not compared, are those of the domain. -/
theorem question_matches_iff {b buf out : List UInt8} {qid : UInt16} {p out' : Option (List UInt8)}
    (hbuild : mdnsQueryBuild (some b) qid (some domain) = .ok (querySize, p)) (hpos : 0 < querySize)
    (h : mdnsResponseParse stack (some buf) contentLen querySize (some domain) (some out) = .ok (1, out')) :
    questionName buf querySize.toNat = labelsBytes domain.labels ++ [0] ↔
      buf[querySize.toNat - 6]? = (labelsBytes domain.labels).getLast? ∧
        buf[querySize.toNat - 5]? = some 0 := by
  obtain ⟨_, hd, hlen, _, rfl, _⟩ := named_of_built hbuild hpos
  obtain ⟨_, _, t, _, hparse⟩ := mdnsResponseParse_one h
  obtain ⟨_, ⟨r, hr, hq⟩, _⟩ := responseParse_one hparse
  have hsame := responseCheckQuestion_pos hd hlen hr hq
  have hl := length_labelsBytes_labels domain
  have hn : (domain.bytes.length + 18) - 16 = domain.bytes.length + 2 := by omega
  have hlast : (labelsBytes domain.labels).getLast? = (labelsBytes domain.labels)[domain.bytes.length]? := by
    rw [List.getLast?_eq_getElem?, hl]
    rfl
  rw [Int.toNat_natCast, questionName, hn, take_drop_eq_iff (by simp [hl]), hlast,
    show domain.bytes.length + 18 - 6 = 12 + domain.bytes.length by omega,
    show domain.bytes.length + 18 - 5 = 12 + (domain.bytes.length + 1) by omega]
  constructor
  · intro hall
    refine ⟨?_, ?_⟩
    · rw [hall _ (by omega), List.getElem?_append_left (by omega)]
    · rw [hall _ (by omega), List.getElem?_append_right (by omega), hl, Nat.sub_self]
      rfl
  · rintro ⟨hlast, hzero⟩ k hk
    rcases Nat.lt_trichotomy k domain.bytes.length with hlt | rfl | hgt
    · rw [hsame k hlt, List.getElem?_append_left (by omega)]
    · rw [hlast, List.getElem?_append_left (by omega)]
    · obtain rfl : k = domain.bytes.length + 1 := by omega
      rw [hzero, List.getElem?_append_right (by omega), hl, Nat.sub_self]
      rfl

/-- A response to a query for `a.b` that gives the address 1.2.3.4 for `a.c`. -/
def acResponse : List UInt8 :=
  [0, 7, 0x81, 0x80, 0, 1, 0, 1, 0, 0, 0, 0] ++ [1, 97, 1, 99, 0, 0, 1, 0, 1] ++
    [0xc0, 0x0c, 0, 1, 0, 1, 0, 0, 0, 60, 0, 4, 1, 2, 3, 4]

/-- The same for `a.b`. -/
def abResponse : List UInt8 :=
  [0, 7, 0x81, 0x80, 0, 1, 0, 1, 0, 0, 0, 0] ++ [1, 97, 1, 98, 0, 0, 1, 0, 1] ++
    [0xc0, 0x0c, 0, 1, 0, 1, 0, 0, 0, 60, 0, 4, 1, 2, 3, 4]

theorem question_matches_iff_ab : questionName abResponse 21 = labelsBytes abDomain.labels ++ [0] ↔
    abResponse[15]? = (labelsBytes abDomain.labels).getLast? ∧ abResponse[16]? = some 0 := by
  have hparse : mdnsResponseParse (fun _ => 0) (some abResponse) 37 21 (some abDomain)
      (some [0, 0, 0, 0]) = .ok (1, some [1, 2, 3, 4]) := by decide +kernel
  exact question_matches_iff abQuery_built (by decide) hparse

theorem not_question_matches : ∃ out', mdnsResponseParse (fun _ => 0) (some acResponse) 37 21
    (some abDomain) (some [0, 0, 0, 0]) = .ok (1, out') ∧
      mdnsQueryBuild (some emptyBuf) 7 (some abDomain) = .ok (21, some abQuery) ∧
      questionName acResponse 21 ≠ labelsBytes abDomain.labels ++ [0] := by
  refine ⟨some [1, 2, 3, 4], ?_, abQuery_built, ?_⟩
  · decide +kernel
  · decide +kernel

end MNet.Dns
