import MNet.Dns.Walk

/-! # What a failure leaves behind

The header, the question and the answers of a response are looked at one after the other, whatever
comes of the first. The walk over the answers has written the address it found before the results
are combined. -/

namespace MNet.Dns
open MNet.Lib MNet.Lib.Exec MNet.Lib.Rfc1035

variable {s t : Resp} {stack : Nat → UInt8} {contentLen querySize : Int} {domain : CString} {r : Int}
  {buf : List UInt8} {count pos e : Nat}

/-- Class IN, and an address or a pointer to a name. -/
def AddressAt (buf : List UInt8) (e : Nat) : Prop :=
  u16At buf (e + 2) = some CLASS_IN ∧ (u16At buf e = some TYPE_A ∨ u16At buf e = some TYPE_PTR)

instance : Decidable (AddressAt buf e) := by
  unfold AddressAt
  infer_instance

/-- A record of `rdlength` bytes of data, behind an owner's name that ends at `e`, is too long for
the content, or its name is too short. -/
def Unfit (contentLen : Int) (pos e rdlength : Nat) : Prop :=
  contentLen ≤ pos + 14 ∨ e < pos + 2 ∨ contentLen < e + 10 + rdlength ∨ contentLen ≤ e + 10

instance {rdlength : Nat} : Decidable (Unfit contentLen pos e rdlength) := by
  unfold Unfit
  infer_instance

/-- Where the data begins of the first address among `count` records from `pos` on, when the records
up to it fit. -/
def firstAddress (buf : List UInt8) (contentLen : Int) : Nat → Nat → Option Nat
  | 0, _ => none
  | count + 1, pos =>
    match zeroFrom buf pos with
    | none => none
    | some e =>
      match u16At buf (e + 8) with
      | none => none
      | some rdlength =>
        if Unfit contentLen pos e rdlength then none
        else if AddressAt buf e then some (e + 10)
        else firstAddress buf contentLen count (e + 10 + rdlength)

/-! ## The walk -/

/-- The walk copies four bytes and returns 1, or it leaves everything as it is. -/
structure Walked (s : Resp) (found : Option Nat) (r : Int) (t : Resp) : Prop where
  address : ∀ off, found = some off →
    r = 1 ∧ ((s.buf.drop off).take 4).length = 4 ∧ t.out = (s.buf.drop off).take 4 ++ s.out.drop 4
  nothing : found = none → r ≤ 0 ∧ t = s

theorem walked_nothing (hr : r ≤ 0) : Walked s none r s where
  address _ h := nomatch h
  nothing _ := ⟨hr, rfl⟩

theorem walked_address {off : Nat} {u : Unit} (h : Returns (copyOut off) s u t) :
    Walked s (some off) 1 t where
  address k hk := by
    obtain rfl := Option.some.inj hk
    obtain ⟨a, b, c, d, ha, hb, hc, hd, rfl⟩ := returns_copyOut h
    have hlen : ((s.buf.drop off).take 4).length = 4 := by
      have hlt := (List.getElem?_eq_some_iff.mp hd).1
      rw [List.length_take, List.length_drop]
      omega
    have hdata : (s.buf.drop off).take 4 = [a, b, c, d] :=
      rdata_copied (n := s.buf.length) (by rw [List.take_length]) hlen ha hb hc hd
    exact ⟨rfl, hlen, by rw [hdata]⟩
  nothing h := nomatch h

theorem isAddress_at {found : Bool} (hlen : e + 9 < s.buf.length) (h : Returns (isAddress e) s found t) :
    s = t ∧ found = decide (AddressAt s.buf e) := by
  obtain ⟨type, htype⟩ := u16At_of_lt s.buf e (by omega)
  obtain ⟨cls, hcls⟩ := u16At_of_lt s.buf (e + 2) (by omega)
  obtain ⟨hfound, hsame⟩ := (isAddress_reads htype hcls).det h
  refine ⟨hsame, hfound.symm.trans (decide_eq_decide.mpr ?_)⟩
  simp only [AddressAt, htype, hcls, Option.some.injEq]

/-- A number that is read is there. -/
theorem u16At_of_load {w : UInt16} (h : Returns (load16At (e : Nat)) s w t) :
    s = t ∧ e + 1 < s.buf.length ∧ u16At s.buf e = some (ntohs w).toNat := by
  have hlen := terminates_load16At.mp ⟨w, t, h⟩
  obtain ⟨v, hv⟩ := u16At_of_lt s.buf e hlen
  obtain ⟨w', hw', hnat, _⟩ := load16At_reads hv
  obtain ⟨rfl, hsame⟩ := hw'.det h
  exact ⟨hsame, hlen, hnat.symm ▸ hv⟩

theorem zeroFrom_of_findIdx? {n : Nat} (h : (buf.drop pos).findIdx? (· == 0) = some n) :
    zeroFrom buf pos = some (pos + n) := by
  rw [zeroFrom, h]
  rfl

theorem firstAddress_unfit (h : ∀ e rdlength, zeroFrom buf pos = some e → u16At buf (e + 8) = some rdlength →
    Unfit contentLen pos e rdlength) : firstAddress buf contentLen (count + 1) pos = none := by
  unfold firstAddress
  split
  · rfl
  · split
    · rfl
    · exact if_pos (h _ _ ‹_› ‹_›)

theorem firstAddress_fit {rdlength : Nat} (he : zeroFrom buf pos = some e)
    (hrd : u16At buf (e + 8) = some rdlength) (hfit : ¬ Unfit contentLen pos e rdlength) :
    firstAddress buf contentLen (count + 1) pos =
      if AddressAt buf e then some (e + 10) else firstAddress buf contentLen count (e + 10 + rdlength) := by
  simp only [firstAddress, he, hrd, if_neg hfit]

/-- The induction is on the records that are left. -/
theorem fetchLoop_walked (h : Returns (fetchLoop contentLen count pos) s r t) :
    Walked s (firstAddress s.buf contentLen count pos) r t := by
  induction count generalizing pos with
  | zero =>
    obtain ⟨rfl, rfl⟩ := returns_pure.mp h
    exact walked_nothing (by decide)
  | succ count ih =>
    simp only [fetchLoop, returns_ite, returns_bind, returns_pure, returns_strlen, Int.toNat_natCast] at h
    simp only [SIZEOF_DNS_HEADER, sizeofDnsRrData] at h
    obtain ⟨hshort, rfl, rfl⟩ | ⟨hlong, n, _, ⟨_, hname, rfl⟩, h⟩ := h
    · rw [firstAddress_unfit fun _ _ _ _ => .inl (by omega)]
      exact walked_nothing (by decide)
    have hzero := zeroFrom_of_findIdx? hname
    obtain ⟨hend, rfl, rfl⟩ | ⟨hend, rdlen, _, hrd, h⟩ := h
    · rw [firstAddress_unfit fun e rdlength he _ => ?_]
      · exact walked_nothing (by decide)
      · have he : pos + n = e := Option.some.inj (hzero.symm.trans he)
        unfold Unfit
        omega
    have hat : (pos : Int) + n + 8 = (pos + n + 8 : Nat) := by omega
    rw [hat] at hrd
    obtain ⟨rfl, hlen, hrdlength⟩ := u16At_of_load hrd
    obtain ⟨hcut, rfl, rfl⟩ | ⟨hwhole, found, _, hfound, h⟩ := h
    · rw [firstAddress_unfit fun e rdlength he hrd => ?_]
      · exact walked_nothing (by decide)
      · have he : pos + n = e := Option.some.inj (hzero.symm.trans he)
        have hrd : (ntohs rdlen).toNat = rdlength := Option.some.inj (hrdlength.symm.trans (he ▸ hrd))
        unfold Unfit
        omega
    rw [← Int.natCast_add] at hfound
    obtain ⟨rfl, rfl⟩ := isAddress_at (by omega) hfound
    have hdata : (pos : Int) + n + 10 = (pos + n + 10 : Nat) := by omega
    have hnext : (pos : Int) + n + 10 + (ntohs rdlen).toNat = (pos + n + 10 + (ntohs rdlen).toNat : Nat) := by
      omega
    have hfit : ¬ Unfit contentLen pos (pos + n) (ntohs rdlen).toNat := by
      unfold Unfit
      omega
    rw [firstAddress_fit hzero hrdlength hfit]
    obtain ⟨hyes, _, _, hcopy, rfl, rfl⟩ | ⟨hno, h⟩ := h
    · rw [if_pos (of_decide_eq_true hyes)]
      exact walked_address (hdata ▸ hcopy)
    · rw [if_neg fun h => hno (decide_eq_true h)]
      exact ih (hnext ▸ h)

/-! ## The checks -/

theorem responseCheckHeader_result (h : Returns responseCheckHeader s r t) : r = 1 ∨ r ≤ 0 := by
  simp only [responseCheckHeader, returns_bind, returns_ite, returns_pure] at h
  obtain ⟨_, _, _, _, _, _, ⟨_, rfl, _⟩ | ⟨_, ⟨_, rfl, _⟩ | ⟨_, rfl, _⟩⟩⟩ := h
  · exact .inr (by decide)
  · exact .inr (by omega)
  · exact .inl rfl

theorem responseCheckQuestion_result (h : Returns (responseCheckQuestion stack querySize domain) s r t) :
    r = 1 ∨ r ≤ 0 := by
  simp only [responseCheckQuestion, returns_bind, returns_ite, returns_pure] at h
  obtain ⟨_, _, _, _, _, _, ⟨_, rfl, _⟩ | ⟨_, _, _, _, ⟨_, _, _, _, rfl, _⟩ | ⟨_, rfl, _⟩⟩⟩ := h
  · exact .inr (by decide)
  · exact .inl rfl
  · exact .inl rfl

/-- The header and the question are accepted. -/
def Accepted (stack : Nat → UInt8) (querySize : Int) (domain : CString) (s : Resp) : Prop :=
  Returns responseCheckHeader s 1 s ∧ Returns (responseCheckQuestion stack querySize domain) s 1 s

/-- The walk comes to no address, or the four bytes of its data are those that `out` holds. -/
def Spared (buf out : List UInt8) (contentLen : Int) (querySize : Nat) : Prop :=
  ∀ off ∈ firstAddress buf contentLen ((u16At buf 6).getD 0) querySize,
    (buf.drop off).take 4 = out.take 4

theorem responseFetchRes_walked {qs : Nat} (h : Returns (responseFetchRes contentLen qs) s r t) :
    Walked s (firstAddress s.buf contentLen ((u16At s.buf 6).getD 0) qs) r t := by
  simp only [responseFetchRes, returns_bind] at h
  obtain ⟨an, _, han, h⟩ := h
  obtain ⟨rfl, _, hcount⟩ := u16At_of_load (e := 6) han
  rw [hcount]
  exact fetchLoop_walked h

theorem written_iff {four out : List UInt8} : four ++ out.drop 4 = out ↔ four = out.take 4 := by
  conv_lhs => rhs; rw [← List.take_append_drop 4 out]
  exact List.append_left_inj _

/-- A result other than 1 leaves the output as it is, when the checks in front accept the packet or
the walk has nothing to write. -/
theorem responseParse_untouched {qs : Nat} (h : Returns (responseParse stack contentLen qs domain) s r t) :
    (r ≠ 1 → t.out = s.out) ↔ Accepted stack qs domain s ∨ Spared s.buf s.out contentLen qs := by
  simp only [responseParse, returns_bind] at h
  obtain ⟨rh, _, hh, rq, _, hq, rr, u, hr, h⟩ := h
  obtain rfl := within_responseCheckHeader _ _ hh
  obtain rfl := within_responseCheckQuestion _ _ hq
  have hsame : u = t := by
    rcases returns_ite.mp h with ⟨_, h⟩ | ⟨_, h⟩
    · exact (returns_pure.mp h).2.symm
    · rcases returns_ite.mp h with ⟨_, h⟩ | ⟨_, h⟩
      · exact (returns_pure.mp h).2.symm
      · rcases returns_ite.mp h with ⟨_, h⟩ | ⟨_, h⟩ <;> exact (returns_pure.mp h).2.symm
  subst hsame
  have hwalk := responseFetchRes_walked hr
  cases hfound : firstAddress s.buf contentLen ((u16At s.buf 6).getD 0) qs with
  | none =>
    have hspared : Spared s.buf s.out contentLen qs := fun off hoff => by
      rw [hfound] at hoff
      cases hoff
    exact iff_of_true (fun _ => by rw [(hwalk.nothing hfound).2]) (.inr hspared)
  | some off =>
    obtain ⟨rfl, _, hout⟩ := hwalk.address off hfound
    have hspared : Spared s.buf s.out contentLen qs ↔ u.out = s.out := by
      rw [hout, written_iff]
      refine ⟨fun h => h off hfound, fun h k hk => ?_⟩
      obtain rfl := Option.some.inj (hfound.symm.trans hk)
      exact h
    by_cases hboth : rh = 1 ∧ rq = 1
    · obtain ⟨rfl, rfl⟩ := hboth
      rw [if_pos (by decide)] at h
      obtain ⟨rfl, _⟩ := returns_pure.mp h
      exact iff_of_true (absurd rfl) (.inl ⟨hh, hq⟩)
    · have hno : ¬ Accepted stack qs domain s := fun ha =>
        hboth ⟨(hh.det ha.1).1, (hq.det ha.2).1⟩
      have hne : r ≠ 1 := by
        have hrh := responseCheckHeader_result hh
        have hrq := responseCheckQuestion_result hq
        rcases returns_ite.mp h with ⟨hpos, _⟩ | ⟨_, h⟩
        · omega
        · rcases returns_ite.mp h with ⟨_, h⟩ | ⟨_, h⟩
          · obtain ⟨rfl, _⟩ := returns_pure.mp h
            omega
          · rcases returns_ite.mp h with ⟨_, h⟩ | ⟨_, h⟩
            · obtain ⟨rfl, _⟩ := returns_pure.mp h
              omega
            · omega
      rw [or_iff_right hno, hspared]
      exact ⟨fun h => h hne, fun h _ => h⟩

/-! ## The output -/

/-- What a failure needs to leave the output alone. Pointers that are NULL and sizes that are not
positive are refused at once. -/
def OutputKept (stack : Nat → UInt8) (buf : Option (List UInt8)) (contentLen querySize : Int)
    (domain : Option CString) (out : Option (List UInt8)) : Prop :=
  ∀ b ∈ buf, ∀ d ∈ domain, ∀ o ∈ out, 0 < contentLen → 0 < querySize →
    Accepted stack querySize d ⟨b, o⟩ ∨ Spared b o contentLen querySize.toNat

/-- A parse that fails leaves the output as it is exactly when the header and the question are
accepted or the walk has nothing new to write. -/
theorem failure_untouched {buf out out' : Option (List UInt8)} {domain : Option CString}
    (h : mdnsResponseParse stack buf contentLen querySize domain out = .ok (r, out')) :
    (r ≠ 1 → out' = out) ↔ OutputKept stack buf contentLen querySize domain out := by
  obtain _ | b := buf
  · obtain ⟨-, rfl⟩ := Prod.mk.inj (Except.ok.inj h)
    exact iff_of_true (fun _ => rfl) fun _ hb => nomatch hb
  obtain _ | d := domain
  · obtain ⟨-, rfl⟩ := Prod.mk.inj (Except.ok.inj h)
    exact iff_of_true (fun _ => rfl) fun _ _ _ hd => nomatch hd
  obtain _ | o := out
  · obtain ⟨-, rfl⟩ := Prod.mk.inj (Except.ok.inj h)
    exact iff_of_true (fun _ => rfl) fun _ _ _ _ _ ho => nomatch ho
  by_cases hsize : contentLen ≤ 0 ∨ querySize ≤ 0
  · simp only [mdnsResponseParse, if_pos hsize] at h
    obtain ⟨-, rfl⟩ := Prod.mk.inj (Except.ok.inj h)
    exact iff_of_true (fun _ => rfl) fun _ _ _ _ _ _ hc hq => by omega
  obtain ⟨hc, hq⟩ : 0 < contentLen ∧ 0 < querySize := by omega
  obtain ⟨t, ht, rfl⟩ := (mdnsResponseParse_eq hc hq).mp h
  lift querySize to Nat using Int.le_of_lt hq
  simp only [OutputKept, Option.mem_def, Option.some.injEq, forall_eq', hc, hq, true_implies,
    Int.toNat_natCast]
  exact responseParse_untouched ht

/-- The answer to a query for `a.b` with an error code and an address. -/
def refusedResponse : List UInt8 :=
  [0, 7, 0x81, 0x83, 0, 1, 0, 1, 0, 0, 0, 0] ++ [1, 97, 1, 98, 0, 0, 1, 0, 1] ++
    [0xc0, 0x0c, 0, 1, 0, 1, 0, 0, 0, 60, 0, 4, 1, 2, 3, 4]

theorem failure_untouched_refused :
    ¬ OutputKept (fun _ => 0) (some refusedResponse) 37 21 (some abDomain) (some [0, 0, 0, 0]) := by
  have hparse : mdnsResponseParse (fun _ => 0) (some refusedResponse) 37 21 (some abDomain)
      (some [0, 0, 0, 0]) = .ok (-13, some [1, 2, 3, 4]) := by
    decide +kernel
  intro hkept
  exact absurd ((failure_untouched hparse).mpr hkept (by decide)) (by decide)

theorem not_failure_untouched : ¬ ∀ (stack : Nat → UInt8) (buf : Option (List UInt8))
    (contentLen querySize : Int) (domain : Option CString) (out out' : Option (List UInt8)) (r : Int),
    mdnsResponseParse stack buf contentLen querySize domain out = .ok (r, out') → r ≠ 1 → out' = out := by
  intro h
  have hparse : mdnsResponseParse (fun _ => 0) (some refusedResponse) 37 21 (some abDomain)
      (some [0, 0, 0, 0]) = .ok (-13, some [1, 2, 3, 4]) := by
    decide +kernel
  exact absurd (h _ _ _ _ _ _ _ _ hparse (by decide)) (by decide)

end MNet.Dns
