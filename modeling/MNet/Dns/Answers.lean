import MNet.Dns.Question

/-! # The answers of a response

The walk takes the first record of class IN that gives an address or a name pointer, and four
bytes of its data. It finds the end of an owner's name as the end of a C string. -/

namespace MNet.Dns
open MNet.Lib MNet.Lib.Exec MNet.Lib.Rfc1035

variable {s t : Resp} {stack : Nat → UInt8} {contentLen querySize : Int} {domain : CString}
  {msg buf : List UInt8}

/-- The first zero from `pos` on. -/
def zeroFrom (msg : List UInt8) (pos : Nat) : Option Nat :=
  ((msg.drop pos).findIdx? (· == 0)).map (pos + ·)

/-- A pointer to a name, which the walk takes for an address. -/
def TYPE_PTR : Nat := 12

/-- Up to the record that is taken, every owner's name ends where a zero stands, the first high
byte of a type, and the record that is taken is an address of four bytes. -/
def PlainAnswers (msg : List UInt8) : Nat → Nat → Prop
  | 0, _ => True
  | count + 1, pos =>
    match nameEnd msg msg.length pos with
    | none => False
    | some e => zeroFrom msg pos = some e ∧
      match recordBody msg e with
      | none => False
      | some (rr, e') =>
        if rr.cls = CLASS_IN ∧ (rr.type = TYPE_A ∨ rr.type = TYPE_PTR) then
          rr.type = TYPE_A ∧ rr.rdata.length = 4
        else PlainAnswers msg count e'

instance PlainAnswers.decidable (msg : List UInt8) : (count pos : Nat) → Decidable (PlainAnswers msg count pos)
  | 0, _ => isTrue trivial
  | count + 1, pos => by
    have := PlainAnswers.decidable msg count
    unfold PlainAnswers
    split
    · infer_instance
    · refine @instDecidableAnd _ _ _ ?_
      split <;> infer_instance

/-! ## Numbers -/

theorem toNat_load16 (a b : UInt8) : (load16 a b).toNat = a.toNat + 256 * b.toNat := by
  have ha := a.toNat_lt
  have hb := b.toNat_lt
  rw [load16, UInt16.toNat_ofNat']
  exact Nat.mod_eq_of_lt (by omega)

theorem toNat_ntohs (v : UInt16) : (ntohs v).toNat = v.toNat % 256 * 256 + v.toNat / 256 := by
  have hv := v.toNat_lt
  rw [ntohs, htons, UInt16.toNat_ofNat']
  exact Nat.mod_eq_of_lt (by omega)

theorem ntohs_load16 (a b : UInt8) : (ntohs (load16 a b)).toNat = a.toNat * 256 + b.toNat := by
  have ha := a.toNat_lt
  rw [toNat_ntohs, toNat_load16]
  omega

theorem load16_eq_ntohs {a b : UInt8} {v : UInt16} :
    load16 a b = ntohs v ↔ a.toNat * 256 + b.toNat = v.toNat := by
  have ha := a.toNat_lt
  have hb := b.toNat_lt
  have hv := v.toNat_lt
  rw [← UInt16.toNat_inj, toNat_ntohs, toNat_load16]
  omega

/-- A number of the content is the one that is read from the buffer. -/
theorem u16At_take {n k v : Nat} (h : u16At (buf.take n) k = some v) {w : UInt16}
    (hw : Returns (load16At k) s w t) (hs : s.buf = buf) :
    (ntohs w).toNat = v ∧ ∀ u : UInt16, w = ntohs u ↔ v = u.toNat := by
  obtain ⟨lo, hi, hlo, hhi, rfl, _⟩ := returns_load16At.mp hw
  rw [hs, octetAt_natCast] at hlo
  rw [hs, ← Int.natCast_succ, octetAt_natCast] at hhi
  have hbefore : ∀ {i : Nat} {x : UInt8}, (buf.take n)[i]? = some x → buf[i]? = some x := by
    intro i x hx
    rw [List.getElem?_take] at hx
    split at hx
    · exact hx
    · cases hx
  unfold u16At at h
  split at h
  · rename_i a b ha hb
    rw [hbefore ha, Option.some.injEq] at hlo
    rw [hbefore hb, Option.some.injEq] at hhi
    rw [Option.some.injEq] at h
    subst hlo hhi h
    exact ⟨ntohs_load16 a b, fun u => load16_eq_ntohs⟩
  · cases h

/-! ## The walk -/

/-- What the numbers of a record say, when its octets are read from the buffer. -/
theorem recordBody_take {n e e' : Nat} {rr : Record} (h : recordBody (buf.take n) e = some (rr, e')) :
    u16At (buf.take n) e = some rr.type ∧ u16At (buf.take n) (e + 2) = some rr.cls ∧
      u16At (buf.take n) (e + 8) = some rr.rdata.length ∧ e' = e + 10 + rr.rdata.length ∧
      rr.rdata = ((buf.take n).drop (e + 10)).take rr.rdata.length := by
  unfold recordBody at h
  split at h
  · rename_i type cls hi lo rdlength htype hcls _ _ hrd
    split at h
    · rename_i hle
      rw [Option.some.injEq, Prod.mk.injEq] at h
      obtain ⟨rfl, rfl⟩ := h
      have hlen : (((buf.take n).drop (e + 10)).take rdlength).length = rdlength := by
        rw [List.length_take, List.length_drop]
        omega
      refine ⟨htype, hcls, ?_, ?_, ?_⟩ <;> dsimp only <;> rw [hlen]
      exact hrd
    · cases h
  · cases h

theorem returns_isAddress {answer : Int} {found : Bool} (h : Returns (isAddress answer) s found t) :
    t = s ∧ ∃ cls, Returns (load16At (answer + 2)) s cls s ∧ (found = true → cls = ntohs 1 ∧
      ∃ type, Returns (load16At answer) s type s ∧ (type = ntohs 1 ∨ type = ntohs 12)) ∧
      (found = false → cls = ntohs 1 → ∃ type, Returns (load16At answer) s type s ∧
        ¬ (type = ntohs 1 ∨ type = ntohs 12)) := by
  simp only [isAddress, returns_bind] at h
  obtain ⟨cls, u, hcls, h⟩ := h
  obtain rfl := within_load16At _ _ hcls
  rcases returns_ite.mp h with ⟨hin, h⟩ | ⟨hout, h⟩
  · simp only [returns_bind] at h
    obtain ⟨type, u', htype, h⟩ := h
    obtain rfl := within_load16At _ _ htype
    obtain ⟨rfl, rfl⟩ := returns_pure.mp h
    exact ⟨rfl, cls, hcls, fun hf => ⟨hin, type, htype, of_decide_eq_true hf⟩,
      fun hf _ => ⟨type, htype, of_decide_eq_false hf⟩⟩
  · obtain ⟨rfl, rfl⟩ := returns_pure.mp h
    exact ⟨rfl, cls, hcls, by simp, fun _ hin => absurd hin hout⟩

theorem returns_copyOut {offset : Nat} {u : Unit} (h : Returns (copyOut offset) s u t) :
    ∃ a b c d, s.buf[offset]? = some a ∧ s.buf[offset + 1]? = some b ∧ s.buf[offset + 2]? = some c ∧
      s.buf[offset + 3]? = some d ∧ t = { s with out := [a, b, c, d] ++ s.out.drop 4 } := by
  simp only [copyOut, returns_bind, returns_byteAt, returns_modify, and_assoc, exists_and_left,
    exists_eq_left] at h
  obtain ⟨a, ha, b, hb, c, hc, d, hd, rfl⟩ := h
  have hat : ∀ k : Nat, octetAt s.buf ((offset + k : Nat) : Int) = s.buf[offset + k]? := fun _ => octetAt_natCast _ _
  exact ⟨a, b, c, d, (hat 0).symm.trans ha, (hat 1).symm.trans hb, (hat 2).symm.trans hc,
    (hat 3).symm.trans hd, rfl⟩

/-- The four bytes that are copied are the data of a record of this length. -/
theorem rdata_copied {n k : Nat} {rdata : List UInt8} {a b c d : UInt8}
    (hr : rdata = ((buf.take n).drop k).take 4) (hl : rdata.length = 4) (ha : buf[k]? = some a)
    (hb : buf[k + 1]? = some b) (hc : buf[k + 2]? = some c) (hd : buf[k + 3]? = some d) :
    rdata = [a, b, c, d] := by
  have hin : k + 4 ≤ n := by
    rw [hr, List.length_take, List.length_drop, List.length_take] at hl
    omega
  refine List.ext_getElem? fun i => ?_
  by_cases hi : i < 4
  · rw [hr, List.getElem?_take_of_lt hi, List.getElem?_drop, List.getElem?_take_of_lt (by omega)]
    match i, hi with
    | 0, _ => exact ha
    | 1, _ => exact hb
    | 2, _ => exact hc
    | 3, _ => exact hd
  · rw [List.getElem?_eq_none (by omega), List.getElem?_eq_none (by simpa using hi)]

theorem findIdx?_of_take {l : List UInt8} {n m : Nat} {p : UInt8 → Bool} (h : (l.take n).findIdx? p = some m) :
    l.findIdx? p = some m := by
  conv_lhs => rw [← List.take_append_drop n l]
  rw [List.findIdx?_append, h]
  rfl

/-- A round of the walk that ends with an address, or goes on to one. -/
theorem fetchLoop_cases {count pos : Nat} {r : Int} (hr : 0 < r)
    (h : Returns (fetchLoop contentLen (count + 1) pos) s r t) :
    ∃ n rdlen found, contentLen > (pos + 14 : Nat) ∧ 2 ≤ n ∧ (s.buf.drop pos).findIdx? (· == 0) = some n ∧
      Returns (load16At ((pos + n + 8 : Nat) : Int)) s rdlen s ∧
      Returns (isAddress ((pos + n : Nat) : Int)) s found s ∧
      ((found = true ∧ Returns (copyOut ((pos + n + 10 : Nat) : Int)) s () t) ∨
        (found = false ∧
          Returns (fetchLoop contentLen count ((pos + n + 10 + (ntohs rdlen).toNat : Nat) : Int)) s r t)) := by
  simp only [fetchLoop, returns_ite, returns_bind, returns_pure, returns_strlen] at h
  obtain ⟨_, rfl, _⟩ | ⟨hlong, n, _, ⟨_, hlen, rfl⟩, ⟨_, rfl, _⟩ | ⟨hshort, rdlen, u, hrd, ⟨_, rfl, _⟩ |
    ⟨_, found, v, hfound, h⟩⟩⟩ := h
  · exact absurd hr (by decide)
  · exact absurd hr (by decide)
  · exact absurd hr (by decide)
  · obtain rfl := within_load16At _ _ hrd
    obtain ⟨rfl, _⟩ := returns_isAddress hfound
    refine ⟨n, rdlen, found, ?_, by omega, hlen, hrd, hfound, ?_⟩
    · rw [SIZEOF_DNS_HEADER] at hlong
      omega
    obtain ⟨hf, _, _, hcopy, _, rfl⟩ | ⟨hf, h⟩ := h
    · exact .inl ⟨hf, hcopy⟩
    · exact .inr ⟨Bool.eq_false_iff.mpr hf, h⟩

/-- The record that is taken is one of the section. -/
theorem fetchLoop_pos {count pos : Nat} {r : Int} (hr : 0 < r)
    (hp : PlainAnswers (s.buf.take contentLen.toNat) count pos)
    (h : Returns (fetchLoop contentLen count pos) s r t) :
    ∃ rr ∈ recordsAt (s.buf.take contentLen.toNat) count pos, rr.type = TYPE_A ∧ rr.cls = CLASS_IN ∧
      rr.rdata.length = 4 ∧ t.out = rr.rdata ++ s.out.drop 4 := by
  induction count generalizing pos with
  | zero =>
    obtain ⟨rfl, _⟩ := returns_pure.mp h
    exact absurd hr (by decide)
  | succ count ih =>
    -- the owner's name and the record's numbers, in the content
    unfold PlainAnswers at hp
    split at hp
    · cases hp
    rename_i e hname
    obtain ⟨hzero, hp⟩ := hp
    split at hp
    · cases hp
    rename_i rr e' hbody
    have hrec : recordAt (s.buf.take contentLen.toNat) pos = some (rr, e') := by
      rw [recordAt, hname]
      exact hbody
    obtain ⟨htype, hcls, hrdlen, he', hrdata⟩ := recordBody_take hbody
    rw [recordsAt, hrec]
    -- the walk reads them in the buffer
    obtain ⟨n, rdlen, found, _, _, hlen, hrd, hfound, hrest⟩ := fetchLoop_cases hr h
    obtain rfl : e = pos + n := by
      obtain ⟨m, hm, rfl⟩ := Option.map_eq_some_iff.mp hzero
      rw [List.drop_take] at hm
      rw [findIdx?_of_take hm, Option.some.injEq] at hlen
      rw [hlen]
    obtain ⟨_, cls, hc, hyes, hno⟩ := returns_isAddress hfound
    have hcls := (u16At_take hcls hc rfl).2 1
    have hrd := (u16At_take hrdlen hrd rfl).1
    obtain ⟨rfl, hcopy⟩ | ⟨rfl, hgo⟩ := hrest
    · obtain ⟨hin, type, hty, hcases⟩ := hyes rfl
      have hin := hcls.mp hin
      have htype := (u16At_take htype hty rfl).2
      have htake : rr.cls = CLASS_IN ∧ (rr.type = TYPE_A ∨ rr.type = TYPE_PTR) :=
        ⟨hin, hcases.imp (htype 1).mp (htype 12).mp⟩
      rw [if_pos htake] at hp
      obtain ⟨a, b, c, d, ha, hb, hc, hd, rfl⟩ := returns_copyOut hcopy
      rw [hp.2] at hrdata
      exact ⟨rr, by simp, hp.1, hin, hp.2, by rw [rdata_copied hrdata hp.2 ha hb hc hd]⟩
    · have hskip : ¬ (rr.cls = CLASS_IN ∧ (rr.type = TYPE_A ∨ rr.type = TYPE_PTR)) := by
        rintro ⟨hin, hcases⟩
        obtain ⟨type, hty, hneither⟩ := hno rfl (hcls.mpr hin)
        have htype := (u16At_take htype hty rfl).2
        exact hneither (hcases.imp (htype 1).mpr (htype 12).mpr)
      rw [if_neg hskip] at hp
      rw [hrd, ← he'] at hgo
      obtain ⟨q, hq, hrest⟩ := ih hp hgo
      exact ⟨q, List.mem_cons_of_mem _ hq, hrest⟩

/-- A walk that finds a record has a header to go by. -/
theorem fetchLoop_long {count pos : Nat} {r : Int} (hr : 0 < r) (hpos : 0 < pos)
    (h : Returns (fetchLoop contentLen count pos) s r t) : 12 ≤ (s.buf.take contentLen.toNat).length := by
  cases count with
  | zero =>
    obtain ⟨rfl, _⟩ := returns_pure.mp h
    exact absurd hr (by decide)
  | succ count =>
    obtain ⟨n, rdlen, _, hlong, htwo, _, hrd, _⟩ := fetchLoop_cases hr h
    obtain ⟨_, hi, _, hhi, _⟩ := returns_load16At.mp hrd
    rw [← Int.natCast_succ, octetAt_natCast] at hhi
    have hlt := (List.getElem?_eq_some_iff.mp hhi).1
    rw [List.length_take]
    omega

/-! ## The address -/

/-- An address is that of a record of the answer section, when the section is plain up to the
record that is taken. -/
theorem answer_sound {buf out : List UInt8} {out' : Option (List UInt8)}
    (h : mdnsResponseParse stack (some buf) contentLen querySize (some domain) (some out) = .ok (1, out'))
    (hp : PlainAnswers (buf.take contentLen.toNat) (ancountOf (buf.take contentLen.toNat)) querySize.toNat) :
    ∃ rr ∈ answersAt (buf.take contentLen.toNat) querySize.toNat, rr.type = TYPE_A ∧ rr.cls = CLASS_IN ∧
      rr.rdata.length = 4 ∧ out' = some (rr.rdata ++ out.drop 4) := by
  obtain ⟨_, hq, t, rfl, hparse⟩ := mdnsResponseParse_one h
  obtain ⟨_, _, r, hr, hres⟩ := responseParse_one hparse
  lift querySize to Nat using Int.le_of_lt hq
  simp only [responseFetchRes, returns_bind] at hres
  obtain ⟨an, u, han, hloop⟩ := hres
  obtain rfl := within_load16At _ _ han
  obtain ⟨hd, hhd, hancount⟩ := headerOf_of_le (fetchLoop_long hr (by omega) hloop)
  have hcount : ancountOf (buf.take contentLen.toNat) = (ntohs an).toNat := by
    rw [(u16At_take hancount han rfl).1, ancountOf, hhd]
    rfl
  rw [hcount] at hp
  rw [answersAt, hcount]
  obtain ⟨rr, hrr, htype, hcls, hlen, hout⟩ := fetchLoop_pos hr hp hloop
  exact ⟨rr, hrr, htype, hcls, hlen, by rw [hout]⟩

theorem answer_sound_ab : ∃ rr ∈ answersAt (abResponse.take 37) 21, rr.type = TYPE_A ∧ rr.cls = CLASS_IN ∧
    rr.rdata.length = 4 ∧ some [1, 2, 3, 4] = some (rr.rdata ++ [0, 0, 0, 0].drop 4) := by
  have hparse : mdnsResponseParse (fun _ => 0) (some abResponse) 37 21 (some abDomain)
      (some [0, 0, 0, 0]) = .ok (1, some [1, 2, 3, 4]) := by decide +kernel
  exact answer_sound hparse (by decide +kernel)

/-- A response to a query for `a.b` whose only answer is a pointer to a name. -/
def ptrResponse : List UInt8 :=
  [0, 7, 0x81, 0x80, 0, 1, 0, 1, 0, 0, 0, 0] ++ [1, 97, 1, 98, 0, 0, 1, 0, 1] ++
    [0xc0, 0x0c, 0, 12, 0, 1, 0, 0, 0, 60, 0, 4, 1, 99, 0xc0, 0x0e]

theorem not_answer_sound : ∃ out', mdnsResponseParse (fun _ => 0) (some ptrResponse) 37 21
    (some abDomain) (some [0, 0, 0, 0]) = .ok (1, out') ∧
      ¬ ∃ rr ∈ answersAt (ptrResponse.take 37) 21, rr.type = TYPE_A ∧ rr.cls = CLASS_IN ∧
        rr.rdata.length = 4 ∧ out' = some (rr.rdata ++ [0, 0, 0, 0].drop 4) := by
  refine ⟨some [1, 99, 0xc0, 0x0e], ?_, ?_⟩
  · decide +kernel
  · decide +kernel

end MNet.Dns
