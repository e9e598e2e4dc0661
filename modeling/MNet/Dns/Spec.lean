import MNet.Dns.Query
import MNet.Lib.Within

/-! # Reading a response

What the functions that read a response return, and that all but the copy of the address leave
everything as it is. -/

namespace MNet.Dns
open MNet.Lib MNet.Lib.Exec MNet.Lib.Rfc1035

variable {s t : Resp} {i : Int} {b : UInt8} {n : Nat} {stack : Nat → UInt8} {contentLen querySize : Int}
  {domain : CString} {r : Int}

/-- The byte at an index that may be out of bounds. -/
def octetAt (buf : List UInt8) (i : Int) : Option UInt8 := if 0 ≤ i then buf[i.toNat]? else none

@[simp] theorem octetAt_natCast (buf : List UInt8) (k : Nat) : octetAt buf (k : Int) = buf[k]? := if_pos (Int.natCast_nonneg k)

@[simp] theorem returns_byteAt : Returns (byteAt i) s b t ↔ octetAt s.buf i = some b ∧ t = s := by
  simp only [byteAt, returns_bind, returns_read, returns_require, and_assoc, exists_and_left,
    exists_eq_left]
  rfl

theorem returns_load16At {v : UInt16} : Returns (load16At i) s v t ↔
    ∃ lo hi, octetAt s.buf i = some lo ∧ octetAt s.buf (i + 1) = some hi ∧ v = load16 lo hi ∧ t = s := by
  simp only [load16At, returns_bind, returns_byteAt, returns_pure, and_assoc, exists_and_left,
    exists_eq_left]

theorem returns_strlen : Returns (strlen i) s n t ↔
    0 ≤ i ∧ (s.buf.drop i.toNat).findIdx? (· == 0) = some n ∧ t = s := by
  simp only [strlen, returns_bind, returns_read, returns_require, and_assoc, exists_and_left,
    exists_eq_left]
  by_cases h : 0 ≤ i <;> simp [h]

/-! ## What only reads -/

theorem within_byteAt : Within Eq (byteAt i) s := fun _ _ h => (returns_byteAt.mp h).2.symm

theorem within_load16At : Within Eq (load16At i) s := fun _ _ h => by
  obtain ⟨_, _, _, _, _, rfl⟩ := returns_load16At.mp h
  rfl

theorem within_bitsAt {k w : Nat} : Within Eq (bitsAt i k w) s :=
  .bind within_byteAt fun _ _ _ => within_pure _

theorem within_anyOf {ms : List (P Bool)} (h : ∀ m ∈ ms, ∀ s, Within Eq m s) : Within Eq (anyOf ms) s := by
  induction ms generalizing s with
  | nil => exact within_pure false
  | cons m ms ih =>
    exact (h m (by simp) s).bind fun _ _ _ =>
      .ite (fun _ => within_pure true) fun _ => ih fun m hm => h m (List.mem_cons_of_mem _ hm)

theorem within_responseCheckHeader : Within Eq responseCheckHeader s := by
  refine .bind within_bitsAt fun _ _ _ => (within_anyOf fun m hm s => ?_).bind fun _ _ _ =>
    .ite (fun _ => within_pure _) fun _ => .ite (fun _ => within_pure _) fun _ => within_pure _
  simp only [List.mem_cons, List.not_mem_nil, or_false] at hm
  obtain rfl | rfl | rfl | rfl | rfl | rfl | rfl := hm
  · exact .bind within_bitsAt fun _ _ _ => within_pure _
  · exact .bind within_bitsAt fun _ _ _ => within_pure _
  · exact .bind within_bitsAt fun _ _ _ => within_pure _
  · exact .bind within_bitsAt fun _ _ _ => within_pure _
  · exact .bind within_load16At fun _ _ _ => within_pure _
  · exact .bind within_load16At fun _ _ _ => within_pure _
  · exact within_pure _

theorem within_strncmp {str : Nat → UInt8} {k : Nat} : Within Eq (strncmp i str n k) s := by
  induction n generalizing k s with
  | zero => exact within_pure 0
  | succ n ih =>
    exact .bind within_byteAt fun _ _ _ => .ite (fun _ => within_pure _) fun _ =>
      .ite (fun _ => within_pure 0) fun _ => ih

theorem within_responseCheckQuestion :
    Within Eq (responseCheckQuestion stack querySize domain) s :=
  .require_bind fun _ _ => .bind within_strncmp fun _ _ _ => .ite (fun _ => within_pure _) fun _ =>
    .bind within_load16At fun _ _ _ => .ite
      (fun _ => .bind within_load16At fun _ _ _ => within_pure 1) fun _ => within_pure 1

/-! ## Results -/

/-- The result 1 needs all three checks. -/
theorem responseParse_one (h : Returns (responseParse stack contentLen querySize domain) s 1 t) :
    (∃ r, 0 < r ∧ Returns responseCheckHeader s r s) ∧
      (∃ r, 0 < r ∧ Returns (responseCheckQuestion stack querySize domain) s r s) ∧
      ∃ r, 0 < r ∧ Returns (responseFetchRes contentLen querySize) s r t := by
  simp only [responseParse, returns_bind] at h
  obtain ⟨rh, _, hh, rq, _, hq, rr, u, hr, h⟩ := h
  obtain rfl := within_responseCheckHeader _ _ hh
  obtain rfl := within_responseCheckQuestion _ _ hq
  rcases returns_ite.mp h with ⟨hpos, h⟩ | ⟨hno, h⟩
  · obtain ⟨_, rfl⟩ := returns_pure.mp h
    exact ⟨⟨rh, hpos.1, hh⟩, ⟨rq, hpos.2.1, hq⟩, ⟨rr, hpos.2.2, hr⟩⟩
  · rcases returns_ite.mp h with ⟨hle, h⟩ | ⟨hh, h⟩
    · obtain ⟨rfl, _⟩ := returns_pure.mp h
      exact absurd hle (by decide)
    · rcases returns_ite.mp h with ⟨hle, h⟩ | ⟨hq, h⟩
      · obtain ⟨rfl, _⟩ := returns_pure.mp h
        exact absurd hle (by decide)
      · obtain ⟨rfl, _⟩ := returns_pure.mp h
        exact absurd ⟨Int.not_le.mp hh, Int.not_le.mp hq, by decide⟩ hno

theorem mdnsResponseParse_eq {buf out : List UInt8} (hc : 0 < contentLen) (hq : 0 < querySize)
    {out' : Option (List UInt8)} :
    mdnsResponseParse stack (some buf) contentLen querySize (some domain) (some out) = .ok (r, out') ↔
      ∃ t, Returns (responseParse stack contentLen querySize domain) ⟨buf, out⟩ r t ∧ out' = some t.out := by
  have hno : ¬ (contentLen ≤ 0 ∨ querySize ≤ 0) := by omega
  simp only [mdnsResponseParse, if_neg hno, Returns]
  cases h : responseParse stack contentLen querySize domain ⟨buf, out⟩ with
  | error e => simp
  | ok p => obtain ⟨a, t⟩ := p; simp [eq_comm]

theorem mdnsResponseParse_one {buf out : List UInt8} {out' : Option (List UInt8)}
    (h : mdnsResponseParse stack (some buf) contentLen querySize (some domain) (some out) = .ok (1, out')) :
    0 < contentLen ∧ 0 < querySize ∧ ∃ t, out' = some t.out ∧
      Returns (responseParse stack contentLen querySize domain) ⟨buf, out⟩ 1 t := by
  by_cases hno : contentLen ≤ 0 ∨ querySize ≤ 0
  · simp [mdnsResponseParse, hno] at h
  · have hc : 0 < contentLen := by omega
    have hq : 0 < querySize := by omega
    obtain ⟨t, ht, ho⟩ := (mdnsResponseParse_eq hc hq).mp h
    exact ⟨hc, hq, t, ho, ht⟩

end MNet.Dns
