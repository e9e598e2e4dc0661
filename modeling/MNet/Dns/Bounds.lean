import MNet.Dns.Answers
import MNet.Lib.Follows

/-! # Reads inside the content

A packet shorter than the buffer leaves what an earlier packet put behind it. The functions that
read a response are run on the content alone, where a read behind it faults, and on two buffers
that agree on the content. -/

namespace MNet.Dns
open MNet.Lib MNet.Lib.Exec MNet.Lib.Rfc1035

variable {s t : Resp} {stack : Nat → UInt8} {contentLen querySize : Int} {domain : CString}
  {msg buf : List UInt8} {k count pos : Nat}

/-! ## A longer buffer -/

/-- More bytes behind those of the first buffer. -/
def Extends (s s' : Resp) : Prop := s.buf <+: s'.buf ∧ s.out = s'.out

theorem follows_byteAt (i : Int) : Follows Extends (byteAt i) (byteAt i) :=
  follows_require fun s s' b hs h => by
    split at h
    · obtain ⟨hlt, rfl⟩ := List.getElem?_eq_some_iff.mp h
      rw [if_pos ‹_›, List.prefix_iff_getElem?.mp hs.1 _ hlt]
    · cases h

theorem follows_load16At (i : Int) : Follows Extends (load16At i) (load16At i) :=
  (follows_byteAt i).bind fun _ => (follows_byteAt _).bind fun _ => follows_pure _

theorem follows_strlen (i : Int) : Follows Extends (strlen i) (strlen i) :=
  follows_require fun s s' n hs h => by
    split at h
    · obtain ⟨rest, hrest⟩ := hs.1
      have hlt := (List.findIdx?_eq_some_iff_getElem.mp h).1
      rw [List.length_drop] at hlt
      rw [if_pos ‹_›, ← hrest, List.drop_append_of_le_length (by omega), List.findIdx?_append, h]
      rfl
    · cases h

theorem follows_bitsAt (p i w : Nat) : Follows Extends (bitsAt p i w) (bitsAt p i w) :=
  (follows_byteAt _).bind fun _ => follows_pure _

theorem follows_anyOf {ms : List (P Bool)} (h : ∀ m ∈ ms, Follows Extends m m) :
    Follows Extends (anyOf ms) (anyOf ms) := by
  induction ms with
  | nil => exact follows_pure false
  | cons m ms ih =>
    exact (h m (by simp)).bind fun _ =>
      .ite (follows_pure true) (ih fun m hm => h m (List.mem_cons_of_mem _ hm))

theorem follows_responseCheckHeader : Follows Extends responseCheckHeader responseCheckHeader := by
  refine (follows_bitsAt 3 0 4).bind fun _ => (follows_anyOf fun m hm => ?_).bind fun _ =>
    .ite (follows_pure _) (.ite (follows_pure _) (follows_pure _))
  simp only [List.mem_cons, List.not_mem_nil, or_false] at hm
  obtain rfl | rfl | rfl | rfl | rfl | rfl | rfl := hm
  · exact (follows_bitsAt 2 7 1).bind fun _ => follows_pure _
  · exact (follows_bitsAt 2 3 4).bind fun _ => follows_pure _
  · exact (follows_bitsAt 2 0 1).bind fun _ => follows_pure _
  · exact (follows_bitsAt 3 4 3).bind fun _ => follows_pure _
  · exact (follows_load16At 4).bind fun _ => follows_pure _
  · exact (follows_load16At 6).bind fun _ => follows_pure _
  · exact follows_pure _

theorem follows_strncmp {p : Int} {str : Nat → UInt8} {n : Nat} :
    Follows Extends (strncmp p str n k) (strncmp p str n k) := by
  induction n generalizing k with
  | zero => exact follows_pure 0
  | succ n ih =>
    exact (follows_byteAt _).bind fun _ => .ite (follows_pure _) (.ite (follows_pure 0) ih)

theorem follows_responseCheckQuestion : Follows Extends
    (responseCheckQuestion stack querySize domain) (responseCheckQuestion stack querySize domain) :=
  .bind follows_require_same fun _ => .bind follows_strncmp fun _ => .ite (follows_pure _)
    ((follows_load16At _).bind fun _ => .ite ((follows_load16At _).bind fun _ => follows_pure 1) (follows_pure 1))

theorem follows_copyOut (i : Int) : Follows Extends (copyOut i) (copyOut i) :=
  (follows_byteAt _).bind fun _ => (follows_byteAt _).bind fun _ => (follows_byteAt _).bind fun _ =>
    (follows_byteAt _).bind fun _ => follows_modify fun _ _ hs => ⟨hs.1, by rw [hs.2]⟩

theorem follows_isAddress (i : Int) : Follows Extends (isAddress i) (isAddress i) :=
  (follows_load16At _).bind fun _ => .ite ((follows_load16At i).bind fun _ => follows_pure _)
    (follows_pure false)

theorem follows_fetchLoop {prev : Int} :
    Follows Extends (fetchLoop contentLen count prev) (fetchLoop contentLen count prev) := by
  induction count generalizing prev with
  | zero => exact follows_pure _
  | succ count ih =>
    exact .ite (follows_pure _) ((follows_strlen prev).bind fun _ => .ite (follows_pure _)
      ((follows_load16At _).bind fun _ => .ite (follows_pure _) ((follows_isAddress _).bind fun _ =>
        .ite ((follows_copyOut _).bind fun _ => follows_pure 1) ih)))

theorem follows_responseParse : Follows Extends (responseParse stack contentLen querySize domain)
    (responseParse stack contentLen querySize domain) :=
  .bind follows_responseCheckHeader fun _ => .bind follows_responseCheckQuestion fun _ =>
    ((follows_load16At 6).bind fun _ => follows_fetchLoop).bind fun _ =>
      .ite (follows_pure 1) (.ite (follows_pure _) (.ite (follows_pure _) (follows_pure _)))

/-! ## What is read -/

/-- The comparison with the encoded domain ends inside the content: every byte it comes to, as
long as those before it agree, is there. -/
def NameInside (msg : List UInt8) (domain : CString) : Prop :=
  ∀ k < domain.bytes.length, (∀ j < k, msg[12 + j]? = (labelsBytes domain.labels)[j]?) → 12 + k < msg.length

/-- The type of the question is there, and its class when it is looked at. -/
def QuestionInside (msg : List UInt8) (querySize : Nat) : Prop :=
  4 ≤ querySize ∧ querySize ≤ msg.length + 2 ∧
    (msg[querySize - 4]? = some 0 → msg[querySize - 3]? = some 0 → querySize ≤ msg.length)

/-- The walk finds the end of every owner's name it looks for, and four bytes to copy. -/
def AnswersInside (msg : List UInt8) : Nat → Nat → Prop
  | 0, _ => True
  | count + 1, pos =>
    msg.length ≤ pos + 14 ∨
      match zeroFrom msg pos with
      | none => False
      | some e => e < pos + 2 ∨ msg.length ≤ e + 10 ∨
        match recordBody msg e with
        | none => True
        | some (rr, e') =>
          if rr.cls = CLASS_IN ∧ (rr.type = TYPE_A ∨ rr.type = TYPE_PTR) then e + 14 ≤ msg.length
          else AnswersInside msg count e'

instance AnswersInside.decidable (msg : List UInt8) :
    (count pos : Nat) → Decidable (AnswersInside msg count pos)
  | 0, _ => isTrue trivial
  | count + 1, pos => by
    have := AnswersInside.decidable msg count
    unfold AnswersInside
    refine @instDecidableOr _ _ _ ?_
    split
    · infer_instance
    · refine @instDecidableOr _ _ _ (@instDecidableOr _ _ _ ?_)
      split <;> infer_instance

/-- Everything that is read is in the content. -/
def Inside (msg : List UInt8) (querySize : Nat) (domain : CString) : Prop :=
  8 ≤ msg.length ∧ NameInside msg domain ∧
    ((∀ j < domain.bytes.length, msg[12 + j]? = (labelsBytes domain.labels)[j]?) →
      QuestionInside msg querySize) ∧
    AnswersInside msg (((u16At msg 6).getD 0)) querySize

/-! ## Runs that stay inside -/

theorem terminates_bind_same {α β : Type} {m : P α} {f : α → P β} (h : Within Eq m s) :
    Terminates (m >>= f) s ↔ ∃ a, Returns m s a s ∧ Terminates (f a) s := by
  constructor
  · rintro ⟨b, u, hb⟩
    obtain ⟨a, t, ha, hf⟩ := returns_bind.mp hb
    obtain rfl := h a t ha
    exact ⟨a, ha, b, u, hf⟩
  · rintro ⟨a, ha, b, u, hf⟩
    exact ⟨b, u, returns_bind.mpr ⟨a, s, ha, hf⟩⟩

theorem same_of_terminates {α : Type} {m : P α} (h : Terminates m s) (hw : Within Eq m s) :
    ∃ a, Returns m s a s := by
  obtain ⟨a, t, ha⟩ := h
  obtain rfl := hw a t ha
  exact ⟨a, ha⟩

theorem terminates_pure {α : Type} (a : α) : Terminates (pure a : P α) s := ⟨a, s, rfl⟩

theorem terminates_byteAt : Terminates (byteAt (k : Int)) s ↔ k < s.buf.length := by
  constructor
  · rintro ⟨b, t, h⟩
    rw [returns_byteAt, octetAt_natCast] at h
    exact (List.getElem?_eq_some_iff.mp h.1).1
  · intro h
    exact ⟨s.buf[k], s, returns_byteAt.mpr ⟨by rw [octetAt_natCast, List.getElem?_eq_getElem h], rfl⟩⟩

theorem terminates_load16At : Terminates (load16At (k : Int)) s ↔ k + 1 < s.buf.length := by
  rw [load16At, terminates_bind_same within_byteAt]
  constructor
  · rintro ⟨_, _, h⟩
    have h := (terminates_bind_same within_byteAt).mp h
    obtain ⟨hi, hhi, _⟩ := h
    exact terminates_byteAt.mp ⟨hi, s, hhi⟩
  · intro h
    obtain ⟨lo, hlo⟩ := same_of_terminates (terminates_byteAt.mpr (Nat.lt_of_succ_lt h)) within_byteAt
    obtain ⟨hi, hhi⟩ := same_of_terminates (terminates_byteAt.mpr h) within_byteAt
    exact ⟨lo, hlo, (terminates_bind_same within_byteAt).mpr ⟨hi, hhi, terminates_pure _⟩⟩

/-- A number that is there is read. -/
theorem load16At_reads {v : Nat} (h : u16At s.buf k = some v) : ∃ w, Returns (load16At k) s w s ∧
    (ntohs w).toNat = v ∧ ∀ u : UInt16, w = ntohs u ↔ v = u.toNat := by
  have hlt : k + 1 < s.buf.length := by
    unfold u16At at h
    split at h
    · exact (List.getElem?_eq_some_iff.mp ‹s.buf[k + 1]? = some _›).1
    · cases h
  obtain ⟨w, hw⟩ := same_of_terminates (terminates_load16At.mpr hlt) within_load16At
  rw [← List.take_length (l := s.buf)] at h
  exact ⟨w, hw, u16At_take h hw rfl⟩

theorem isAddress_reads {type cls : Nat} (htype : u16At s.buf k = some type)
    (hcls : u16At s.buf (k + 2) = some cls) :
    Returns (isAddress k) s (decide (cls = CLASS_IN ∧ (type = TYPE_A ∨ type = TYPE_PTR))) s := by
  obtain ⟨c, hc, _, hc'⟩ := load16At_reads hcls
  obtain ⟨w, hw, _, hw'⟩ := load16At_reads htype
  rw [isAddress, show (k : Int) + 2 = (k + 2 : Nat) by omega, Returns.bind_iff hc, returns_ite]
  by_cases hin : c = ntohs 1
  · refine .inl ⟨hin, (Returns.bind_iff hw).mpr ?_⟩
    refine returns_pure.mpr ⟨decide_eq_decide.mpr ?_, rfl⟩
    rw [hw' 1, hw' 12]
    exact and_iff_right ((hc' 1).mp hin)
  · exact .inr ⟨hin, returns_pure.mpr ⟨decide_eq_false fun h => hin ((hc' 1).mpr h.1), rfl⟩⟩

theorem terminates_copyOut : Terminates (copyOut (k : Int)) s ↔ k + 4 ≤ s.buf.length := by
  constructor
  · rintro ⟨_, _, h⟩
    obtain ⟨_, _, _, _, _, _, _, hd, _⟩ := returns_copyOut h
    exact (List.getElem?_eq_some_iff.mp hd).1
  · intro h
    have hat : ∀ j : Nat, j < 4 → ∃ b, Returns (byteAt ((k : Int) + (j : Nat))) s b s := by
      intro j hj
      rw [← Int.natCast_add]
      obtain ⟨b, hb⟩ := same_of_terminates ((terminates_byteAt (s := s) (k := k + j)).mpr (by omega)) within_byteAt
      exact ⟨b, hb⟩
    obtain ⟨a, ha⟩ : ∃ a, Returns (byteAt k) s a s := hat 0 (by decide)
    obtain ⟨b, hb⟩ : ∃ b, Returns (byteAt (k + 1)) s b s := hat 1 (by decide)
    obtain ⟨c, hc⟩ : ∃ c, Returns (byteAt (k + 2)) s c s := hat 2 (by decide)
    obtain ⟨d, hd⟩ : ∃ d, Returns (byteAt (k + 3)) s d s := hat 3 (by decide)
    refine ⟨(), { s with out := [a, b, c, d] ++ s.out.drop 4 }, ?_⟩
    rw [copyOut, Returns.bind_iff ha, Returns.bind_iff hb, Returns.bind_iff hc, Returns.bind_iff hd]
    exact returns_modify.mpr rfl

/-- What the walk reads of a record whose numbers are in the content. -/
theorem record_reads {e : Nat} (hlong : e + 10 < s.buf.length) : ∃ rdlen, Returns (load16At (e + 8 : Nat)) s rdlen s ∧
    ((s.buf.length < e + 10 + (ntohs rdlen).toNat ∧ recordBody s.buf e = none) ∨
      ∃ rr, ¬ s.buf.length < e + 10 + (ntohs rdlen).toNat ∧
        recordBody s.buf e = some (rr, e + 10 + (ntohs rdlen).toNat) ∧
        Returns (isAddress e) s (decide (rr.cls = CLASS_IN ∧ (rr.type = TYPE_A ∨ rr.type = TYPE_PTR))) s) := by
  obtain ⟨type, htype⟩ := u16At_of_lt s.buf e (by omega)
  obtain ⟨cls, hcls⟩ := u16At_of_lt s.buf (e + 2) (by omega)
  obtain ⟨hi, hhi⟩ := u16At_of_lt s.buf (e + 4) (by omega)
  obtain ⟨lo, hlo⟩ := u16At_of_lt s.buf (e + 6) (by omega)
  obtain ⟨rdlength, hrd⟩ := u16At_of_lt s.buf (e + 8) (by omega)
  obtain ⟨rdlen, hw, rfl, _⟩ := load16At_reads hrd
  refine ⟨rdlen, hw, ?_⟩
  by_cases hshort : s.buf.length < e + 10 + (ntohs rdlen).toNat
  · refine .inl ⟨hshort, ?_⟩
    simp only [recordBody, htype, hcls, hhi, hlo, hrd]
    exact if_neg (by omega)
  · refine .inr ⟨{ type := type, cls := cls, ttl := hi * 65536 + lo
                   rdata := (s.buf.drop (e + 10)).take (ntohs rdlen).toNat },
      hshort, ?_, isAddress_reads htype hcls⟩
    simp only [recordBody, htype, hcls, hhi, hlo, hrd]
    exact if_pos (by omega)

/-- The walk over the whole content. -/
theorem terminates_fetchLoop :
    Terminates (fetchLoop s.buf.length count pos) s ↔ AnswersInside s.buf count pos := by
  induction count generalizing pos with
  | zero => exact iff_of_true (terminates_pure _) trivial
  | succ count ih =>
    unfold AnswersInside
    rw [fetchLoop]
    by_cases hshort : s.buf.length ≤ pos + 14
    · rw [if_pos (by rw [SIZEOF_DNS_HEADER]; omega)]
      exact iff_of_true (terminates_pure _) (.inl hshort)
    rw [if_neg (by rw [SIZEOF_DNS_HEADER]; omega), or_iff_right hshort,
      terminates_bind_same (within_of_eq fun _ _ h => (returns_strlen.mp h).2.2)]
    simp only [returns_strlen, Int.natCast_nonneg, Int.toNat_natCast, true_and, and_true, zeroFrom]
    cases hz : (s.buf.drop pos).findIdx? (· == 0) with
    | none => simp
    | some n =>
      simp only [Option.some.injEq, exists_eq_left', Option.map_some]
      by_cases hend : n < 2 ∨ s.buf.length ≤ pos + n + 10
      · rw [if_pos (by rw [sizeofDnsRrData]; omega)]
        refine iff_of_true (terminates_pure _) ?_
        rcases hend with h | h
        · exact .inl (by omega)
        · exact .inr (.inl h)
      rw [if_neg (by rw [sizeofDnsRrData]; omega), or_iff_right (by omega), or_iff_right (by omega)]
      have hat : ((pos + n : Nat) : Int) + 8 = ((pos + n + 8 : Nat) : Int) := by omega
      have hdata : ((pos + n : Nat) : Int) + sizeofDnsRrData = ((pos + n + 10 : Nat) : Int) := by
        rw [sizeofDnsRrData]
        omega
      rw [← Int.natCast_add, hat, hdata]
      obtain ⟨rdlen, hrd, ⟨hcut, hbody⟩ | ⟨rr, hwhole, hbody, haddr⟩⟩ :=
        record_reads (s := s) (e := pos + n) (by omega)
      · rw [hrd.terminates_bind_iff, if_pos (by omega), hbody]
        exact iff_of_true (terminates_pure _) trivial
      rw [hrd.terminates_bind_iff, if_neg (by omega), haddr.terminates_bind_iff, hbody]
      dsimp only
      by_cases htake : rr.cls = CLASS_IN ∧ (rr.type = TYPE_A ∨ rr.type = TYPE_PTR)
      · rw [if_pos (decide_eq_true htake), if_pos htake, terminates_bind_of_halts fun _ => halts_pure 1,
          terminates_copyOut]
      · rw [if_neg (by simpa using htake), if_neg htake, ← Int.natCast_add]
        exact ih

/-! ## The comparison and the question -/

/-- The comparison returns when every byte is there that it comes to. -/
theorem terminates_strncmp {p n : Nat} {str : Nat → UInt8} (hstr : ∀ j < k + n, str j ≠ 0) :
    Terminates (strncmp p str n k) s ↔ ∀ i, k ≤ i → i < k + n →
      (∀ j, k ≤ j → j < i → s.buf[p + j]? = some (str j)) → p + i < s.buf.length := by
  induction n generalizing k with
  | zero => exact iff_of_true (terminates_pure 0) fun i hk hi => absurd hi (by omega)
  | succ n ih =>
    have hih := ih (k := k + 1) fun j hj => hstr j (by omega)
    rw [strncmp, terminates_bind_same within_byteAt, ← Int.natCast_add]
    constructor
    · rintro ⟨a, ha, h⟩ i hki hi hagree
      rcases Nat.eq_or_lt_of_le hki with rfl | hlt
      · exact terminates_byteAt.mp ⟨a, s, ha⟩
      · rw [returns_byteAt, octetAt_natCast, hagree k (Nat.le_refl k) hlt, Option.some.injEq] at ha
        rw [ha.1, if_neg (not_not.mpr rfl), if_neg (ha.1 ▸ hstr k (by omega))] at h
        exact hih.mp h i hlt (by omega) fun j hj => hagree j (by omega)
    · intro h
      obtain ⟨a, t, ha⟩ := (terminates_byteAt (s := s) (k := p + k)).mpr
        (h k (Nat.le_refl k) (by omega) fun j _ _ => by omega)
      obtain rfl := within_byteAt _ _ ha
      refine ⟨a, ha, .ite (fun _ => terminates_pure _) fun heq => .ite (fun _ => terminates_pure 0) fun _ => ?_⟩
      refine hih.mpr fun i hki hi hagree => h i (by omega) (by omega) fun j hkj hji => ?_
      rcases Nat.eq_or_lt_of_le hkj with rfl | hlt
      · rw [returns_byteAt, octetAt_natCast] at ha
        rw [ha.1, not_not.mp heq]
      · exact hagree j hlt hji

/-- Bytes that agree compare equal. -/
theorem strncmp_agree {p n : Nat} {str : Nat → UInt8} (hstr : ∀ j < k + n, str j ≠ 0)
    (h : ∀ j, k ≤ j → j < k + n → s.buf[p + j]? = some (str j)) : Returns (strncmp p str n k) s 0 s := by
  induction n generalizing k with
  | zero => exact returns_pure.mpr ⟨rfl, rfl⟩
  | succ n ih =>
    have hk : Returns (byteAt ((p : Int) + k)) s (str k) s := by
      rw [← Int.natCast_add, returns_byteAt, octetAt_natCast]
      exact ⟨h k (Nat.le_refl k) (by omega), rfl⟩
    rw [strncmp, Returns.bind_iff hk, if_neg (not_not.mpr rfl), if_neg (hstr k (by omega))]
    exact ih (fun j hj => hstr j (by omega)) fun j hkj hj => h j (by omega) (by omega)

/-- A number is zero when both its bytes are. -/
theorem load16At_eq_zero {v : UInt16} (h : Returns (load16At (k : Int)) s v t) :
    v = 0 ↔ s.buf[k]? = some 0 ∧ s.buf[k + 1]? = some 0 := by
  obtain ⟨lo, hi, hlo, hhi, rfl, _⟩ := returns_load16At.mp h
  rw [octetAt_natCast] at hlo
  rw [← Int.natCast_succ, octetAt_natCast] at hhi
  rw [hlo, hhi, Option.some.injEq, Option.some.injEq, ← UInt16.toNat_inj, toNat_load16,
    ← UInt8.toNat_inj, ← UInt8.toNat_inj]
  show lo.toNat + 256 * hi.toNat = 0 ↔ lo.toNat = 0 ∧ hi.toNat = 0
  omega

/-- The type of the question, and the class behind a type of zero. -/
theorem terminates_question {qs : Nat} : Terminates (do
      let qtype ← load16At ((qs : Int) - SIZEOF_DNS_QUESTION)
      if qtype = 0 then
        let _ ← load16At ((qs : Int) - SIZEOF_DNS_QUESTION + 2)
        return 1
      else return 1 : P Int) s ↔ QuestionInside s.buf qs := by
  rw [SIZEOF_DNS_QUESTION, QuestionInside]
  by_cases hq : 4 ≤ qs
  · obtain ⟨p, rfl⟩ := Nat.exists_eq_add_of_le hq
    rw [show ((4 + p : Nat) : Int) - (4 : Nat) = (p : Nat) by omega,
      show (p : Int) + 2 = (p + 2 : Nat) by omega, terminates_bind_same within_load16At,
      show 4 + p - 4 = p by omega, show 4 + p - 3 = p + 1 by omega]
    constructor
    · rintro ⟨qtype, hqtype, h⟩
      have hlt := terminates_load16At.mp ⟨qtype, s, hqtype⟩
      refine ⟨hq, by omega, fun hlo hhi => ?_⟩
      rw [if_pos ((load16At_eq_zero hqtype).mpr ⟨hlo, hhi⟩),
        terminates_bind_of_halts fun _ => halts_pure 1, terminates_load16At] at h
      omega
    · rintro ⟨_, hle, hclass⟩
      obtain ⟨qtype, hqtype⟩ := same_of_terminates ((terminates_load16At (s := s) (k := p)).mpr (by omega)) within_load16At
      refine ⟨qtype, hqtype, .ite (fun hzero => ?_) fun _ => terminates_pure 1⟩
      obtain ⟨hlo, hhi⟩ := (load16At_eq_zero hqtype).mp hzero
      have hle := hclass hlo hhi
      rw [terminates_bind_of_halts fun _ => halts_pure 1, terminates_load16At]
      omega
  · refine iff_of_false ?_ fun h => hq h.1
    rintro ⟨_, _, h⟩
    obtain ⟨_, _, h, _⟩ := returns_bind.mp h
    obtain ⟨lo, _, hlo, _⟩ := returns_load16At.mp h
    rw [octetAt, if_neg (by omega)] at hlo
    cases hlo

/-- The question of a domain that a query can be built for. -/
theorem terminates_responseCheckQuestion {qs : Nat} (hd : domain.Named) (hlen : domain.bytes.length ≤ 254) :
    Terminates (responseCheckQuestion stack qs domain) s ↔ NameInside s.buf domain ∧
      ((∀ j < domain.bytes.length, s.buf[12 + j]? = (labelsBytes domain.labels)[j]?) →
        QuestionInside s.buf qs) := by
  have hne : ∀ j < 0 + domain.bytes.length, (constructDomainField ⟨stack, []⟩ domain).2.byte j ≠ 0 :=
    fun j hj => field_byte_ne_zero hd hlen (by omega)
  have hbyte : ∀ j < domain.bytes.length, (labelsBytes domain.labels)[j]? =
      some ((constructDomainField ⟨stack, []⟩ domain).2.byte j) :=
    fun j hj => field_byte hd hlen (Nat.lt_succ_of_lt hj)
  have hname : Terminates (strncmp SIZEOF_DNS_HEADER (constructDomainField ⟨stack, []⟩ domain).2.byte
      domain.bytes.length 0) s ↔ NameInside s.buf domain := by
    rw [terminates_strncmp hne]
    refine forall_congr' fun i => ?_
    rw [Nat.zero_add]
    refine ⟨fun h hi hagree => h (Nat.zero_le i) hi fun j _ hj => ?_,
      fun h _ hi hagree => h hi fun j hj => ?_⟩
    · exact (hagree j hj).trans (hbyte j (Nat.lt_trans hj hi))
    · exact (hagree j (Nat.zero_le j) hj).trans (hbyte j (Nat.lt_trans hj hi)).symm
  rw [responseCheckQuestion, domainField_of_le stack (by omega), require_some_bind]
  by_cases hall : ∀ j < domain.bytes.length, s.buf[12 + j]? = (labelsBytes domain.labels)[j]?
  · have hcmp : Returns (strncmp SIZEOF_DNS_HEADER (constructDomainField ⟨stack, []⟩ domain).2.byte
        domain.bytes.length 0) s 0 s := strncmp_agree hne fun j _ hj => by
      rw [Nat.zero_add] at hj
      exact (hall j hj).trans (hbyte j hj)
    rw [hcmp.terminates_bind_iff, if_neg (not_not.mpr rfl), terminates_question]
    exact ⟨fun h => ⟨hname.mp ⟨0, s, hcmp⟩, fun _ => h⟩, fun h => h.2 hall⟩
  · rw [terminates_bind_same within_strncmp]
    constructor
    · rintro ⟨cmp, hcmp, _⟩
      exact ⟨hname.mp ⟨cmp, s, hcmp⟩, fun h => absurd h hall⟩
    · rintro ⟨hin, _⟩
      obtain ⟨cmp, hcmp⟩ := same_of_terminates (hname.mpr hin) within_strncmp
      refine ⟨cmp, hcmp, ?_⟩
      rw [if_pos]
      · exact terminates_pure _
      · rintro rfl
        refine hall fun j hj => ?_
        have hj' := strncmp_zero (p := 12) (k := 0) (fun m hm => hne (0 + m) (by omega)) hcmp j hj
        rw [Nat.add_zero, Nat.zero_add] at hj'
        exact hj'.trans (hbyte j hj).symm

/-! ## The whole response -/

theorem anyOf_reads {ms : List (P Bool)} (h : ∀ m ∈ ms, ∃ b, Returns m s b s) :
    ∃ b, Returns (anyOf ms) s b s := by
  induction ms with
  | nil => exact ⟨false, rfl⟩
  | cons m ms ih =>
    obtain ⟨b, hb⟩ := h m (by simp)
    obtain ⟨c, hc⟩ := ih fun m hm => h m (List.mem_cons_of_mem _ hm)
    rw [anyOf]
    by_cases hcond : b = true
    · exact ⟨true, (Returns.bind_iff hb).mpr (by rw [if_pos hcond]; rfl)⟩
    · exact ⟨c, (Returns.bind_iff hb).mpr (by rwa [if_neg hcond])⟩

theorem terminates_responseCheckHeader (h : 8 ≤ s.buf.length) : Terminates responseCheckHeader s := by
  have hthen : ∀ {α : Type} {m : P α} (f : α → Bool), Terminates m s → Within Eq m s →
      ∃ b, Returns (m >>= fun a => pure (f a)) s b s := by
    intro α m f hm hw
    obtain ⟨a, ha⟩ := same_of_terminates hm hw
    exact ⟨f a, (Returns.bind_iff ha).mpr rfl⟩
  have hbits : ∀ k i w : Nat, k < 8 → Terminates (bitsAt k i w) s := fun k i w hk =>
    (terminates_bind_of_halts fun _ => halts_pure _).mpr (terminates_byteAt.mpr (by omega))
  have hnum : ∀ k : Nat, k < 7 → Terminates (load16At k) s := fun k hk => terminates_load16At.mpr (by omega)
  obtain ⟨rcode, hrcode⟩ := same_of_terminates (hbits 3 0 4 (by decide)) within_bitsAt
  refine (Returns.terminates_bind_iff hrcode).mpr ?_
  refine Terminates.bind (Exists.imp (fun _ h => ⟨s, h⟩) (anyOf_reads fun m hm => ?_)) fun _ _ _ =>
    .ite (fun _ => ⟨_, _, rfl⟩) fun _ => .ite (fun _ => ⟨_, _, rfl⟩) fun _ => ⟨_, _, rfl⟩
  simp only [List.mem_cons, List.not_mem_nil, or_false] at hm
  obtain rfl | rfl | rfl | rfl | rfl | rfl | rfl := hm
  · exact hthen _ (hbits 2 7 1 (by decide)) within_bitsAt
  · exact hthen _ (hbits 2 3 4 (by decide)) within_bitsAt
  · exact hthen _ (hbits 2 0 1 (by decide)) within_bitsAt
  · exact hthen _ (hbits 3 4 3 (by decide)) within_bitsAt
  · exact hthen _ (hnum 4 (by decide)) within_load16At
  · exact hthen _ (hnum 6 (by decide)) within_load16At
  · exact ⟨_, rfl⟩

theorem terminates_responseFetchRes {qs : Nat} : Terminates (responseFetchRes s.buf.length qs) s ↔
    8 ≤ s.buf.length ∧ AnswersInside s.buf ((u16At s.buf 6).getD 0) qs := by
  by_cases h : 8 ≤ s.buf.length
  · obtain ⟨an, han⟩ := u16At_of_lt s.buf 6 (by omega)
    obtain ⟨w, hw, hwan, _⟩ := load16At_reads han
    have hw : Returns rhAncount s w s := hw
    rw [responseFetchRes, hw.terminates_bind_iff, terminates_fetchLoop, hwan, han, and_iff_right h]
    rfl
  · refine iff_of_false ?_ fun h' => h h'.1
    rintro ⟨r, t, hr⟩
    obtain ⟨w, u, hw, _⟩ := returns_bind.mp hr
    exact h (terminates_load16At.mp ⟨w, u, hw⟩)

theorem terminates_responseParse {qs : Nat} (hd : domain.Named) (hlen : domain.bytes.length ≤ 254) :
    Terminates (responseParse stack s.buf.length qs domain) s ↔ Inside s.buf qs domain := by
  have hlast : ∀ rh rq : Int, Terminates (do
      let rr ← responseFetchRes s.buf.length qs
      if rh > 0 ∧ rq > 0 ∧ rr > 0 then return 1
      else if rh ≤ 0 then return rh
      else if rq ≤ 0 then return rq
      else return rr) s ↔ Terminates (responseFetchRes s.buf.length qs) s := fun rh rq =>
    terminates_bind_of_halts fun _ => .ite (halts_pure _) (.ite (halts_pure _) (.ite (halts_pure _) (halts_pure _)))
  rw [responseParse, terminates_bind_same within_responseCheckHeader]
  simp only [terminates_bind_same within_responseCheckQuestion, hlast, terminates_responseFetchRes]
  constructor
  · rintro ⟨_, _, rq, hq, hlong, hanswers⟩
    obtain ⟨hname, hquestion⟩ := (terminates_responseCheckQuestion hd hlen).mp ⟨rq, s, hq⟩
    exact ⟨hlong, hname, hquestion, hanswers⟩
  · rintro ⟨hlong, hname, hquestion, hanswers⟩
    obtain ⟨rh, hh⟩ := same_of_terminates (terminates_responseCheckHeader hlong) within_responseCheckHeader
    obtain ⟨rq, hq⟩ := same_of_terminates
      (show Terminates (responseCheckQuestion stack qs domain) _ from
        (terminates_responseCheckQuestion hd hlen).mpr ⟨hname, hquestion⟩)
      within_responseCheckQuestion
    exact ⟨rh, hh, rq, hq, hlong, hanswers⟩

/-! ## What is on the stack -/

theorem strncmp_congr {p : Int} {n : Nat} {str str' : Nat → UInt8}
    (h : ∀ j, k ≤ j → j < k + n → str j = str' j) : strncmp p str n k = strncmp p str' n k := by
  induction n generalizing k with
  | zero => rfl
  | succ n ih =>
    rw [strncmp, strncmp, h k (Nat.le_refl k) (by omega), ih fun j hkj hj => h j (by omega) (by omega)]

/-- The encoded domain covers what `domain_buf` held before, as far as it is compared. -/
theorem responseParse_stack (stack stack' : Nat → UInt8) (hd : domain.Named) (hlen : domain.bytes.length ≤ 254) :
    responseParse stack contentLen querySize domain = responseParse stack' contentLen querySize domain := by
  have hcmp : strncmp SIZEOF_DNS_HEADER (constructDomainField ⟨stack, []⟩ domain).2.byte domain.bytes.length 0 =
      strncmp SIZEOF_DNS_HEADER (constructDomainField ⟨stack', []⟩ domain).2.byte domain.bytes.length 0 :=
    strncmp_congr fun j _ hj => by
      have hbyte := field_byte (w := ⟨stack, []⟩) hd hlen (k := j) (by omega)
      rw [field_byte (w := ⟨stack', []⟩) hd hlen (by omega), Option.some.injEq] at hbyte
      exact hbyte.symm
  rw [responseParse, responseParse, responseCheckQuestion, responseCheckQuestion,
    domainField_of_le stack (by omega), domainField_of_le stack' (by omega), require_some_bind,
    require_some_bind, hcmp]

/-! ## Two buffers -/

/-- The functions read nothing but the content, and return the same for every buffer that holds
this content: the query id, the result, and the address with the result 1. -/
def FromContent (buf : List UInt8) (contentLen querySize : Nat) (domain : CString) (out : List UInt8) : Prop :=
  (∃ id, mdnsResponseFetchQid (some (buf.take contentLen)) contentLen = .ok id) ∧
    (∀ stack, ∃ r, mdnsResponseParse stack (some (buf.take contentLen)) contentLen querySize (some domain)
      (some out) = .ok r) ∧
    ∀ stack stack' buf', buf'.length = DNS_BUF_SIZE → buf'.take contentLen = buf.take contentLen →
      ∃ id r o o', mdnsResponseFetchQid (some buf) contentLen = .ok id ∧
        mdnsResponseFetchQid (some buf') contentLen = .ok id ∧
        mdnsResponseParse stack (some buf) contentLen querySize (some domain) (some out) = .ok (r, o) ∧
        mdnsResponseParse stack' (some buf') contentLen querySize (some domain) (some out) = .ok (r, o') ∧
        (r = 1 → o = o')

theorem fetchQid_eq {buf : List UInt8} {id : Int} : mdnsResponseFetchQid (some buf) contentLen = .ok id ↔
    ∃ w t, Returns (load16At 0) ⟨buf, []⟩ w t ∧ id = w.toNat := by
  simp only [mdnsResponseFetchQid, Returns]
  cases h : load16At 0 ⟨buf, []⟩ with
  | error e => simp
  | ok p => obtain ⟨a, t⟩ := p; simp [eq_comm]

/-- The content decides what is returned exactly when everything that is read is inside it. -/
theorem from_content_iff {b buf out : List UInt8} {qid : UInt16} {p : Option (List UInt8)} {size : Int}
    {cl qs : Nat} (hbuild : mdnsQueryBuild (some b) qid (some domain) = .ok (size, p)) (hpos : 0 < size)
    (hbuf : buf.length = DNS_BUF_SIZE) (hcl : 0 < cl ∧ cl ≤ DNS_BUF_SIZE) (hqs : 0 < qs) :
    FromContent buf cl qs domain out ↔ Inside (buf.take cl) qs domain := by
  obtain ⟨_, hd, hlen, _⟩ := named_of_built hbuild hpos
  have hlength : (buf.take cl).length = cl := by rw [List.length_take, hbuf]; omega
  have hinside : Terminates (responseParse (fun _ => 0) (buf.take cl).length qs domain) ⟨buf.take cl, out⟩ ↔
      Inside (buf.take cl) qs domain := terminates_responseParse hd hlen
  rw [hlength] at hinside
  have hc : (0 : Int) < cl := by omega
  have hq : (0 : Int) < qs := by omega
  constructor
  · rintro ⟨_, hparse, _⟩
    obtain ⟨⟨r, o⟩, h⟩ := hparse fun _ => 0
    obtain ⟨t, ht, _⟩ := (mdnsResponseParse_eq hc hq).mp h
    exact hinside.mp ⟨r, t, ht⟩
  · intro hin
    obtain ⟨r, t, hr⟩ := hinside.mpr hin
    obtain ⟨id, v, hid⟩ : Terminates (load16At 0) ⟨buf.take cl, []⟩ :=
      terminates_load16At (k := 0).mpr (Nat.lt_of_lt_of_le (by decide) hin.1)
    -- a buffer that holds the content behaves as the content does
    have hsame : ∀ stack' {buf' : List UInt8}, buf.take cl <+: buf' →
        mdnsResponseFetchQid (some buf') cl = .ok id.toNat ∧
        mdnsResponseParse stack' (some buf') cl qs (some domain) (some out) = .ok (r, some t.out) := by
      intro stack' buf' hbefore
      obtain ⟨w, hw, _⟩ := follows_load16At 0 ⟨buf.take cl, []⟩ ⟨buf', []⟩ _ _ ⟨hbefore, rfl⟩ hid
      obtain ⟨u, hu, hout⟩ := follows_responseParse ⟨buf.take cl, out⟩ ⟨buf', out⟩ _ _ ⟨hbefore, rfl⟩ hr
      rw [responseParse_stack _ stack' hd hlen] at hu
      exact ⟨fetchQid_eq.mpr ⟨id, w, hw, rfl⟩, (mdnsResponseParse_eq hc hq).mpr ⟨u, hu, by rw [hout.2]⟩⟩
    refine ⟨⟨_, (hsame (fun _ => 0) (List.prefix_refl _)).1⟩,
      fun stack => ⟨_, (hsame stack (List.prefix_refl _)).2⟩, fun stack stack' buf' _ htake => ?_⟩
    obtain ⟨hid₁, hr₁⟩ := hsame stack (List.take_prefix cl buf)
    obtain ⟨hid₂, hr₂⟩ := hsame stack' (htake ▸ List.take_prefix cl buf')
    exact ⟨_, r, _, _, hid₁, hid₂, hr₁, hr₂, fun _ => rfl⟩

theorem from_content_iff_ab : FromContent (abResponse ++ List.replicate 987 0) 37 21 abDomain [0, 0, 0, 0] ↔
    Inside ((abResponse ++ List.replicate 987 0).take 37) 21 abDomain := by
  exact from_content_iff abQuery_built (by decide) (by decide +kernel) (by decide) (by decide)

/-- A response to a query for `a.b` with an address of three bytes. -/
def shortAddress : List UInt8 :=
  [0, 7, 0x81, 0x80, 0, 1, 0, 1, 0, 0, 0, 0] ++ [1, 97, 1, 98, 0, 0, 1, 0, 1] ++
    [0xc0, 0x0c, 0, 1, 0, 1, 0, 0, 0, 60, 0, 3, 1, 2, 3]

theorem not_from_content : mdnsQueryBuild (some emptyBuf) 7 (some abDomain) = .ok (21, some abQuery) ∧
    ¬ FromContent (shortAddress ++ List.replicate 988 0) 36 21 abDomain [0, 0, 0, 0] := by
  refine ⟨abQuery_built, fun h => ?_⟩
  obtain ⟨_, _, htwo⟩ := h
  obtain ⟨id, r, o, o', _, _, hr, hr', hone⟩ := htwo (fun _ => 0) (fun _ => 0)
    (shortAddress ++ List.replicate 988 9) (by decide +kernel) (by decide +kernel)
  rw [show mdnsResponseParse (fun _ => 0) (some (shortAddress ++ List.replicate 988 0)) (36 : Nat) (21 : Nat)
    (some abDomain) (some [0, 0, 0, 0]) = .ok (1, some [1, 2, 3, 0]) by decide +kernel] at hr
  rw [show mdnsResponseParse (fun _ => 0) (some (shortAddress ++ List.replicate 988 9)) (36 : Nat) (21 : Nat)
    (some abDomain) (some [0, 0, 0, 0]) = .ok (1, some [1, 2, 3, 9]) by decide +kernel] at hr'
  cases hr
  cases hr'
  exact absurd (hone rfl) (by decide)

end MNet.Dns
