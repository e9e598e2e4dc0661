import MNet.Dns.Model
import MNet.Lib.Rfc1035

/-! # The field of a name

`_construct_domain_field` writes a domain label by label, each behind its length. The loop is
followed with the characters of the label it is in, the last first. -/

namespace MNet.Dns
open MNet.Lib MNet.Lib.Exec MNet.Lib.Rfc1035

variable {domain : CString} {w : DomainBuf}

/-- What stands between the dots. -/
def CString.labels (domain : CString) : List Label := domain.bytes.splitOn DOT

/-- At least two labels, all of them neither empty nor too long. -/
def CString.Named (domain : CString) : Prop :=
  2 ≤ domain.labels.length ∧ ∀ l ∈ domain.labels, Fits l

instance (domain : CString) : Decidable domain.Named := by
  unfold CString.Named
  infer_instance

/-! ## The loop -/

@[simp] theorem DomainBuf.put_byte_self (i : Nat) (v : UInt8) : (w.put i v).byte i = v :=
  Function.update_self ..

theorem DomainBuf.put_byte_of_ne {i k : Nat} (h : k ≠ i) (v : UInt8) : (w.put i v).byte k = w.byte k :=
  Function.update_of_ne h ..

theorem getLabelLen_fits {l : Label} (h : Fits l) (pos : Nat) :
    getLabelLen w pos l.length = (true, w.put pos (UInt8.ofNat l.length)) := by
  have hno : ¬ (l.length > 63 ∨ l.length ≤ 0) := by
    have := h.1
    have := h.2
    omega
  exact if_neg hno

theorem getLabelLen_not {l : Label} (h : ¬ Fits l) (pos : Nat) :
    getLabelLen w pos l.length = (false, w) := by
  refine if_pos ?_
  unfold Fits at h
  omega

/-- The labels that begin with the characters of `a`, the last of them first, and go on with `cs`. -/
def labelsFrom (a cs : List UInt8) : List Label := (cs.splitOn DOT).modifyHead (a.reverse ++ ·)

theorem labelsFrom_eq (a cs : List UInt8) : labelsFrom a cs = List.splitOnPPrepend (· == DOT) cs a :=
  List.splitOnPPrepend_eq_modifyHead.symm

theorem labelsFrom_nil (a : List UInt8) : labelsFrom a [] = [a.reverse] := by
  rw [labelsFrom_eq, List.splitOnPPrepend_nil]

theorem labelsFrom_dot (a cs : List UInt8) : labelsFrom a (DOT :: cs) = a.reverse :: labelsFrom [] cs := by
  rw [labelsFrom_eq, labelsFrom_eq, List.splitOnPPrepend_cons_pos rfl, List.splitOnPPrepend_nil_right]

theorem labelsFrom_char {c : UInt8} (hc : c ≠ DOT) (a cs : List UInt8) :
    labelsFrom a (c :: cs) = labelsFrom (c :: a) cs := by
  rw [labelsFrom_eq, labelsFrom_eq, List.splitOnPPrepend_cons_neg (by simpa using hc)]

theorem CString.labels_eq (domain : CString) : domain.labels = labelsFrom [] domain.bytes := by
  rw [labelsFrom_eq, List.splitOnPPrepend_nil_right]
  rfl

theorem length_labelsBytes_labelsFrom (a cs : List UInt8) :
    (labelsBytes (labelsFrom a cs)).length = a.length + cs.length + 1 := by
  induction cs generalizing a with
  | nil => simp [labelsFrom_nil, labelsBytes, labelBytes]
  | cons c cs ih =>
    by_cases hc : c = DOT
    · rw [hc, labelsFrom_dot, labelsBytes_cons, List.length_append, length_labelBytes, ih]
      simp only [List.length_reverse, List.length_nil, List.length_cons]
      omega
    · rw [labelsFrom_char hc, ih]
      simp only [List.length_cons]
      omega

/-- What follows the loop. -/
def constructEnd : Option (Nat × Nat × Nat) × DomainBuf → Nat × DomainBuf
  | (none, w) => (0, w)
  | (some (i, j, d), w) =>
    match getLabelLen w j (i - j) with
    | (false, w) => (0, w)
    | (true, w) => if d < 1 ∨ i > 255 then (0, w) else (i + 1, w)

theorem constructDomainField_eq : constructDomainField w domain =
    constructEnd (constructLoop domain.bytes 0 0 0 (w.put 0 DOT)) := rfl

section Loop

variable {a cs : List UInt8} {i j d : Nat}

theorem constructLoop_dot (hi : i < QUERY_DOMAIN_LEN) (hj : i = j + a.length) :
    constructLoop (DOT :: cs) i j d w =
      if Fits a.reverse then
        constructLoop cs (i + 1) (i + 1) (d + 1) (w.put j (UInt8.ofNat a.length))
      else (none, w) := by
  have hsub : i - j = a.reverse.length := by
    rw [hj, List.length_reverse]
    omega
  simp only [constructLoop, if_pos hi, if_true, hsub]
  by_cases hfit : Fits a.reverse
  · rw [getLabelLen_fits hfit, if_pos hfit, List.length_reverse, Nat.add_comm 1]
  · rw [getLabelLen_not hfit, if_neg hfit]

theorem constructLoop_char {c : UInt8} (hi : i < QUERY_DOMAIN_LEN) (hc : c ≠ DOT) :
    constructLoop (c :: cs) i j d w = constructLoop cs (i + 1) j d (w.put (i + 1) c) := by
  simp only [constructLoop, if_pos hi, if_neg hc, Nat.add_comm 1]

theorem constructEnd_some (hj : i = j + a.length) :
    constructEnd (some (i, j, d), w) =
      if Fits a.reverse then
        (if d < 1 ∨ i > 255 then 0 else i + 1, w.put j (UInt8.ofNat a.length))
      else (0, w) := by
  have hsub : i - j = a.reverse.length := by
    rw [hj, List.length_reverse]
    omega
  simp only [constructEnd, hsub]
  by_cases hfit : Fits a.reverse
  · rw [getLabelLen_fits hfit, if_pos hfit, List.length_reverse]
    show (if d < 1 ∨ i > 255 then _ else _) = _
    by_cases hend : d < 1 ∨ i > 255
    · rw [if_pos hend, if_pos hend]
    · rw [if_neg hend, if_neg hend]
  · rw [getLabelLen_not hfit, if_neg hfit]

/-- The length of a label that has ended, and its characters. -/
theorem labelBytes_written (ha : ∀ k b, a.reverse[k]? = some b → w.byte (j + 1 + k) = b) (k : Nat)
    (b : UInt8) (hb : (labelBytes a.reverse)[k]? = some b) :
    (w.put j (UInt8.ofNat a.length)).byte (j + k) = b := by
  cases k with
  | zero =>
    rw [Nat.add_zero, DomainBuf.put_byte_self]
    simpa [labelBytes] using hb
  | succ k =>
    rw [DomainBuf.put_byte_of_ne (by omega), show j + (k + 1) = j + 1 + k by omega]
    exact ha k b (by simpa [labelBytes] using hb)

/-- The next character of a label. -/
theorem char_written {c : UInt8} (hj : i = j + a.length)
    (ha : ∀ k b, a.reverse[k]? = some b → w.byte (j + 1 + k) = b) (k : Nat) (b : UInt8)
    (hb : (c :: a).reverse[k]? = some b) : (w.put (i + 1) c).byte (j + 1 + k) = b := by
  rw [List.reverse_cons] at hb
  by_cases hk : k < a.length
  · rw [List.getElem?_append_left (by simpa using hk)] at hb
    rw [DomainBuf.put_byte_of_ne (by omega), ha k b hb]
  · rw [List.getElem?_append_right (by simpa using hk), List.getElem?_singleton] at hb
    have hk : k = a.length := by
      by_contra hne
      rw [if_neg (by simp only [List.length_reverse]; omega)] at hb
      cases hb
    rw [if_pos (by simp [hk]), Option.some.injEq] at hb
    rw [← hb, show j + 1 + k = i + 1 by omega, DomainBuf.put_byte_self]

/-- The loop goes through a domain that fits, and leaves the octets of its labels. -/
theorem constructLoop_fits (hj : i = j + a.length)
    (ha : ∀ k b, a.reverse[k]? = some b → w.byte (j + 1 + k) = b)
    (hfit : ∀ l ∈ labelsFrom a cs, Fits l) (hdot : 2 ≤ d + (labelsFrom a cs).length)
    (hlen : i + cs.length ≤ 255) :
    ∃ w', constructEnd (constructLoop cs i j d w) = (i + cs.length + 1, w') ∧
      (∀ k < j, w'.byte k = w.byte k) ∧
      ∀ k b, (labelsBytes (labelsFrom a cs))[k]? = some b → w'.byte (j + k) = b := by
  induction cs generalizing a i j d w with
  | nil =>
    rw [labelsFrom_nil] at hfit hdot ⊢
    refine ⟨w.put j (UInt8.ofNat a.length), ?_, fun k hk => ?_, fun k b hb => ?_⟩
    · rw [constructLoop, constructEnd_some hj, if_pos (hfit _ (by simp)), if_neg]
      · rfl
      · simp only [List.length_singleton] at hdot
        simp only [List.length_nil] at hlen
        omega
    · exact DomainBuf.put_byte_of_ne (Nat.ne_of_lt hk) _
    · exact labelBytes_written ha k b (by simpa [labelsBytes] using hb)
  | cons c cs ih =>
    simp only [List.length_cons] at hlen
    have hi : i < QUERY_DOMAIN_LEN := show i < 256 by omega
    by_cases hc : c = DOT
    · subst hc
      rw [labelsFrom_dot] at hfit hdot ⊢
      simp only [List.length_cons] at hdot
      rw [constructLoop_dot hi hj, if_pos (hfit _ (by simp))]
      obtain ⟨w', hend, hold, hnew⟩ := ih (a := []) (i := i + 1) (j := i + 1) (d := d + 1)
        (w := w.put j (UInt8.ofNat a.length)) rfl (by simp)
        (fun l hl => hfit l (List.mem_cons_of_mem _ hl)) (by omega) (by omega)
      refine ⟨w', ?_, fun k hk => ?_, fun k b hb => ?_⟩
      · rw [hend, List.length_cons, show i + 1 + cs.length + 1 = i + (cs.length + 1) + 1 by omega]
      · rw [hold k (by omega), DomainBuf.put_byte_of_ne (Nat.ne_of_lt hk)]
      · have hlabel : (labelBytes a.reverse).length = a.length + 1 := by simp
        rw [labelsBytes_cons] at hb
        by_cases hk : k < a.length + 1
        · rw [List.getElem?_append_left (by omega)] at hb
          rw [hold _ (by omega), labelBytes_written ha k b hb]
        · rw [List.getElem?_append_right (by omega), hlabel] at hb
          rw [← hnew _ b hb, show i + 1 + (k - (a.length + 1)) = j + k by omega]
    · rw [labelsFrom_char hc] at hfit hdot ⊢
      rw [constructLoop_char hi hc]
      obtain ⟨w', hend, hold, hnew⟩ := ih (a := c :: a) (i := i + 1) (j := j) (d := d)
        (w := w.put (i + 1) c) (by simp only [List.length_cons]; omega) (char_written hj ha) hfit hdot
        (by omega)
      refine ⟨w', ?_, fun k hk => ?_, hnew⟩
      · rw [hend, List.length_cons, show i + 1 + cs.length + 1 = i + (cs.length + 1) + 1 by omega]
      · rw [hold k hk, DomainBuf.put_byte_of_ne (by omega)]

/-- Every other domain is refused. -/
theorem constructLoop_not (hj : i = j + a.length)
    (hno : ¬ ((∀ l ∈ labelsFrom a cs, Fits l) ∧ 2 ≤ d + (labelsFrom a cs).length ∧
      i + cs.length ≤ 255)) :
    (constructEnd (constructLoop cs i j d w)).1 = 0 := by
  induction cs generalizing a i j d w with
  | nil =>
    rw [constructLoop, constructEnd_some hj]
    rw [labelsFrom_nil] at hno
    by_cases hfit : Fits a.reverse
    · rw [if_pos hfit, if_pos]
      simp only [List.mem_singleton, forall_eq, List.length_singleton, List.length_nil] at hno
      by_contra hc
      exact hno ⟨hfit, by omega, by omega⟩
    · rw [if_neg hfit]
  | cons c cs ih =>
    by_cases hi : i < QUERY_DOMAIN_LEN
    · by_cases hc : c = DOT
      · subst hc
        rw [constructLoop_dot hi hj]
        by_cases hfit : Fits a.reverse
        · rw [if_pos hfit]
          refine ih (a := []) rfl fun h => hno ?_
          rw [labelsFrom_dot]
          refine ⟨fun l hl => ?_, ?_, ?_⟩
          · rcases List.mem_cons.mp hl with rfl | hl
            · exact hfit
            · exact h.1 l hl
          · simp only [List.length_cons]
            omega
          · simp only [List.length_cons]
            omega
        · rw [if_neg hfit]
          rfl
      · rw [constructLoop_char hi hc]
        refine ih (a := c :: a) (by simp only [List.length_cons]; omega) fun h => hno ?_
        rw [labelsFrom_char hc]
        refine ⟨h.1, h.2.1, ?_⟩
        simp only [List.length_cons]
        omega
    -- cut off
    · rw [constructLoop, if_neg hi, constructEnd_some hj]
      by_cases hfit : Fits a.reverse
      · rw [if_pos hfit, if_pos]
        unfold QUERY_DOMAIN_LEN at hi
        omega
      · rw [if_neg hfit]

end Loop

/-! ## The field -/

/-- The field that is built: refused, or the octets of the labels, with a byte more than the domain
has characters. -/
theorem constructDomainField_named (hd : domain.Named) (hlen : domain.bytes.length ≤ 255) :
    (constructDomainField w domain).1 = domain.bytes.length + 1 ∧
      ∀ k b, (labelsBytes domain.labels)[k]? = some b → (constructDomainField w domain).2.byte k = b := by
  obtain ⟨hcount, hfit⟩ := hd
  rw [domain.labels_eq] at hcount hfit ⊢
  obtain ⟨w', hend, _, hnew⟩ := constructLoop_fits (a := []) (i := 0) (j := 0)
    (d := 0) (w := w.put 0 DOT) rfl (by simp) hfit (by omega) (by omega)
  rw [constructDomainField_eq, hend]
  refine ⟨by omega, fun k b hb => ?_⟩
  have hb := hnew k b hb
  rwa [Nat.zero_add] at hb

theorem constructDomainField_not (h : ¬ (domain.Named ∧ domain.bytes.length ≤ 255)) :
    (constructDomainField w domain).1 = 0 := by
  rw [constructDomainField_eq]
  refine constructLoop_not (a := []) rfl fun hn => h ?_
  rw [← domain.labels_eq] at hn
  exact ⟨⟨by omega, hn.1⟩, by omega⟩

theorem length_labelsBytes_labels (domain : CString) :
    (labelsBytes domain.labels).length = domain.bytes.length + 1 := by
  rw [domain.labels_eq, length_labelsBytes_labelsFrom]
  simp

/-- What is copied of the field. -/
theorem constructDomainField_bytes (hd : domain.Named) (hlen : domain.bytes.length ≤ 255) :
    (List.range (domain.bytes.length + 1)).map (constructDomainField w domain).2.byte =
      labelsBytes domain.labels := by
  have hl := length_labelsBytes_labels domain
  refine List.ext_getElem (by simp [hl]) fun k hk hk' => ?_
  rw [List.getElem_map, List.getElem_range]
  exact (constructDomainField_named hd hlen).2 k _ (List.getElem?_eq_getElem hk')

end MNet.Dns
