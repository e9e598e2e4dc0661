import MNet.Dns.Field

/-! # Where a name is written

`_construct_domain_field` stops in front of the 257th character of a domain, and the character at an
index is written one place further on. The array is left by the character at index 255. -/

namespace MNet.Dns
open MNet.Lib MNet.Lib.Exec MNet.Lib.Rfc1035

variable {domain : CString} {w : DomainBuf} {a cs : List UInt8} {i j d n : Nat}

/-- The character at index 255 is not a dot, and the labels that have ended in front of it fit. -/
def CString.Overruns (domain : CString) : Prop :=
  (∃ c ∈ domain.bytes[255]?, c ≠ DOT) ∧
    ∀ l ∈ ((domain.bytes.take 255).splitOn DOT).dropLast, Fits l

instance (domain : CString) : Decidable domain.Overruns := by
  unfold CString.Overruns
  infer_instance

/-- The loop comes to the character behind the next `n`, which is not a dot. -/
def OverrunsFrom (a cs : List UInt8) (n : Nat) : Prop :=
  (∃ c ∈ cs[n]?, c ≠ DOT) ∧ ∀ l ∈ (labelsFrom a (cs.take n)).dropLast, Fits l

theorem CString.overruns_iff : domain.Overruns ↔ OverrunsFrom [] domain.bytes 255 := by
  rw [OverrunsFrom, labelsFrom_eq, List.splitOnPPrepend_nil_right]
  rfl

theorem labelsFrom_ne_nil (a cs : List UInt8) : labelsFrom a cs ≠ [] := by
  intro h
  have hlen := length_labelsBytes_labelsFrom a cs
  rw [h] at hlen
  exact Nat.succ_ne_zero _ hlen.symm

theorem overrunsFrom_nil (a : List UInt8) (n : Nat) : ¬ OverrunsFrom a [] n := by
  rintro ⟨⟨c, hc, _⟩, _⟩
  simp at hc

theorem overrunsFrom_dot : OverrunsFrom a (DOT :: cs) (n + 1) ↔
    Fits a.reverse ∧ OverrunsFrom [] cs n := by
  simp only [OverrunsFrom, List.getElem?_cons_succ, List.take_succ_cons, labelsFrom_dot,
    List.dropLast_cons_of_ne_nil (labelsFrom_ne_nil _ _), List.forall_mem_cons]
  exact and_left_comm

theorem overrunsFrom_char {c : UInt8} (hc : c ≠ DOT) : OverrunsFrom a (c :: cs) (n + 1) ↔
    OverrunsFrom (c :: a) cs n := by
  simp only [OverrunsFrom, List.getElem?_cons_succ, List.take_succ_cons, labelsFrom_char hc]

theorem overrunsFrom_zero (a cs : List UInt8) (c : UInt8) :
    OverrunsFrom a (c :: cs) 0 ↔ c ≠ DOT := by
  simp [OverrunsFrom, labelsFrom_nil]

/-! ## The writes -/

/-- Every write so far has stayed in the array. -/
def DomainBuf.Inside (w : DomainBuf) : Prop := ∀ k ∈ w.writes, k < QUERY_DOMAIN_LEN

theorem DomainBuf.inside_put (v : UInt8) :
    (w.put i v).Inside ↔ i < QUERY_DOMAIN_LEN ∧ w.Inside :=
  List.forall_mem_cons

theorem getLabelLen_writes (pos llen : Nat) : w.writes ⊆ (getLabelLen w pos llen).2.writes := by
  unfold getLabelLen
  split
  · exact List.Subset.refl _
  · exact List.subset_cons_self _ _

theorem constructLoop_writes : w.writes ⊆ (constructLoop cs i j d w).2.writes := by
  induction cs generalizing i j d w with
  | nil => exact List.Subset.refl _
  | cons c cs ih =>
    unfold constructLoop
    split
    · split
      · have hlabel := getLabelLen_writes (w := w) j (i - j)
        split <;> rename_i heq <;> rw [heq] at hlabel
        · exact hlabel
        · exact List.Subset.trans hlabel ih
      · have hput : w.writes ⊆ (w.put (1 + i) c).writes := List.subset_cons_self _ _
        exact List.Subset.trans hput ih
    · exact List.Subset.refl _

theorem constructEnd_writes (r : Option (Nat × Nat × Nat) × DomainBuf) :
    r.2.writes ⊆ (constructEnd r).2.writes := by
  obtain ⟨_ | ⟨i, j, d⟩, w⟩ := r
  · exact List.Subset.refl _
  · have hlabel := getLabelLen_writes (w := w) j (i - j)
    unfold constructEnd
    split <;> rename_i heq
    · cases heq
    · cases heq
      split <;> rename_i heq <;> rw [heq] at hlabel
      · exact hlabel
      · split <;> exact hlabel

/-- The length of the last label is stored in front of its characters. -/
theorem constructEnd_inside (hw : w.Inside) (hj : i = j + a.length) (hi : i ≤ QUERY_DOMAIN_LEN) :
    (constructEnd (some (i, j, d), w)).2.Inside := by
  rw [constructEnd_some hj]
  by_cases hfit : Fits a.reverse
  · have hpos : 0 < a.length := by
      have hlen := hfit.1
      rwa [List.length_reverse] at hlen
    rw [if_pos hfit]
    exact (DomainBuf.inside_put _).mpr ⟨by omega, hw⟩
  · rw [if_neg hfit]
    exact hw

/-- A loop that has read 256 characters is at its end. -/
theorem constructLoop_full : constructLoop cs QUERY_DOMAIN_LEN j d w =
    (some (QUERY_DOMAIN_LEN, j, d), w) := by
  cases cs with
  | nil => rfl
  | cons c cs => rw [constructLoop, if_neg (Nat.lt_irrefl _)]

/-- The character at index 255. -/
theorem constructLoop_last {c : UInt8} (hw : w.Inside) (hj : 255 = j + a.length) :
    (constructEnd (constructLoop (c :: cs) 255 j d w)).2.Inside ↔ c = DOT := by
  by_cases hc : c = DOT
  · subst hc
    refine iff_of_true ?_ rfl
    rw [constructLoop_dot (by decide) hj]
    by_cases hfit : Fits a.reverse
    · rw [if_pos hfit]
      have hput : (w.put j (UInt8.ofNat a.length)).Inside :=
        (DomainBuf.inside_put _).mpr ⟨show j < 256 by omega, hw⟩
      exact constructLoop_full ▸ constructEnd_inside (a := []) hput rfl (Nat.le_refl _)
    · rw [if_neg hfit]
      exact hw
  · refine iff_of_false (fun h => ?_) hc
    rw [constructLoop_char (by decide) hc] at h
    have hput : 256 ∈ (w.put 256 c).writes := List.mem_cons_self
    exact absurd (h 256 (constructEnd_writes _ (constructLoop_writes hput))) (Nat.lt_irrefl _)

/-- The induction is on the characters that are left of the first 255. -/
theorem constructLoop_inside (hw : w.Inside) (hj : i = j + a.length) (hn : i + n = 255) :
    (constructEnd (constructLoop cs i j d w)).2.Inside ↔ ¬ OverrunsFrom a cs n := by
  induction cs generalizing a i j d n w with
  | nil => exact iff_of_true (constructEnd_inside hw hj (show i ≤ 256 by omega)) (overrunsFrom_nil a n)
  | cons c cs ih =>
    cases n with
    | zero =>
      rw [show i = 255 from hn] at hj ⊢
      rw [constructLoop_last hw hj, overrunsFrom_zero, not_not]
    | succ n =>
      have hi : i < QUERY_DOMAIN_LEN := show i < 256 by omega
      by_cases hc : c = DOT
      · subst hc
        rw [constructLoop_dot hi hj, overrunsFrom_dot]
        by_cases hfit : Fits a.reverse
        · have hput : (w.put j (UInt8.ofNat a.length)).Inside :=
            (DomainBuf.inside_put _).mpr ⟨by omega, hw⟩
          have hrest := ih (a := []) (i := i + 1) (j := i + 1) (d := d + 1) (n := n) hput rfl (by omega)
          rw [if_pos hfit, hrest]
          exact not_congr (and_iff_right hfit).symm
        · rw [if_neg hfit]
          exact iff_of_true hw fun h => hfit h.1
      · have hput : (w.put (i + 1) c).Inside :=
          (DomainBuf.inside_put _).mpr ⟨show i + 1 < 256 by omega, hw⟩
        rw [constructLoop_char hi hc, overrunsFrom_char hc]
        exact ih (a := c :: a) hput (by simp only [List.length_cons]; omega) (by omega)

/-! ## The field -/

theorem constructDomainField_inside (stack : Nat → UInt8) (domain : CString) :
    (constructDomainField { byte := stack } domain).2.Inside ↔ ¬ domain.Overruns := by
  have hfirst : (({ byte := stack } : DomainBuf).put 0 DOT).Inside :=
    (DomainBuf.inside_put _).mpr ⟨by decide, fun _ hk => absurd hk List.not_mem_nil⟩
  rw [CString.overruns_iff, constructDomainField_eq]
  exact constructLoop_inside (a := []) hfirst rfl rfl

theorem domainField_eq (stack : Nat → UInt8) (domain : CString) : domainField stack domain =
    if domain.Overruns then none else some (constructDomainField { byte := stack } domain) := by
  have hin := constructDomainField_inside stack domain
  by_cases hover : domain.Overruns
  · rw [if_pos hover]
    exact if_neg fun h => hin.mp h hover
  · rw [if_neg hover]
    exact if_pos (hin.mpr hover)

/-- A domain of at most 255 characters has none at index 255. -/
theorem CString.not_overruns (h : domain.bytes.length ≤ 255) : ¬ domain.Overruns := by
  rintro ⟨⟨c, hc, _⟩, _⟩
  rw [List.getElem?_eq_none h] at hc
  cases hc

theorem domainField_of_le (stack : Nat → UInt8) (h : domain.bytes.length ≤ 255) :
    domainField stack domain = some (constructDomainField { byte := stack } domain) := by
  rw [domainField_eq, if_neg (CString.not_overruns h)]

/-- A domain is written into the array, whatever its length and its dots, unless it overruns it. -/
theorem construct_inside (stack : Nat → UInt8) (domain : CString) :
    (∀ k ∈ (constructDomainField { byte := stack } domain).2.writes, k < QUERY_DOMAIN_LEN) ↔
      ¬ domain.Overruns :=
  constructDomainField_inside stack domain

/-- Labels of one character, and two at the end: 256 characters. -/
def crowdedDomain : CString where
  bytes := (List.replicate 127 [97, DOT]).flatten ++ [97, 97]
  noNul := by decide +kernel

theorem not_construct_inside : ¬ ∀ (stack : Nat → UInt8) (domain : CString),
    ∀ k ∈ (constructDomainField { byte := stack } domain).2.writes, k < QUERY_DOMAIN_LEN := by
  intro h
  have hwritten : 256 ∈ (constructDomainField { byte := fun _ => 0 } crowdedDomain).2.writes := by
    decide +kernel
  exact Nat.lt_irrefl _ (h _ _ 256 hwritten)

end MNet.Dns
