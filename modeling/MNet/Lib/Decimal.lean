import Mathlib.Algebra.Group.Nat.Defs
import Mathlib.Algebra.Ring.Int.Defs
import Mathlib.Data.List.TakeWhile

/-! # Decimal numbers in a C string

What `%d` prints, and what `atoi` reads back where a `long` has 64 bits and an `int` 32. A number
that a `long` does not hold is read as the nearest that it does, of which an `int` keeps the low
half. -/

namespace MNet.Lib

def MINUS : UInt8 := 45
def PLUS : UInt8 := 43

def digits (n : Nat) : List UInt8 := (Nat.toDigits 10 n).map fun c => UInt8.ofNat c.toNat

def decimal (v : Int) : List UInt8 :=
  if v < 0 then MINUS :: digits v.natAbs else digits v.natAbs

def isSpace (c : UInt8) : Bool := c = 32 ∨ 9 ≤ c ∧ c ≤ 13

def isDigit (c : UInt8) : Bool := 48 ≤ c ∧ c ≤ 57

/-- The value of the digits. -/
def valueOf (ds : List UInt8) : Nat := ds.foldl (fun n c => 10 * n + (c.toNat - 48)) 0

/-- The number that `s` begins with. -/
def magnitude (s : List UInt8) : Nat := valueOf (s.takeWhile isDigit)

def LONG_MAX : Int := 2 ^ 63 - 1
def LONG_MIN : Int := -2 ^ 63

/-- `strtol(s, NULL, 10)`. -/
def strtol (s : List UInt8) : Int :=
  let v : Int := match s.dropWhile isSpace with
    | [] => 0
    | c :: cs =>
      if c = MINUS then -(magnitude cs : Int)
      else if c = PLUS then magnitude cs
      else magnitude (c :: cs)
  max LONG_MIN (min LONG_MAX v)

def atoi (s : List UInt8) : Int := Int.bmod (strtol s) (2 ^ 32)

theorem atoi_mem (s : List UInt8) : -2 ^ 31 ≤ atoi s ∧ atoi s < 2 ^ 31 :=
  ⟨Int.le_bmod (by decide), Int.bmod_lt (by decide)⟩

/-! ## What is printed -/

variable {n : Nat} {v : Int}

theorem toNat_digitByte {c : Char} (hc : c.isDigit) :
    (UInt8.ofNat c.toNat).toNat = c.toNat ∧ 48 ≤ c.toNat ∧ c.toNat ≤ 57 := by
  have hrange : 48 ≤ c.toNat ∧ c.toNat ≤ 57 := Char.isDigit_iff_toNat.mp hc
  refine ⟨?_, hrange⟩
  rw [UInt8.toNat_ofNat']
  omega

theorem isDigit_digitByte {c : Char} (hc : c.isDigit) : isDigit (UInt8.ofNat c.toNat) := by
  obtain ⟨hnat, hlo, hhi⟩ := toNat_digitByte hc
  simp only [isDigit, decide_eq_true_eq, UInt8.le_iff_toNat_le, hnat]
  exact ⟨hlo, hhi⟩

theorem isDigit_of_mem_digits {c : UInt8} (hc : c ∈ digits n) : isDigit c := by
  obtain ⟨d, hd, rfl⟩ := List.mem_map.mp hc
  exact isDigit_digitByte (Nat.isDigit_of_mem_toDigits (by decide) (by decide) hd)

theorem digits_ne_nil (n : Nat) : digits n ≠ [] := by
  intro h
  exact Nat.toDigits_ne_nil (List.map_eq_nil_iff.mp h)

theorem length_digits_le {k : Nat} (hk : 0 < k) : (digits n).length ≤ k ↔ n < 10 ^ k := by
  rw [digits, List.length_map]
  exact Nat.length_toDigits_le_iff (by decide) hk

/-- A character of a number is a digit or the sign. -/
theorem mem_decimal {c : UInt8} (hc : c ∈ decimal v) : c = MINUS ∨ isDigit c := by
  unfold decimal at hc
  split at hc
  · exact (List.mem_cons.mp hc).imp_right isDigit_of_mem_digits
  · exact .inr (isDigit_of_mem_digits hc)

/-! ## What is read back -/

theorem foldl_digitBytes {l : List Char} (hl : ∀ c ∈ l, c.isDigit) (init : Nat) :
    (l.map fun c => UInt8.ofNat c.toNat).foldl (fun n c => 10 * n + (c.toNat - 48)) init =
      Nat.ofDigitChars 10 l init := by
  induction l generalizing init with
  | nil => rfl
  | cons c l ih =>
    obtain ⟨hc, hl⟩ := List.forall_mem_cons.mp hl
    rw [List.map_cons, List.foldl_cons, ih hl, Nat.ofDigitChars_cons, (toNat_digitByte hc).1]
    rfl

theorem valueOf_digits (n : Nat) : valueOf (digits n) = n := by
  rw [valueOf, digits, foldl_digitBytes fun c hc => Nat.isDigit_of_mem_toDigits (by decide) (by decide) hc]
  exact Nat.ofDigitChars_ten_toDigits

theorem magnitude_digits (n : Nat) : magnitude (digits n) = n := by
  rw [magnitude, List.takeWhile_eq_self_iff.mpr fun c hc => isDigit_of_mem_digits hc]
  exact valueOf_digits n

/-- A digit is neither a space nor a sign. -/
theorem isDigit_alone {c : UInt8} (hc : isDigit c) : ¬ isSpace c ∧ c ≠ MINUS ∧ c ≠ PLUS := by
  have hlo : 48 ≤ c.toNat := UInt8.le_iff_toNat_le.mp (of_decide_eq_true hc).1
  refine ⟨fun hspace => ?_, fun he => ?_, fun he => ?_⟩
  · rcases of_decide_eq_true hspace with he | he
    · subst he
      exact absurd hlo (by decide)
    · have hhi : c.toNat ≤ 13 := UInt8.le_iff_toNat_le.mp he.2
      omega
  · subst he
    exact absurd hlo (by decide)
  · subst he
    exact absurd hlo (by decide)

theorem strtol_decimal (hlo : LONG_MIN ≤ v) (hhi : v ≤ LONG_MAX) : strtol (decimal v) = v := by
  have hclamp : max LONG_MIN (min LONG_MAX v) = v := by
    rw [Int.min_eq_right hhi, Int.max_eq_right hlo]
  unfold decimal
  split
  · have hv : -(v.natAbs : Int) = v := by omega
    rw [strtol, List.dropWhile_cons_of_neg (by decide)]
    simp only [if_true, magnitude_digits, hv, hclamp]
  · obtain ⟨c, cs, hcs⟩ := List.exists_cons_of_ne_nil (digits_ne_nil v.natAbs)
    have hv : (v.natAbs : Int) = v := by omega
    have hmag := magnitude_digits v.natAbs
    obtain ⟨hspace, hminus, hplus⟩ :=
      isDigit_alone (isDigit_of_mem_digits (hcs ▸ List.mem_cons_self : c ∈ digits v.natAbs))
    rw [hcs] at hmag ⊢
    rw [strtol, List.dropWhile_cons_of_neg hspace]
    simp only [if_neg hminus, if_neg hplus, hmag, hv, hclamp]

/-- An `int` is read back from what is printed of it. -/
theorem atoi_decimal (hlo : -2 ^ 31 ≤ v) (hhi : v < 2 ^ 31) : atoi (decimal v) = v := by
  rw [atoi, strtol_decimal (by unfold LONG_MIN; omega) (by unfold LONG_MAX; omega)]
  exact Int.bmod_eq_of_le (by omega) (by omega)

end MNet.Lib
