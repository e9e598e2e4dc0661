import Mathlib.Data.List.Basic
import Mathlib.Data.List.TakeDrop

/-! # The send cache

`rwb_head_t` is a singly linked list of blocks with a tail pointer and a count;
here it is the list of its blocks, head first, so that the count is the length
and head and tail are NULL exactly when it is empty. What the cache is for is
`unsent`: a queue of bytes, appended to by `rwbCache` and consumed by `rwbDrain`. -/

namespace MNet

/-- `rwb_t`: a block of bytes, sent up to `ptr`. -/
structure Rwb where
  ptr : Nat
  buf : List UInt8
  ptr_le : ptr ≤ buf.length
deriving DecidableEq, Repr

def Rwb.len (b : Rwb) : Nat := b.buf.length

def rwbBuffered (b : Rwb) : Nat := b.len - b.ptr

/-- `b->ptr += n`. -/
def Rwb.advance (b : Rwb) (n : Nat) (h : n ≤ rwbBuffered b) : Rwb :=
  ⟨b.ptr + n, b.buf, by have := b.ptr_le; unfold rwbBuffered Rwb.len at h; omega⟩

abbrev RwbHead := List Rwb

def rwbCount (h : RwbHead) : Nat := h.length

/-- The block is allocated with its header of 24 bytes by `mm_malloc(int)`, so that `buf` is
shorter than 2^31 - 24 bytes. -/
def rwbNew (buf : List UInt8) : Rwb := ⟨0, buf, Nat.zero_le _⟩

def rwbCreateTail (h : RwbHead) (b : Rwb) : RwbHead := h ++ [b]

/-- The new tail block, with the bytes already copied into it. -/
def rwbCache (h : RwbHead) (buf : List UInt8) : RwbHead := rwbCreateTail h (rwbNew buf)

/-- Drops the head block, but only when it holds no unsent byte. -/
def rwbDestroyHead : RwbHead → RwbHead
  | [] => []
  | b :: h => if rwbBuffered b ≤ 0 then h else b :: h

/-- The unsent bytes of the head block. -/
def rwbDrainParam : RwbHead → List UInt8
  | [] => []
  | b :: _ => b.buf.drop b.ptr

/-- When the head block stays, `drain_len` has reached 0 and the loop is over. -/
def rwbDrain : RwbHead → Nat → RwbHead
  | [], _ => []
  | b :: h, 0 => b :: h
  | b :: h, d + 1 =>
    let len := min (d + 1) (rwbBuffered b)
    let b' := b.advance len (Nat.min_le_right _ _)
    if rwbBuffered b' ≤ 0 then rwbDrain h (d + 1 - len) else b' :: h

/-- `while (h->count > 0) _rwb_destroy_head(h)`, for at most `fuel` rounds. -/
def rwbDestroyLoop : Nat → RwbHead → Option RwbHead
  | _, [] => some []
  | 0, _ :: _ => none
  | fuel + 1, b :: h => rwbDestroyLoop fuel (rwbDestroyHead (b :: h))

/-- `none` stands for a loop that never ends: `rwbDestroy_eq_none` shows that more
rounds would not help. -/
def rwbDestroy (h : RwbHead) : Option RwbHead := rwbDestroyLoop (rwbCount h) h

/-! ## The cache as a queue of bytes -/

def unsent (h : RwbHead) : List UInt8 := h.flatMap fun b => b.buf.drop b.ptr

/-- Every block still has something to send. -/
def Live (h : RwbHead) : Prop := ∀ b ∈ h, 0 < rwbBuffered b

/-- No block has anything left to send. -/
def Spent (h : RwbHead) : Prop := ∀ b ∈ h, rwbBuffered b = 0

@[simp] theorem unsent_nil : unsent [] = [] := rfl

@[simp] theorem unsent_cons (b : Rwb) (h : RwbHead) :
    unsent (b :: h) = b.buf.drop b.ptr ++ unsent h := rfl

theorem rwbBuffered_eq (b : Rwb) : rwbBuffered b = (b.buf.drop b.ptr).length := by
  simp [rwbBuffered, Rwb.len]

theorem unsent_rwbCache (h : RwbHead) (buf : List UInt8) :
    unsent (rwbCache h buf) = unsent h ++ buf := by
  simp [rwbCache, rwbCreateTail, unsent, rwbNew]

theorem Live.rwbCache {h : RwbHead} (hl : Live h) {buf : List UInt8} (hb : buf ≠ []) :
    Live (rwbCache h buf) := by
  intro b hm
  rcases List.mem_append.mp hm with hm | hm
  · exact hl b hm
  · have hb' : b = rwbNew buf := by simpa using hm
    subst hb'
    simpa [rwbBuffered, Rwb.len, rwbNew, List.length_pos_iff] using hb

theorem rwbDrain_zero (h : RwbHead) : rwbDrain h 0 = h := by
  cases h <;> rfl

/-- The head block is sent whole: it goes, and the rest is drained further. -/
theorem rwbDrain_of_le {b : Rwb} (h : RwbHead) {d : Nat} (hd : rwbBuffered b ≤ d) (hpos : 0 < d) :
    rwbDrain (b :: h) d = rwbDrain h (d - rwbBuffered b) := by
  obtain ⟨e, rfl⟩ : ∃ e, d = e + 1 := ⟨d - 1, by omega⟩
  have hz : rwbBuffered (b.advance (min (e + 1) (rwbBuffered b)) (Nat.min_le_right _ _)) ≤ 0 := by
    simp only [rwbBuffered, Rwb.advance, Rwb.len] at hd ⊢
    omega
  simp only [rwbDrain]
  rw [if_pos hz, Nat.min_eq_right hd]

/-- The head block is sent in part: it stays, further along. -/
theorem rwbDrain_of_lt {b : Rwb} (h : RwbHead) {d : Nat} (hd : d < rwbBuffered b) :
    rwbDrain (b :: h) d = b.advance d (Nat.le_of_lt hd) :: h := by
  cases d with
  | zero => rfl
  | succ e =>
    have hmin : min (e + 1) (rwbBuffered b) = e + 1 := Nat.min_eq_left (Nat.le_of_lt hd)
    have hz : ¬ rwbBuffered (b.advance (min (e + 1) (rwbBuffered b)) (Nat.min_le_right _ _)) ≤ 0 := by
      simp only [rwbBuffered, Rwb.advance, Rwb.len] at hd ⊢
      omega
    simp only [rwbDrain]
    rw [if_neg hz]
    simp only [hmin]

theorem rwbBuffered_advance (b : Rwb) (n : Nat) (h : n ≤ rwbBuffered b) :
    rwbBuffered (b.advance n h) = rwbBuffered b - n := by
  simp only [rwbBuffered, Rwb.advance, Rwb.len]
  omega

/-- Draining consumes from the front of the queue. -/
theorem unsent_rwbDrain (h : RwbHead) (d : Nat) : unsent (rwbDrain h d) = (unsent h).drop d := by
  induction h generalizing d with
  | nil => simp [rwbDrain]
  | cons b h ih =>
    have hlen := rwbBuffered_eq b
    by_cases hd : d < rwbBuffered b
    · rw [rwbDrain_of_lt h hd, unsent_cons, unsent_cons,
        List.drop_append_of_le_length (by rw [← hlen]; exact Nat.le_of_lt hd)]
      simp only [Rwb.advance, List.drop_drop]
    · cases d with
      | zero => rw [rwbDrain_zero, List.drop_zero]
      | succ d =>
        have hnil : (b.buf.drop b.ptr).drop (d + 1) = [] :=
          List.drop_eq_nil_of_le (by rw [← hlen]; exact Nat.le_of_not_lt hd)
        rw [rwbDrain_of_le h (Nat.le_of_not_lt hd) (Nat.succ_pos _), ih, unsent_cons, hlen,
          List.drop_append, hnil, List.nil_append]

theorem take_rwbDrainParam {h : RwbHead} {d : Nat} (hd : d ≤ (rwbDrainParam h).length) :
    (rwbDrainParam h).take d = (unsent h).take d := by
  cases h with
  | nil => rfl
  | cons b h => exact (List.take_append_of_le_length hd).symm

theorem Live.rwbDrain {h : RwbHead} (hl : Live h) (d : Nat) : Live (rwbDrain h d) := by
  induction h generalizing d with
  | nil => intro b hb; simp [MNet.rwbDrain] at hb
  | cons b h ih =>
    have ht : Live h := fun c hc => hl c (List.mem_cons_of_mem _ hc)
    by_cases hd : d < rwbBuffered b
    · rw [rwbDrain_of_lt h hd]
      intro c hc
      rcases List.mem_cons.mp hc with rfl | hc
      · rw [rwbBuffered_advance]
        omega
      · exact ht c hc
    · have hpos : 0 < d := by have := hl b (by simp); omega
      rw [rwbDrain_of_le h (Nat.le_of_not_lt hd) hpos]
      exact ih ht _

theorem rwbDrain_length_le (h : RwbHead) (d : Nat) : (rwbDrain h d).length ≤ h.length := by
  induction h generalizing d with
  | nil => simp [rwbDrain]
  | cons b h ih =>
    by_cases hd : d < rwbBuffered b
    · rw [rwbDrain_of_lt h hd]
      simp
    · cases d with
      | zero => simp [rwbDrain]
      | succ d =>
        rw [rwbDrain_of_le h (Nat.le_of_not_lt hd) (Nat.succ_pos _)]
        exact Nat.le_succ_of_le (ih _)

/-- Sending the whole head block shortens the list. -/
theorem rwbDrain_length_lt {b : Rwb} {h : RwbHead} {d : Nat}
    (hd : (rwbDrainParam (b :: h)).length ≤ d) (hpos : 0 < d) :
    (rwbDrain (b :: h) d).length < (b :: h).length := by
  have hb : rwbBuffered b ≤ d := by rw [rwbBuffered_eq]; exact hd
  rw [rwbDrain_of_le h hb hpos]
  exact Nat.lt_succ_of_le (rwbDrain_length_le _ _)

/-! ## `_rwb_destroy` -/

theorem rwbDestroyLoop_nil (fuel : Nat) : rwbDestroyLoop fuel [] = some [] := by
  cases fuel <;> rfl

/-- A block with unsent bytes at the head stops every round of the loop from doing anything. -/
theorem rwbDestroyLoop_stuck {b : Rwb} (h : RwbHead) (hb : 0 < rwbBuffered b) (fuel : Nat) :
    rwbDestroyLoop fuel (b :: h) = none := by
  induction fuel with
  | zero => rfl
  | succ fuel ih =>
    have hd : rwbDestroyHead (b :: h) = b :: h := if_neg (by omega)
    rw [rwbDestroyLoop, hd, ih]

theorem rwbDestroyLoop_spent {h : RwbHead} (hs : Spent h) {fuel : Nat} (hf : rwbCount h ≤ fuel) :
    rwbDestroyLoop fuel h = some [] := by
  induction h generalizing fuel with
  | nil => exact rwbDestroyLoop_nil fuel
  | cons b h ih =>
    obtain ⟨fuel, rfl⟩ : ∃ f, fuel = f + 1 := ⟨fuel - 1, by simp [rwbCount] at hf; omega⟩
    have hd : rwbDestroyHead (b :: h) = h := if_pos (Nat.le_of_eq (hs b (by simp)))
    rw [rwbDestroyLoop, hd]
    exact ih (fun c hc => hs c (List.mem_cons_of_mem _ hc)) (by simpa [rwbCount] using hf)

theorem rwbDestroyLoop_some {h r : RwbHead} {fuel : Nat} (hr : rwbDestroyLoop fuel h = some r) :
    r = [] ∧ Spent h := by
  induction fuel generalizing h with
  | zero =>
    cases h with
    | nil => exact ⟨(Option.some.inj hr).symm, by simp [Spent]⟩
    | cons b h => cases hr
  | succ fuel ih =>
    cases h with
    | nil => exact ⟨(Option.some.inj hr).symm, by simp [Spent]⟩
    | cons b h =>
      by_cases hb : rwbBuffered b ≤ 0
      · have hd : rwbDestroyHead (b :: h) = h := if_pos hb
        rw [rwbDestroyLoop, hd] at hr
        obtain ⟨hr, hs⟩ := ih hr
        refine ⟨hr, fun c hc => ?_⟩
        rcases List.mem_cons.mp hc with rfl | hc
        · exact Nat.le_zero.mp hb
        · exact hs c hc
      · rw [rwbDestroyLoop_stuck h (by omega)] at hr
        cases hr

/-- `_rwb_destroy` ends exactly on the lists whose blocks are all spent, and then it
leaves the empty list. -/
theorem rwbDestroy_eq_some {h r : RwbHead} : rwbDestroy h = some r ↔ r = [] ∧ Spent h := by
  constructor
  · exact rwbDestroyLoop_some
  · rintro ⟨rfl, hs⟩
    exact rwbDestroyLoop_spent hs (Nat.le_refl _)

/-- Where `rwbDestroy` gives no result, no number of rounds gives one. -/
theorem rwbDestroy_eq_none {h : RwbHead} :
    rwbDestroy h = none ↔ ∀ fuel, rwbDestroyLoop fuel h = none := by
  constructor
  · intro hn fuel
    cases hf : rwbDestroyLoop fuel h with
    | none => rfl
    | some r =>
      obtain ⟨_, hs⟩ := rwbDestroyLoop_some hf
      rw [rwbDestroy_eq_some.mpr ⟨rfl, hs⟩] at hn
      cases hn
  · intro hn
    exact hn _

/-- On a cache whose blocks all have something to send, only the empty one can be destroyed. -/
theorem Live.spent_iff {h : RwbHead} (hl : Live h) : Spent h ↔ h = [] := by
  constructor
  · intro hs
    cases h with
    | nil => rfl
    | cons b h =>
      have hb := hl b (by simp)
      rw [hs b (by simp)] at hb
      omega
  · rintro rfl
    simp [Spent]

end MNet
