import Mathlib.Algebra.Group.Nat.Defs
import Mathlib.Data.List.Basic
import Mathlib.Data.Nat.Log

/-! # Red-black trees and the paths into them

A shape is a binary tree with a colour at every node. A path is what is left of a tree around
one of its subtrees, the innermost frame first. The rules come in one copy for both directions:
`Shape.mk s` is the node whose child on side `s` is named first. -/

namespace MNet.Lib

inductive Side where
  | left
  | right
  deriving DecidableEq

def Side.other : Side → Side
  | left => right
  | right => left

@[simp] theorem Side.other_ne (s : Side) : s.other ≠ s := by cases s <;> decide

@[simp] theorem Side.ne_other (s : Side) : s ≠ s.other := by cases s <;> decide

theorem Side.eq_or_other (s s' : Side) : s' = s ∨ s' = s.other := by cases s <;> cases s' <;> decide

inductive Shape (α : Type) where
  | nil
  | node (red : Bool) (l : Shape α) (x : α) (r : Shape α)

variable {α : Type}

namespace Shape

/-- The node with the child `a` on side `s` and the child `b` on the other side. -/
def mk (s : Side) (red : Bool) (a : Shape α) (x : α) (b : Shape α) : Shape α :=
  match s with
  | .left => node red a x b
  | .right => node red b x a

/-- The nodes from left to right. -/
def toList : Shape α → List α
  | nil => []
  | node _ l x r => l.toList ++ x :: r.toList

def isRed : Shape α → Bool
  | nil => false
  | node red _ _ _ => red

def rootOf : Shape α → Option α
  | nil => none
  | node _ _ x _ => some x

def setRed (c : Bool) : Shape α → Shape α
  | nil => nil
  | node _ l x r => node c l x r

def depth : Shape α → Nat
  | nil => 0
  | node _ l _ r => max l.depth r.depth + 1

variable {s : Side} {c d : Bool} {a b t : Shape α} {x y : α} {n m : Nat}

@[simp] theorem toList_nil : (nil : Shape α).toList = [] := rfl

@[simp] theorem rootOf_nil : (nil : Shape α).rootOf = none := rfl

@[simp] theorem isRed_setRed_false : (t.setRed false).isRed = false := by cases t <;> rfl

@[simp] theorem isRed_mk : (mk s c a x b).isRed = c := by cases s <;> rfl

@[simp] theorem rootOf_mk : (mk s c a x b).rootOf = some x := by cases s <;> rfl

@[simp] theorem setRed_mk : (mk s c a x b).setRed d = mk s d a x b := by cases s <;> rfl

@[simp] theorem toList_setRed : (t.setRed c).toList = t.toList := by cases t <;> rfl

theorem setRed_isRed (t : Shape α) : t.setRed t.isRed = t := by cases t <;> rfl

theorem mk_other : mk s.other c a x b = mk s c b x a := by cases s <;> rfl

/-- A shape that is not empty, seen from side `s`. -/
theorem eq_nil_or_mk (s : Side) (t : Shape α) : t = nil ∨ ∃ c a x b, t = mk s c a x b := by
  cases t with
  | nil => exact .inl rfl
  | node c l x r =>
    cases s with
    | left => exact .inr ⟨c, l, x, r, rfl⟩
    | right => exact .inr ⟨c, r, x, l, rfl⟩

@[simp] theorem mem_mk : y ∈ (mk s c a x b).toList ↔ y = x ∨ y ∈ a.toList ∨ y ∈ b.toList := by
  cases s <;> simp only [mk, toList, List.mem_append, List.mem_cons] <;> tauto

theorem nodup_mk : (mk s c a x b).toList.Nodup ↔
    a.toList.Nodup ∧ b.toList.Nodup ∧ x ∉ a.toList ∧ x ∉ b.toList ∧ ∀ y ∈ a.toList, y ∉ b.toList := by
  cases s <;> simp only [mk, toList, List.nodup_append, List.nodup_cons, List.mem_cons] <;> grind

theorem rootOf_mem (h : t.rootOf = some x) : x ∈ t.toList := by
  cases t with
  | nil => cases h
  | node c l y r =>
    cases h
    simp [toList]

theorem rootOf_eq_none : t.rootOf = none ↔ t = nil := by cases t <;> simp [rootOf]

/-- Turning an edge does not change the order of the nodes. -/
theorem toList_turn {c d c' d' : Bool} {u : Shape α} :
    (mk s c (mk s d a x b) y u).toList = (mk s c' a x (mk s d' b y u)).toList := by
  cases s <;> simp [mk, toList]

theorem toList_mk (c d : Bool) : (mk s c a x b).toList = (mk s d a x b).toList := by
  cases s <;> rfl

theorem toList_mk_congr {a' b' : Shape α} (ha : a.toList = a'.toList) (hb : b.toList = b'.toList) :
    (mk s c a x b).toList = (mk s d a' x b').toList := by
  cases s <;> simp [mk, toList, ha, hb]

/-- Two edges turned, as for a node on the inner side. -/
theorem toList_turn_twice {c₁ c₂ c₃ d₁ d₂ d₃ : Bool} {u v : Shape α} {z : α} :
    (mk s c₁ (mk s c₂ a x (mk s c₃ b y u)) z v).toList =
      (mk s d₁ (mk s d₂ a x b) y (mk s d₃ u z v)).toList := by
  cases s <;> simp [mk, toList]

/-! ## Balance -/

/-- No red node has a red child, and every way down passes `n` black nodes. -/
inductive Balanced : Shape α → Nat → Prop
  | nil : Balanced nil 0
  | red {l r : Shape α} {x : α} {n : Nat} : Balanced l n → Balanced r n → l.isRed = false →
    r.isRed = false → Balanced (node true l x r) n
  | black {l r : Shape α} {x : α} {n : Nat} : Balanced l n → Balanced r n →
    Balanced (node false l x r) (n + 1)

theorem balanced_mk_red : (mk s true a x b).Balanced n ↔
    a.Balanced n ∧ b.Balanced n ∧ a.isRed = false ∧ b.isRed = false := by
  constructor
  · intro h
    cases s with
    | left => cases h with | red ha hb hca hcb => exact ⟨ha, hb, hca, hcb⟩
    | right => cases h with | red hb ha hcb hca => exact ⟨ha, hb, hca, hcb⟩
  · rintro ⟨ha, hb, hca, hcb⟩
    cases s with
    | left => exact .red ha hb hca hcb
    | right => exact .red hb ha hcb hca

theorem balanced_mk_black : (mk s false a x b).Balanced (n + 1) ↔ a.Balanced n ∧ b.Balanced n := by
  constructor
  · intro h
    cases s with
    | left => cases h with | black ha hb => exact ⟨ha, hb⟩
    | right => cases h with | black hb ha => exact ⟨ha, hb⟩
  · rintro ⟨ha, hb⟩
    cases s with
    | left => exact .black ha hb
    | right => exact .black hb ha

/-- The black height of a node of colour `c` over children of black height `n`. -/
def heightOver (c : Bool) (n : Nat) : Nat := if c then n else n + 1

theorem balanced_mk : (mk s c a x b).Balanced (heightOver c n) ↔
    a.Balanced n ∧ b.Balanced n ∧ (c = true → a.isRed = false ∧ b.isRed = false) := by
  cases c with
  | true => exact balanced_mk_red.trans (by simp [heightOver])
  | false => exact balanced_mk_black.trans (by simp)

theorem Balanced.over (h : (mk s c a x b).Balanced m) : ∃ n, m = heightOver c n ∧
    a.Balanced n ∧ b.Balanced n ∧ (c = true → a.isRed = false ∧ b.isRed = false) := by
  cases c with
  | true => exact ⟨m, rfl, balanced_mk.mp h⟩
  | false =>
    cases m with
    | zero => cases s <;> cases h
    | succ m => exact ⟨m, rfl, balanced_mk.mp h⟩

theorem Balanced.ne_nil (h : t.Balanced (n + 1)) : t ≠ Shape.nil := by
  rintro rfl
  cases h

/-- A black shape over which there is a black node is a black node. -/
theorem Balanced.eq_mk (h : t.Balanced (n + 1)) (s : Side) : ∃ c a x b, t = mk s c a x b :=
  (eq_nil_or_mk s t).resolve_left h.ne_nil

theorem Balanced.setRed_false (h : t.Balanced n) : ∃ m, (t.setRed false).Balanced m := by
  cases h with
  | nil => exact ⟨0, .nil⟩
  | red hl hr _ _ => exact ⟨_, .black hl hr⟩
  | black hl hr => exact ⟨_, .black hl hr⟩

theorem Balanced.setRed_of_red (h : t.Balanced n) (hc : t.isRed = true) : (t.setRed false).Balanced (n + 1) := by
  cases h with
  | red hl hr _ _ => exact .black hl hr
  | nil => cases hc
  | black => cases hc

/-- A red-black tree: balanced, with a black root. -/
def RedBlack (t : Shape α) : Prop := t.isRed = false ∧ ∃ n, t.Balanced n

theorem redBlack_nil : (nil : Shape α).RedBlack := ⟨rfl, 0, .nil⟩

theorem Balanced.two_pow_le (h : t.Balanced n) : 2 ^ n ≤ t.toList.length + 1 := by
  induction h with
  | nil => simp
  | red _ _ _ _ ihl ihr => simp only [toList, List.length_append, List.length_cons]; omega
  | black _ _ ihl ihr =>
    simp only [toList, List.length_append, List.length_cons, Nat.pow_succ]
    omega

theorem Balanced.depth_le (h : t.Balanced n) : t.depth ≤ 2 * n + if t.isRed then 1 else 0 := by
  induction h with
  | nil => simp [depth]
  | red _ _ hl hr ihl ihr =>
    rw [hl] at ihl
    rw [hr] at ihr
    simp only [depth, isRed, Bool.false_eq_true, if_false, if_true] at ihl ihr ⊢
    omega
  | @black l r _ n _ _ ihl ihr =>
    have hl : (if l.isRed then 1 else 0) ≤ 1 := by split <;> omega
    have hr : (if r.isRed then 1 else 0) ≤ 1 := by split <;> omega
    simp only [depth, isRed, Bool.false_eq_true, if_false]
    omega

/-- A red-black tree is at most twice as deep as a perfect one. -/
theorem RedBlack.depth_le (h : t.RedBlack) : t.depth ≤ 2 * Nat.log 2 (t.toList.length + 1) := by
  obtain ⟨hc, n, hn⟩ := h
  have hd : t.depth ≤ 2 * n := by simpa [hc] using hn.depth_le
  have hlog : n ≤ Nat.log 2 (t.toList.length + 1) :=
    Nat.le_log_of_pow_le Nat.one_lt_two hn.two_pow_le
  omega

end Shape

/-! ## Paths -/

/-- One node on the way up: the side the path comes from, and the child on the other side. -/
structure Frame (α : Type) where
  side : Side
  red : Bool
  id : α
  sib : Shape α

def Frame.plug (f : Frame α) (t : Shape α) : Shape α := .mk f.side f.red t f.id f.sib

namespace Frames

open Shape

/-- The whole tree: `t` at the end of the path. -/
def fill : List (Frame α) → Shape α → Shape α
  | [], t => t
  | f :: p, t => fill p (f.plug t)

/-- The nodes of the path and of the trees beside it. -/
def ids : List (Frame α) → List α
  | [] => []
  | f :: p => f.id :: (f.sib.toList ++ ids p)

/-- The nodes left of the hole, and those right of it. -/
def before : List (Frame α) → List α
  | [] => []
  | f :: p => before p ++ match f.side with
    | .left => []
    | .right => f.sib.toList ++ [f.id]

def after : List (Frame α) → List α
  | [] => []
  | f :: p => match f.side with
    | .left => f.id :: (f.sib.toList ++ after p)
    | .right => after p

/-- The node above the hole. -/
def top (p : List (Frame α)) : Option α := p.head?.map Frame.id

def topRed (p : List (Frame α)) : Option Bool := p.head?.map Frame.red

variable {f : Frame α} {p q : List (Frame α)} {t u : Shape α} {x : α} {n : Nat}

@[simp] theorem fill_append : fill (p ++ q) t = fill q (fill p t) := by
  induction p generalizing t with
  | nil => rfl
  | cons f p ih => exact ih

theorem toList_fill : (fill p t).toList = before p ++ t.toList ++ after p := by
  induction p generalizing t with
  | nil => simp [fill, before, after]
  | cons f p ih =>
    simp only [fill, ih, before, after, Frame.plug]
    cases f.side <;> simp [mk, toList]

theorem toList_fill_congr (h : t.toList = u.toList) : (fill p t).toList = (fill p u).toList := by
  simp only [toList_fill, h]

theorem mem_fill : x ∈ (fill p t).toList ↔ x ∈ t.toList ∨ x ∈ ids p := by
  induction p generalizing t with
  | nil => simp [fill, ids]
  | cons f p ih =>
    simp only [fill, ih, Frame.plug, mem_mk, ids, List.mem_cons, List.mem_append]
    tauto

theorem nodup_fill : (fill p t).toList.Nodup ↔
    t.toList.Nodup ∧ (ids p).Nodup ∧ ∀ x ∈ t.toList, x ∉ ids p := by
  induction p generalizing t with
  | nil => simp [fill, ids]
  | cons f p ih =>
    simp only [fill, ih, Frame.plug, nodup_mk, mem_mk, ids, List.nodup_cons, List.nodup_append,
      List.mem_cons, List.mem_append]
    grind

theorem length_add_depth_le : p.length + t.depth ≤ (fill p t).depth := by
  induction p generalizing t with
  | nil => simp [fill]
  | cons f p ih =>
    have := ih (t := f.plug t)
    have hd : t.depth + 1 ≤ (f.plug t).depth := by
      cases hs : f.side <;> simp only [Frame.plug, hs, mk, depth] <;> omega
    simp only [fill, List.length_cons]
    omega

theorem rootOf_fill (hp : p ≠ []) : ∃ x ∈ ids p, (fill p t).rootOf = some x := by
  induction p generalizing t with
  | nil => exact absurd rfl hp
  | cons f p ih =>
    cases p with
    | nil => exact ⟨f.id, List.mem_cons_self, rootOf_mk⟩
    | cons g p =>
      obtain ⟨x, hx, hr⟩ := ih (t := f.plug t) (by simp)
      exact ⟨x, List.mem_cons_of_mem _ (List.mem_append_right _ hx), hr⟩

/-- Each node is somewhere. -/
theorem exists_fill (h : x ∈ t.toList) : ∃ p c l r, t = fill p (node c l x r) := by
  induction t with
  | nil => cases h
  | node c l y r ihl ihr =>
    simp only [toList, List.mem_append, List.mem_cons] at h
    rcases h with h | rfl | h
    · obtain ⟨p, d, a, b, he⟩ := ihl h
      exact ⟨p ++ [⟨.left, c, y, r⟩], d, a, b, by rw [fill_append, ← he]; rfl⟩
    · exact ⟨[], c, l, r, rfl⟩
    · obtain ⟨p, d, a, b, he⟩ := ihr h
      exact ⟨p ++ [⟨.right, c, y, l⟩], d, a, b, by rw [fill_append, ← he]; rfl⟩

/-! ## Order around a hole -/

section
variable {β : Type} [Preorder β] {key : α → β} {k : β} {c : Bool} {l r : Shape α}

/-- The key `k` belongs into the hole of the path. -/
def Straddles (key : α → β) (k : β) (p : List (Frame α)) : Prop :=
  (∀ y ∈ before p, key y < k) ∧ ∀ y ∈ after p, k < key y

theorem Straddles.left (h : Straddles key k p)
    (hs : (fill p (node c l x r)).toList.Pairwise (key · < key ·)) (hk : k < key x) :
    Straddles key k (⟨.left, c, x, r⟩ :: p) := by
  refine ⟨fun y hy => h.1 y (by simpa [before] using hy), fun y hy => ?_⟩
  simp only [toList_fill, toList, List.pairwise_append, List.pairwise_cons] at hs
  simp only [after, List.mem_cons, List.mem_append] at hy
  rcases hy with rfl | hy | hy
  · exact hk
  · exact hk.trans (hs.1.2.1.2.1.1 y hy)
  · exact h.2 y hy

theorem Straddles.right (h : Straddles key k p)
    (hs : (fill p (node c l x r)).toList.Pairwise (key · < key ·)) (hk : key x < k) :
    Straddles key k (⟨.right, c, x, l⟩ :: p) := by
  refine ⟨fun y hy => ?_, fun y hy => h.2 y (by simpa [after] using hy)⟩
  simp only [toList_fill, toList, List.pairwise_append, List.pairwise_cons] at hs
  simp only [before, List.mem_cons, List.mem_append, List.not_mem_nil, or_false] at hy
  rcases hy with hy | hy | rfl
  · exact h.1 y hy
  · exact (hs.1.2.1.2.2 y hy x List.mem_cons_self).trans hk
  · exact hk

/-- A new key in the hole keeps the order. -/
theorem Straddles.insert [DecidableEq α] (h : Straddles key k p) (hx : x ∉ (fill p nil).toList)
    (hs : (fill p nil).toList.Pairwise (key · < key ·)) :
    (before p ++ x :: after p).Pairwise (Function.update key x k · < Function.update key x k ·) := by
  simp only [toList_fill, toList_nil, List.append_nil, List.mem_append, not_or] at hx hs
  have hkeep : ∀ y, y ∈ before p ++ after p → Function.update key x k y = key y := by
    intro y hy
    refine Function.update_of_ne ?_ ..
    rintro rfl
    rcases List.mem_append.mp hy with hy | hy
    · exact hx.1 hy
    · exact hx.2 hy
  have hs' : (before p ++ after p).Pairwise (Function.update key x k · < Function.update key x k ·) := by
    refine hs.imp_of_mem fun ha hb hab => ?_
    rw [hkeep _ ha, hkeep _ hb]
    exact hab
  rw [List.pairwise_append] at hs' ⊢
  obtain ⟨hb, ha, hba⟩ := hs'
  refine ⟨hb, List.pairwise_cons.mpr ⟨fun y hy => ?_, ha⟩, fun y hy z hz => ?_⟩
  · rw [Function.update_self, hkeep y (List.mem_append_right _ hy)]
    exact h.2 y hy
  · rcases List.mem_cons.mp hz with rfl | hz
    · rw [Function.update_self, hkeep y (List.mem_append_left _ hy)]
      exact h.1 y hy
    · exact hba y hy z hz

end

/-! ## Balance around a hole -/

/-- A black tree that every way down passes `n` black nodes of makes the whole balanced. -/
def Awaits : List (Frame α) → Nat → Prop
  | [], _ => True
  | f :: p, n => f.sib.Balanced n ∧
      if f.red then f.sib.isRed = false ∧ topRed p = some false ∧ Awaits p n else Awaits p (n + 1)

/-- The balance does not depend on which node is where. -/
theorem Awaits.rename {s : Side} {c : Bool} {x y : α} {a : Shape α} (h : Awaits (q ++ ⟨s, c, x, a⟩ :: p) n) :
    Awaits (q ++ ⟨s, c, y, a⟩ :: p) n := by
  induction q generalizing n with
  | nil => exact h
  | cons f q ih =>
    obtain ⟨hs, h⟩ := h
    refine ⟨hs, ?_⟩
    cases hf : f.red with
    | true =>
      rw [hf, if_pos rfl] at h
      refine ⟨h.1, ?_, ih h.2.2⟩
      rw [← h.2.1]
      cases q <;> rfl
    | false =>
      rw [hf] at h
      exact ih h

theorem Awaits.above (h : Awaits (f :: p) n) : Awaits p (heightOver f.red n) := by
  obtain ⟨_, h⟩ := h
  cases hf : f.red with
  | true =>
    rw [hf, if_pos rfl] at h
    exact h.2.2
  | false =>
    rw [hf] at h
    exact h

theorem Awaits.sib_black (h : Awaits (f :: p) n) (hf : f.red = true) : f.sib.isRed = false ∧ topRed p = some false := by
  obtain ⟨_, h⟩ := h
  rw [hf, if_pos rfl] at h
  exact ⟨h.1, h.2.1⟩

theorem awaits_cons (hs : f.sib.Balanced n) (hp : Awaits p (heightOver f.red n))
    (hc : f.red = true → f.sib.isRed = false ∧ topRed p = some false) : Awaits (f :: p) n := by
  refine ⟨hs, ?_⟩
  cases hf : f.red with
  | true =>
    rw [hf] at hp
    exact ⟨(hc hf).1, (hc hf).2, hp⟩
  | false =>
    rw [hf] at hp
    exact hp

/-- The hole may take a red tree. -/
def TakesRed (p : List (Frame α)) : Prop := topRed p ≠ some true

theorem Awaits.plug (h : Awaits (f :: p) n) (ht : t.Balanced n)
    (hc : t.isRed = true → f.red = false) :
    ∃ m, (f.plug t).Balanced m ∧ Awaits p m ∧ (f.red = true → TakesRed p) := by
  obtain ⟨hs, hp⟩ := h
  cases hf : f.red with
  | true =>
    rw [hf, if_pos rfl] at hp
    have hct : t.isRed = false := by
      by_contra hr
      rw [hc (by simpa using hr)] at hf
      cases hf
    exact ⟨n, by rw [Frame.plug, hf]; exact balanced_mk_red.mpr ⟨ht, hs, hct, hp.1⟩, hp.2.2,
      fun _ => by rw [TakesRed, hp.2.1]; simp⟩
  | false =>
    rw [hf] at hp
    exact ⟨n + 1, by rw [Frame.plug, hf]; exact balanced_mk_black.mpr ⟨ht, hs⟩, hp, by simp⟩

theorem Awaits.fill (h : Awaits p n) (ht : t.Balanced n) (hc : t.isRed = true → TakesRed p) :
    ∃ m, (fill p t).Balanced m := by
  induction p generalizing t n with
  | nil => exact ⟨n, ht⟩
  | cons f p ih =>
    obtain ⟨m, hm, hp, hcp⟩ := h.plug ht fun hr => by
      have := hc hr
      simpa [TakesRed, topRed] using this
    exact ih hp hm fun hr => hcp (by simpa [Frame.plug] using hr)

/-- The colour of the whole is that of its root. -/
theorem Awaits.isRed_fill (h : Awaits p n) (ht : p = [] → t.isRed = false) : (Frames.fill p t).isRed = false := by
  induction p generalizing t n with
  | nil => exact ht rfl
  | cons f p ih =>
    refine ih h.above ?_
    rintro rfl
    rw [Frame.plug, isRed_mk]
    by_contra hc
    cases (h.sib_black (by simpa using hc)).2

/-- What surrounds a part of a red-black tree. -/
theorem awaits_of_fill {m : Nat} (h : (fill p t).Balanced m) (hc : (fill p t).isRed = false) :
    ∃ n, t.Balanced n ∧ Awaits p n ∧ (t.isRed = true → topRed p = some false) := by
  induction p generalizing t with
  | nil => exact ⟨m, h, trivial, fun hr => by rw [show t.isRed = false from hc] at hr; cases hr⟩
  | cons f p ih =>
    obtain ⟨n, hn, hp, htop⟩ := ih (t := f.plug t) h hc
    cases hf : f.red with
    | true =>
      rw [Frame.plug, hf, balanced_mk_red] at hn
      refine ⟨n, hn.1, ⟨hn.2.1, ?_⟩, fun hr => by rw [hn.2.2.1] at hr; cases hr⟩
      rw [hf, if_pos rfl]
      exact ⟨hn.2.2.2, htop (by simp [Frame.plug, hf]), hp⟩
    | false =>
      cases n with
      | zero =>
        rw [Frame.plug, hf] at hn
        cases hs : f.side <;> rw [hs] at hn <;> cases hn
      | succ n =>
        rw [Frame.plug, hf, balanced_mk_black] at hn
        refine ⟨n, hn.1, ⟨hn.2, ?_⟩, fun _ => by simp [topRed, hf]⟩
        rw [hf]
        exact hp

end Frames

end MNet.Lib
