import MNet.Wepoll.Tree

/-! # What the tree functions do to the layout

Each function takes a tree laid out in the links to another one, and keeps the keys. -/

namespace MNet.Wepoll

open Lib Lib.Exec Lib.TreeLinks

variable {ι : Type} [DecidableEq ι] {t t' : Tree ι} {x y : ι} {s : Side} {o v : Option ι} {k : Nat} {c d : Bool}
  {p : List (Frame ι)} {a b e u : Shape ι}

namespace Tree

def links (t : Tree ι) : TreeLinks ι := { root := t.root, link := t.link, parent := t.parent, red := t.red }

omit [DecidableEq ι] in
@[simp] theorem links_setRoot : (t.setRoot o).links = t.links.setRoot o := rfl

/-- A part of every node, when one node is written to. -/
theorem proj_update {β : Type} (g : TreeNode ι → β) (f : TreeNode ι → TreeNode ι) :
    (fun y => g ((t.update x f).node y)) = Function.update (fun y => g (t.node y)) x (g (f (t.node x))) := by
  funext y
  exact Function.apply_update (fun _ => g) t.node x (f (t.node x)) y

/-- A part that is not written to. -/
theorem proj_keep {β : Type} (g : TreeNode ι → β) {f : TreeNode ι → TreeNode ι}
    (hf : g (f (t.node x)) = g (t.node x)) : (fun y => g ((t.update x f).node y)) = fun y => g (t.node y) := by
  rw [proj_update, hf]
  exact Function.update_eq_self x _

omit [DecidableEq ι] in
theorem link_setLink (n : TreeNode ι) : (n.setLink s o).link = Function.update n.link s o := by
  funext s'
  cases s <;> cases s' <;> rfl

@[simp] theorem links_setLink : (t.setLink x s o).links = t.links.setLink x s o := by
  have hl : (t.setLink x s o).link = (t.links.setLink x s o).link := by
    refine (proj_update TreeNode.link _).trans ?_
    rw [link_setLink]
    rfl
  have hp : (t.setLink x s o).parent = t.parent := proj_keep TreeNode.parent (by cases s <;> rfl)
  have hc : (t.setLink x s o).red = t.red := proj_keep TreeNode.red (by cases s <;> rfl)
  rw [links, hl, hp, hc]
  rfl

@[simp] theorem links_setParent : (t.setParent x o).links = t.links.setParent x o := by
  have hl : (t.setParent x o).link = t.link := proj_keep TreeNode.link rfl
  have hp : (t.setParent x o).parent = (t.links.setParent x o).parent := proj_update TreeNode.parent _
  have hc : (t.setParent x o).red = t.red := proj_keep TreeNode.red rfl
  rw [links, hl, hp, hc]
  rfl

@[simp] theorem links_setRed : (t.setRed x c).links = t.links.setRed x c := by
  have hl : (t.setRed x c).link = t.link := proj_keep TreeNode.link rfl
  have hp : (t.setRed x c).parent = t.parent := proj_keep TreeNode.parent rfl
  have hc : (t.setRed x c).red = (t.links.setRed x c).red := proj_update TreeNode.red _
  rw [links, hl, hp, hc]
  rfl

@[simp] theorem links_setKey : (t.setKey x k).links = t.links := by
  have hl : (t.setKey x k).link = t.link := proj_keep TreeNode.link rfl
  have hp : (t.setKey x k).parent = t.parent := proj_keep TreeNode.parent rfl
  have hc : (t.setKey x k).red = t.red := proj_keep TreeNode.red rfl
  rw [links, hl, hp, hc]
  rfl

omit [DecidableEq ι] in
@[simp] theorem key_setRoot : (t.setRoot o).key = t.key := rfl

@[simp] theorem key_setLink : (t.setLink x s o).key = t.key := proj_keep TreeNode.key (by cases s <;> rfl)

@[simp] theorem key_setParent : (t.setParent x o).key = t.key := proj_keep TreeNode.key rfl

@[simp] theorem key_setRed : (t.setRed x c).key = t.key := proj_keep TreeNode.key rfl

@[simp] theorem key_setKey : (t.setKey x k).key = Function.update t.key x k := proj_update TreeNode.key _

/-- `if (o) o->parent = v;` -/
def setParentOf (t : Tree ι) (o v : Option ι) : Tree ι := o.elim t fun x => t.setParent x v

@[simp] theorem links_setParentOf : (t.setParentOf o v).links = t.links.setParentOf o v := by
  cases o with
  | none => rfl
  | some x => exact links_setParent

@[simp] theorem key_setParentOf : (t.setParentOf o v).key = t.key := by
  cases o with
  | none => rfl
  | some x => exact key_setParent

/-- `if (o) o->red = c;` -/
def setRedOf (t : Tree ι) (o : Option ι) (c : Bool) : Tree ι := o.elim t fun x => t.setRed x c

end Tree

@[simp] theorem ends_setParentOf {P : Unit → Tree ι → Prop} :
    Ends (forSome o fun x => modify fun t : Tree ι => t.setParent x v : TreeM ι Unit) t P ↔
      P () (t.setParentOf o v) := by
  cases o with
  | none => exact ends_pure
  | some x => exact ends_modify

@[simp] theorem ends_setRedOf {P : Unit → Tree ι → Prop} :
    Ends (forSome o fun x => modify fun t : Tree ι => t.setRed x c : TreeM ι Unit) t P ↔
      P () (t.setRedOf o c) := by
  cases o with
  | none => exact ends_pure
  | some x => exact ends_modify

omit [DecidableEq ι] in
@[simp] theorem ends_deref_some {P : ι → Tree ι → Prop} : Ends (deref (some x)) t P ↔ P x t := ends_pure

/-! ## Turning an edge -/

theorem treeRelink_ends (hf : Focus t.links p (some x) u) :
    Ends (treeRelink (Frames.top p) x o) t fun _ t' =>
      t'.links = t.links.setHole p o ∧ t'.key = t.key := by
  cases p with
  | nil => exact ends_modify.mpr ⟨rfl, rfl⟩
  | cons f p =>
    have hleft : t.link f.id .left = some x ↔ f.side = .left := hf.left_iff
    refine ends_bind.mpr (ends_read.mpr (ends_ite.mpr ⟨fun h => ends_modify.mpr ?_, fun h => ends_modify.mpr ?_⟩))
    · rw [setHole, hleft.mp h]
      exact ⟨Tree.links_setLink, Tree.key_setLink⟩
    · rw [setHole, show f.side = .right by cases hs : f.side <;> simp_all]
      exact ⟨Tree.links_setLink, Tree.key_setLink⟩

theorem treeRotate_ends (hf : Focus t.links p o (.mk s c a x (.mk s d b y e))) :
    Ends (treeRotate s x) t fun _ t' => Focus t'.links p (some y) (.mk s d (.mk s c a x b) y e) ∧
      t'.key = t.key := by
  obtain ⟨rfl, hp, _, _, hy⟩ := hf.node
  rw [Shape.rootOf_mk] at hy
  have hy : t.link x s.other = some y := hy
  have hp : t.parent x = Frames.top p := hp
  simp only [treeRotate, ends_bind, ends_read, hy, hp]
  refine (treeRelink_ends hf).mono fun _ t₁ h₁ => ?_
  obtain ⟨hl₁, hk₁⟩ := h₁
  simp only [ends_deref_some, ends_modify, ends_setParentOf]
  refine ⟨?_, by simp [hk₁]⟩
  have hb : (((t₁.setParent y (Frames.top p)).setParent x (some y)).link y s) =
      (((t.links.setHole p (some y)).setParent y (Frames.top p)).setParent x (some y)).link y s := by
    rw [← hl₁, ← Tree.links_setParent, ← Tree.links_setParent]
    rfl
  have hrot := hf.rotate
  simp only [TreeLinks.rotate, ← hb] at hrot
  simpa [hl₁] using hrot

theorem treeRotate_other_ends (hf : Focus t.links p o (.mk s c (.mk s d e y b) x a)) :
    Ends (treeRotate s.other x) t fun _ t' => Focus t'.links p (some y) (.mk s d e y (.mk s c b x a)) ∧
      t'.key = t.key := by
  simp only [← Shape.mk_other (s := s)] at hf ⊢
  exact treeRotate_ends hf

/-! ## Insertion -/

omit [DecidableEq ι] in
theorem isRed_rootOf {v : Option ι} (hl : Lays t.links v o u) : t.isRed o = u.isRed := by
  cases o with
  | none =>
    obtain rfl : u = .nil := Shape.rootOf_eq_none.mp hl.rootOf.symm
    rfl
  | some x => exact hl.isRed

omit [DecidableEq ι] in
theorem isRed_top (hh : Hangs t.links p o) : t.isRed (Frames.top p) = (Frames.topRed p == some true) := by
  cases p with
  | nil => rfl
  | cons f p =>
    have hr : t.red f.id = f.red := hh.2.2.1
    simp only [Tree.isRed, Frames.top, Frames.topRed, List.head?_cons, Option.map_some, Option.any_some, hr]
    cases f.red <;> rfl

/-- The uncle is red: the colours change, and the grandparent is red now. -/
theorem treeRebalanceAfterInsert_recolour {s₁ : Side} {par g z : ι} {sib ua ub : Shape ι}
    (hf : Focus t.links p (some g) (.mk s false (.mk s₁ true u par sib) g (.mk s true ua z ub))) :
    Ends (treeRebalanceAfterInsert s x par) t fun n t' => n = g ∧ t'.key = t.key ∧
      Focus t'.links p (some g) (.mk s true (.mk s₁ false u par sib) g (.mk s false ua z ub)) := by
  have hpar : t.parent par = some g := hf.down.node.2.1
  have hunc : t.link g s.other = some z := hf.node.2.2.2.2.trans Shape.rootOf_mk
  have hred : t.red z = true := hf.down_other.node.2.2.1
  simp only [treeRebalanceAfterInsert, ends_bind, ends_read, hpar, ends_deref_some, hunc, Tree.isRed,
    Option.any_some, hred, if_true, ends_setRedOf, ends_modify, ends_pure]
  refine ⟨trivial, by simp [Tree.setRedOf], ?_⟩
  simpa [Tree.setRedOf] using ((hf.setRed_other false).setRed_child false).setRed true

/-- The uncle is black, and the node is on the outer side: one edge is turned. -/
theorem treeRebalanceAfterInsert_outer {par g : ι} {sib unc : Shape ι} (hu : u.rootOf = some x)
    (hf : Focus t.links p (some g) (.mk s false (.mk s true u par sib) g unc)) (hunc : unc.isRed = false) :
    Ends (treeRebalanceAfterInsert s x par) t fun n t' => n = x ∧ t'.key = t.key ∧
      Focus t'.links p (some par) (.mk s false u par (.mk s true sib g unc)) := by
  have hpar : t.parent par = some g := hf.down.node.2.1
  have hred : t.isRed (t.link g s.other) = false := (isRed_rootOf hf.down_other.lays).trans hunc
  have htrans : t.link par s.other ≠ some x := hf.down.link_other_ne hu
  simp only [treeRebalanceAfterInsert, ends_bind, ends_read, hpar, ends_deref_some, hred, htrans, if_false,
    Bool.false_eq_true, ends_modify, ends_pure]
  have hfoc := (hf.setRed_child false).setRed true
  rw [← Tree.links_setRed, ← Tree.links_setRed] at hfoc
  refine (treeRotate_other_ends hfoc).mono fun _ t' h => ?_
  exact ⟨trivial, by simpa using h.2, h.1⟩

/-- The uncle is black, and the node is on the inner side: two edges are turned. -/
theorem treeRebalanceAfterInsert_inner {par g : ι} {sib unc : Shape ι}
    (hf : Focus t.links p (some g) (.mk s false (.mk s true sib par (.mk s true a x b)) g unc))
    (hunc : unc.isRed = false) :
    Ends (treeRebalanceAfterInsert s x par) t fun n t' => n = par ∧ t'.key = t.key ∧
      Focus t'.links p (some x) (.mk s false (.mk s true sib par a) x (.mk s true b g unc)) := by
  have hpar : t.parent par = some g := hf.down.node.2.1
  have hred : t.isRed (t.link g s.other) = false := (isRed_rootOf hf.down_other.lays).trans hunc
  have htrans : t.link par s.other = some x := hf.down.node.2.2.2.2.trans Shape.rootOf_mk
  simp only [treeRebalanceAfterInsert, ends_bind, ends_read, hpar, ends_deref_some, hred, htrans, if_false,
    Bool.false_eq_true, if_true]
  refine (treeRotate_ends hf.down).mono fun _ t₁ h₁ => ?_
  obtain ⟨hf₁, hk₁⟩ := h₁
  have hup : t₁.parent par = some x := hf₁.down.node.2.1
  simp only [hup, ends_deref_some, ends_modify, ends_pure]
  have hfoc := (hf₁.up.setRed_child false).setRed true
  rw [← Tree.links_setRed, ← Tree.links_setRed] at hfoc
  refine (treeRotate_other_ends hfoc).mono fun _ t' h => ?_
  exact ⟨trivial, by simpa [hk₁] using h.2, h.1⟩

/-- The nodes of `t` are `l` from left to right, in a balanced tree whose root may be red. -/
def Tree.Spans (t : Tree ι) (l : List ι) : Prop :=
  ∃ u n, Focus t.links [] t.root u ∧ u.toList = l ∧ u.Balanced n

/-- Over a black node the loop ends. -/
theorem treeAddLoop_stop {fuel n : Nat} (hf : Focus t.links p (some x) u) (hu : u.Balanced n)
    (hp : Frames.Awaits p n) (htop : Frames.TakesRed p) :
    Ends (treeAddLoop (fuel + 1) x (Frames.top p)) t fun _ t' => t'.key = t.key ∧
      t'.Spans (Frames.fill p u).toList := by
  have hred : t.isRed (Frames.top p) = false := by
    rw [isRed_top hf.hangs]
    simpa [Frames.TakesRed] using htop
  obtain ⟨m, hm⟩ := hp.fill hu fun _ => htop
  simp only [treeAddLoop, ends_bind, ends_read, hred, Bool.false_eq_true, if_false, ends_pure, true_and]
  exact ⟨_, m, hf.to_root, rfl, hm⟩

/-- Below a red node the loop makes one step, and goes on from the grandparent or ends. -/
theorem treeAddLoop_step {fuel n : Nat} {s₁ : Side} {par g : ι} {sib unc : Shape ι}
    (hf : Focus t.links (⟨s₁, true, par, sib⟩ :: ⟨s, false, g, unc⟩ :: p) (some x) u) (hu : u.Balanced n)
    (hc : u.isRed = true) (hp : Frames.Awaits (⟨s₁, true, par, sib⟩ :: ⟨s, false, g, unc⟩ :: p) n)
    (hgo : ∀ {t' : Tree ι} {u' : Shape ι}, Focus t'.links p (some g) u' → u'.Balanced (n + 1) →
      u'.isRed = true → Ends (treeAddLoop (fuel + 1) g (Frames.top p)) t' fun _ t'' => t''.key = t'.key ∧
        t''.Spans (Frames.fill p u').toList) :
    Ends (treeAddLoop (fuel + 2) x (some par)) t fun _ t' => t'.key = t.key ∧
      t'.Spans (Frames.fill p (.mk s false (.mk s₁ true u par sib) g unc)).toList := by
  obtain ⟨hsib, hcsib, _, hunc, hp⟩ := hp
  have hup : Focus t.links p (some g) (.mk s false (.mk s₁ true u par sib) g unc) := hf.up.up
  have hred : t.isRed (some par) = true := hup.down.node.2.2.1
  have hpar : t.parent par = some g := hup.down.node.2.1
  have hside : (if t.link g .left = some par then Side.left else .right) = s := by
    have hleft : t.link g .left = some par ↔ s = .left := hf.up.left_iff
    split
    · exact (hleft.mp ‹_›).symm
    · cases s with
      | left => exact absurd (hleft.mpr rfl) ‹_›
      | right => rfl
  rw [treeAddLoop]
  simp only [ends_bind, ends_read, hred, if_true, ends_deref_some, hpar, hside]
  cases hcu : unc.isRed with
  | true =>
    obtain rfl | ⟨cu, ua, z, ub, rfl⟩ := Shape.eq_nil_or_mk s unc
    · cases hcu
    obtain rfl : cu = true := Shape.isRed_mk.symm.trans hcu
    obtain ⟨hua, hub, _, _⟩ := Shape.balanced_mk_red.mp hunc
    refine (treeRebalanceAfterInsert_recolour hup).mono fun n' t' h => ?_
    obtain ⟨hn', hkey, hf'⟩ := h
    have htop : t'.parent g = Frames.top p := hf'.node.2.1
    rw [hn', htop]
    refine (hgo hf' ?_ Shape.isRed_mk).mono fun _ t'' h => ⟨h.1.trans hkey, ?_⟩
    · refine Shape.balanced_mk_red.mpr ⟨?_, ?_, Shape.isRed_mk, Shape.isRed_mk⟩
      · exact Shape.balanced_mk_black.mpr ⟨hu, hsib⟩
      · exact Shape.balanced_mk_black.mpr ⟨hua, hub⟩
    · rw [Frames.toList_fill_congr (Shape.toList_mk_congr (Shape.toList_mk true false) (Shape.toList_mk true false))]
      exact h.2
  | false =>
    rcases Side.eq_or_other s s₁ with rfl | rfl
    · refine (treeRebalanceAfterInsert_outer hf.lays.rootOf.symm hup hcu).mono fun n' t' h => ?_
      obtain ⟨hn', hkey, hf'⟩ := h
      have hlink : t'.links.link par s₁ = some x := hf'.node.2.2.2.1.trans hf.lays.rootOf.symm
      have hx : Focus t'.links (⟨s₁, false, par, .mk s₁ true sib g unc⟩ :: p) (some x) u := hlink ▸ hf'.down
      have hw : Frames.Awaits (⟨s₁, false, par, .mk s₁ true sib g unc⟩ :: p) n :=
        ⟨Shape.balanced_mk_red.mpr ⟨hsib, hunc, hcsib, hcu⟩, hp⟩
      rw [hn', show t'.parent x = some par from hx.lays.parent]
      refine (treeAddLoop_stop hx hu hw (by simp [Frames.TakesRed, Frames.topRed])).mono fun _ t'' h => ?_
      refine ⟨h.1.trans hkey, ?_⟩
      rw [Frames.toList_fill_congr Shape.toList_turn]
      exact h.2
    · obtain rfl | ⟨cu, a, y, b, rfl⟩ := Shape.eq_nil_or_mk s u
      · cases hc
      obtain rfl : cu = true := Shape.isRed_mk.symm.trans hc
      obtain rfl : x = y := Option.some.inj (hf.node.1)
      rw [Shape.mk_other] at hup ⊢
      refine (treeRebalanceAfterInsert_inner hup hcu).mono fun n' t' h => ?_
      obtain ⟨hn', hkey, hf'⟩ := h
      obtain ⟨ha, hb, hca, hcb⟩ := Shape.balanced_mk_red.mp hu
      have hlink : t'.links.link x s = some par := hf'.node.2.2.2.1.trans Shape.rootOf_mk
      have hx : Focus t'.links (⟨s, false, x, .mk s true b g unc⟩ :: p) (some par) (.mk s true sib par a) :=
        hlink ▸ hf'.down
      have hw : Frames.Awaits (⟨s, false, x, .mk s true b g unc⟩ :: p) n :=
        ⟨Shape.balanced_mk_red.mpr ⟨hb, hunc, hcb, hcu⟩, hp⟩
      rw [hn', show t'.parent par = some x from hx.lays.parent]
      refine (treeAddLoop_stop hx (Shape.balanced_mk_red.mpr ⟨hsib, ha, hcsib, hca⟩) hw
        (by simp [Frames.TakesRed, Frames.topRed])).mono fun _ t'' h => ?_
      refine ⟨h.1.trans hkey, ?_⟩
      rw [Frames.toList_fill_congr Shape.toList_turn_twice]
      exact h.2

theorem treeAddLoop_ends {fuel n : Nat} (hfuel : p.length < fuel) (hf : Focus t.links p (some x) u)
    (hu : u.Balanced n) (hc : u.isRed = true) (hp : Frames.Awaits p n) :
    Ends (treeAddLoop fuel x (Frames.top p)) t fun _ t' => t'.key = t.key ∧
      t'.Spans (Frames.fill p u).toList := by
  induction fuel generalizing t p x u n with
  | zero => omega
  | succ fuel ih =>
    by_cases htop : Frames.TakesRed p
    · exact treeAddLoop_stop hf hu hp htop
    · -- the parent is red, and so it has a black parent
      rcases p with _ | ⟨⟨s₁, c₁, par, sib⟩, p₁⟩
      · exact absurd (show Frames.TakesRed [] by simp [Frames.TakesRed, Frames.topRed]) htop
      obtain rfl : c₁ = true := by simpa [Frames.TakesRed, Frames.topRed] using htop
      obtain ⟨_, _, htop₁, hp₁⟩ := id hp
      rcases p₁ with _ | ⟨⟨s, c, g, unc⟩, p⟩
      · cases htop₁
      obtain rfl : c = false := Option.some.inj htop₁
      obtain ⟨_, hp₂⟩ := hp₁
      simp only [List.length_cons] at hfuel
      obtain ⟨k, rfl⟩ : ∃ k, fuel = k + 1 := ⟨fuel - 1, by omega⟩
      exact treeAddLoop_step hf hu hc hp fun hf' hu' hc' => ih (by omega) hf' hu' hc' hp₂

/-- The nodes of `t` are `l` from left to right, in a red-black tree. -/
def Tree.Stands (t : Tree ι) (l : List ι) : Prop :=
  ∃ u, Focus t.links [] t.root u ∧ u.toList = l ∧ u.RedBlack

/-- `t` holds the nodes `l`, in the order of their keys, in a red-black tree. -/
structure Tree.Holds (t : Tree ι) (l : List ι) : Prop where
  stands : t.Stands l
  sorted : l.Pairwise (t.key · < t.key ·)

/-- The memory of a node that is not in the tree may change. -/
theorem Tree.Holds.update {l : List ι} {g : TreeNode ι → TreeNode ι} (h : t.Holds l) (hx : x ∉ l) :
    (t.update x g).Holds l := by
  obtain ⟨⟨u, hf, rfl, hrb⟩, hs⟩ := h
  have hnode : ∀ z ∈ u.toList, (t.update x g).node z = t.node z := fun z hz =>
    Function.update_of_ne (show z ≠ x from fun he => hx (he ▸ hz)) ..
  refine ⟨⟨u, ⟨hf.hangs, hf.lays.congr fun z hz => ?_, hf.nodup⟩, rfl, hrb⟩, ?_⟩
  · have hz := hnode z hz
    exact ⟨congrArg TreeNode.link hz, congrArg TreeNode.parent hz, congrArg TreeNode.red hz⟩
  · refine hs.imp_of_mem fun {z w} hz hw hzw => ?_
    have hkz : (t.update x g).key z = t.key z := congrArg TreeNode.key (hnode z hz)
    have hkw : (t.update x g).key w = t.key w := congrArg TreeNode.key (hnode w hw)
    rwa [hkz, hkw]

omit [DecidableEq ι] in
theorem stands_of_awaits {n : Nat} (hf : Focus t.links p o u) (hu : u.Balanced n) (hc : u.isRed = false)
    (hp : Frames.Awaits p n) : t.Stands (Frames.fill p u).toList := by
  obtain ⟨m, hm⟩ := hp.fill hu fun hr => by rw [hc] at hr; cases hr
  exact ⟨_, hf.to_root, rfl, hp.isRed_fill fun _ => hc, m, hm⟩

/-- The node at the focus turns black, and then the whole is balanced. -/
theorem stands_setRedOf {n : Nat} (hf : Focus t.links p o u) (hu : (u.setRed false).Balanced n)
    (hp : Frames.Awaits p n) : (t.setRedOf o false).Stands (Frames.fill p u).toList := by
  have hfoc : Focus (t.setRedOf o false).links p o (u.setRed false) := by
    obtain rfl | ⟨c, a, x, b, rfl⟩ := Shape.eq_nil_or_mk .left u
    · obtain rfl : o = none := hf.lays
      exact hf
    · obtain rfl : o = some x := hf.node.1
      rw [Shape.setRed_mk, Tree.setRedOf, Option.elim_some, Tree.links_setRed]
      exact hf.setRed false
  rw [← Frames.toList_fill_congr (Shape.toList_setRed (c := false))]
  exact stands_of_awaits hfoc hu Shape.isRed_setRed_false hp

/-- The root turns black. -/
theorem Tree.Spans.stands {l : List ι} (h : t.Spans l) : (t.setRedOf t.root false).Stands l := by
  obtain ⟨u, n, hf, rfl, hu⟩ := h
  obtain ⟨m, hm⟩ := hu.setRed_false
  exact stands_setRedOf hf hm trivial

/-- Where a walk down from the focus with the key `k` may end. -/
def Descends (t : Tree ι) (y : ι) (k : Nat) (p : List (Frame ι)) (u : Shape ι) (r : Option ι) (t' : Tree ι) :
    Prop :=
  (r = none ∧ t' = t ∧ ∃ z ∈ u.toList, t.key z = k) ∨
  ∃ f q, r = some f.id ∧ t' = t.setLink f.id f.side (some y) ∧ Focus t.links (f :: q) none .nil ∧
    Frames.fill (f :: q) .nil = Frames.fill p u ∧ Frames.Straddles t.key k (f :: q)

theorem treeInsertOrDescend_ends {descend : ι → TreeM ι (Option ι)} (hf : Focus t.links p o (.mk s c a x b))
    (hk : Frames.Straddles t.key k (⟨s, c, x, b⟩ :: p))
    (hd : ∀ z, Focus t.links (⟨s, c, x, b⟩ :: p) (some z) a →
      Ends (descend z) t (Descends t y k (⟨s, c, x, b⟩ :: p) a)) :
    Ends (treeInsertOrDescend y x descend s) t (Descends t y k p (.mk s c a x b)) := by
  have hchild : t.links.link x s = a.rootOf := hf.node.2.2.2.1
  have hread : t.link x s = a.rootOf := hchild
  have hdown := hf.down
  rw [hchild] at hdown
  simp only [treeInsertOrDescend, ends_bind, ends_read, hread]
  obtain rfl | ⟨d, a₁, z, a₂, rfl⟩ := Shape.eq_nil_or_mk .left a
  · simp only [Shape.rootOf_nil, ends_bind, ends_modify, ends_pure]
    exact .inr ⟨⟨s, c, x, b⟩, p, rfl, rfl, hdown, rfl, hk⟩
  · rw [Shape.rootOf_mk] at hdown ⊢
    refine (hd z hdown).mono fun r t' h => ?_
    rcases h with ⟨hr, ht, w, hw, hkw⟩ | h
    · exact .inl ⟨hr, ht, w, Shape.mem_mk.mpr (.inr (.inl hw)), hkw⟩
    · exact .inr h

theorem treeAddDescend_ends {fuel : Nat} (hfuel : u.depth ≤ fuel) (hf : Focus t.links p (some x) u)
    (hs : (Frames.fill p u).toList.Pairwise (t.key · < t.key ·)) (hk : Frames.Straddles t.key k p) :
    Ends (treeAddDescend y k fuel x) t (Descends t y k p u) := by
  induction fuel generalizing u p x with
  | zero =>
    obtain rfl : u = .nil := by cases u <;> simp_all [Shape.depth]
    cases hf.lays
  | succ fuel ih =>
    obtain rfl | ⟨c, l, x', r, rfl⟩ := Shape.eq_nil_or_mk .left u
    · cases hf.lays
    obtain rfl : x = x' := Option.some.inj hf.node.1
    have hdepth : l.depth ≤ fuel ∧ r.depth ≤ fuel := by
      simp only [Shape.mk, Shape.depth] at hfuel
      omega
    simp only [treeAddDescend, ends_bind, ends_read, ends_ite, ends_pure]
    refine ⟨fun hlt => ?_, fun hge => ⟨fun hgt => ?_, fun hle => ?_⟩⟩
    · have hk' := hk.left hs hlt
      exact treeInsertOrDescend_ends hf hk' fun z hz => ih hdepth.1 hz hs hk'
    · have hk' := hk.right hs hgt
      rw [← Shape.mk_other] at hf ⊢
      exact treeInsertOrDescend_ends hf hk' fun z hz => ih hdepth.2 hz hs hk'
    · exact .inl ⟨rfl, rfl, x, Shape.mem_mk.mpr (.inl rfl), by omega⟩

omit [DecidableEq ι] in
theorem Tree.Spans.root {l : List ι} (h : t.Spans l) (hl : l ≠ []) : ∃ r, t.root = some r := by
  obtain ⟨u, _, hf, rfl, _⟩ := h
  obtain rfl | ⟨c, a, r, b, rfl⟩ := Shape.eq_nil_or_mk .left u
  · exact absurd rfl hl
  · exact ⟨r, hf.node.1⟩

/-- `tree_add` once the new node hangs in its place. -/
theorem treeAddLinked_ends {t₁ : Tree ι} {fuel : Nat} (hfuel : p.length < fuel)
    (hf : Focus t.links p none .nil) (hy : y ∉ Frames.ids p) (hp : Frames.Awaits p 0)
    (hl : t₁.links = t.links.setHole p (some y)) (hkey : t₁.key = t.key)
    (hs : (Frames.before p ++ y :: Frames.after p).Pairwise
      (Function.update t.key y k · < Function.update t.key y k ·)) :
    Ends (treeAddLinked fuel y k (Frames.top p)) t₁ fun r t' => r = 0 ∧
      t'.key = Function.update t.key y k ∧ t'.Holds (Frames.before p ++ y :: Frames.after p) := by
  simp only [treeAddLinked, ends_bind, ends_modify]
  set t₂ := ((((t₁.setKey y k).setLink y .right none).setLink y .left none).setParent y (Frames.top p)
    ).setRed y true with ht₂
  have hf₂ : Focus t₂.links p (some y) (.node true .nil y .nil) := by
    have h : t₂.links = t.links.attach p y := by simp [ht₂, hl, TreeLinks.attach]
    rw [h]
    exact hf.attach hy
  have hk₂ : t₂.key = Function.update t.key y k := by simp [ht₂, hkey]
  have hu : (Shape.node true .nil y .nil).Balanced 0 := .red .nil .nil rfl rfl
  refine (treeAddLoop_ends hfuel hf₂ hu rfl hp).mono fun _ t' h => ?_
  obtain ⟨hk', hspan⟩ := h
  rw [show (Frames.fill p (.node true .nil y .nil)).toList = Frames.before p ++ y :: Frames.after p by
    simp [Frames.toList_fill, Shape.toList]] at hspan
  obtain ⟨r, hr⟩ := hspan.root (by simp)
  simp only [ends_read, hr, ends_deref_some, ends_pure, true_and]
  rw [hk₂] at hk'
  have hst := hspan.stands
  rw [hr] at hst
  exact ⟨by simpa using hk', hst, by simpa [hk'] using hs⟩

/-- `tree_add` adds a node in the order of the keys, or leaves the tree alone and fails when the
key is there. -/
theorem treeAdd_ends {l : List ι} {fuel : Nat} (hfuel : 2 * Nat.log 2 (l.length + 1) < fuel)
    (h : t.Holds l) (hy : y ∉ l) :
    Ends (treeAdd fuel y k) t fun r t' =>
      (r = -1 ∧ t' = t ∧ ∃ z ∈ l, t.key z = k) ∨
      (r = 0 ∧ t'.key = Function.update t.key y k ∧ (∀ z ∈ l, t.key z ≠ k) ∧
        ∃ a b, l = a ++ b ∧ t'.Holds (a ++ y :: b)) := by
  obtain ⟨⟨u, hf, rfl, hrb⟩, hs⟩ := h
  have hdepth : u.depth < fuel := Nat.lt_of_le_of_lt hrb.depth_le hfuel
  simp only [treeAdd, ends_bind, ends_read]
  cases hroot : t.root with
  | none =>
    rw [hroot] at hf
    obtain rfl : u = .nil := Shape.rootOf_eq_none.mp hf.lays.rootOf.symm
    simp only [ends_bind, ends_modify]
    have hl : (t.setRoot (some y)).links = t.links.setHole [] (some y) := rfl
    refine (treeAddLinked_ends (Nat.zero_lt_of_lt hfuel) hf List.not_mem_nil trivial hl rfl
      (List.pairwise_singleton _ y)).mono fun r t' h => .inr ?_
    exact ⟨h.1, h.2.1, by simp, [], [], rfl, h.2.2⟩
  | some x =>
    rw [hroot] at hf
    have hk : Frames.Straddles t.key k [] := by simp [Frames.Straddles, Frames.before, Frames.after]
    simp only [ends_bind]
    refine (treeAddDescend_ends (Nat.le_of_lt hdepth) hf hs hk).mono fun r t₁ h => ?_
    rcases h with ⟨rfl, rfl, hz⟩ | ⟨f, q, rfl, rfl, hf', hfill, hk'⟩
    · exact ends_pure.mpr (.inl ⟨rfl, rfl, hz⟩)
    · rw [← show Frames.fill (f :: q) .nil = u from hfill] at hrb hs hy hdepth ⊢
      obtain ⟨n, hn, hw, _⟩ := Frames.awaits_of_fill hrb.2.choose_spec hrb.1
      cases hn
      have hlen : (f :: q).length < fuel := Nat.lt_of_le_of_lt (Frames.length_add_depth_le (p := f :: q) (t := .nil)) hdepth
      have hids : y ∉ Frames.ids (f :: q) := fun hm => hy (Frames.mem_fill.mpr (.inr hm))
      refine (treeAddLinked_ends hlen hf' hids hw Tree.links_setLink Tree.key_setLink (hk'.insert hy hs)).mono
        fun r t' h => .inr ⟨h.1, h.2.1, fun z hz => ?_, _, _, ?_, h.2.2⟩
      · simp only [Frames.toList_fill, Shape.toList_nil, List.append_nil, List.mem_append] at hz
        rcases hz with hz | hz
        · exact (hk'.1 z hz).ne
        · exact (hk'.2 z hz).ne'
      · simp [Frames.toList_fill]

end MNet.Wepoll
