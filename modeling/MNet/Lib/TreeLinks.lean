import Mathlib.Logic.Function.Basic
import MNet.Lib.RbShape

/-! # Trees laid out in links

Every node has a link to each child, a link to its parent and a colour; the tree has a link to
its root. `Focus h p o t` says that the links `h` lay out the tree `Frames.fill p t`, and that `o`
is the link to `t` in it. Writing one link takes one focus to another. -/

namespace MNet.Lib

@[ext] structure TreeLinks (α : Type) where
  root : Option α
  link : α → Side → Option α
  parent : α → Option α
  red : α → Bool

namespace TreeLinks

variable {α : Type}

/-- The nodes of `t` are linked as in `t`, from the link `o` of the node `v`. -/
def Lays (h : TreeLinks α) : Option α → Option α → Shape α → Prop
  | _, o, .nil => o = none
  | v, o, .node c l x r => o = some x ∧ h.parent x = v ∧ h.red x = c ∧
      Lays h (some x) (h.link x .left) l ∧ Lays h (some x) (h.link x .right) r

/-- The path is laid out, and ends in the link `o`. -/
def Hangs (h : TreeLinks α) : List (Frame α) → Option α → Prop
  | [], o => h.root = o
  | f :: p, o => h.link f.id f.side = o ∧ h.parent f.id = Frames.top p ∧ h.red f.id = f.red ∧
      Lays h (some f.id) (h.link f.id f.side.other) f.sib ∧ Hangs h p (some f.id)

structure Focus (h : TreeLinks α) (p : List (Frame α)) (o : Option α) (t : Shape α) : Prop where
  hangs : Hangs h p o
  lays : Lays h (Frames.top p) o t
  nodup : (Frames.fill p t).toList.Nodup

variable {h h' : TreeLinks α} {x y : α} {s s' : Side} {o v : Option α} {c d : Bool}
  {p q : List (Frame α)} {f : Frame α} {t a b : Shape α}

theorem lays_mk : Lays h v o (.mk s c a x b) ↔ o = some x ∧ h.parent x = v ∧ h.red x = c ∧
    Lays h (some x) (h.link x s) a ∧ Lays h (some x) (h.link x s.other) b := by
  cases s with
  | left => rfl
  | right => simp only [Shape.mk, Lays, Side.other, and_comm (a := Lays h (some x) (h.link x .left) b)]

theorem Lays.rootOf (hl : Lays h v o t) : o = t.rootOf := by
  cases t with
  | nil => exact hl
  | node c l x r => exact hl.1

theorem Lays.isRed (hl : Lays h v (some x) t) : h.red x = t.isRed := by
  cases t with
  | nil => cases hl
  | node c l y r =>
    cases hl.1
    exact hl.2.2.1

theorem Lays.parent (hl : Lays h v (some x) t) : h.parent x = v := by
  cases t with
  | nil => cases hl
  | node c l y r =>
    cases hl.1
    exact hl.2.1

/-- Nodes that keep their links stay as they are laid out. -/
theorem Lays.congr (hl : Lays h v o t) (hs : ∀ y ∈ t.toList,
    h'.link y = h.link y ∧ h'.parent y = h.parent y ∧ h'.red y = h.red y) : Lays h' v o t := by
  induction t generalizing v o with
  | nil => exact hl
  | node c l x r ihl ihr =>
    simp only [Shape.toList, List.mem_append, List.mem_cons] at hs
    obtain ⟨ho, hp, hc, hll, hlr⟩ := hl
    obtain ⟨hlx, hpx, hcx⟩ := hs x (.inr (.inl rfl))
    refine ⟨ho, hpx.trans hp, hcx.trans hc, ?_, ?_⟩
    · rw [hlx]
      exact ihl hll fun y hy => hs y (.inl hy)
    · rw [hlx]
      exact ihr hlr fun y hy => hs y (.inr (.inr hy))

theorem Hangs.congr (hh : Hangs h p o) (hr : h'.root = h.root) (hs : ∀ y ∈ Frames.ids p,
    h'.link y = h.link y ∧ h'.parent y = h.parent y ∧ h'.red y = h.red y) : Hangs h' p o := by
  induction p generalizing o with
  | nil => exact hr.trans hh
  | cons f p ih =>
    simp only [Frames.ids, List.mem_cons, List.mem_append] at hs
    obtain ⟨hl, hp, hc, hsib, hup⟩ := hh
    obtain ⟨hlf, hpf, hcf⟩ := hs f.id (.inl rfl)
    refine ⟨by rw [hlf]; exact hl, hpf.trans hp, hcf.trans hc, ?_, ih hup fun y hy => hs y (.inr (.inr hy))⟩
    rw [hlf]
    exact hsib.congr fun y hy => hs y (.inr (.inl hy))

namespace Focus

/-- The focus moves to the parent and back. -/
theorem up_iff : Focus h (f :: p) o t ↔ Focus h p (some f.id) (f.plug t) ∧ h.link f.id f.side = o := by
  constructor
  · rintro ⟨⟨ho, hp, hc, hs, hup⟩, hl, hnd⟩
    refine ⟨⟨hup, lays_mk.mpr ⟨rfl, hp, hc, ?_, hs⟩, hnd⟩, ho⟩
    rw [ho]
    exact hl
  · rintro ⟨⟨hup, hl, hnd⟩, ho⟩
    obtain ⟨_, hp, hc, hl, hs⟩ := lays_mk.mp hl
    rw [ho] at hl
    exact ⟨⟨ho, hp, hc, hs, hup⟩, hl, hnd⟩

theorem up (hf : Focus h (f :: p) o t) : Focus h p (some f.id) (f.plug t) := (up_iff.mp hf).1

theorem down (hf : Focus h p o (.mk s c a x b)) : Focus h (⟨s, c, x, b⟩ :: p) (h.link x s) a := by
  obtain rfl : o = some x := (lays_mk.mp hf.lays).1
  exact up_iff.mpr ⟨hf, rfl⟩

/-- The focus moves to the child on the other side. -/
theorem down_other (hf : Focus h p o (.mk s c a x b)) :
    Focus h (⟨s.other, c, x, a⟩ :: p) (h.link x s.other) b := down (Shape.mk_other ▸ hf)

theorem to_root (hf : Focus h p o t) : Focus h [] h.root (Frames.fill p t) := by
  induction p generalizing o t with
  | nil =>
    obtain rfl : h.root = o := hf.hangs
    exact hf
  | cons f p ih => exact ih hf.up

theorem climb (hf : Focus h (q ++ p) o t) : ∃ o', Focus h p o' (Frames.fill q t) := by
  induction q generalizing o t with
  | nil => exact ⟨o, hf⟩
  | cons f q ih => exact ih hf.up

theorem of_fill (hf : Focus h q o (Frames.fill p t)) : ∃ o', Focus h (p ++ q) o' t := by
  induction p generalizing t with
  | nil => exact ⟨o, hf⟩
  | cons f p ih =>
    obtain ⟨o', hf'⟩ := ih (t := f.plug t) hf
    exact ⟨_, hf'.down⟩

/-- What the links of the node at the focus are. -/
theorem node (hf : Focus h p o (.mk s c a x b)) :
    o = some x ∧ h.parent x = Frames.top p ∧ h.red x = c ∧ h.link x s = a.rootOf ∧
      h.link x s.other = b.rootOf := by
  obtain ⟨ho, hp, hc, ha, hb⟩ := lays_mk.mp hf.lays
  exact ⟨ho, hp, hc, ha.rootOf, hb.rootOf⟩

theorem distinct (hf : Focus h p o t) :
    t.toList.Nodup ∧ (Frames.ids p).Nodup ∧ ∀ x ∈ t.toList, x ∉ Frames.ids p :=
  Frames.nodup_fill.mp hf.nodup

/-- The other child is another node. -/
theorem link_other_ne (hf : Focus h p o (.mk s c a x b)) (ha : a.rootOf = some y) : h.link x s.other ≠ some y := by
  rw [hf.node.2.2.2.2]
  intro hb
  exact (Shape.nodup_mk.mp hf.distinct.1).2.2.2.2 y (Shape.rootOf_mem ha) (Shape.rootOf_mem hb)

/-- Which link of the parent the path ends in. -/
theorem left_iff (hf : Focus h (f :: p) (some x) t) : h.link f.id .left = some x ↔ f.side = .left := by
  obtain ⟨hl, _, _, hs, _⟩ := hf.hangs
  constructor
  · intro hx
    by_contra hne
    have hside : f.side = .right := by cases hs' : f.side <;> simp_all
    rw [hside, show Side.right.other = .left from rfl, hx] at hs
    have hxs : x ∈ f.sib.toList := Shape.rootOf_mem hs.rootOf.symm
    have hxt : x ∈ t.toList := Shape.rootOf_mem hf.lays.rootOf.symm
    exact hf.distinct.2.2 x hxt (List.mem_cons_of_mem _ (List.mem_append_left _ hxs))
  · intro hside
    rw [← hside]
    exact hl

/-- Links written to elsewhere. -/
theorem congr (hf : Focus h p o t) (hr : h'.root = h.root) (hs : ∀ y ∈ (Frames.fill p t).toList,
    h'.link y = h.link y ∧ h'.parent y = h.parent y ∧ h'.red y = h.red y) : Focus h' p o t :=
  ⟨hf.hangs.congr hr fun y hy => hs y (Frames.mem_fill.mpr (.inr hy)),
    hf.lays.congr fun y hy => hs y (Frames.mem_fill.mpr (.inl hy)), hf.nodup⟩

end Focus

/-! ## Writing links -/

variable [DecidableEq α]

def setRoot (h : TreeLinks α) (o : Option α) : TreeLinks α := { h with root := o }

def setLink (h : TreeLinks α) (x : α) (s : Side) (o : Option α) : TreeLinks α :=
  { h with link := Function.update h.link x (Function.update (h.link x) s o) }

def setParent (h : TreeLinks α) (x : α) (o : Option α) : TreeLinks α :=
  { h with parent := Function.update h.parent x o }

def setRed (h : TreeLinks α) (x : α) (c : Bool) : TreeLinks α :=
  { h with red := Function.update h.red x c }

/-- The parent of the node behind a link, if there is one. -/
def setParentOf (h : TreeLinks α) (o v : Option α) : TreeLinks α :=
  match o with
  | none => h
  | some x => h.setParent x v

/-- The link a path ends in. -/
def setHole (h : TreeLinks α) (p : List (Frame α)) (o : Option α) : TreeLinks α :=
  match p with
  | [] => h.setRoot o
  | f :: _ => h.setLink f.id f.side o

@[simp] theorem root_setLink : (h.setLink x s o).root = h.root := rfl

@[simp] theorem root_setParent : (h.setParent x o).root = h.root := rfl

@[simp] theorem root_setRed : (h.setRed x c).root = h.root := rfl

@[simp] theorem link_setParent : (h.setParent x o).link = h.link := rfl

@[simp] theorem link_setRed : (h.setRed x c).link = h.link := rfl

@[simp] theorem parent_setLink : (h.setLink x s o).parent = h.parent := rfl

@[simp] theorem parent_setRed : (h.setRed x c).parent = h.parent := rfl

@[simp] theorem link_setLink_self : (h.setLink x s o).link x s = o := by simp [setLink]

theorem link_setLink_of_ne (hy : y ≠ x ∨ s' ≠ s) : (h.setLink x s o).link y s' = h.link y s' := by
  by_cases he : y = x
  · subst he
    simp [setLink, Function.update_of_ne (hy.resolve_left (not_not.mpr rfl))]
  · simp [setLink, Function.update_of_ne he]

@[simp] theorem parent_setParent_self : (h.setParent x o).parent x = o := Function.update_self ..

theorem parent_setParent_of_ne (hy : y ≠ x) : (h.setParent x o).parent y = h.parent y :=
  Function.update_of_ne hy ..

@[simp] theorem red_setRed_self : (h.setRed x c).red x = c := Function.update_self ..

theorem red_setRed_of_ne (hy : y ≠ x) : (h.setRed x c).red y = h.red y := Function.update_of_ne hy ..

theorem Lays.setLink (hl : Lays h v o t) (hx : x ∉ t.toList) {w : Option α} :
    Lays (h.setLink x s w) v o t :=
  hl.congr fun _ hy => ⟨funext fun _ => link_setLink_of_ne (.inl fun he => hx (he ▸ hy)), rfl, rfl⟩

theorem Lays.setParent (hl : Lays h v o t) (hx : x ∉ t.toList) {w : Option α} :
    Lays (h.setParent x w) v o t :=
  hl.congr fun _ hy => ⟨rfl, parent_setParent_of_ne fun he => hx (he ▸ hy), rfl⟩

theorem Lays.setRed (hl : Lays h v o t) (hx : x ∉ t.toList) : Lays (h.setRed x c) v o t :=
  hl.congr fun _ hy => ⟨rfl, rfl, red_setRed_of_ne fun he => hx (he ▸ hy)⟩

theorem Lays.setParentOf (hl : Lays h v o t) {u w : Option α} (hu : ∀ y, u = some y → y ∉ t.toList) :
    Lays (h.setParentOf u w) v o t := by
  cases u with
  | none => exact hl
  | some y => exact hl.setParent (hu y rfl)

theorem Lays.setHole (hl : Lays h v o t) (hd : ∀ y ∈ t.toList, y ∉ Frames.ids p) {w : Option α} :
    Lays (h.setHole p w) v o t := by
  cases p with
  | nil => exact hl.congr fun _ _ => ⟨rfl, rfl, rfl⟩
  | cons f p => exact hl.setLink fun hy => hd f.id hy List.mem_cons_self

/-- A tree gets a new parent. -/
theorem Lays.reparent (hl : Lays h v o t) (hnd : t.toList.Nodup) (w : Option α) :
    Lays (h.setParentOf o w) w o t := by
  cases t with
  | nil =>
    obtain rfl : o = none := hl
    rfl
  | node c l x r =>
    rw [show Shape.node c l x r = .mk .left c l x r from rfl, Shape.nodup_mk] at hnd
    obtain ⟨rfl, hp, hc, hll, hlr⟩ := hl
    exact ⟨rfl, parent_setParent_self, hc, hll.setParent hnd.2.2.1, hlr.setParent hnd.2.2.2.1⟩

theorem Hangs.setLink (hh : Hangs h p o) (hx : x ∉ Frames.ids p) {w : Option α} :
    Hangs (h.setLink x s w) p o :=
  hh.congr rfl fun _ hy => ⟨funext fun _ => link_setLink_of_ne (.inl fun he => hx (he ▸ hy)), rfl, rfl⟩

theorem Hangs.setParent (hh : Hangs h p o) (hx : x ∉ Frames.ids p) {w : Option α} :
    Hangs (h.setParent x w) p o :=
  hh.congr rfl fun _ hy => ⟨rfl, parent_setParent_of_ne fun he => hx (he ▸ hy), rfl⟩

theorem Hangs.setRed (hh : Hangs h p o) (hx : x ∉ Frames.ids p) : Hangs (h.setRed x c) p o :=
  hh.congr rfl fun _ hy => ⟨rfl, rfl, red_setRed_of_ne fun he => hx (he ▸ hy)⟩

theorem Hangs.setParentOf (hh : Hangs h p o) {u w : Option α} (hu : ∀ y, u = some y → y ∉ Frames.ids p) :
    Hangs (h.setParentOf u w) p o := by
  cases u with
  | none => exact hh
  | some y => exact hh.setParent (hu y rfl)

/-- The path ends in another link. -/
theorem Hangs.setHole (hh : Hangs h p o) (hnd : (Frames.ids p).Nodup) (w : Option α) :
    Hangs (h.setHole p w) p w := by
  cases p with
  | nil => rfl
  | cons f p =>
    obtain ⟨_, hp, hc, hsib, hup⟩ := hh
    simp only [Frames.ids, List.nodup_cons, List.mem_append, not_or] at hnd
    refine ⟨link_setLink_self, hp, hc, ?_, hup.setLink hnd.1.2⟩
    rw [TreeLinks.setHole, link_setLink_of_ne (.inr f.side.other_ne)]
    exact hsib.setLink hnd.1.1

/-- A node changes its colour. -/
theorem Focus.setRed (hf : Focus h p o (.mk s c a x b)) (d : Bool) :
    Focus (h.setRed x d) p o (.mk s d a x b) := by
  obtain ⟨hnd, hndp, hdis⟩ := hf.distinct
  obtain ⟨ho, hp, _, ha, hb⟩ := lays_mk.mp hf.lays
  have hx := Shape.nodup_mk.mp hnd
  refine ⟨hf.hangs.setRed (hdis x (Shape.mem_mk.mpr (.inl rfl))), ?_, ?_⟩
  · exact lays_mk.mpr ⟨ho, hp, red_setRed_self, ha.setRed hx.2.2.1, hb.setRed hx.2.2.2.1⟩
  · exact Frames.nodup_fill.mpr ⟨Shape.nodup_mk.mpr hx, hndp, fun y hy => hdis y (by simpa using hy)⟩

/-- A child of the node at the focus changes its colour. -/
theorem Focus.setRed_child {s₁ : Side} {a₁ b₁ : Shape α} (hf : Focus h p o (.mk s c (.mk s₁ d a₁ y b₁) x b))
    (e : Bool) : Focus (h.setRed y e) p o (.mk s c (.mk s₁ e a₁ y b₁) x b) := by
  obtain rfl : o = some x := hf.node.1
  exact (hf.down.setRed e).up

theorem Focus.setRed_other {s₁ : Side} {a₁ b₁ : Shape α} (hf : Focus h p o (.mk s c a x (.mk s₁ d a₁ y b₁)))
    (e : Bool) : Focus (h.setRed y e) p o (.mk s c a x (.mk s₁ e a₁ y b₁)) := by
  rw [← Shape.mk_other] at hf ⊢
  exact hf.setRed_child e

@[simp] theorem parent_setHole : (h.setHole p o).parent = h.parent := by cases p <;> rfl

@[simp] theorem red_setHole : (h.setHole p o).red = h.red := by cases p <;> rfl

theorem link_setHole (hx : x ∉ Frames.ids p) : (h.setHole p o).link x = h.link x := by
  cases p with
  | nil => rfl
  | cons f p => exact funext fun _ => link_setLink_of_ne (.inl fun he => hx (he ▸ List.mem_cons_self))

@[simp] theorem link_setParentOf : (h.setParentOf o v).link = h.link := by cases o <;> rfl

@[simp] theorem red_setParentOf : (h.setParentOf o v).red = h.red := by cases o <;> rfl

theorem parent_setParentOf (hx : o ≠ some x) : (h.setParentOf o v).parent x = h.parent x := by
  cases o with
  | none => rfl
  | some y => exact parent_setParent_of_ne fun he => hx (congrArg some he.symm)

/-! ## Turning an edge -/

/-- The edge from `x` down to `y`, on the side away from `cis`, is turned: `y` goes up to where
`x` was and leaves its child on side `cis` to `x`. -/
def rotate (h : TreeLinks α) (cis : Side) (p : List (Frame α)) (x y : α) : TreeLinks α :=
  let h := ((h.setHole p (some y)).setParent y (Frames.top p)).setParent x (some y)
  let b := h.link y cis
  ((h.setLink x cis.other b).setParentOf b (some x)).setLink y cis (some x)

/-- Turning an edge takes the layout of one tree to that of the other. -/
theorem Focus.rotate {e : Shape α} (hf : Focus h p o (.mk s c a x (.mk s d b y e))) :
    Focus (h.rotate s p x y) p (some y) (.mk s d (.mk s c a x b) y e) := by
  obtain ⟨hnd, hndp, hdis⟩ := hf.distinct
  obtain ⟨_, _, hcx, ha, hy⟩ := lays_mk.mp hf.lays
  obtain ⟨_, _, hcy, hb, he⟩ := lays_mk.mp hy
  simp only [Shape.nodup_mk, Shape.mem_mk, not_or] at hnd hdis
  obtain ⟨hnda, ⟨hndb, hnde, hyb, hye, hbe⟩, hxa, ⟨hxy, hxb, hxe⟩, hab⟩ := hnd
  have hx : x ∉ Frames.ids p := hdis x (.inl rfl)
  have hy : y ∉ Frames.ids p := hdis y (.inr (.inr (.inl rfl)))
  have hya : y ∉ a.toList := fun h => (hab y h).1 rfl
  have hlinkb : (((h.setHole p (some y)).setParent y (Frames.top p)).setParent x (some y)).link y s =
      h.link y s := congrFun (link_setHole hy) s
  simp only [TreeLinks.rotate, hlinkb]
  set h₃ := ((h.setHole p (some y)).setParent y (Frames.top p)).setParent x (some y) with hh₃
  have hroot : ∀ z, h.link y s = some z → z ∈ b.toList := fun z hz =>
    Shape.rootOf_mem (hb.rootOf.symm.trans hz)
  -- a tree away from `x`, `y` and `b` keeps its layout
  have hkeep : ∀ {u : Shape α} {w l : Option α}, Lays h w l u → x ∉ u.toList → y ∉ u.toList →
      (∀ z ∈ u.toList, z ∉ b.toList) → (∀ z ∈ u.toList, z ∉ Frames.ids p) →
      Lays (((h₃.setLink x s.other (h.link y s)).setParentOf (h.link y s) (some x)).setLink y s (some x))
        w l u := by
    intro u w l hl hxu hyu hbu hpu
    refine Lays.setLink (Lays.setParentOf (Lays.setLink ?_ hxu) fun z hz hm => hbu z hm (hroot z hz)) hyu
    exact ((hl.setHole hpu).setParent hyu).setParent hxu
  refine ⟨?_, ?_, ?_⟩
  · -- the path, and the link it ends in
    refine Hangs.setLink (Hangs.setParentOf (Hangs.setLink ?_ hx) fun z hz hm => ?_) hy
    · exact ((hf.hangs.setHole hndp (some y)).setParent hy).setParent hx
    · exact hdis z (.inr (.inr (.inr (.inl (hroot z hz))))) hm
  · refine lays_mk.mpr ⟨rfl, ?_, ?_, ?_, ?_⟩
    · rw [TreeLinks.setLink, parent_setParentOf fun hz => hyb (hroot y hz)]
      show h₃.parent y = _
      rw [hh₃, parent_setParent_of_ne fun h => hxy h.symm, parent_setParent_self]
    · simpa [hh₃, TreeLinks.setLink, TreeLinks.setParent] using hcy
    · rw [link_setLink_self]
      refine lays_mk.mpr ⟨rfl, ?_, ?_, ?_, ?_⟩
      · rw [TreeLinks.setLink, parent_setParentOf fun hz => hxb (hroot x hz)]
        exact parent_setParent_self
      · simpa [hh₃, TreeLinks.setLink, TreeLinks.setParent] using hcx
      · rw [link_setLink_of_ne (.inl hxy), link_setParentOf, link_setLink_of_ne (.inr s.ne_other)]
        rw [show h₃.link x s = h.link x s from congrFun (link_setHole hx) s]
        exact hkeep ha hxa hya (fun z hz => (hab z hz).2.1) fun z hz => hdis z (.inr (.inl hz))
      · rw [link_setLink_of_ne (.inl hxy), link_setParentOf, link_setLink_self]
        have hb₃ : Lays h₃ (some y) (h.link y s) b :=
          ((hb.setHole fun z hz => hdis z (.inr (.inr (.inr (.inl hz))))).setParent hyb).setParent hxb
        exact ((hb₃.setLink hxb).reparent hndb (some x)).setLink hyb
    · rw [link_setLink_of_ne (.inr s.other_ne), link_setParentOf, link_setLink_of_ne (.inl fun h => hxy h.symm)]
      rw [show h₃.link y s.other = h.link y s.other from congrFun (link_setHole hy) _]
      exact hkeep he hxe hye (fun z hz hm => hbe z hm hz) fun z hz =>
        hdis z (.inr (.inr (.inr (.inr hz))))
  · rw [Frames.toList_fill_congr Shape.toList_turn]
    exact hf.nodup

/-! ## Putting nodes in and taking them out -/

/-- A new red leaf at the end of the path. -/
def attach (h : TreeLinks α) (p : List (Frame α)) (x : α) : TreeLinks α :=
  ((((h.setHole p (some x)).setLink x .right none).setLink x .left none).setParent x (Frames.top p)).setRed x true

theorem Focus.attach (hf : Focus h p o .nil) (hx : x ∉ Frames.ids p) :
    Focus (h.attach p x) p (some x) (.node true .nil x .nil) := by
  obtain ⟨_, hnd, _⟩ := hf.distinct
  refine ⟨?_, ?_, ?_⟩
  · exact ((((hf.hangs.setHole hnd (some x)).setLink hx).setLink hx).setParent hx).setRed hx
  · refine ⟨rfl, parent_setParent_self, red_setRed_self, link_setLink_self, ?_⟩
    exact (link_setLink_of_ne (.inr Side.left.other_ne)).trans link_setLink_self
  · exact Frames.nodup_fill.mpr ⟨by simp [Shape.toList], hnd, fun y hy => by
      obtain rfl : y = x := by simpa [Shape.toList] using hy
      exact hx⟩

/-- A node with one child at most goes, and the child takes its place. -/
def splice (h : TreeLinks α) (p : List (Frame α)) (o : Option α) : TreeLinks α :=
  (h.setHole p o).setParentOf o (Frames.top p)

theorem Focus.splice (hf : Focus h p o (.mk s c .nil x b)) :
    Focus (h.splice p (h.link x s.other)) p (h.link x s.other) b := by
  obtain ⟨hnd, hndp, hdis⟩ := hf.distinct
  obtain ⟨_, hndb, _⟩ := Shape.nodup_mk.mp hnd
  have hdisb : ∀ y ∈ b.toList, y ∉ Frames.ids p := fun y hy => hdis y (Shape.mem_mk.mpr (.inr (.inr hy)))
  obtain ⟨_, _, _, _, hb⟩ := lays_mk.mp hf.lays
  refine ⟨?_, ?_, Frames.nodup_fill.mpr ⟨hndb, hndp, hdisb⟩⟩
  · refine (hf.hangs.setHole hndp _).setParentOf fun y hy => hdisb y ?_
    exact Shape.rootOf_mem (hb.rootOf.symm.trans hy)
  · exact (hb.setHole hdisb).reparent hndb (Frames.top p)

/-- The node `y` takes the place of `x`. -/
def replace (h : TreeLinks α) (s : Side) (p : List (Frame α)) (x y : α) : TreeLinks α :=
  let a := h.link x s
  let b := h.link x s.other
  ((((((h.setHole p (some y)).setParent y (Frames.top p)).setRed y (h.red x)).setLink y s a
    ).setParentOf a (some y)).setLink y s.other b).setParentOf b (some y)

theorem Focus.replace (hf : Focus h p o (.mk s c a x b)) (hy : y ∉ (Frames.fill p (.mk s c a x b)).toList) :
    Focus (h.replace s p x y) p (some y) (.mk s c a y b) := by
  obtain ⟨hnd, hndp, hdis⟩ := hf.distinct
  obtain ⟨_, _, hcx, ha, hb⟩ := lays_mk.mp hf.lays
  simp only [Shape.nodup_mk, Shape.mem_mk, Frames.mem_fill, not_or] at hnd hdis hy
  obtain ⟨hnda, hndb, hxa, hxb, hab⟩ := hnd
  obtain ⟨⟨hyx, hya, hyb⟩, hyp⟩ := hy
  have hra : ∀ z, h.link x s = some z → z ∈ a.toList := fun z hz => Shape.rootOf_mem (ha.rootOf.symm.trans hz)
  have hrb : ∀ z, h.link x s.other = some z → z ∈ b.toList := fun z hz =>
    Shape.rootOf_mem (hb.rootOf.symm.trans hz)
  -- what is written first leaves both children alone
  have hkeep : ∀ {u : Shape α} {w l : Option α}, Lays h w l u → y ∉ u.toList →
      (∀ z ∈ u.toList, z ∉ Frames.ids p) →
      Lays (((h.setHole p (some y)).setParent y (Frames.top p)).setRed y (h.red x)) w l u :=
    fun hl hyu hpu => ((hl.setHole hpu).setParent hyu).setRed hyu
  refine ⟨?_, lays_mk.mpr ⟨rfl, ?_, ?_, ?_, ?_⟩, ?_⟩
  · refine Hangs.setParentOf (Hangs.setLink (Hangs.setParentOf (Hangs.setLink ?_ hyp) ?_) hyp) ?_
    · exact ((hf.hangs.setHole hndp (some y)).setParent hyp).setRed hyp
    · exact fun z hz => hdis z (.inr (.inl (hra z hz)))
    · exact fun z hz => hdis z (.inr (.inr (hrb z hz)))
  · rw [TreeLinks.replace, parent_setParentOf fun hz => hyb (hrb y hz), TreeLinks.setLink,
      parent_setParentOf fun hz => hya (hra y hz)]
    exact parent_setParent_self
  · simpa [TreeLinks.replace, TreeLinks.setLink] using hcx
  · rw [TreeLinks.replace, link_setParentOf, link_setLink_of_ne (.inr s.ne_other), link_setParentOf,
      link_setLink_self]
    refine Lays.setParentOf (Lays.setLink ?_ hya) fun z hz hm => hab z hm (hrb z hz)
    exact ((hkeep ha hya fun z hz => hdis z (.inr (.inl hz))).setLink hya).reparent hnda (some y)
  · rw [TreeLinks.replace, link_setParentOf, link_setLink_self]
    refine Lays.reparent (v := some x) (Lays.setLink (Lays.setParentOf (Lays.setLink ?_ hyb) ?_) hyb) hndb _
    · exact hkeep hb hyb fun z hz => hdis z (.inr (.inr hz))
    · exact fun z hz hm => hab z (hra z hz) hm
  · refine Frames.nodup_fill.mpr ⟨Shape.nodup_mk.mpr ⟨hnda, hndb, hya, hyb, hab⟩, hndp, fun z hz => ?_⟩
    rcases Shape.mem_mk.mp hz with rfl | hz | hz
    · exact hyp
    · exact hdis z (.inr (.inl hz))
    · exact hdis z (.inr (.inr hz))

/-! ## The next node in the place of another one

A node with two children goes, and the leftmost node on its right takes its place. The links are
written in another order than by `splice` and `replace`, but at the same places. -/

theorem root_setHole : (h.setHole p o).root = p.head?.elim o fun _ => h.root := by cases p <;> rfl

theorem root_setParentOf : (h.setParentOf o v).root = h.root := by cases o <;> rfl

/-- The link a path ends in. -/
def slot (p : List (Frame α)) : Option (α × Side) := p.head?.map fun f => (f.id, f.side)

omit [DecidableEq α] in
theorem slot_mem (hs : slot p = some (x, s)) : x ∈ Frames.ids p := by
  cases p with
  | nil => cases hs
  | cons f p =>
    cases hs
    exact List.mem_cons_self

theorem link_setLink_eq {z : α} : (h.setLink x s o).link z s' = if z = x ∧ s' = s then o else h.link z s' := by
  by_cases hz : z = x ∧ s' = s
  · obtain ⟨rfl, rfl⟩ := hz
    simp
  · rw [if_neg hz, link_setLink_of_ne (by tauto)]

theorem link_setHole_eq {z : α} : (h.setHole p o).link z s' = if slot p = some (z, s') then o else h.link z s' := by
  cases p with
  | nil => rfl
  | cons f p =>
    simp only [setHole, link_setLink_eq, slot, List.head?_cons, Option.map_some, Option.some.injEq, Prod.mk.injEq]
    grind

theorem parent_setParent_eq {z : α} : (h.setParent x o).parent z = if z = x then o else h.parent z :=
  Function.update_apply ..

theorem parent_setParentOf_eq {z : α} : (h.setParentOf o v).parent z = if o = some z then v else h.parent z := by
  cases o with
  | none => rfl
  | some y => simp only [setParentOf, parent_setParent_eq, Option.some.injEq, eq_comm]

section
variable {l r g : α} {w : Option α} {e : Shape α}

/-- The nodes that are written to: `y` takes the place of `x` over the children `l` and `r`, and
leaves its child `w` to its parent `g`. -/
structure Apart (p : List (Frame α)) (x y l r g : α) (w : Option α) : Prop where
  gx : g ≠ x
  gy : g ≠ y
  gp : g ∉ Frames.ids p
  xp : x ∉ Frames.ids p
  yp : y ∉ Frames.ids p
  lx : l ≠ x
  lr : l ≠ r
  ly : l ≠ y
  ry : r ≠ y
  wl : w ≠ some l
  wr : w ≠ some r
  wy : w ≠ some y

theorem replace_splice_deep (hl : h.link x .left = some l) (hr : h.link x .right = some r)
    (ha : Apart p x y l r g w) :
    ((h.setLink g .left w).setParentOf w (some g)).replace .right p x y =
      (((((((((h.setHole p (some y)).setRed y (h.red x)).setLink y .left (some l)).setParent l (some y)).setParent y
        (Frames.top p)).setLink g .left w).setLink y .right (some r)).setParent r (some y)).setParentOf w
        (some g)) := by
  obtain ⟨hgx, hgy, hgp, hxp, hyp, hlx, hlr, hly, hry, hwl, hwr, hwy⟩ := ha
  have hright : ((h.setLink g .left w).setParentOf w (some g)).link x .right = some r := by
    rw [link_setParentOf, link_setLink_of_ne (.inl hgx.symm), hr]
  have hleft : ((h.setLink g .left w).setParentOf w (some g)).link x .left = some l := by
    rw [link_setParentOf, link_setLink_of_ne (.inl hgx.symm), hl]
  simp only [replace, Side.other, hright, hleft]
  refine TreeLinks.ext ?_ (funext fun z => funext fun s => ?_) (funext fun z => ?_) ?_
  · cases p <;> cases w <;> rfl
  · have hslot := slot_mem (x := z) (s := s) (p := p)
    show TreeLinks.link _ z s = TreeLinks.link _ z s
    simp only [link_setParentOf, link_setLink_eq, link_setParent, link_setRed, link_setHole_eq]
    grind
  · show TreeLinks.parent _ z = TreeLinks.parent _ z
    simp only [parent_setLink, parent_setParentOf_eq, parent_setParent_eq, parent_setRed, parent_setHole]
    grind
  · cases p <;> cases w <;> rfl

omit [DecidableEq α] in
/-- The node that goes, with the trees on its two sides. -/
theorem Focus.above (hf : Focus h (q ++ ⟨.right, c, x, a⟩ :: p) o t) :
    Focus h p (some x) (.mk .right c (Frames.fill q t) x a) := by
  obtain ⟨o', ho'⟩ := hf.climb
  exact ho'.up

omit [DecidableEq α] in
theorem Focus.fresh (hf : Focus h (q ++ ⟨.right, c, x, a⟩ :: p) o (.node d .nil y e)) :
    y ∉ (Frames.fill p (.mk .right c (Frames.fill q e) x a)).toList := by
  have hnd := hf.nodup
  rw [Frames.nodup_fill] at hnd
  obtain ⟨hnd, _, hdis⟩ := hnd
  have hy : y ∈ (Shape.node d .nil y e).toList := (Shape.mem_mk (s := .left)).mpr (.inl rfl)
  rw [show Frames.fill p (.mk .right c (Frames.fill q e) x a) = Frames.fill (q ++ ⟨.right, c, x, a⟩ :: p) e by
    rw [Frames.fill_append]; rfl, Frames.mem_fill, not_or]
  exact ⟨((Shape.nodup_mk (s := .left)).mp hnd).2.2.2.1, hdis y hy⟩

theorem Focus.takeOver (hf : Focus h (q ++ ⟨.right, c, x, a⟩ :: p) (some y) (.node d .nil y e)) :
    Focus ((h.splice (q ++ ⟨.right, c, x, a⟩ :: p) e.rootOf).replace .right p x y) (q ++ ⟨.right, c, y, a⟩ :: p)
      e.rootOf e := by
  have hw : h.link y .right = e.rootOf := (show Focus h _ _ (.mk .left d .nil y e) from hf).node.2.2.2.2
  have hsp := (show Focus h _ _ (.mk .left d .nil y e) from hf).splice
  rw [show Side.left.other = .right from rfl, hw] at hsp
  obtain ⟨o', ho'⟩ := (hsp.above.replace hf.fresh).down.of_fill
  obtain rfl : o' = e.rootOf := ho'.lays.rootOf
  exact ho'

omit [DecidableEq α] in
theorem Focus.apart (hf : Focus h ((f :: q) ++ ⟨.right, c, x, a⟩ :: p) (some y) (.node d .nil y e))
    (hl : h.link x .left = some l) (hr : h.link x .right = some r) : Apart p x y l r f.id e.rootOf := by
  obtain ⟨hnd, _, hdisp⟩ := hf.above.distinct
  obtain ⟨hndb, _, hxb, hxa, hba⟩ := Shape.nodup_mk.mp hnd
  obtain ⟨hnde, _, hdisb⟩ := Frames.nodup_fill.mp hndb
  have hy : y ∈ (Shape.node d .nil y e).toList := (Shape.mem_mk (s := .left)).mpr (.inl rfl)
  have he : ∀ z, e.rootOf = some z → z ∈ (Shape.node d .nil y e).toList := fun z hz =>
    (Shape.mem_mk (s := .left)).mpr (.inr (.inr (Shape.rootOf_mem hz)))
  have hmem : ∀ z, z ∈ (Shape.node d .nil y e).toList ∨ z ∈ Frames.ids (f :: q) →
      z ∈ (Frames.fill (f :: q) (.node d .nil y e)).toList := fun z hz => Frames.mem_fill.mpr hz
  have hp : ∀ z ∈ (Frames.fill (f :: q) (.node d .nil y e)).toList, z ∉ Frames.ids p := fun z hz =>
    hdisp z (Shape.mem_mk.mpr (.inr (.inl hz)))
  have hg : f.id ∈ Frames.ids (f :: q) := List.mem_cons_self
  have hla : l ∈ a.toList := Shape.rootOf_mem (hf.above.node.2.2.2.2.symm.trans hl)
  have hrq : r ∈ Frames.ids (f :: q) := by
    obtain ⟨z, hz, hroot⟩ := Frames.rootOf_fill (p := f :: q) (t := .node d .nil y e) (by simp)
    have hrz : some r = some z := (hr.symm.trans hf.above.node.2.2.2.1).trans hroot
    exact Option.some.inj hrz ▸ hz
  have hyq : ∀ z ∈ Frames.ids (f :: q), z ≠ y := fun z hz hzy => hdisb y hy (hzy ▸ hz)
  exact {
    gx := fun hgx => hxb (hgx ▸ hmem _ (.inr hg))
    gy := hyq _ hg
    gp := hp _ (hmem _ (.inr hg))
    xp := hdisp x (Shape.mem_mk.mpr (.inl rfl))
    yp := hp y (hmem y (.inl hy))
    lx := fun hlx => hxa (hlx ▸ hla)
    lr := fun hlr => hba r (hmem r (.inr hrq)) (hlr ▸ hla)
    ly := fun hly => hba y (hmem y (.inl hy)) (hly ▸ hla)
    ry := hyq r hrq
    wl := fun hwl => hba l (hmem l (.inl (he l hwl))) hla
    wr := fun hwr => hdisb r (he r hwr) hrq
    wy := fun hwy => ((Shape.nodup_mk (s := .left)).mp hnde).2.2.2.1 (Shape.rootOf_mem hwy) }

/-- The next node is further down. -/
theorem Focus.takeOver_deep (hf : Focus h ((f :: q) ++ ⟨.right, c, x, a⟩ :: p) (some y) (.node d .nil y e))
    (hside : f.side = .left) (hl : h.link x .left = some l) (hr : h.link x .right = some r) :
    Focus (((((((((h.setHole p (some y)).setRed y (h.red x)).setLink y .left (some l)).setParent l (some y)).setParent y
        (Frames.top p)).setLink f.id .left e.rootOf).setLink y .right (some r)).setParent r
        (some y)).setParentOf e.rootOf (some f.id))
      ((f :: q) ++ ⟨.right, c, y, a⟩ :: p) e.rootOf e := by
  have htake := hf.takeOver
  have hsp : h.splice ((f :: q) ++ ⟨.right, c, x, a⟩ :: p) e.rootOf =
      (h.setLink f.id .left e.rootOf).setParentOf e.rootOf (some f.id) := by
    rw [TreeLinks.splice, List.cons_append, TreeLinks.setHole, hside]
    rfl
  rw [hsp, replace_splice_deep hl hr (hf.apart hl hr)] at htake
  exact htake

theorem replace_splice_child {z : α} (hl : h.link x .left = some l) (hw : h.link y .right = w)
    (hyp : y ∉ Frames.ids p) (hly : l ≠ y) (hwl : w ≠ some l) (hz : z ≠ x) :
    let h₁ := ((h.setLink x .right w).setParentOf w (some x)).replace .right p x y
    let h₂ := (((((h.setHole p (some y)).setRed y (h.red x)).setLink y .left (some l)).setParent l (some y)).setParent y
      (Frames.top p)).setParentOf w (some y)
    h₂.link z = h₁.link z ∧ h₂.parent z = h₁.parent z ∧ h₂.red z = h₁.red z := by
  have hright : ((h.setLink x .right w).setParentOf w (some x)).link x .right = w := by
    rw [link_setParentOf, link_setLink_self]
  have hleft : ((h.setLink x .right w).setParentOf w (some x)).link x .left = some l := by
    rw [link_setParentOf, link_setLink_of_ne (.inr (by decide)), hl]
  simp only [replace, Side.other, hright, hleft]
  refine ⟨funext fun s => ?_, ?_, ?_⟩
  · have hslot := slot_mem (x := z) (s := s) (p := p)
    simp only [link_setParentOf, link_setLink_eq, link_setParent, link_setRed, link_setHole_eq]
    grind
  · simp only [parent_setLink, parent_setParentOf_eq, parent_setParent_eq, parent_setRed, parent_setHole]
    grind
  · cases w <;> simp [setLink, setParent, setParentOf, setRed]

/-- The next node is the child on the right. -/
theorem Focus.takeOver_child (hf : Focus h (⟨.right, c, x, a⟩ :: p) (some y) (.node d .nil y e))
    (hl : h.link x .left = some l) :
    Focus ((((((h.setHole p (some y)).setRed y (h.red x)).setLink y .left (some l)).setParent l (some y)).setParent y
        (Frames.top p)).setParentOf e.rootOf (some y))
      (⟨.right, c, y, a⟩ :: p) e.rootOf e := by
  replace hf : Focus h ([] ++ ⟨.right, c, x, a⟩ :: p) (some y) (.node d .nil y e) := hf
  have hw : h.link y .right = e.rootOf := (show Focus h _ _ (.mk .left d .nil y e) from hf).node.2.2.2.2
  have htake := hf.takeOver
  obtain ⟨hnd, _, hdisp⟩ := hf.above.distinct
  obtain ⟨_, _, hxb, hxa, hba⟩ := Shape.nodup_mk.mp hnd
  have hy : y ∈ (Shape.node d .nil y e).toList := (Shape.mem_mk (s := .left)).mpr (.inl rfl)
  have hla : l ∈ a.toList := Shape.rootOf_mem (hf.above.node.2.2.2.2.symm.trans hl)
  have hxy : x ≠ y := fun hxy => hxb (hxy ▸ hy)
  have hyp : y ∉ Frames.ids p := hdisp y (Shape.mem_mk.mpr (.inr (.inl hy)))
  have hly : l ≠ y := fun hly => hba y hy (hly ▸ hla)
  have hwl : e.rootOf ≠ some l := fun hwl =>
    hba l ((Shape.mem_mk (s := .left)).mpr (.inr (.inr (Shape.rootOf_mem hwl)))) hla
  refine htake.congr ?_ fun z hz => ?_
  · simp [TreeLinks.splice, TreeLinks.replace, root_setHole, root_setParentOf]
  · refine replace_splice_child hl hw hyp hly hwl ?_
    rintro rfl
    simp only [List.nil_append, Frames.mem_fill, Frames.ids, List.mem_cons, List.mem_append] at hz
    rcases hz with hz | hz | hz | hz
    · exact hxb ((Shape.mem_mk (s := .left)).mpr (.inr (.inr hz)))
    · exact hxy hz
    · exact hxa hz
    · exact hdisp _ (Shape.mem_mk.mpr (.inl rfl)) hz

end

end TreeLinks

end MNet.Lib
