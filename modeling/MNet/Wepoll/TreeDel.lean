import MNet.Wepoll.TreeSpec

/-! # Taking a node out of the tree

`tree_del` unlinks the node and then works its way up while a black node is missing below. -/

namespace MNet.Wepoll

open Lib Lib.Exec Lib.TreeLinks

variable {ι : Type} [DecidableEq ι] {t t' : Tree ι} {x y z w par : ι} {s : Side} {o : Option ι} {k n : Nat}
  {c d : Bool} {p : List (Frame ι)} {a b e u sib : Shape ι} {l : List ι}

/-- A red sibling goes up, and leaves the child on the near side as the sibling. -/
theorem treeRemoveRedSibling_red (hf : Focus t.links p (some par) (.mk s c u par (.mk s true a y b)))
    (ha : a.rootOf = some z) :
    Ends (treeRemoveRedSibling s par) t fun r t' => r = z ∧ t'.key = t.key ∧
      Focus t'.links p (some y) (.mk s false (.mk s true u par a) y b) := by
  have hlink : t.link par s.other = some y := hf.node.2.2.2.2.trans Shape.rootOf_mk
  have hred : t.red y = true := hf.down_other.node.2.2.1
  simp only [treeRemoveRedSibling, ends_bind, ends_read, hlink, ends_deref_some, hred, if_true, ends_modify]
  have hfoc := (hf.setRed_other false).setRed true
  rw [← Tree.links_setRed, ← Tree.links_setRed] at hfoc
  refine (treeRotate_ends hfoc).mono fun _ t' h => ?_
  have hnext : t'.link par s.other = some z := h.1.down.node.2.2.2.2.trans ha
  simp only [hnext, ends_deref_some]
  exact ⟨trivial, by simpa using h.2, h.1⟩

theorem treeRemoveRedSibling_black (hf : Focus t.links p (some par) (.mk s c u par (.mk s false a y b)))
    {P : ι → Tree ι → Prop} (hp : P y t) : Ends (treeRemoveRedSibling s par) t P := by
  have hlink : t.link par s.other = some y := hf.node.2.2.2.2.trans Shape.rootOf_mk
  have hred : t.red y = false := hf.down_other.node.2.2.1
  simpa only [treeRemoveRedSibling, ends_bind, ends_read, hlink, ends_deref_some, hred, Bool.false_eq_true,
    if_false, ends_pure] using hp

theorem treeRemoveRedNephew_far (hf : Focus t.links p (some par) (.mk s c u par (.mk s d a y b)))
    (hb : b.isRed = true) {P : ι → Tree ι → Prop} (hp : P y t) : Ends (treeRemoveRedNephew s par y) t P := by
  have hred : t.isRed (t.link y s.other) = true := (isRed_rootOf hf.down_other.down_other.lays).trans hb
  simpa only [treeRemoveRedNephew, ends_bind, ends_read, hred, if_true, ends_pure] using hp

/-- A red nephew on the near side goes up, and leaves a red one on the far side. -/
theorem treeRemoveRedNephew_near
    (hf : Focus t.links p (some par) (.mk s c u par (.mk s false (.mk s true a z e) y b)))
    (hb : b.isRed = false) :
    Ends (treeRemoveRedNephew s par y) t fun r t' => r = z ∧ t'.key = t.key ∧
      Focus t'.links p (some par) (.mk s c u par (.mk s false a z (.mk s true e y b))) := by
  have hfar : t.isRed (t.link y s.other) = false := (isRed_rootOf hf.down_other.down_other.lays).trans hb
  have hnear : t.link y s = some z := hf.down_other.node.2.2.2.1.trans Shape.rootOf_mk
  simp only [treeRemoveRedNephew, ends_bind, ends_read, hfar, Bool.false_eq_true, if_false, hnear,
    ends_deref_some, ends_modify]
  have hfoc := (hf.down_other.setRed_child false).setRed true
  rw [← Tree.links_setRed, ← Tree.links_setRed] at hfoc
  refine (treeRotate_other_ends hfoc).mono fun _ t' h => ?_
  have hup := h.1.up
  rw [show Frame.plug _ _ = Shape.mk s.other c _ par u from rfl, Shape.mk_other] at hup
  have hnext : t'.link par s.other = some z := hup.node.2.2.2.2.trans Shape.rootOf_mk
  simp only [hnext, ends_deref_some]
  exact ⟨trivial, by simpa using h.2, hup⟩

/-- A red nephew on the far side: one edge is turned, and no black node is missing any more. -/
theorem treeRemoveTurn_ends
    (hf : Focus t.links p (some par) (.mk s c u par (.mk s d a y (.mk s true b w e)))) :
    Ends (treeRemoveTurn s par y) t fun _ t' =>
      Focus t'.links p (some y) (.mk s c (.mk s false u par a) y (.mk s false b w e)) ∧ t'.key = t.key := by
  have hred : t.red par = c := hf.node.2.2.1
  have hf₁ := hf.setRed_other c
  rw [← Tree.links_setRed] at hf₁
  have hlink : (t.setRed y c).link y s.other = some w := hf₁.down_other.node.2.2.2.2.trans Shape.rootOf_mk
  have hf₂ := (hf₁.down_other.setRed_other false).up
  rw [← Tree.links_setRed, show Frame.plug _ _ = Shape.mk s.other c _ par u from rfl, Shape.mk_other] at hf₂
  have hf₃ := hf₂.setRed false
  rw [← Tree.links_setRed] at hf₃
  simp only [treeRemoveTurn, ends_bind, ends_read, ends_modify, hred, hlink, ends_deref_some]
  exact (treeRotate_ends hf₃).mono fun _ t' h => ⟨h.1, by simpa using h.2⟩

/-- What is left of the tree below the parent: it is whole again, or a black node is still missing
and the sibling has turned red. -/
theorem treeRemoveBlackSibling_ends
    (hf : Focus t.links p (some par) (.mk s c u par (.mk s false a y b))) (hu : u.Balanced n)
    (ha : a.Balanced n) (hb : b.Balanced n) :
    Ends (treeRemoveBlackSibling s par y) t fun done t' => t'.key = t.key ∧
      ((done = true ∧ ∃ v q, Focus t'.links p (some q) v ∧ v.isRed = c ∧
          v.toList = (Shape.mk s c u par (.mk s false a y b)).toList ∧
          v.Balanced (Shape.heightOver c (n + 1))) ∨
        (done = false ∧ a.isRed = false ∧ b.isRed = false ∧
          Focus t'.links p (some par) (.mk s c u par (.mk s true a y b)))) := by
  have hnear : t.isRed (t.link y s) = a.isRed := isRed_rootOf hf.down_other.down.lays
  have hfar : t.isRed (t.link y s.other) = b.isRed := isRed_rootOf hf.down_other.down_other.lays
  have hor : (t.isRed (t.link y .left) || t.isRed (t.link y .right)) = (a.isRed || b.isRed) := by
    cases s with
    | left => rw [hnear, show Side.right = Side.left.other from rfl, hfar]
    | right => rw [hnear, show Side.left = Side.right.other from rfl, hfar, Bool.or_comm]
  simp only [treeRemoveBlackSibling, ends_bind, ends_read, hor, ends_ite, ends_modify, ends_pure,
    Bool.false_eq_true, false_and, false_or, true_and]
  refine ⟨fun hred => ?_, fun hblack => ?_⟩
  · by_cases hcb : b.isRed = true
    · obtain rfl | ⟨cb, b₁, w, b₂, rfl⟩ := Shape.eq_nil_or_mk s b
      · cases hcb
      obtain rfl : cb = true := Shape.isRed_mk.symm.trans hcb
      obtain ⟨hb₁, hb₂, _, _⟩ := Shape.balanced_mk_red.mp hb
      refine treeRemoveRedNephew_far hf hcb ((treeRemoveTurn_ends hf).mono fun _ t' h => ?_)
      refine ⟨h.2, .inl ⟨_, y, h.1, Shape.isRed_mk, ?_, ?_⟩⟩
      · cases s <;> simp [Shape.mk, Shape.toList]
      · exact Shape.balanced_mk.mpr ⟨Shape.balanced_mk_black.mpr ⟨hu, ha⟩, Shape.balanced_mk_black.mpr ⟨hb₁, hb₂⟩,
          fun _ => ⟨Shape.isRed_mk, Shape.isRed_mk⟩⟩
    · have hca : a.isRed = true := by simpa [hcb] using hred
      obtain rfl | ⟨ca, a₁, z, a₂, rfl⟩ := Shape.eq_nil_or_mk s a
      · cases hca
      obtain rfl : ca = true := Shape.isRed_mk.symm.trans hca
      obtain ⟨ha₁, ha₂, _, _⟩ := Shape.balanced_mk_red.mp ha
      refine (treeRemoveRedNephew_near hf (by simpa using hcb)).mono fun r t₁ h₁ => ?_
      obtain ⟨rfl, hk₁, hf₁⟩ := h₁
      refine (treeRemoveTurn_ends hf₁).mono fun _ t' h => ?_
      refine ⟨h.2.trans hk₁, .inl ⟨_, _, h.1, Shape.isRed_mk, ?_, ?_⟩⟩
      · cases s <;> simp [Shape.mk, Shape.toList]
      · exact Shape.balanced_mk.mpr ⟨Shape.balanced_mk_black.mpr ⟨hu, ha₁⟩, Shape.balanced_mk_black.mpr ⟨ha₂, hb⟩,
          fun _ => ⟨Shape.isRed_mk, Shape.isRed_mk⟩⟩
  · obtain ⟨hca, hcb⟩ : a.isRed = false ∧ b.isRed = false := by simpa using hblack
    exact ⟨Tree.key_setRed, hca, hcb, by simpa using hf.setRed_other true⟩

/-- The sibling has turned red, and below a black parent a black node is still missing. -/
def Missing (t : Tree ι) (s : Side) (p : List (Frame ι)) (par : ι) (u : Shape ι) (n : Nat) (l : List ι) :
    Prop :=
  ∃ p' c sib, Focus t.links p' (some par) (.mk s c u par sib) ∧ sib.Balanced n ∧
    (Frames.fill p' (.mk s c u par sib)).toList = l ∧ Frames.Awaits p' (Shape.heightOver c (n + 1)) ∧
    (c = false → p' = p)

theorem treeRebalanceAfterRemove_ends (hf : Focus t.links p (some par) (.mk s c u par sib))
    (hu : u.Balanced n) (hp : Frames.Awaits (⟨s, c, par, sib⟩ :: p) (n + 1)) :
    Ends (treeRebalanceAfterRemove s par) t fun done t' => t'.key = t.key ∧
      ((done = true ∧ t'.Spans (Frames.fill p (.mk s c u par sib)).toList) ∨
        (done = false ∧ Missing t' s p par u n (Frames.fill p (.mk s c u par sib)).toList)) := by
  have hsib : sib.Balanced (n + 1) := hp.1
  obtain ⟨cs, a, y, b, rfl⟩ := hsib.eq_mk s
  simp only [treeRebalanceAfterRemove, ends_bind]
  cases cs with
  | false =>
    obtain ⟨ha, hb⟩ := Shape.balanced_mk_black.mp hsib
    refine treeRemoveRedSibling_black hf ((treeRemoveBlackSibling_ends hf hu ha hb).mono fun done t' h => ?_)
    refine ⟨h.1, ?_⟩
    rcases h.2 with ⟨hd, v, q, hv, hcv, hlv, hbv⟩ | ⟨hd, hca, hcb, hf'⟩
    · obtain ⟨m, hm⟩ := hp.above.fill hbv fun hr => by
        rw [Frames.TakesRed, (hp.sib_black (hcv.symm.trans hr)).2]
        simp
      exact .inl ⟨hd, _, m, hv.to_root, Frames.toList_fill_congr hlv, hm⟩
    · refine .inr ⟨hd, p, c, _, hf', Shape.balanced_mk_red.mpr ⟨ha, hb, hca, hcb⟩, ?_, hp.above, fun _ => rfl⟩
      exact Frames.toList_fill_congr (Shape.toList_mk_congr rfl (Shape.toList_mk true false))
  | true =>
    obtain rfl : c = false := by
      by_contra hc
      have := (hp.sib_black (by simpa using hc)).1
      rw [Shape.isRed_mk] at this
      cases this
    obtain ⟨ha, hb, hca, _⟩ := Shape.balanced_mk_red.mp hsib
    obtain ⟨ca, a₁, z, a₂, rfl⟩ := ha.eq_mk s
    obtain rfl : ca = false := Shape.isRed_mk.symm.trans hca
    refine (treeRemoveRedSibling_red hf Shape.rootOf_mk).mono fun r t₁ h₁ => ?_
    obtain ⟨hr, hk₁, hf₁⟩ := h₁
    have hpar : t₁.links.link y s = some par := hf₁.node.2.2.2.1.trans Shape.rootOf_mk
    have hdown := hf₁.down
    rw [hpar] at hdown
    obtain ⟨ha₁, ha₂⟩ := Shape.balanced_mk_black.mp ha
    have hp₁ : Frames.Awaits (⟨s, false, y, b⟩ :: p) (n + 1) := Frames.awaits_cons hb hp.above (by simp)
    -- the nodes are in the same order once the sibling has gone up
    have hlist : ∀ {v : Shape ι}, v.toList = (Shape.mk s true u par (.mk s false a₁ z a₂)).toList →
        (Frames.fill (⟨s, false, y, b⟩ :: p) v).toList =
          (Frames.fill p (.mk s false u par (.mk s true (.mk s false a₁ z a₂) y b))).toList := by
      intro v hv
      refine Frames.toList_fill_congr ((Shape.toList_mk_congr (d := false) hv rfl).trans ?_)
      exact Shape.toList_turn
    rw [hr]
    refine (treeRemoveBlackSibling_ends hdown hu ha₁ ha₂).mono fun done t' h => ⟨h.1.trans hk₁, ?_⟩
    rcases h.2 with ⟨hd, v, q, hv, hcv, hlv, hbv⟩ | ⟨hd, hca₁, hca₂, hf'⟩
    · obtain ⟨m, hm⟩ := hp₁.fill (t := v) hbv fun _ => by simp [Frames.TakesRed, Frames.topRed]
      exact .inl ⟨hd, _, m, hv.to_root, hlist hlv, hm⟩
    · refine .inr ⟨hd, _, true, _, hf', Shape.balanced_mk_red.mpr ⟨ha₁, ha₂, hca₁, hca₂⟩, hlist ?_, hp₁, by simp⟩
      exact Shape.toList_mk_congr rfl (Shape.toList_mk true false)

omit [DecidableEq ι] in
/-- The focus is at the root exactly when there is nothing above it. -/
theorem focus_root (hf : Focus t.links p o u) : o = t.root ↔ p = [] := by
  constructor
  · rintro rfl
    by_contra hp
    obtain ⟨x, hx, hr⟩ := Frames.rootOf_fill (t := u) hp
    have hroot : t.root = some x := hf.to_root.lays.rootOf.trans hr
    rw [hroot] at hf
    exact hf.distinct.2.2 x (Shape.rootOf_mem hf.lays.rootOf.symm) hx
  · rintro rfl
    exact hf.hangs.symm

/-- Which side of its parent the focus is on. -/
theorem focus_side {f : Frame ι} (hf : Focus t.links (f :: p) o u) (hs : f.sib ≠ .nil) :
    (if o = t.link f.id .left then Side.left else .right) = f.side := by
  obtain ⟨hlink, _, _, hsib, _⟩ := hf.hangs
  cases hside : f.side with
  | left =>
    rw [hside] at hlink
    exact if_pos hlink.symm
  | right =>
    refine if_neg fun he => ?_
    rw [hside, show Side.right.other = .left from rfl] at hsib
    have hroot : o = f.sib.rootOf := he.trans hsib.rootOf
    obtain rfl | ⟨c, a, x, b, hx⟩ := Shape.eq_nil_or_mk .left u
    · exact hs (Shape.rootOf_eq_none.mp (hroot.symm.trans hf.lays.rootOf))
    · have ho : o = some x := hf.lays.rootOf.trans (hx ▸ Shape.rootOf_mk)
      have hxs : x ∈ f.sib.toList := Shape.rootOf_mem (hroot.symm.trans ho)
      refine hf.distinct.2.2 x ?_ (List.mem_cons_of_mem _ (List.mem_append_left _ hxs))
      rw [hx]
      exact Shape.mem_mk.mpr (.inl rfl)

/-- The loop of `tree_del` keeps the nodes in order, and ends in a red-black tree once the node it
ends at is black. -/
theorem treeDelLoop_ends {fuel : Nat} (hfuel : p.length < fuel) (hf : Focus t.links p o u)
    (hu : u.Balanced n) (hc : u.isRed = false) (hp : Frames.Awaits p (n + 1)) :
    Ends (treeDelLoop fuel o (Frames.top p)) t fun r t' => t'.key = t.key ∧
      (t'.setRedOf r false).Stands (Frames.fill p u).toList := by
  induction fuel generalizing t p o u n with
  | zero => omega
  | succ fuel ih =>
    simp only [treeDelLoop, ends_bind, ends_read, focus_root hf]
    rcases p with _ | ⟨⟨s, c, par, sib⟩, p⟩
    · simp only [if_true, ends_pure, true_and]
      rw [← Shape.setRed_isRed u, hc] at hu
      exact stands_setRedOf hf hu trivial
    · have hside : (if o = t.link par .left then Side.left else .right) = s :=
        focus_side hf (Shape.Balanced.ne_nil hp.1)
      simp only [reduceCtorEq, if_false, ends_bind, Frames.top, List.head?_cons, Option.map_some,
        ends_deref_some, ends_read, hside]
      refine (treeRebalanceAfterRemove_ends hf.up hu hp).mono fun done t' h => ?_
      obtain ⟨hk', ⟨rfl, hspan⟩ | ⟨rfl, p', c', sib', hf', hsib', hlist, hp', hpp⟩⟩ := h
      · exact ends_read.mpr ⟨hk', hspan.stands⟩
      · have hu' : (Shape.mk s false u par sib').Balanced (n + 1) := Shape.balanced_mk_black.mpr ⟨hu, hsib'⟩
        have hred : t'.red par = c' := hf'.node.2.2.1
        simp only [Bool.false_eq_true, if_false, ends_bind, ends_read, hred]
        rw [show Frames.fill (⟨s, c, par, sib⟩ :: p) u = Frames.fill p (.mk s c u par sib) from rfl, ← hlist]
        cases c' with
        | true =>
          refine ends_pure.mpr ⟨hk', stands_setRedOf hf' ?_ hp'⟩
          rw [Shape.setRed_mk]
          exact hu'
        | false =>
          obtain rfl : p' = p := hpp rfl
          have hup : t'.parent par = Frames.top p' := hf'.node.2.1
          simp only [Bool.false_eq_true, if_false, ends_bind, ends_read, hup]
          simp only [List.length_cons] at hfuel
          exact (ih (by omega) hf' hu' Shape.isRed_mk hp').mono fun _ t'' h => ⟨h.1.trans hk', h.2⟩

/-- The end of `tree_del`, where a node of colour `c` was taken out above the focus. -/
theorem treeDelLinked_ends {fuel : Nat} (hfuel : p.length < fuel)
    (hf : Focus (t.setParentOf o (Frames.top p)).links p o u) (hu : u.Balanced n)
    (hp : Frames.Awaits p (Shape.heightOver c n)) (hc : c = true → u.isRed = false) :
    Ends (treeDelLinked fuel o (Frames.top p) c) t fun _ t' => t'.key = t.key ∧
      t'.Stands (Frames.fill p u).toList := by
  set t₁ := t.setParentOf o (Frames.top p) with ht₁
  have hk₁ : t₁.key = t.key := Tree.key_setParentOf
  rw [← hk₁]
  simp only [treeDelLinked, ends_bind, ends_setParentOf, ends_ite, ends_pure, ends_read, ends_setRedOf]
  have hred : t₁.isRed o = u.isRed := isRed_rootOf hf.lays
  refine ⟨fun h => ?_, fun h => ?_⟩
  · rw [h] at hp
    exact ⟨rfl, stands_of_awaits hf hu (hc h) hp⟩
  · rw [Bool.not_eq_true] at h
    rw [h] at hp
    refine ⟨fun hr => ?_, fun hr => ?_⟩
    · have hk : (t₁.setRedOf o false).key = t₁.key := by cases o <;> simp [Tree.setRedOf]
      exact ⟨hk, stands_setRedOf hf (hu.setRed_of_red (hred.symm.trans hr)) hp⟩
    · rw [hred, Bool.not_eq_true] at hr
      refine (treeDelLoop_ends hfuel hf hu hr hp).mono fun r t' h => ⟨?_, h.2⟩
      rw [← h.1]
      cases r <;> simp [Tree.setRedOf]

omit [DecidableEq ι] in
/-- The way to the leftmost node goes down on the left only. -/
theorem treeLeftmost_ends {fuel : Nat} (hfuel : u.depth ≤ fuel) (hf : Focus t.links p (some x) u) :
    Ends (treeLeftmost fuel x) t fun y t' => t' = t ∧
      ∃ q c e, u = Frames.fill q (.node c .nil y e) ∧ ∀ f ∈ q, f.side = .left := by
  induction fuel generalizing u p x with
  | zero =>
    obtain rfl : u = .nil := by cases u <;> simp_all [Shape.depth]
    cases hf.lays
  | succ fuel ih =>
    obtain rfl | ⟨c, a, x', b, rfl⟩ := Shape.eq_nil_or_mk .left u
    · cases hf.lays
    obtain rfl : x = x' := Option.some.inj hf.node.1
    have hlink : t.link x .left = a.rootOf := hf.node.2.2.2.1
    simp only [treeLeftmost, ends_bind, ends_read, hlink]
    obtain rfl | ⟨d, a₁, z, a₂, ha⟩ := Shape.eq_nil_or_mk .left a
    · exact ends_pure.mpr ⟨rfl, [], c, b, rfl, by simp⟩
    · have hz : a.rootOf = some z := ha ▸ Shape.rootOf_mk
      have hdown := hf.down
      rw [hz] at hlink ⊢
      rw [show t.links.link x .left = some z from hlink] at hdown
      have hd : a.depth ≤ fuel := by
        simp only [Shape.mk, Shape.depth] at hfuel
        omega
      refine (ih hd hdown).mono fun y t' h => ?_
      obtain ⟨ht, q, c', e, rfl, hq⟩ := h
      refine ⟨ht, q ++ [⟨.left, c, x, b⟩], c', e, by rw [Frames.fill_append]; rfl, fun f hf => ?_⟩
      rcases List.mem_append.mp hf with hf | hf
      · exact hq f hf
      · rw [List.mem_singleton.mp hf]

omit [DecidableEq ι] in
theorem before_left (hq : ∀ f ∈ p, f.side = .left) : Frames.before p = [] := by
  induction p with
  | nil => rfl
  | cons f p ih =>
    rw [Frames.before, ih fun g hg => hq g (List.mem_cons_of_mem _ hg), hq f List.mem_cons_self]
    rfl

/-- A node with at most one child. -/
theorem treeDelOne_ends {fuel m : Nat} (hfuel : p.length < fuel) (hf : Focus t.links p (some x) (.mk s c .nil x b))
    (hb : (Shape.mk s c .nil x b).Balanced m) (hp : Frames.Awaits p m) :
    Ends (treeRelink (Frames.top p) x (t.link x s.other)) t fun _ t₁ =>
      Ends (treeDelOne fuel x (Frames.top p) (t.link x s.other)) t₁ fun _ t' =>
        t'.key = t.key ∧ t'.Stands (Frames.fill p b).toList := by
  obtain ⟨n, rfl, _, hb, hc⟩ := hb.over
  refine (treeRelink_ends hf).mono fun _ t₁ h₁ => ?_
  obtain ⟨hl₁, hk₁⟩ := h₁
  have hred : t₁.red x = c := by
    show t₁.links.red x = c
    rw [hl₁, red_setHole]
    exact hf.node.2.2.1
  simp only [treeDelOne, ends_bind, ends_read, hred]
  rw [← hk₁]
  refine treeDelLinked_ends hfuel ?_ hb hp fun h => (hc h).2
  rw [Tree.links_setParentOf, hl₁]
  exact hf.splice

/-- A node with two children whose right child has none on its left. -/
theorem treeDelTwo_child {fuel m : Nat} {l : ι} {t₁ : Tree ι} (hfuel : p.length + 1 < fuel)
    (hf : Focus t.links (⟨.right, c, x, a⟩ :: p) (some y) (.node d .nil y e)) (hl : t.link x .left = some l)
    (hb : (Shape.node d .nil y e).Balanced m) (hp : Frames.Awaits (⟨.right, c, x, a⟩ :: p) m)
    (hl₁ : t₁.links = t.links.setHole p (some y)) (hk₁ : t₁.key = t.key) :
    Ends (treeDelTwo fuel x (Frames.top p) l y y) t₁ fun _ t' => t'.key = t.key ∧
      t'.Stands (Frames.fill p (.mk .right c e y a)).toList := by
  obtain ⟨n, rfl, _, hb, hc⟩ := (show (Shape.mk .left d .nil y e).Balanced m from hb).over
  have hfoc := hf.takeOver_child hl
  have hnode := (show Focus t.links _ _ (.mk .left d .nil y e) from hf).node
  have hup := hf.up.node
  have hred : t₁.red y = d := by
    show t₁.links.red y = d
    rw [hl₁, red_setHole]
    exact hnode.2.2.1
  have hredx : t₁.red x = t.red x := by
    show t₁.links.red x = _
    rw [hl₁, red_setHole]
    rfl
  simp only [treeDelTwo, ends_bind, ends_read, ends_modify, ne_eq, not_true_eq_false, if_false, hred, hredx]
  set t₂ := (((t₁.setRed y (t.red x)).setLink y .left (some l)).setParent l (some y)).setParent y (Frames.top p)
    with ht₂
  have hl₂ : t₂.links = ((((t.links.setHole p (some y)).setRed y (t.links.red x)).setLink y .left (some l)
      ).setParent l (some y)).setParent y (Frames.top p) := by
    simp only [ht₂, Tree.links_setParent, Tree.links_setLink, Tree.links_setRed, hl₁]
    rfl
  have hk₂ : t₂.key = t.key := by simp [ht₂, hk₁]
  have hslot : slot p ≠ some (y, .right) := fun h =>
    hf.distinct.2.2 y ((Shape.mem_mk (s := .left)).mpr (.inl rfl))
      (List.mem_cons_of_mem _ (List.mem_append_right _ (slot_mem h)))
  have hchild : t₂.link y .right = e.rootOf := by
    show t₂.links.link y .right = _
    rw [hl₂]
    simp only [link_setParent, link_setLink_eq, link_setRed, link_setHole_eq, hslot, if_false, reduceCtorEq, and_false]
    exact hnode.2.2.2.2
  rw [hchild, ← hk₂]
  refine treeDelLinked_ends (p := ⟨.right, c, y, a⟩ :: p) hfuel ?_ hb (Frames.Awaits.rename (q := []) hp) fun h => (hc h).2
  rw [Tree.links_setParentOf, hl₂]
  exact hfoc

/-- A node with two children, when the next node is further down. -/
theorem treeDelTwo_deep {fuel m : Nat} {l r : ι} {f : Frame ι} {q : List (Frame ι)} {t₁ : Tree ι}
    (hfuel : ((f :: q) ++ ⟨.right, c, x, a⟩ :: p).length < fuel)
    (hf : Focus t.links ((f :: q) ++ ⟨.right, c, x, a⟩ :: p) (some y) (.node d .nil y e)) (hside : f.side = .left)
    (hl : t.link x .left = some l) (hr : t.link x .right = some r) (hb : (Shape.node d .nil y e).Balanced m)
    (hp : Frames.Awaits ((f :: q) ++ ⟨.right, c, x, a⟩ :: p) m)
    (hl₁ : t₁.links = t.links.setHole p (some y)) (hk₁ : t₁.key = t.key) :
    Ends (treeDelTwo fuel x (Frames.top p) l r y) t₁ fun _ t' => t'.key = t.key ∧
      t'.Stands (Frames.fill p (.mk .right c (Frames.fill (f :: q) e) y a)).toList := by
  obtain ⟨n, rfl, _, hb, hc⟩ := (show (Shape.mk .left d .nil y e).Balanced m from hb).over
  have hfoc := hf.takeOver_deep hside hl hr
  have hapart := hf.apart hl hr
  have hnode := (show Focus t.links _ _ (.mk .left d .nil y e) from hf).node
  have hred : t₁.red y = d := by
    show t₁.links.red y = d
    rw [hl₁, red_setHole]
    exact hnode.2.2.1
  have hredx : t₁.red x = t.red x := by
    show t₁.links.red x = _
    rw [hl₁, red_setHole]
    rfl
  simp only [treeDelTwo, ends_bind, ends_read, ends_modify, ne_eq, hapart.ry.symm, not_false_eq_true, if_true, hred,
    hredx]
  set t₂ := ((t₁.setRed y (t.red x)).setLink y .left (some l)).setParent l (some y) with ht₂
  have hl₂ : t₂.links = (((t.links.setHole p (some y)).setRed y (t.links.red x)).setLink y .left (some l)
      ).setParent l (some y) := by
    simp only [ht₂, Tree.links_setParent, Tree.links_setLink, Tree.links_setRed, hl₁]
    rfl
  have hpy : t₂.parent y = some f.id := by
    show t₂.links.parent y = _
    rw [hl₂, parent_setParent_of_ne hapart.ly.symm, parent_setLink, parent_setRed, parent_setHole]
    exact hnode.2.1
  have hpx : t₂.parent x = Frames.top p := by
    show t₂.links.parent x = _
    rw [hl₂, parent_setParent_of_ne hapart.lx.symm, parent_setLink, parent_setRed, parent_setHole]
    exact hf.above.node.2.1
  have hslot : slot p ≠ some (y, .right) := fun h => hapart.yp (slot_mem h)
  have hchild : (t₂.setParent y (Frames.top p)).link y .right = e.rootOf := by
    show (t₂.setParent y (Frames.top p)).links.link y .right = _
    rw [Tree.links_setParent, hl₂]
    simp only [link_setParent, link_setLink_eq, link_setRed, link_setHole_eq, hslot, if_false, reduceCtorEq, and_false]
    exact hnode.2.2.2.2
  simp only [hpy, ends_deref_some, hpx, hchild]
  have hk₃ : ((((t₂.setParent y (Frames.top p)).setLink f.id .left e.rootOf).setLink y .right (some r)).setParent r
      (some y)).key = t.key := by simp [ht₂, hk₁]
  rw [← hk₃, show Frames.fill p (.mk .right c (Frames.fill (f :: q) e) y a) =
    Frames.fill ((f :: q) ++ ⟨.right, c, y, a⟩ :: p) e by rw [Frames.fill_append]; rfl]
  refine treeDelLinked_ends (p := (f :: q) ++ ⟨.right, c, y, a⟩ :: p) (by simpa using hfuel) ?_ hb hp.rename
    fun h => (hc h).2
  simp only [Tree.links_setParentOf, Tree.links_setParent, Tree.links_setLink, hl₂]
  exact hfoc

theorem erase_fill {l r : Shape ι} (hnd : (Frames.fill p (.node c l x r)).toList.Nodup) :
    (Frames.fill p (.node c l x r)).toList.erase x = Frames.before p ++ l.toList ++ r.toList ++ Frames.after p := by
  simp only [Frames.toList_fill, Shape.toList, List.append_assoc, List.cons_append] at hnd ⊢
  rw [← List.append_assoc] at hnd ⊢
  have hx : x ∉ Frames.before p ++ l.toList := fun hm =>
    (List.nodup_append.mp hnd).2.2 x hm x List.mem_cons_self rfl
  rw [List.erase_append_right _ hx, List.erase_cons_head, List.append_assoc]

/-- `tree_del` takes a node of the tree out. -/
theorem treeDel_ends {l : List ι} {fuel : Nat} (hfuel : 2 * Nat.log 2 (l.length + 1) < fuel) (h : t.Holds l)
    (hx : x ∈ l) : Ends (treeDel fuel x) t fun _ t' => t'.key = t.key ∧ t'.Holds (l.erase x) := by
  obtain ⟨⟨u, hroot, rfl, hrb⟩, hs⟩ := h
  have hdepth : u.depth < fuel := Nat.lt_of_le_of_lt hrb.depth_le hfuel
  obtain ⟨p, c, a, b, rfl⟩ := Frames.exists_fill hx
  obtain ⟨o, hf⟩ := hroot.of_fill
  rw [List.append_nil] at hf
  obtain ⟨m, hm⟩ := hrb.2
  obtain ⟨n, hn, hp, _⟩ := Frames.awaits_of_fill hm hrb.1
  rw [erase_fill hroot.nodup]
  suffices hend : Ends (treeDel fuel x) t fun _ t' => t'.key = t.key ∧
      t'.Stands (Frames.before p ++ a.toList ++ b.toList ++ Frames.after p) by
    refine hend.mono fun _ t' h => ⟨h.1, h.2, ?_⟩
    rw [h.1, ← erase_fill hroot.nodup]
    exact hs.sublist List.erase_sublist
  obtain rfl : o = some x := hf.lays.1
  have hlen : p.length < fuel := Nat.lt_of_le_of_lt (Nat.le_trans (Nat.le_add_right _ _) Frames.length_add_depth_le) hdepth
  obtain ⟨_, hpar, _, hleft, hright⟩ := (show Focus t.links p (some x) (.mk .left c a x b) from hf).node
  replace hpar : t.parent x = Frames.top p := hpar
  replace hleft : t.link x .left = a.rootOf := hleft
  replace hright : t.link x .right = b.rootOf := hright
  simp only [treeDel, ends_bind, ends_read, hpar]
  obtain rfl | ⟨ca, a₁, l, a₂, ha⟩ := Shape.eq_nil_or_mk .left a
  · have hone := treeDelOne_ends (s := .left) hlen hf hn hp
    simp only [hleft, Shape.rootOf_nil, ends_bind]
    refine hone.mono fun _ t₁ h => h.mono fun _ t' h => ⟨h.1, ?_⟩
    rw [show Frames.before p ++ Shape.nil.toList ++ b.toList ++ Frames.after p = (Frames.fill p b).toList by
      simp [Frames.toList_fill]]
    exact h.2
  · have hl : t.link x .left = some l := hleft.trans (ha ▸ Shape.rootOf_mk)
    obtain rfl | ⟨cb, b₁, r, b₂, hb⟩ := Shape.eq_nil_or_mk .right b
    · simp only [hl, hright, Shape.rootOf_nil, ends_bind]
      have hone := treeDelOne_ends (s := .right) hlen hf hn hp
      rw [show Side.right.other = .left from rfl, hl] at hone
      refine hone.mono fun _ t₁ h => h.mono fun _ t' h => ⟨h.1, ?_⟩
      rw [show Frames.before p ++ a.toList ++ Shape.nil.toList ++ Frames.after p = (Frames.fill p a).toList by
        simp [Frames.toList_fill]]
      exact h.2
    · have hr : t.link x .right = some r := hright.trans (hb ▸ Shape.rootOf_mk)
      simp only [hl, hr, ends_bind]
      have hdown : Focus t.links (⟨.right, c, x, a⟩ :: p) (some r) b := by
        have h := (show Focus t.links p (some x) (.mk .left c a x b) from hf).down_other
        rwa [show Side.left.other = .right from rfl, show t.links.link x .right = some r from hr] at h
      have hdb : b.depth ≤ fuel := by
        have h := Frames.length_add_depth_le (p := p) (t := .node c a x b)
        simp only [Shape.depth] at h
        omega
      refine (treeLeftmost_ends hdb hdown).mono fun y t' h => ?_
      obtain ⟨rfl, q, d, e, rfl, hq⟩ := h
      refine (treeRelink_ends hf).mono fun _ t₁ h₁ => ?_
      obtain ⟨o', hy⟩ := hdown.of_fill
      obtain rfl : o' = some y := hy.lays.1
      have hfill : Frames.fill p (.node c a x (Frames.fill q (.node d .nil y e))) =
          Frames.fill (q ++ ⟨.right, c, x, a⟩ :: p) (.node d .nil y e) := by
        rw [Frames.fill_append]
        rfl
      rw [hfill] at hm hrb hdepth
      obtain ⟨k, hk, hpq, _⟩ := Frames.awaits_of_fill hm hrb.1
      have hlenq : (q ++ ⟨.right, c, x, a⟩ :: p).length < fuel :=
        Nat.lt_of_le_of_lt (Nat.le_trans (Nat.le_add_right _ _) Frames.length_add_depth_le) hdepth
      have hlist : Frames.before p ++ a.toList ++ (Frames.fill q (.node d .nil y e)).toList ++ Frames.after p =
          (Frames.fill p (.mk .right c (Frames.fill q e) y a)).toList := by
        simp [Frames.toList_fill, Shape.mk, Shape.toList, before_left hq]
      rw [hlist]
      cases q with
      | nil =>
        obtain rfl : r = y := Option.some.inj (hr.symm.trans hright)
        rw [List.nil_append, List.length_cons] at hlenq
        exact treeDelTwo_child hlenq hdown hl hk hpq h₁.1 h₁.2
      | cons f q => exact treeDelTwo_deep hlenq hy (hq f List.mem_cons_self) hl hr hk hpq h₁.1 h₁.2

end MNet.Wepoll
