import MNet.SkipList.Model
import MNet.Lib.Ring
import Mathlib.Data.List.Nodup
import Mathlib.Data.List.Perm.Subperm

/-! # What the skip list is

A sorted list of nodes, each with a height. `Holds` says that the memory holds such a list: on
level `i` the links are a ring of the nodes higher than `i`, in order. -/

namespace MNet.Skip
open MNet.Lib MNet.Lib.Exec

/-- The list, the heights of its nodes, and the address of the next one. -/
structure Clock where
  list : List TmNode
  height : NodeId → Nat
  next : NodeId

def Clock.start : Clock := ⟨[], fun _ => 0, 0⟩

/-- A new node goes before the first one whose key is not smaller. -/
def Clock.apply (c : Clock) : Op → Clock
  | .insert hits key value =>
    { list := MNet.skiplistInsert c.list { id := c.next, key := key, tm := value }
      height := Function.update c.height c.next (skiplistRandomLevel hits)
      next := c.next + 1 }
  | .remove id => { c with list := skiplistRemove c.list id }

/-- Removals are of nodes that are in the list. -/
def Clock.Allows (c : Clock) : List Op → Prop
  | [] => True
  | op :: ops => (∀ id, op = .remove id → ∃ a ∈ c.list, a.id = id) ∧ (c.apply op).Allows ops

/-- The height of the highest node. -/
def top (height : NodeId → Nat) (l : List TmNode) : Nat := (l.map (height ·.id)).foldr max 0

/-- The links of level `i`. -/
def levelLinks (height : NodeId → Nat) (i : Nat) (l : List TmNode) : List SkLink :=
  (l.filter (i < height ·.id)).map fun a => ⟨.node a.id, i⟩

structure Holds (m : SkipList) (c : Clock) : Prop where
  sorted : c.list.Pairwise (·.key ≤ ·.key)
  ids : (c.list.map TmNode.id).Nodup
  fresh : ∀ a ∈ c.list, a.id < c.next
  height : ∀ a ∈ c.list, 1 ≤ c.height a.id ∧ c.height a.id ≤ MNET_SKIPLIST_MAX_LEVEL
  next : m.nextNode = c.next
  node : ∀ a ∈ c.list, m.node a.id = some { key := a.key, value := a.tm, level := c.height a.id }
  freed : ∀ id, (∀ a ∈ c.list, a.id ≠ id) → m.node id = none
  count : m.count = c.list.length
  level : m.level = top c.height c.list ∨ (c.list = [] ∧ m.level = 1)
  ring : ∀ i < MNET_SKIPLIST_MAX_LEVEL, Ring m.next m.prev ⟨.head, i⟩ (levelLinks c.height i c.list)

variable {m m' : SkipList} {c : Clock} {height : NodeId → Nat} {i : Nat} {l A B : List TmNode} {a b : TmNode}

/-! ## Levels -/

theorem levelLinks_append : levelLinks height i (A ++ B) = levelLinks height i A ++ levelLinks height i B := by
  simp [levelLinks]

theorem mem_levelLinks {p : SkLink} :
    p ∈ levelLinks height i l ↔ ∃ a ∈ l, i < height a.id ∧ p = ⟨.node a.id, i⟩ := by
  simp only [levelLinks, List.mem_map, List.mem_filter, decide_eq_true_eq, and_assoc]
  exact exists_congr fun a => and_congr_right fun _ => and_congr_right fun _ => eq_comm

theorem levelLinks_cons_of_lt (h : i < height a.id) :
    levelLinks height i (a :: l) = ⟨.node a.id, i⟩ :: levelLinks height i l := by
  simp [levelLinks, h]

theorem levelLinks_cons_of_le (h : height a.id ≤ i) :
    levelLinks height i (a :: l) = levelLinks height i l := by
  simp [levelLinks, Nat.not_lt.mpr h]

theorem nodup_levelLinks (hids : (l.map TmNode.id).Nodup) :
    ((⟨.head, i⟩ : SkLink) :: levelLinks height i l).Nodup := by
  rw [List.nodup_cons]
  constructor
  · intro h
    obtain ⟨a, _, _, he⟩ := mem_levelLinks.mp h
    cases he
  · have hsub : ((l.filter (i < height ·.id)).map TmNode.id).Nodup :=
      (List.filter_sublist.map TmNode.id).nodup hids
    rw [levelLinks, show (fun a : TmNode => (⟨.node a.id, i⟩ : SkLink)) =
      (fun id => ⟨.node id, i⟩) ∘ TmNode.id from rfl, ← List.map_map]
    exact hsub.map fun p q hpq => by cases hpq; rfl

theorem levelLinks_eq_nil : levelLinks height i l = [] ↔ top height l ≤ i := by
  induction l with
  | nil => simp [levelLinks, top]
  | cons a l ih =>
    rw [show top height (a :: l) = max (height a.id) (top height l) from rfl, Nat.max_le, ← ih]
    by_cases h : i < height a.id
    · simp [levelLinks_cons_of_lt h, Nat.not_le.mpr h]
    · simp [levelLinks_cons_of_le (Nat.not_lt.mp h), Nat.not_lt.mp h]

theorem levelLinks_congr {height' : NodeId → Nat} (h : ∀ a ∈ l, height' a.id = height a.id) :
    levelLinks height' i l = levelLinks height i l := by
  rw [levelLinks, levelLinks, List.filter_congr fun a ha => by rw [h a ha]]

/-- On level 0 are all nodes. -/
theorem levelLinks_zero (h : ∀ a ∈ l, 1 ≤ height a.id) :
    levelLinks height 0 l = l.map fun a => ⟨.node a.id, 0⟩ := by
  have hall : l.filter (0 < height ·.id) = l := List.filter_eq_self.mpr fun a ha => decide_eq_true (h a ha)
  rw [levelLinks, hall]

theorem top_append : top height (A ++ B) = max (top height A) (top height B) := by
  induction A with
  | nil => simp [top]
  | cons a A ih =>
    rw [List.cons_append, show top height (a :: (A ++ B)) = max (height a.id) (top height (A ++ B)) from rfl, ih,
      show top height (a :: A) = max (height a.id) (top height A) from rfl, Nat.max_assoc]

theorem top_middle : top height (A ++ a :: B) = max (height a.id) (top height (A ++ B)) := by
  rw [top_append, top_append, show top height (a :: B) = max (height a.id) (top height B) from rfl]
  omega

theorem top_congr {height' : NodeId → Nat} (h : ∀ a ∈ l, height' a.id = height a.id) :
    top height' l = top height l := by
  rw [top, top, List.map_congr_left h]

theorem top_le {k : Nat} (h : ∀ a ∈ l, height a.id ≤ k) : top height l ≤ k := by
  induction l with
  | nil => exact Nat.zero_le _
  | cons a l ih => exact Nat.max_le.mpr ⟨h a (by simp), ih fun b hb => h b (by simp [hb])⟩

/-! ## Links -/

theorem returns_checkLink {p : SkLink} (hp : p.level < m.links p.owner) : Returns (checkLink p) m () m := by
  rw [checkLink, (returns_read.mpr ⟨rfl, rfl⟩).bind_iff, if_pos (show p.level < (id m).links p.owner from hp)]
  exact returns_pure.mpr ⟨rfl, rfl⟩

theorem returns_linkNext {p : SkLink} (hp : p.level < m.links p.owner) :
    Returns (linkNext p) m (m.next p) m := by
  rw [linkNext, (returns_checkLink hp).bind_iff]
  exact returns_read.mpr ⟨rfl, rfl⟩

theorem returns_linkPrev {p : SkLink} (hp : p.level < m.links p.owner) :
    Returns (linkPrev p) m (m.prev p) m := by
  rw [linkPrev, (returns_checkLink hp).bind_iff]
  exact returns_read.mpr ⟨rfl, rfl⟩

/-- The same list with other links. -/
def SkipList.relinked (m : SkipList) (next prev : SkLink → SkLink) : SkipList := { m with next := next, prev := prev }

theorem returns_setNext {p q : SkLink} (hp : p.level < m.links p.owner) :
    Returns (setNext p q) m () (m.relinked (Function.update m.next p q) m.prev) := by
  rw [setNext, (returns_checkLink hp).bind_iff]
  exact returns_modify.mpr rfl

theorem returns_setPrev {p q : SkLink} (hp : p.level < m.links p.owner) :
    Returns (setPrev p q) m () (m.relinked m.next (Function.update m.prev p q)) := by
  rw [setPrev, (returns_checkLink hp).bind_iff]
  exact returns_modify.mpr rfl

theorem returns_listAdd {x p e : SkLink} (hx : x.level < m.links x.owner) (hp : p.level < m.links p.owner)
    (he : e.level < m.links e.owner) :
    Returns (listAdd x p e) m () (m.relinked (Function.update (Function.update m.next x e) p x)
      (Function.update (Function.update m.prev x p) e x)) := by
  rw [listAdd, (returns_setNext hx).bind_iff, (returns_setPrev (by exact hx)).bind_iff,
    (returns_setPrev (by exact he)).bind_iff]
  exact returns_setNext (by exact hp)

theorem returns_listDel {x : SkLink} (hx : x.level < m.links x.owner)
    (hp : (m.prev x).level < m.links (m.prev x).owner) (he : (m.next x).level < m.links (m.next x).owner) :
    Returns (listDel x) m () (m.relinked (Function.update (Function.update m.next (m.prev x) (m.next x)) x x)
      (Function.update (Function.update m.prev (m.next x) (m.prev x)) x x)) := by
  rw [listDel, (returns_linkPrev hx).bind_iff, (returns_linkNext hx).bind_iff, listUnlink, listInit,
    ((returns_setNext hp).bind_iff.mpr (returns_setPrev (by exact he))).bind_iff,
    (returns_setNext (by exact hx)).bind_iff]
  exact returns_setPrev (by exact hx)

/-! ## Insertion -/

/-- The node is in memory as the list has it. -/
def InMemory (m : SkipList) (height : NodeId → Nat) (a : TmNode) : Prop :=
  m.node a.id = some { key := a.key, value := a.tm, level := height a.id }

theorem InMemory.links (h : InMemory m height a) : m.links (.node a.id) = height a.id := by
  unfold InMemory at h
  simp [SkipList.links, h]

theorem InMemory.entry (h : InMemory m height a) (hi : i < height a.id) :
    Returns (listEntry ⟨.node a.id, i⟩ i) m { key := a.key, value := a.tm, level := height a.id } m := by
  rw [listEntry, (returns_checkLink (by rw [h.links]; exact hi)).bind_iff, (returns_read.mpr ⟨rfl, rfl⟩).bind_iff]
  simp only [if_true]
  exact returns_require.mpr ⟨h, rfl⟩

/-- The search passes the smaller keys and stops at `F`: the old `end`, or a key that is not smaller. -/
theorem searchLoop_spec {key : Int} {F stop : SkLink} {fuel : Nat} (hfuel : A.length < fuel)
    (hchain : List.IsChain (Linked m.next m.prev) (levelLinks height i A ++ [F]))
    (hmem : ∀ b ∈ A, InMemory m height b) (hlt : ∀ b ∈ A, b.key < key)
    (hne : ∀ b ∈ A, stop ≠ ⟨.node b.id, i⟩)
    (hF : F = stop ∨ ∃ b, InMemory m height b ∧ i < height b.id ∧ key ≤ b.key ∧ F = ⟨.node b.id, i⟩) :
    Returns (searchLoop i key fuel (firstOf F (levelLinks height i A)) stop) m F m := by
  induction A generalizing fuel with
  | nil =>
    obtain ⟨fuel, rfl⟩ := Nat.exists_eq_add_of_lt hfuel
    show Returns (searchLoop i key (_ + 1) F stop) m F m
    rw [searchLoop]
    by_cases hstop : F = stop
    · rw [if_pos hstop, hstop]
      exact returns_pure.mpr ⟨rfl, rfl⟩
    · obtain ⟨b, hb, hi, hk, rfl⟩ := hF.resolve_left hstop
      rw [if_neg hstop, (hb.entry hi).bind_iff, if_pos hk]
      exact returns_pure.mpr ⟨rfl, rfl⟩
  | cons a A ih =>
    have ih' := fun fuel' (hf : A.length < fuel') hc => ih hf hc
      (fun b hb => hmem b (List.mem_cons_of_mem _ hb)) (fun b hb => hlt b (List.mem_cons_of_mem _ hb))
      (fun b hb => hne b (List.mem_cons_of_mem _ hb))
    obtain ⟨fuel, rfl⟩ : ∃ f, fuel = f + 1 := ⟨fuel - 1, by simp at hfuel; omega⟩
    by_cases hi : i < height a.id
    · rw [levelLinks_cons_of_lt hi] at hchain ⊢
      have ha := hmem a List.mem_cons_self
      have hnext : m.next ⟨.node a.id, i⟩ = firstOf F (levelLinks height i A) := by
        cases hl : levelLinks height i A with
        | nil =>
          rw [hl] at hchain
          exact (List.isChain_cons_cons.mp hchain).1.1
        | cons q l =>
          rw [hl] at hchain
          exact (List.isChain_cons_cons.mp hchain).1.1
      rw [show firstOf F ((⟨.node a.id, i⟩ : SkLink) :: levelLinks height i A) = ⟨.node a.id, i⟩ from rfl, searchLoop,
        if_neg (hne a List.mem_cons_self).symm, (ha.entry hi).bind_iff,
        if_neg (Int.not_le.mpr (hlt a List.mem_cons_self)),
        (returns_linkNext (by rw [ha.links]; exact hi)).bind_iff, hnext]
      exact ih' fuel (by simp at hfuel; omega) hchain.tail
    · rw [levelLinks_cons_of_le (Nat.not_lt.mp hi)] at hchain ⊢
      exact ih' (fuel + 1) (by simp at hfuel; omega) hchain

/-- The same nodes, and the same links but on the levels `S`. -/
structure Rewired (S : Nat → Prop) (m m' : SkipList) : Prop where
  node : m'.node = m.node
  level : m'.level = m.level
  count : m'.count = m.count
  nextNode : m'.nextNode = m.nextNode
  links : ∀ p : SkLink, ¬ S p.level → m'.next p = m.next p ∧ m'.prev p = m.prev p

theorem Rewired.refl (S : Nat → Prop) (m : SkipList) : Rewired S m m := ⟨rfl, rfl, rfl, rfl, fun _ _ => ⟨rfl, rfl⟩⟩

theorem Rewired.trans {S T U : Nat → Prop} {a b d : SkipList} (h : Rewired S a b) (h' : Rewired T b d)
    (hS : ∀ i, S i → U i) (hT : ∀ i, T i → U i) : Rewired U a d where
  node := h'.node.trans h.node
  level := h'.level.trans h.level
  count := h'.count.trans h.count
  nextNode := h'.nextNode.trans h.nextNode
  links p hp :=
    have hs := h.links p fun hs => hp (hS _ hs)
    have ht := h'.links p fun ht => hp (hT _ ht)
    ⟨ht.1.trans hs.1, ht.2.trans hs.2⟩

theorem Rewired.inMemory {S : Nat → Prop} (h : Rewired S m m') (ha : InMemory m height a) : InMemory m' height a := by
  rw [InMemory, h.node]
  exact ha

theorem level_of_mem {p : SkLink} (hp : p ∈ (⟨.head, i⟩ : SkLink) :: levelLinks height i l) : p.level = i := by
  rcases List.mem_cons.mp hp with rfl | hp
  · rfl
  · obtain ⟨a, _, _, rfl⟩ := mem_levelLinks.mp hp
    rfl

theorem Rewired.ring {S : Nat → Prop} (h : Rewired S m m') (hi : ¬ S i)
    (hr : Ring m.next m.prev ⟨.head, i⟩ (levelLinks height i l)) :
    Ring m'.next m'.prev ⟨.head, i⟩ (levelLinks height i l) :=
  hr.congr (fun p hp => (h.links p (by rw [level_of_mem hp]; exact hi)).1)
    fun p hp => (h.links p (by rw [level_of_mem hp]; exact hi)).2

/-- Where a search of level `i` may start or end: the head, or a node of the list that is there. -/
def Cursor (height : NodeId → Nat) (l : List TmNode) (i : Nat) (o : Owner) : Prop :=
  o = .head ∨ ∃ b ∈ l, i < height b.id ∧ o = .node b.id

theorem Cursor.valid (hmem : ∀ b ∈ l, InMemory m height b) (hi : i < MNET_SKIPLIST_MAX_LEVEL) {o : Owner}
    (h : Cursor height l i o) : i < m.links o := by
  obtain rfl | ⟨b, hb, hlt, rfl⟩ := h
  · exact hi
  · rw [(hmem b hb).links]
    exact hlt

theorem Cursor.below {o : Owner} (h : Cursor height l (i + 1) o) : Cursor height l i o :=
  h.imp_right fun ⟨b, hb, hlt, ho⟩ => ⟨b, hb, Nat.lt_of_succ_lt hlt, ho⟩

/-- The search of one level: from anywhere before the place of the new key to its place. -/
theorem search_level (hmem : ∀ b ∈ A ++ B, InMemory m height b)
    (hids : ((A ++ B).map TmNode.id).Nodup) {key : Int} (hlt : ∀ b ∈ A, b.key < key)
    (hge : ∀ b ∈ B, key ≤ b.key) {fuel : Nat} (hfuel : A.length < fuel)
    (hring : Ring m.next m.prev ⟨.head, i⟩ (levelLinks height i (A ++ B))) {P E : Owner}
    (hP : Cursor height A i P) (hE : Cursor height B i E) :
    Returns (searchLoop i key fuel (m.next ⟨P, i⟩) ⟨E, i⟩) m (firstOf ⟨.head, i⟩ (levelLinks height i B)) m := by
  rw [levelLinks_append] at hring
  obtain ⟨hbefore, _, hcut⟩ := ring_append.mp hring
  -- the level-`i` links behind `P`, up to the place
  obtain ⟨A', hsub, hnext, hchain⟩ : ∃ A', A'.Sublist A ∧
      m.next ⟨P, i⟩ = firstOf (firstOf ⟨.head, i⟩ (levelLinks height i B)) (levelLinks height i A') ∧
      List.IsChain (Linked m.next m.prev)
        (levelLinks height i A' ++ [firstOf ⟨.head, i⟩ (levelLinks height i B)]) := by
    have hall : List.IsChain (Linked m.next m.prev) ((⟨.head, i⟩ :: levelLinks height i A) ++
        [firstOf ⟨.head, i⟩ (levelLinks height i B)]) := by
      rw [List.isChain_append, getLast?_cons_eq]
      refine ⟨hbefore, .singleton _, fun p hp e he => ?_⟩
      obtain rfl : lastOf _ _ = p := by simpa using hp
      obtain rfl : firstOf _ _ = e := by simpa using he
      exact hcut
    have hstep : ∀ {p : SkLink} {l : List SkLink}, List.IsChain (Linked m.next m.prev) (p :: l ++
        [firstOf ⟨.head, i⟩ (levelLinks height i B)]) →
          m.next p = firstOf (firstOf ⟨.head, i⟩ (levelLinks height i B)) l ∧
          List.IsChain (Linked m.next m.prev) (l ++ [firstOf ⟨.head, i⟩ (levelLinks height i B)]) := by
      intro p l hc
      cases l with
      | nil => exact ⟨(List.isChain_cons_cons.mp hc).1.1, .singleton _⟩
      | cons q l => exact ⟨(List.isChain_cons_cons.mp hc).1.1, (List.isChain_cons_cons.mp hc).2⟩
    obtain rfl | ⟨b, hb, hbi, rfl⟩ := hP
    · exact ⟨A, List.Sublist.refl A, hstep hall⟩
    · obtain ⟨A₁, A₂, rfl⟩ := List.append_of_mem hb
      rw [levelLinks_append, levelLinks_cons_of_lt hbi, ← List.cons_append, List.append_assoc] at hall
      exact ⟨A₂, (List.sublist_cons_self b A₂).trans (List.sublist_append_right A₁ _), hstep hall.right_of_append⟩
  rw [hnext]
  have hin : ∀ b ∈ A', b ∈ A := fun b hb => hsub.subset hb
  refine searchLoop_spec (Nat.lt_of_le_of_lt hsub.length_le hfuel) hchain
    (fun b hb => hmem b (List.mem_append_left _ (hin b hb))) (fun b hb => hlt b (hin b hb)) (fun b hb he => ?_) ?_
  · obtain rfl | ⟨e, hem, _, rfl⟩ := hE
    · cases he
    · have hid : e.id = b.id := by
        injection he with ho
        injection ho
      rw [List.map_append, List.nodup_append] at hids
      exact hids.2.2 b.id (List.mem_map_of_mem (hin b hb)) e.id (List.mem_map_of_mem hem) hid.symm
  · cases hl : levelLinks height i B with
    | nil =>
      obtain rfl | ⟨e, hem, hei, rfl⟩ := hE
      · exact .inl rfl
      · have : (⟨.node e.id, i⟩ : SkLink) ∈ levelLinks height i B := mem_levelLinks.mpr ⟨e, hem, hei, rfl⟩
        simp [hl] at this
    | cons q l =>
      obtain ⟨e, hem, hei, rfl⟩ := mem_levelLinks.mp (show q ∈ levelLinks height i B by simp [hl])
      exact .inr ⟨e, hmem e (List.mem_append_right _ hem), hei, hge e hem, rfl⟩

theorem Cursor.lastOf (height : NodeId → Nat) (i : Nat) (l : List TmNode) :
    ∃ o, lastOf (⟨.head, i⟩ : SkLink) (levelLinks height i l) = ⟨o, i⟩ ∧ Cursor height l i o := by
  rcases List.mem_cons.mp (lastOf_mem (⟨.head, i⟩ : SkLink) (levelLinks height i l)) with h | h
  · exact ⟨.head, h, .inl rfl⟩
  · obtain ⟨b, hb, hlt, he⟩ := mem_levelLinks.mp h
    exact ⟨.node b.id, he, .inr ⟨b, hb, hlt, rfl⟩⟩

theorem Cursor.firstOf (height : NodeId → Nat) (i : Nat) (l : List TmNode) :
    ∃ o, firstOf (⟨.head, i⟩ : SkLink) (levelLinks height i l) = ⟨o, i⟩ ∧ Cursor height l i o := by
  rcases List.mem_append.mp (firstOf_mem (⟨.head, i⟩ : SkLink) (levelLinks height i l)) with h | h
  · obtain ⟨b, hb, hlt, he⟩ := mem_levelLinks.mp h
    exact ⟨.node b.id, he, .inr ⟨b, hb, hlt, rfl⟩⟩
  · exact ⟨.head, List.mem_singleton.mp h, .inl rfl⟩

/-- One level of the insertion loop: the node goes in at its place if it is high enough. -/
theorem insert_level (hi : i < MNET_SKIPLIST_MAX_LEVEL) (hmem : ∀ b ∈ A ++ a :: B, InMemory m height b)
    (hids : ((A ++ a :: B).map TmNode.id).Nodup)
    (hring : Ring m.next m.prev ⟨.head, i⟩ (levelLinks height i (A ++ B))) :
    ∃ m', Returns (Exec.when (i < height a.id) (listAdd ⟨.node a.id, i⟩
        (lastOf ⟨.head, i⟩ (levelLinks height i A)) (firstOf ⟨.head, i⟩ (levelLinks height i B)))) m () m' ∧
      Rewired (· = i) m m' ∧ Ring m'.next m'.prev ⟨.head, i⟩ (levelLinks height i (A ++ a :: B)) := by
  obtain ⟨P, hP, hPA⟩ := Cursor.lastOf height i A
  obtain ⟨F, hF, hFB⟩ := Cursor.firstOf height i B
  rw [hP, hF]
  by_cases hlt : i < height a.id
  · have hA : ∀ b ∈ A, InMemory m height b := fun b hb => hmem b (by simp [hb])
    have hB : ∀ b ∈ B, InMemory m height b := fun b hb => hmem b (by simp [hb])
    have hadd := returns_listAdd (m := m) (x := ⟨.node a.id, i⟩) (p := ⟨P, i⟩) (e := ⟨F, i⟩)
      (by rw [(hmem a (by simp)).links]; exact hlt) (hPA.valid hA hi) (hFB.valid hB hi)
    refine ⟨_, returns_when.mpr (.inl ⟨hlt, hadd⟩), ⟨rfl, rfl, rfl, rfl, fun p hp => ?_⟩, ?_⟩
    · have hother : ∀ o, p ≠ ⟨o, i⟩ := fun o he => hp (by rw [he])
      exact ⟨(Function.update_of_ne (hother P) ..).trans (Function.update_of_ne (hother _) ..),
        (Function.update_of_ne (hother F) ..).trans (Function.update_of_ne (hother _) ..)⟩
    · rw [levelLinks_append] at hring
      rw [levelLinks_append, levelLinks_cons_of_lt hlt, ← hP, ← hF]
      have hidsAB : ((A ++ B).map TmNode.id).Nodup := hids.sublist (by simp)
      have hnd : (⟨.head, i⟩ :: levelLinks height i (A ++ B)).Nodup := nodup_levelLinks hidsAB
      rw [levelLinks_append] at hnd
      refine hring.insert hnd ?_
      rw [← levelLinks_append, List.mem_cons, not_or]
      refine ⟨nofun, fun hm => ?_⟩
      obtain ⟨b, hb, _, he⟩ := mem_levelLinks.mp hm
      have hid : a.id = b.id := by
        injection he with ho
        injection ho
      rw [List.map_append, List.map_cons, List.nodup_middle, List.nodup_cons, ← List.map_append] at hids
      exact hids.1 (hid ▸ List.mem_map_of_mem hb)
  · refine ⟨m, returns_when.mpr (.inr ⟨hlt, rfl⟩), .refl _ m, ?_⟩
    rw [levelLinks_append, levelLinks_cons_of_le (Nat.not_lt.mp hlt), ← levelLinks_append]
    exact hring

/-- The loop goes down the levels: each search starts and ends where the one above it ended. -/
theorem insertLoop_spec {j : Nat} (hj : j ≤ MNET_SKIPLIST_MAX_LEVEL) (hmem : ∀ b ∈ A ++ a :: B, InMemory m height b)
    (hids : ((A ++ a :: B).map TmNode.id).Nodup) (hlt : ∀ b ∈ A, b.key < a.key) (hge : ∀ b ∈ B, a.key ≤ b.key)
    (hfuel : A.length ≤ m.nextNode)
    (hring : ∀ i < j, Ring m.next m.prev ⟨.head, i⟩ (levelLinks height i (A ++ B))) {P E : Owner}
    (hP : ∀ i, j = i + 1 → Cursor height A i P) (hE : ∀ i, j = i + 1 → Cursor height B i E) :
    ∃ m', Returns (insertLoop a.id (height a.id) a.key j ⟨P, j - 1⟩ ⟨E, j - 1⟩) m () m' ∧
      Rewired (· < j) m m' ∧ ∀ i < j, Ring m'.next m'.prev ⟨.head, i⟩ (levelLinks height i (A ++ a :: B)) := by
  induction j generalizing m P E with
  | zero => exact ⟨m, returns_pure.mpr ⟨rfl, rfl⟩, .refl _ m, fun i hi => absurd hi (Nat.not_lt_zero i)⟩
  | succ i ih =>
    have hi : i < MNET_SKIPLIST_MAX_LEVEL := hj
    have hPi := hP i rfl
    have hEi := hE i rfl
    have hA : ∀ b ∈ A, InMemory m height b := fun b hb => hmem b (by simp [hb])
    have hB : ∀ b ∈ B, InMemory m height b := fun b hb => hmem b (by simp [hb])
    have hAB : ∀ b ∈ A ++ B, InMemory m height b := fun b hb => (List.mem_append.mp hb).elim (hA b) (hB b)
    have hidsAB : ((A ++ B).map TmNode.id).Nodup := hids.sublist (by simp)
    have hringi := hring i (Nat.lt_succ_self i)
    have hsearch := search_level hAB hidsAB hlt hge (Nat.lt_succ_of_le hfuel) hringi hPi hEi
    obtain ⟨F, hF, hFB⟩ := Cursor.firstOf height i B
    obtain ⟨Q, hQ, hQA⟩ := Cursor.lastOf height i A
    have hprev : m.prev ⟨F, i⟩ = lastOf ⟨.head, i⟩ (levelLinks height i A) := by
      rw [levelLinks_append] at hringi
      rw [← hF]
      exact hringi.linked.2
    obtain ⟨b, hadd, hrew, hringb⟩ := insert_level hi hmem hids hringi
    obtain ⟨m', hloop, hrew', hring'⟩ := ih (m := b) (P := Q) (E := F) (Nat.le_of_lt hi)
      (fun e he => hrew.inMemory (hmem e he)) (by rw [hrew.nextNode]; exact hfuel)
      (fun k hk => hrew.ring (Nat.ne_of_lt hk) (hring k (Nat.lt_succ_of_lt hk)))
      (fun k hk => (hk ▸ hQA : Cursor height A (k + 1) Q).below) (fun k hk => (hk ▸ hFB : Cursor height B (k + 1) F).below)
    refine ⟨m', ?_, hrew.trans hrew' (fun k hk => by subst hk; exact Nat.lt_succ_self k) (fun k hk => Nat.lt_succ_of_lt hk), ?_⟩
    · rw [insertLoop, (returns_linkNext (hPi.valid hA hi)).bind_iff, levelFuel, (returns_read.mpr ⟨rfl, rfl⟩).bind_iff]
      rw [show i + 1 - 1 = i from rfl, hsearch.bind_iff, hF, (returns_linkPrev (hFB.valid hB hi)).bind_iff, hprev,
        ← hF, hadd.bind_iff, hF, hQ]
      exact hloop
    · intro k hk
      rcases Nat.lt_succ_iff_lt_or_eq.mp hk with hk | rfl
      · exact hring' k hk
      · exact hrew'.ring (Nat.lt_irrefl k) hringb

theorem skiplistRandomLevel_bounds (hits : Nat) :
    1 ≤ skiplistRandomLevel hits ∧ skiplistRandomLevel hits ≤ MNET_SKIPLIST_MAX_LEVEL := by
  show 1 ≤ (if 1 + hits > MNET_SKIPLIST_MAX_LEVEL then _ else _) ∧ (if 1 + hits > MNET_SKIPLIST_MAX_LEVEL then _ else _) ≤ _
  split
  · exact ⟨by decide, Nat.le_refl _⟩
  · omega

theorem Holds.top_le (h : Holds m c) : top c.height c.list ≤ MNET_SKIPLIST_MAX_LEVEL :=
  Skip.top_le fun a ha => (h.height a ha).2

/-- The levels the insertion searches: those of the list and of the new node. -/
theorem Holds.raised (h : Holds m c) {level : Nat} (hl : 1 ≤ level) :
    (if level > m.level then { m with level := level } else m) =
      { m with level := (max level (top c.height c.list) : Nat) } := by
  have hmax : ((max level (top c.height c.list) : Nat) : Int) = if level > m.level then (level : Int) else m.level := by
    obtain hm | ⟨hnil, hm⟩ := h.level
    · rw [hm]
      split <;> omega
    · rw [hm, hnil, show top c.height [] = 0 from rfl]
      split <;> omega
  rw [hmax]
  split <;> rfl

theorem Holds.length_le (h : Holds m c) : c.list.length ≤ c.next := by
  have hsub : c.list.map TmNode.id ⊆ List.range c.next := by
    intro id hid
    obtain ⟨a, ha, rfl⟩ := List.mem_map.mp hid
    exact List.mem_range.mpr (h.fresh a ha)
  have hle := (List.subperm_of_subset h.ids hsub).length_le
  rwa [List.length_map, List.length_range] at hle

/-- Where the new node goes. -/
theorem Holds.place (h : Holds m c) (key : Int) : ∃ A B, c.list = A ++ B ∧
    (∀ b ∈ A, b.key < key) ∧ (∀ b ∈ B, key ≤ b.key) ∧
      ∀ a : TmNode, a.key = key → MNet.skiplistInsert c.list a = A ++ a :: B := by
  refine ⟨c.list.takeWhile (·.key < key), c.list.dropWhile (·.key < key),
    (List.takeWhile_append_dropWhile ..).symm, fun b hb => of_decide_eq_true (List.all_eq_true.mp List.all_takeWhile b hb), fun b hb => ?_,
    fun a ha => by rw [MNet.skiplistInsert, ha]⟩
  cases hd : c.list.dropWhile (·.key < key) with
  | nil => simp [hd] at hb
  | cons f l =>
    have hf : ¬ f.key < key := by
      have := List.head?_dropWhile_not (fun b : TmNode => decide (b.key < key)) c.list
      simpa [hd] using this
    have hsub : (c.list.dropWhile (·.key < key)).Sublist c.list := List.dropWhile_sublist _
    have hsorted := h.sorted.sublist hsub
    rw [hd] at hb hsorted
    rcases List.mem_cons.mp hb with rfl | hb
    · exact Int.not_lt.mp hf
    · exact Int.le_trans (Int.not_lt.mp hf) (List.rel_of_pairwise_cons hsorted hb)

theorem Holds.insert (h : Holds m c) (hits : Nat) (key : Int) (value : ChannTm) :
    ∃ m', Returns (skiplistInsert hits key value) m c.next m' ∧ Holds m' (c.apply (.insert hits key value)) ∧
      m'.level = top (c.apply (.insert hits key value)).height (c.apply (.insert hits key value)).list := by
  obtain ⟨A, B, hlist, hlt, hge, hplace⟩ := h.place key
  obtain ⟨hl1, hl32⟩ := skiplistRandomLevel_bounds hits
  let a : TmNode := { id := c.next, key := key, tm := value }
  let height := Function.update c.height c.next (skiplistRandomLevel hits)
  have happly : c.apply (.insert hits key value) = ⟨A ++ a :: B, height, c.next + 1⟩ := by
    rw [Clock.apply, hplace a rfl]
  have hmem : ∀ b ∈ A ++ B, b ∈ c.list := fun b hb => hlist ▸ hb
  have hold : ∀ b ∈ A ++ a :: B, b ≠ a → b ∈ c.list := by
    intro b hb hba
    rw [List.mem_append, List.mem_cons] at hb
    exact hmem b (List.mem_append.mpr (hb.imp_right fun hb => hb.resolve_left hba))
  have hother : ∀ b ∈ A ++ B, b.id ≠ c.next := fun b hb => Nat.ne_of_lt (h.fresh b (hmem b hb))
  have hself : height a.id = skiplistRandomLevel hits := Function.update_self ..
  have hheight : ∀ b ∈ A ++ B, height b.id = c.height b.id := fun b hb => Function.update_of_ne (hother b hb) ..
  have htop : top height (A ++ B) = top c.height c.list := by rw [hlist, top_congr hheight]
  have hids : ((A ++ a :: B).map TmNode.id).Nodup := by
    rw [List.map_append, List.map_cons, List.nodup_middle, List.nodup_cons, ← List.map_append, ← hlist]
    refine ⟨fun hm => ?_, h.ids⟩
    obtain ⟨b, hb, he⟩ := List.mem_map.mp hm
    exact Nat.ne_of_lt (h.fresh b hb) he
  -- the list with the new node in memory, not linked yet
  let m₁ : SkipList :=
    { m with
      level := (max (skiplistRandomLevel hits) (top c.height c.list) : Nat)
      node := Function.update m.node c.next (some { key := key, value := value, level := skiplistRandomLevel hits })
      nextNode := c.next + 1 }
  have hin : ∀ b ∈ A ++ a :: B, InMemory m₁ height b := by
    intro b hb
    by_cases hba : b = a
    · rw [hba, InMemory, hself]
      exact Function.update_self ..
    · have hb := hold b hb hba
      rw [InMemory, hheight b (hlist ▸ hb)]
      exact (Function.update_of_ne (hother b (hlist ▸ hb)) ..).trans (h.node b hb)
  have hring : ∀ i < MNET_SKIPLIST_MAX_LEVEL, Ring m₁.next m₁.prev ⟨.head, i⟩ (levelLinks height i (A ++ B)) := by
    intro i hi
    rw [levelLinks_congr hheight, ← hlist]
    exact h.ring i hi
  have hle : max (skiplistRandomLevel hits) (top c.height c.list) ≤ MNET_SKIPLIST_MAX_LEVEL :=
    Nat.max_le.mpr ⟨hl32, h.top_le⟩
  have hfuel : A.length ≤ m₁.nextNode := by
    have := h.length_le
    rw [hlist, List.length_append] at this
    exact Nat.le_succ_of_le (Nat.le_trans (Nat.le_add_right ..) this)
  obtain ⟨m₂, hloop, hrew, hring₂⟩ := insertLoop_spec (P := .head) (E := .head) hle hin hids hlt hge
    hfuel (fun i hi => hring i (Nat.lt_of_lt_of_le hi hle))
    (fun _ _ => .inl rfl) (fun _ _ => .inl rfl)
  rw [hself] at hloop
  have hlength : (A ++ a :: B).length = c.list.length + 1 := by
    rw [hlist, List.length_append, List.length_append, List.length_cons, Nat.add_assoc]
  rw [happly]
  have hlevel : ((max (skiplistRandomLevel hits) (top c.height c.list) : Nat) : Int) = top height (A ++ a :: B) := by
    rw [top_middle, hself, htop]
  have hrun : Returns (skiplistInsert hits key value) m c.next { m₂ with count := m₂.count + 1 } := by
    have hnext : m.nextNode = c.next := h.next
    have hcreate : Returns (skipnodeCreate (skiplistRandomLevel hits) key value)
        { m with level := (max (skiplistRandomLevel hits) (top c.height c.list) : Nat) } c.next m₁ := by
      rw [skipnodeCreate, (returns_read.mpr ⟨rfl, rfl⟩).bind_iff, (returns_modify (u := ()) |>.mpr rfl).bind_iff]
      exact returns_pure.mpr ⟨hnext.symm, by rw [hnext]⟩
    rw [skiplistInsert, (returns_modify (u := ()) |>.mpr rfl).bind_iff, h.raised hl1, hcreate.bind_iff,
      (returns_read.mpr ⟨rfl, rfl⟩).bind_iff, show m₁.level.toNat = _ from Int.toNat_natCast _, hloop.bind_iff,
      (returns_modify (u := ()) |>.mpr rfl).bind_iff]
    exact returns_pure.mpr ⟨rfl, rfl⟩
  refine ⟨{ m₂ with count := m₂.count + 1 }, hrun, ⟨?_, hids, ?_, ?_, ?_, ?_, ?_, ?_, .inl (hrew.level.trans hlevel), ?_⟩,
    hrew.level.trans hlevel⟩
  · have hsorted := h.sorted
    rw [hlist, List.pairwise_append] at hsorted
    rw [List.pairwise_append, List.pairwise_cons]
    refine ⟨hsorted.1, ⟨hge, hsorted.2.1⟩, fun b hb d hd => ?_⟩
    rcases List.mem_cons.mp hd with rfl | hd
    · exact Int.le_of_lt (hlt b hb)
    · exact hsorted.2.2 b hb d hd
  · intro b hb
    by_cases hba : b = a
    · rw [hba]
      exact Nat.lt_succ_self _
    · exact Nat.lt_succ_of_lt (h.fresh b (hold b hb hba))
  · intro b hb
    show 1 ≤ height b.id ∧ height b.id ≤ _
    by_cases hba : b = a
    · rw [hba, hself]
      exact ⟨hl1, hl32⟩
    · rw [hheight b (hlist ▸ hold b hb hba)]
      exact h.height b (hold b hb hba)
  · exact hrew.nextNode
  · exact fun b hb => hrew.inMemory (hin b hb)
  · intro id hid
    show m₂.node id = none
    have hne : id ≠ c.next := fun he => hid a (by simp) he.symm
    rw [hrew.node, show m₁.node id = m.node id from Function.update_of_ne hne ..]
    refine h.freed id fun b hb => hid b ?_
    rw [hlist, List.mem_append] at hb
    rw [List.mem_append, List.mem_cons]
    exact hb.imp_right .inr
  · show m₂.count + 1 = ((A ++ a :: B).length : Int)
    rw [hrew.count, hlength, show m₁.count = m.count from rfl, h.count]
    rfl
  · intro i hi
    rcases Nat.lt_or_ge i (max (skiplistRandomLevel hits) (top c.height c.list)) with hlt | hge
    · exact hring₂ i hlt
    · obtain ⟨hle₁, hle₂⟩ := Nat.max_le.mp hge
      have hnil : levelLinks height i (A ++ a :: B) = levelLinks height i (A ++ B) := by
        rw [levelLinks_append, levelLinks_cons_of_le (by rw [hself]; exact hle₁), ← levelLinks_append]
      rw [hnil]
      exact hrew.ring (Nat.not_lt.mpr hge) (hring i hi)

/-! ## Removal -/

/-- One level of the removal loop. -/
theorem remove_level (hi : i < height a.id) (h32 : height a.id ≤ MNET_SKIPLIST_MAX_LEVEL)
    (hmem : ∀ b ∈ A ++ a :: B, InMemory m height b) (hids : ((A ++ a :: B).map TmNode.id).Nodup)
    (hring : Ring m.next m.prev ⟨.head, i⟩ (levelLinks height i (A ++ a :: B))) :
    ∃ m', Returns (listDel ⟨.node a.id, i⟩) m () m' ∧ Rewired (· = i) m m' ∧
      Ring m'.next m'.prev ⟨.head, i⟩ (levelLinks height i (A ++ B)) := by
  have hA : ∀ b ∈ A, InMemory m height b := fun b hb => hmem b (by simp [hb])
  have hB : ∀ b ∈ B, InMemory m height b := fun b hb => hmem b (by simp [hb])
  have hi32 := Nat.lt_of_lt_of_le hi h32
  obtain ⟨P, hP, hPA⟩ := Cursor.lastOf height i A
  obtain ⟨F, hF, hFB⟩ := Cursor.firstOf height i B
  have hnd : (⟨.head, i⟩ :: levelLinks height i (A ++ a :: B)).Nodup := nodup_levelLinks hids
  rw [levelLinks_append, levelLinks_cons_of_lt hi] at hring hnd
  have hprev : m.prev ⟨.node a.id, i⟩ = ⟨P, i⟩ := hring.linked.2.trans hP
  have hnext : m.next ⟨.node a.id, i⟩ = ⟨F, i⟩ := by
    have hcut : Ring m.next m.prev ⟨.head, i⟩ ((levelLinks height i A ++ [⟨.node a.id, i⟩]) ++ levelLinks height i B) := by
      rw [List.append_assoc]
      exact hring
    have := hcut.linked.1
    rwa [hF, show lastOf _ (levelLinks height i A ++ [⟨.node a.id, i⟩]) = ⟨.node a.id, i⟩ by simp [lastOf]] at this
  have hdel := returns_listDel (m := m) (x := ⟨.node a.id, i⟩) (by rw [(hmem a (by simp)).links]; exact hi)
    (by rw [hprev]; exact hPA.valid hA hi32) (by rw [hnext]; exact hFB.valid hB hi32)
  refine ⟨_, hdel, ⟨rfl, rfl, rfl, rfl, fun p hp => ?_⟩, ?_⟩
  · have hother : ∀ o, p ≠ ⟨o, i⟩ := fun o he => hp (by rw [he])
    rw [hprev, hnext]
    exact ⟨(Function.update_of_ne (hother _) ..).trans (Function.update_of_ne (hother P) ..),
      (Function.update_of_ne (hother _) ..).trans (Function.update_of_ne (hother F) ..)⟩
  · have herase := hring.erase hnd
    rw [← levelLinks_append] at herase
    have hx : ∀ p ∈ (⟨.head, i⟩ : SkLink) :: levelLinks height i (A ++ B), p ≠ ⟨.node a.id, i⟩ := by
      intro p hp he
      subst he
      rw [levelLinks_append, ← List.cons_append] at hp
      rw [← List.cons_append, List.nodup_middle, List.nodup_cons] at hnd
      exact hnd.1 hp
    exact herase.congr (fun p hp => Function.update_of_ne (hx p hp) ..) fun p hp => Function.update_of_ne (hx p hp) ..

/-- The loop goes up the levels. The level of the list is lowered once for each level left empty. -/
theorem removeLoop_spec {rest : Nat} (hi : i + rest = height a.id) (h32 : height a.id ≤ MNET_SKIPLIST_MAX_LEVEL)
    (hmem : ∀ b ∈ A ++ a :: B, InMemory m height b) (hids : ((A ++ a :: B).map TmNode.id).Nodup)
    (hdone : ∀ k < i, Ring m.next m.prev ⟨.head, k⟩ (levelLinks height k (A ++ B)))
    (htodo : ∀ k, i ≤ k → k < MNET_SKIPLIST_MAX_LEVEL →
      Ring m.next m.prev ⟨.head, k⟩ (levelLinks height k (A ++ a :: B)))
    (hlevel : m.level + (i - top height (A ++ B) : Nat) = top height (A ++ a :: B)) :
    ∃ m', Returns (removeLoop a.id rest i) m () m' ∧ m'.node = m.node ∧ m'.count = m.count ∧
      m'.nextNode = m.nextNode ∧ m'.level = top height (A ++ B) ∧
      ∀ k < MNET_SKIPLIST_MAX_LEVEL, Ring m'.next m'.prev ⟨.head, k⟩ (levelLinks height k (A ++ B)) := by
  induction rest generalizing m i with
  | zero =>
    refine ⟨m, returns_pure.mpr ⟨rfl, rfl⟩, rfl, rfl, rfl, ?_, fun k hk => ?_⟩
    · rw [top_middle] at hlevel
      omega
    · rcases Nat.lt_or_ge k i with hki | hki
      · exact hdone k hki
      · have hnil : levelLinks height k (A ++ a :: B) = levelLinks height k (A ++ B) := by
          rw [levelLinks_append, levelLinks_cons_of_le (by omega), ← levelLinks_append]
        rw [← hnil]
        exact htodo k hki hk
  | succ rest ih =>
    have hia : i < height a.id := by omega
    have hi32 := Nat.lt_of_lt_of_le hia h32
    obtain ⟨m₁, hdel, hrew, hring⟩ := remove_level hia h32 hmem hids (htodo i (Nat.le_refl i) hi32)
    have hidsAB : ((A ++ B).map TmNode.id).Nodup := hids.sublist (by simp)
    have hempty : (m₁.next ⟨.head, i⟩ = ⟨.head, i⟩) ↔ top height (A ++ B) ≤ i :=
      (Ring.next_head hring (nodup_levelLinks hidsAB)).trans levelLinks_eq_nil
    let m₂ : SkipList := { m₁ with level := if top height (A ++ B) ≤ i then m₁.level - 1 else m₁.level }
    have hread : Returns (listEmpty ⟨.head, i⟩) m₁ (decide (top height (A ++ B) ≤ i)) m₁ := by
      have hhead := returns_linkNext (m := m₁) (p := ⟨.head, i⟩) hi32
      rw [listEmpty, hhead.bind_iff, returns_pure]
      exact ⟨decide_eq_decide.mpr hempty.symm, rfl⟩
    have hlower : Returns (Exec.when (decide (top height (A ++ B) ≤ i))
        (Exec.modify fun m => { m with level := m.level - 1 }) : S Unit) m₁ () m₂ := by
      rw [returns_when, decide_eq_true_eq, returns_modify]
      by_cases hle : top height (A ++ B) ≤ i
      · exact .inl ⟨hle, by simp only [m₂, if_pos hle]⟩
      · exact .inr ⟨hle, by simp only [m₂, if_neg hle]⟩
    obtain ⟨m', hloop, hnode, hcount, hnext, hlev, hall⟩ := ih (m := m₂) (i := i + 1) (by omega)
      (fun b hb => hrew.inMemory (hmem b hb))
      (fun k hk => by
        rcases Nat.lt_succ_iff_lt_or_eq.mp hk with hk | rfl
        · exact hrew.ring (Nat.ne_of_lt hk) (hdone k hk)
        · exact hring)
      (fun k hk hk32 => hrew.ring (Nat.ne_of_gt hk) (htodo k (Nat.le_of_lt hk) hk32))
      (by
        show (if top height (A ++ B) ≤ i then m₁.level - 1 else m₁.level) + _ = _
        rw [hrew.level]
        split <;> omega)
    refine ⟨m', ?_, hnode.trans hrew.node, hcount.trans hrew.count, hnext.trans hrew.nextNode, hlev, hall⟩
    rw [removeLoop, hdel.bind_iff, hread.bind_iff, hlower.bind_iff]
    exact hloop

theorem Holds.remove (h : Holds m c) {id : NodeId} (hid : ∃ a ∈ c.list, a.id = id) :
    ∃ m', Returns (skiplistRemoveSkipnode id) m () m' ∧ Holds m' (c.apply (.remove id)) ∧
      m'.level = top (c.apply (.remove id)).height (c.apply (.remove id)).list := by
  obtain ⟨a, ha, rfl⟩ := hid
  obtain ⟨A, B, hlist⟩ := List.append_of_mem ha
  have hids := h.ids
  rw [hlist] at hids
  have hne : ∀ b ∈ A ++ B, b.id ≠ a.id := by
    rw [List.map_append, List.map_cons, List.nodup_middle, List.nodup_cons, ← List.map_append] at hids
    exact fun b hb he => hids.1 (he ▸ List.mem_map_of_mem hb)
  have happly : c.apply (.remove a.id) = ⟨A ++ B, c.height, c.next⟩ := by
    have hkeep : ∀ l : List TmNode, (∀ b ∈ l, b ∈ A ++ B) → l.filter (·.id ≠ a.id) = l := fun l hl =>
      List.filter_eq_self.mpr fun b hb => decide_eq_true (hne b (hl b hb))
    rw [Clock.apply, skiplistRemove, hlist, List.filter_append, List.filter_cons_of_neg (by simp),
      hkeep A fun b hb => List.mem_append_left _ hb, hkeep B fun b hb => List.mem_append_right _ hb]
  have hin : ∀ b ∈ A ++ a :: B, InMemory m c.height b := fun b hb => h.node b (hlist ▸ hb)
  have hsub : ∀ b ∈ A ++ B, b ∈ c.list := by
    intro b hb
    rw [hlist, List.mem_append, List.mem_cons]
    exact (List.mem_append.mp hb).imp_right .inr
  have hlevel : m.level = top c.height (A ++ a :: B) := by
    rw [← hlist]
    exact h.level.resolve_right fun hn => by simp [hn.1] at ha
  obtain ⟨m₁, hloop, hnode, hcount, hnext, hlev, hring⟩ := removeLoop_spec (Nat.zero_add (c.height a.id))
    (h.height a ha).2 hin hids (fun k hk => absurd hk (Nat.not_lt_zero k))
    (fun k _ hk => hlist ▸ h.ring k hk) (by rw [hlevel]; omega)
  let m' : SkipList := { m₁ with node := Function.update m₁.node a.id none, count := m₁.count - 1 }
  have hrun : Returns (skiplistRemoveSkipnode a.id) m () m' := by
    rw [skiplistRemoveSkipnode, (returns_read.mpr ⟨rfl, rfl⟩).bind_iff,
      (returns_require.mpr ⟨h.node a ha, rfl⟩).bind_iff, hloop.bind_iff, skipnodeDestroy,
      (returns_modify (u := ()) |>.mpr rfl).bind_iff]
    exact returns_modify.mpr rfl
  rw [happly]
  refine ⟨m', hrun, ⟨?_, hids.sublist (by simp), fun b hb => h.fresh b (hsub b hb), fun b hb => h.height b (hsub b hb),
    hnext.trans h.next, ?_, ?_, ?_, .inl hlev, hring⟩, hlev⟩
  · have hsorted := h.sorted
    rw [hlist] at hsorted
    exact hsorted.sublist (by simp)
  · intro b hb
    show Function.update m₁.node a.id none b.id = _
    rw [Function.update_of_ne (hne b hb), hnode]
    exact h.node b (hsub b hb)
  · intro id hid
    show Function.update m₁.node a.id none id = none
    by_cases he : id = a.id
    · rw [he]
      exact Function.update_self ..
    · rw [Function.update_of_ne he, hnode]
      refine h.freed id fun b hb hbid => ?_
      rw [hlist, List.mem_append, List.mem_cons] at hb
      obtain hb | rfl | hb := hb
      · exact hid b (List.mem_append_left _ hb) hbid
      · exact he hbid.symm
      · exact hid b (List.mem_append_right _ hb) hbid
  · show m₁.count - 1 = ((A ++ B).length : Int)
    rw [hcount, h.count, hlist, List.length_append, List.length_append, List.length_cons]
    omega

/-! ## Runs -/

theorem holds_start : Holds skiplistCreate Clock.start where
  sorted := .nil
  ids := .nil
  fresh := nofun
  height := nofun
  next := rfl
  node := nofun
  freed _ _ := rfl
  count := rfl
  level := .inr ⟨rfl, rfl⟩
  ring _ _ := .cons_cons ⟨rfl, rfl⟩ (.singleton _)

/-- What a sequence of operations makes of a list. -/
def Clock.after (c : Clock) (ops : List Op) : Clock := ops.foldl Clock.apply c

theorem Holds.opCall (h : Holds m c) {op : Op} (hop : ∀ id, op = .remove id → ∃ a ∈ c.list, a.id = id) :
    ∃ m', Returns (opCall op) m () m' ∧ Holds m' (c.apply op) ∧
      m'.level = top (c.apply op).height (c.apply op).list := by
  cases op with
  | insert hits key value =>
    obtain ⟨m', hrun, hholds, hlevel⟩ := h.insert hits key value
    exact ⟨m', hrun.bind_iff.mpr (returns_pure.mpr ⟨rfl, rfl⟩), hholds, hlevel⟩
  | remove id => exact h.remove (hop id rfl)

theorem Holds.opCalls {ops : List Op} (h : Holds m c) (hops : c.Allows ops) :
    ∃ m', Returns (opCalls ops) m () m' ∧ Holds m' (c.after ops) ∧
      (ops ≠ [] → m'.level = top (c.after ops).height (c.after ops).list) := by
  induction ops generalizing m c with
  | nil => exact ⟨m, returns_pure.mpr ⟨rfl, rfl⟩, h, fun hne => absurd rfl hne⟩
  | cons op ops ih =>
    obtain ⟨m₁, hcall, hholds, hlevel⟩ := h.opCall hops.1
    obtain ⟨m₂, hcalls, hholds', hlevel'⟩ := ih hholds hops.2
    refine ⟨m₂, hcall.bind_iff.mpr hcalls, hholds', fun _ => ?_⟩
    cases ops with
    | nil =>
      obtain ⟨_, rfl⟩ := returns_pure.mp hcalls
      exact hlevel
    | cons op' ops => exact hlevel' nofun

/-- Every sequence of insertions and removals ends, and leaves the sorted list of what was inserted
and not removed: on level 0 the ring of its nodes in order, on level `i` the ring of those higher
than `i`, with the number of nodes and the height of the highest one. -/
theorem skiplist_refines {ops : List Op} (hops : Clock.start.Allows ops) :
    ∃ m, Returns (opCalls ops) skiplistCreate () m ∧
      (Clock.start.after ops).list.Pairwise (·.key ≤ ·.key) ∧
      (∀ a ∈ (Clock.start.after ops).list,
        m.node a.id = some { key := a.key, value := a.tm, level := (Clock.start.after ops).height a.id }) ∧
      Ring m.next m.prev ⟨.head, 0⟩ ((Clock.start.after ops).list.map fun a => ⟨.node a.id, 0⟩) ∧
      (∀ i < MNET_SKIPLIST_MAX_LEVEL, Ring m.next m.prev ⟨.head, i⟩
        (((Clock.start.after ops).list.filter (i < (Clock.start.after ops).height ·.id)).map fun a => ⟨.node a.id, i⟩)) ∧
      m.count = (Clock.start.after ops).list.length ∧
      m.level = if ops = [] then 1 else (top (Clock.start.after ops).height (Clock.start.after ops).list : Int) := by
  obtain ⟨m, hrun, hholds, hlevel⟩ := holds_start.opCalls hops
  refine ⟨m, hrun, hholds.sorted, hholds.node, ?_, hholds.ring, hholds.count, ?_⟩
  · rw [← levelLinks_zero fun a ha => (hholds.height a ha).1]
    exact hholds.ring 0 (by decide)
  · by_cases hne : ops = []
    · subst hne
      obtain ⟨_, rfl⟩ := returns_pure.mp hrun
      rfl
    · rw [if_neg hne]
      exact hlevel hne

/-- Three nodes of different heights, two of one key, and the highest of them removed. -/
theorem skiplist_refines_three : ∃ m,
    Returns (opCalls [.insert 2 5 ⟨5, 5, 0⟩, .insert 0 5 ⟨5, 5, 1⟩, .insert 1 3 ⟨3, 3, 2⟩, .remove 0])
      skiplistCreate () m ∧ m.count = 2 ∧ m.level = 2 := by
  have hops : Clock.start.Allows
      [.insert 2 5 ⟨5, 5, 0⟩, .insert 0 5 ⟨5, 5, 1⟩, .insert 1 3 ⟨3, 3, 2⟩, .remove 0] := by
    refine ⟨nofun, nofun, nofun, fun id he => ?_, trivial⟩
    injection he with he
    subst he
    exact ⟨⟨0, 5, ⟨5, 5, 0⟩⟩, by decide, rfl⟩
  obtain ⟨m, hrun, _, _, _, _, hcount, hlevel⟩ := skiplist_refines hops
  exact ⟨m, hrun, hcount, hlevel⟩

end MNet.Skip
