import Mathlib.Data.Set.Card
import MNet.Wepoll.TreeDel

/-! # The tree is a map

The port of wepoll keeps its sockets in a tree, and the library its ports in another one. Seen from
outside, each is a map from keys to nodes: `tree_add` fails when the key is there, `tree_find` and
`tree_root` read, and `tree_del` forgets a node. -/

namespace MNet.Wepoll

open Lib Lib.Exec Lib.TreeLinks

variable {ι : Type} [DecidableEq ι] {t : Tree ι} {x y : ι} {o : Option ι} {k : Nat} {p : List (Frame ι)}
  {u : Shape ι} {l : List ι}

/-! ## Looking up -/

omit [DecidableEq ι] in
theorem treeFindFrom_ends {fuel : Nat} (hfuel : u.depth < fuel) (hf : Focus t.links p o u)
    (hs : u.toList.Pairwise (t.key · < t.key ·)) :
    Ends (treeFindFrom k fuel o) t fun r t' => t' = t ∧ ∀ y, r = some y ↔ y ∈ u.toList ∧ t.key y = k := by
  induction fuel generalizing p o u with
  | zero => omega
  | succ fuel ih =>
    cases u with
    | nil =>
      obtain rfl : o = none := hf.lays
      exact ends_pure.mpr ⟨rfl, by simp⟩
    | node c a x b =>
      obtain rfl : o = some x := hf.lays.1
      simp only [Shape.depth] at hfuel
      simp only [Shape.toList, List.pairwise_append, List.pairwise_cons, List.mem_cons] at hs
      obtain ⟨hsa, ⟨hxb, hsb⟩, hab⟩ := hs
      have hmk : Focus t.links p (some x) (.mk .left c a x b) := hf
      simp only [treeFindFrom, ends_bind, ends_read, ends_ite, ends_pure]
      refine ⟨fun hlt => ?_, fun hge => ⟨fun hgt => ?_, fun hle => ⟨trivial, fun y => ?_⟩⟩⟩
      · refine (ih (by omega) hmk.down hsa).mono fun r t' h => ⟨h.1, fun y => (h.2 y).trans ?_⟩
        -- the key is less than those of `x` and of all nodes right of it
        simp only [Shape.toList, List.mem_append, List.mem_cons]
        grind
      · refine (ih (by omega) hmk.down_other hsb).mono fun r t' h => ⟨h.1, fun y => (h.2 y).trans ?_⟩
        simp only [Shape.toList, List.mem_append, List.mem_cons]
        grind
      · simp only [Shape.toList, List.mem_append, List.mem_cons, Option.some.injEq]
        grind

omit [DecidableEq ι] in
/-- `tree_find` finds the node with the key, on a way of logarithmic length. -/
theorem treeFind_ends {fuel : Nat} (hfuel : 2 * Nat.log 2 (l.length + 1) < fuel) (h : t.Holds l) :
    Ends (treeFind fuel k) t fun r t' => t' = t ∧ ∀ y, r = some y ↔ y ∈ l ∧ t.key y = k := by
  obtain ⟨⟨u, hf, rfl, hrb⟩, hs⟩ := h
  exact ends_bind.mpr (ends_read.mpr (treeFindFrom_ends (Nat.lt_of_le_of_lt hrb.depth_le hfuel) hf hs))

omit [DecidableEq ι] in
theorem treeRoot_ends (h : t.Holds l) :
    Ends treeRoot t fun r t' => t' = t ∧ (r = none → l = []) ∧ ∀ y, r = some y → y ∈ l := by
  obtain ⟨⟨u, hf, rfl, _⟩, _⟩ := h
  have hroot : t.root = u.rootOf := hf.lays.rootOf
  refine ends_read.mpr ⟨rfl, fun hr => ?_, fun y hy => ?_⟩
  · rw [Shape.rootOf_eq_none.mp (hroot.symm.trans hr)]
    rfl
  · exact Shape.rootOf_mem (hroot.symm.trans hy)

omit [DecidableEq ι] in
theorem holds_init : ({} : Tree ι).Holds [] :=
  ⟨⟨.nil, ⟨rfl, rfl, List.nodup_nil⟩, rfl, Shape.redBlack_nil⟩, .nil⟩

omit [DecidableEq ι] in
theorem Tree.Holds.nodup (h : t.Holds l) : l.Nodup := by
  obtain ⟨⟨u, hf, rfl, _⟩, _⟩ := h
  exact hf.nodup

/-! ## Sequences of operations -/

inductive TreeOp (ι : Type) where
  | add (node : ι) (key : Nat)
  | del (node : ι)
  | find (key : Nat)
  | root

/-- What an operation returns: a code, or a node. -/
inductive TreeAnswer (ι : Type) where
  | code (r : Int)
  | node (o : Option ι)
  deriving DecidableEq

def TreeOp.exec (fuel : Nat) : TreeOp ι → TreeM ι (TreeAnswer ι)
  | .add node key => do
    let r ← treeAdd fuel node key
    pure (.code r)
  | .del node => do
    treeDel fuel node
    pure (.code 0)
  | .find key => do
    let o ← treeFind fuel key
    pure (.node o)
  | .root => do
    let o ← treeRoot
    pure (.node o)

def treeOps (fuel : Nat) : List (TreeOp ι) → TreeM ι (List (TreeAnswer ι))
  | [] => pure []
  | op :: ops => do
    let r ← op.exec fuel
    let rs ← treeOps fuel ops
    pure (r :: rs)

/-- A map from keys to nodes. -/
abbrev Index (ι : Type) : Type := Nat → Option ι

namespace Index

/-- The operation is used as the port uses it: a node is added once, and deleted when it is there. -/
def Allows (m : Index ι) : TreeOp ι → Prop
  | .add node _ => ∀ k, m k ≠ some node
  | .del node => ∃ k, m k = some node
  | .find _ => True
  | .root => True

/-- One operation on a map. -/
inductive Step : Index ι → TreeOp ι → TreeAnswer ι → Index ι → Prop
  | added {m : Index ι} {node : ι} {key : Nat} : m key = none →
    Step m (.add node key) (.code 0) (Function.update m key (some node))
  | present {m : Index ι} {node : ι} {key : Nat} : m key ≠ none → Step m (.add node key) (.code (-1)) m
  | deleted {m : Index ι} {node : ι} {key : Nat} : m key = some node →
    Step m (.del node) (.code 0) (Function.update m key none)
  | found {m : Index ι} {key : Nat} : Step m (.find key) (.node (m key)) m
  | empty {m : Index ι} : (∀ k, m k = none) → Step m .root (.node none) m
  | root {m : Index ι} {node : ι} {key : Nat} : m key = some node → Step m .root (.node (some node)) m

inductive Steps : Index ι → List (TreeOp ι) → List (TreeAnswer ι) → Index ι → Prop
  | nil {m : Index ι} : Steps m [] [] m
  | cons {m m' m'' : Index ι} {op : TreeOp ι} {r : TreeAnswer ι} {ops : List (TreeOp ι)}
    {rs : List (TreeAnswer ι)} : Step m op r m' → Steps m' ops rs m'' → Steps m (op :: ops) (r :: rs) m''

/-- Every operation is allowed, whatever the ones before it have answered. -/
def AllowsAll (m : Index ι) : List (TreeOp ι) → Prop
  | [] => True
  | op :: ops => m.Allows op ∧ ∀ r m', Step m op r m' → AllowsAll m' ops

/-- How many nodes there are. -/
noncomputable def size (m : Index ι) : Nat := Set.ncard {k | m k ≠ none}

/-- No tree on the way is too high for `fuel`, by the number of its nodes. -/
def Fits (fuel : Nat) (m : Index ι) : List (TreeOp ι) → Prop
  | [] => True
  | op :: ops => 2 * Nat.log 2 (m.size + 1) < fuel ∧ ∀ r m', Step m op r m' → Fits fuel m' ops

omit [DecidableEq ι] in
theorem Step.size_le {m m' : Index ι} {op : TreeOp ι} {r : TreeAnswer ι} (h : Step m op r m') : m'.size ≤ m.size + 1 := by
  cases h with
  | @added node key _ =>
    have hkeys : {k | Function.update m key (some node) k ≠ none} = insert key {k | m k ≠ none} := by
      ext k
      by_cases hk : k = key <;> simp [hk]
    rw [size, hkeys]
    exact Set.ncard_insert_le key _
  | @deleted node key _ =>
    have hkeys : {k | Function.update m key none k ≠ none} = {k | m k ≠ none} \ {key} := by
      ext k
      by_cases hk : k = key <;> simp [hk]
    have hle := Set.ncard_sdiff_singleton_le {k | m k ≠ none} key
    rw [size, hkeys]
    exact Nat.le_succ_of_le hle
  | _ => exact Nat.le_succ _

omit [DecidableEq ι] in
/-- There are never more nodes than operations. -/
theorem fits_of_length {m : Index ι} {ops : List (TreeOp ι)} {fuel : Nat}
    (h : 2 * Nat.log 2 (m.size + ops.length + 1) < fuel) : m.Fits fuel ops := by
  induction ops generalizing m with
  | nil => trivial
  | cons op ops ih =>
    have hlog : Nat.log 2 (m.size + 1) ≤ Nat.log 2 (m.size + (op :: ops).length + 1) :=
      Nat.log_mono_right (by omega)
    refine ⟨by omega, fun r m' hstep => ih ?_⟩
    have hsize := hstep.size_le
    have hlog' : Nat.log 2 (m'.size + ops.length + 1) ≤ Nat.log 2 (m.size + (op :: ops).length + 1) :=
      Nat.log_mono_right (by simp only [List.length_cons]; omega)
    omega

/-- The tree holds what the map does. -/
def Of (m : Index ι) (t : Tree ι) (l : List ι) : Prop :=
  t.Holds l ∧ ∀ k y, m k = some y ↔ y ∈ l ∧ t.key y = k

omit [DecidableEq ι] in
theorem Of.size {m : Index ι} (h : m.Of t l) : m.size = l.length := by
  obtain ⟨hh, hm⟩ := h
  have hkeys : {k | m k ≠ none} = ((l.map t.key).toFinset : Set Nat) := by
    ext k
    simp only [Set.mem_ofPred_eq, Option.ne_none_iff_exists', hm, List.coe_toFinset, List.mem_map]
  have hnodup : (l.map t.key).Nodup := (List.pairwise_map.mpr hh.sorted).imp fun hlt => Nat.ne_of_lt hlt
  rw [Index.size, hkeys, Set.ncard_coe_finset, List.toFinset_card_of_nodup hnodup, List.length_map]

theorem Of.add {m : Index ι} {node : ι} {fuel : Nat} (h : m.Of t l) (ha : m.Allows (.add node k))
    (hfuel : 2 * Nat.log 2 (l.length + 1) < fuel) :
    Ends (treeAdd fuel node k) t fun r t' => ∃ m' l', Step m (.add node k) (.code r) m' ∧ m'.Of t' l' := by
  obtain ⟨hh, hm⟩ := h
  have hnode : node ∉ l := fun hn => ha (t.key node) ((hm _ _).mpr ⟨hn, rfl⟩)
  refine (treeAdd_ends hfuel hh hnode).mono fun r t' h => ?_
  rcases h with ⟨rfl, rfl, z, hz, hkz⟩ | ⟨rfl, hkey, hne, a, b, rfl, hh'⟩
  · have hsome : m k ≠ none := by
      rw [(hm k z).mpr ⟨hz, hkz⟩]
      simp
    exact ⟨m, l, .present hsome, hh, hm⟩
  · have hnone : m k = none := by
      by_contra hs
      obtain ⟨z, hz⟩ := Option.ne_none_iff_exists'.mp hs
      exact hne z ((hm k z).mp hz).1 ((hm k z).mp hz).2
    refine ⟨_, _, .added hnone, hh', fun k' y => ?_⟩
    rw [hkey]
    have hm' := hm k' y
    by_cases hy : y = node
    · subst hy
      simp only [Function.update_self, List.mem_append, List.mem_cons, true_or, or_true, true_and]
      by_cases hk : k' = k
      · simp [hk]
      · rw [Function.update_of_ne hk]
        exact ⟨fun hs => absurd hs (ha k'), fun hs => absurd hs.symm hk⟩
    · rw [Function.update_of_ne hy]
      by_cases hk : k' = k
      · subst hk
        rw [Function.update_self]
        refine ⟨fun hs => absurd (Option.some.inj hs).symm hy, fun hs => absurd hs.2 (hne y ?_)⟩
        simpa [hy] using hs.1
      · rw [Function.update_of_ne hk, hm']
        simp [hy]

theorem Of.del {m : Index ι} {node : ι} {fuel : Nat} (h : m.Of t l) (ha : m.Allows (.del node))
    (hfuel : 2 * Nat.log 2 (l.length + 1) < fuel) :
    Ends (treeDel fuel node) t fun _ t' => ∃ m' l', Step m (.del node) (.code 0) m' ∧ m'.Of t' l' := by
  obtain ⟨hh, hm⟩ := h
  obtain ⟨k, hk⟩ := ha
  obtain ⟨hnode, hkey⟩ := (hm k node).mp hk
  refine (treeDel_ends hfuel hh hnode).mono fun _ t' h => ?_
  obtain ⟨hkeys, hh'⟩ := h
  refine ⟨_, _, .deleted hk, hh', fun k' y => ?_⟩
  rw [hkeys, hh.nodup.mem_erase_iff]
  by_cases hk' : k' = k
  · subst hk'
    rw [Function.update_self]
    refine ⟨by simp, fun hs => absurd ?_ hs.1.1⟩
    have hy := (hm k' y).mpr ⟨hs.1.2, hs.2⟩
    exact Option.some.inj (hy.symm.trans hk)
  · rw [Function.update_of_ne hk', hm]
    refine ⟨fun hs => ⟨⟨?_, hs.1⟩, hs.2⟩, fun hs => ⟨hs.1.2, hs.2⟩⟩
    rintro rfl
    exact hk' (hs.2.symm.trans hkey)

/-- Each operation on the tree is one on the map. -/
theorem Of.exec {m : Index ι} {op : TreeOp ι} {fuel : Nat} (h : m.Of t l) (ha : m.Allows op)
    (hfuel : 2 * Nat.log 2 (l.length + 1) < fuel) :
    Ends (op.exec fuel) t fun r t' => ∃ m' l', Step m op r m' ∧ m'.Of t' l' := by
  cases op with
  | add node key =>
    simp only [TreeOp.exec, ends_bind, ends_pure]
    exact h.add ha hfuel
  | del node =>
    simp only [TreeOp.exec, ends_bind, ends_pure]
    exact h.del ha hfuel
  | find key =>
    simp only [TreeOp.exec, ends_bind, ends_pure]
    refine (treeFind_ends hfuel h.1).mono fun r t' hr => ?_
    obtain ⟨rfl, hr⟩ := hr
    have hmk : r = m key := Option.ext fun y => (hr y).trans (h.2 key y).symm
    rw [hmk]
    exact ⟨m, l, .found, h⟩
  | root =>
    simp only [TreeOp.exec, ends_bind, ends_pure]
    refine (treeRoot_ends h.1).mono fun r t' hr => ?_
    obtain ⟨rfl, hnone, hsome⟩ := hr
    refine ⟨m, l, ?_, h⟩
    cases r with
    | none =>
      refine .empty fun k => ?_
      by_contra hk
      obtain ⟨y, hy⟩ := Option.ne_none_iff_exists'.mp hk
      have hyl := ((h.2 k y).mp hy).1
      rw [hnone rfl] at hyl
      cases hyl
    | some y => exact .root ((h.2 (t'.key y) y).mpr ⟨hsome y rfl, rfl⟩)

theorem Of.execAll {m : Index ι} {ops : List (TreeOp ι)} {fuel : Nat} (h : m.Of t l) (ha : m.AllowsAll ops)
    (hfuel : m.Fits fuel ops) : Ends (treeOps fuel ops) t fun rs t' => ∃ m' l', Steps m ops rs m' ∧ m'.Of t' l' := by
  induction ops generalizing t m l with
  | nil => exact ends_pure.mpr ⟨m, l, .nil, h⟩
  | cons op ops ih =>
    obtain ⟨hlog, hrest⟩ := hfuel
    rw [h.size] at hlog
    simp only [treeOps, ends_bind, ends_pure]
    refine (h.exec ha.1 hlog).mono fun r t' hr => ?_
    obtain ⟨m', l', hstep, hof⟩ := hr
    refine (ih hof (ha.2 r m' hstep) (hrest r m' hstep)).mono fun rs t'' hrs => ?_
    obtain ⟨m'', l'', hsteps, hof'⟩ := hrs
    exact ⟨m'', l'', .cons hstep hsteps, hof'⟩

end Index

/-- However the tree is used, if only nodes are added that are not in it and only such deleted that are:
no null pointer is followed and no loop runs for more than `fuel` rounds, which is logarithmic in the
number of the nodes in the tree; what the operations return is what a map from keys to nodes returns; and
the tree stays a red-black tree in the order of the keys. -/
theorem tree_is_map (ops : List (TreeOp ι)) (fuel : Nat) (hops : Index.AllowsAll (fun _ => none) ops)
    (hfuel : Index.Fits fuel (fun _ => none) ops) :
    Ends (treeOps fuel ops) {} fun rs t => ∃ m l, Index.Steps (fun _ => none) ops rs m ∧ m.Of t l :=
  Index.Of.execAll ⟨holds_init, fun _ _ => by simp⟩ hops hfuel

/-- A node that is added, looked up and deleted. -/
theorem tree_is_map_three :
    Ends (treeOps 5 ([.add 0 5, .find 5, .del 0] : List (TreeOp Nat))) {} fun rs t => ∃ m l,
      Index.Steps (fun _ => none) [.add 0 5, .find 5, .del 0] rs m ∧ m.Of t l := by
  have hempty : Index.size (fun _ => none : Index Nat) = 0 := by simp [Index.size]
  have hfuel : Index.Fits 5 (fun _ => none : Index Nat) [.add 0 5, .find 5, .del 0] := by
    refine Index.fits_of_length ?_
    rw [hempty]
    decide
  refine tree_is_map _ 5 ⟨fun k => (by simp), fun r m h => ⟨trivial, fun r' m' h' => ⟨⟨5, ?_⟩, fun _ _ _ => trivial⟩⟩⟩
    hfuel
  cases h with
  | added => cases h'; exact Function.update_self ..
  | present hne => exact absurd rfl hne

end MNet.Wepoll
