import Mathlib.Data.List.Nodup
import MNet.Lib.Ring

/-! # The queues of wepoll

`queue_t` is the head of a circular doubly linked list, and `queue_node_t` a link of one; both are
nodes of one memory. A node that is in no queue points to itself. `Holds m q` says that the queues
of `m` are the lists `q`. -/

namespace MNet.Wepoll

open Lib

structure QueueMem (κ : Type) where
  next : κ → κ := fun x => x
  prev : κ → κ := fun x => x

variable {κ : Type} [DecidableEq κ]

def QueueMem.setNext (m : QueueMem κ) (x y : κ) : QueueMem κ := { m with next := Function.update m.next x y }

def QueueMem.setPrev (m : QueueMem κ) (x y : κ) : QueueMem κ := { m with prev := Function.update m.prev x y }

def queueNodeInit (node : κ) (m : QueueMem κ) : QueueMem κ := (m.setPrev node node).setNext node node

def queueDetachNode (node : κ) (m : QueueMem κ) : QueueMem κ :=
  let m := m.setNext (m.prev node) (m.next node)
  m.setPrev (m.next node) (m.prev node)

def queueIsEnqueued (node : κ) (m : QueueMem κ) : Bool := m.prev node ≠ node

def queueIsEmpty (queue : κ) (m : QueueMem κ) : Bool := !queueIsEnqueued queue m

def queueFirst (queue : κ) (m : QueueMem κ) : Option κ :=
  if !queueIsEmpty queue m then some (m.next queue) else none

def queueLast (queue : κ) (m : QueueMem κ) : Option κ :=
  if !queueIsEmpty queue m then some (m.prev queue) else none

def queuePrepend (queue node : κ) (m : QueueMem κ) : QueueMem κ :=
  let m := m.setNext node (m.next queue)
  let m := m.setPrev node queue
  let m := m.setPrev (m.next node) node
  m.setNext queue node

def queueAppend (queue node : κ) (m : QueueMem κ) : QueueMem κ :=
  let m := m.setNext node queue
  let m := m.setPrev node (m.prev queue)
  let m := m.setNext (m.prev node) node
  m.setPrev queue node

def queueMoveToStart (queue node : κ) (m : QueueMem κ) : QueueMem κ :=
  queuePrepend queue node (queueDetachNode node m)

def queueMoveToEnd (queue node : κ) (m : QueueMem κ) : QueueMem κ :=
  queueAppend queue node (queueDetachNode node m)

def queueRemove (node : κ) (m : QueueMem κ) : QueueMem κ := queueNodeInit node (queueDetachNode node m)

/-! ## The lists behind the links -/

/-- The heads `heads` lead through the lists `q`, which share no node, and all other nodes point to
themselves. -/
structure QueueMem.Holds (m : QueueMem κ) (heads : List κ) (q : κ → List κ) : Prop where
  ring : ∀ h ∈ heads, Ring m.next m.prev h (q h)
  nodup : ∀ h ∈ heads, (h :: q h).Nodup
  apart : ∀ h ∈ heads, ∀ h' ∈ heads, ∀ x, x ∈ h :: q h → x ∈ h' :: q h' → h = h'
  free : ∀ x, (∀ h ∈ heads, x ∉ h :: q h) → m.next x = x ∧ m.prev x = x

namespace QueueMem.Holds

variable {m : QueueMem κ} {heads : List κ} {q : κ → List κ} {h x : κ} {a b : List κ}

omit [DecidableEq κ] in
theorem init (hq : ∀ h ∈ heads, q h = []) : ({} : QueueMem κ).Holds heads q where
  ring h hh := by
    rw [hq h hh]
    exact List.IsChain.cons_cons ⟨rfl, rfl⟩ (.singleton h)
  nodup h hh := by simp [hq h hh]
  apart h hh h' hh' x hx hx' := by
    rw [hq h hh, List.mem_singleton] at hx
    rw [hq h' hh', List.mem_singleton] at hx'
    exact hx.symm.trans hx'
  free x _ := ⟨rfl, rfl⟩

omit [DecidableEq κ] in
theorem congr (hm : m.Holds heads q) {q' : κ → List κ} (hq : ∀ h ∈ heads, q h = q' h) : m.Holds heads q' where
  ring h hh := hq h hh ▸ hm.ring h hh
  nodup h hh := hq h hh ▸ hm.nodup h hh
  apart h hh h' hh' x hx hx' := by
    rw [← hq h hh] at hx
    rw [← hq h' hh'] at hx'
    exact hm.apart h hh h' hh' x hx hx'
  free x hx := hm.free x fun h hh => hq h hh ▸ hx h hh

omit [DecidableEq κ] in
theorem head_not_mem (hm : m.Holds heads q) {h' : κ} (hh : h ∈ heads) (hh' : h' ∈ heads) : h ∉ q h' := by
  intro hx
  obtain rfl : h = h' := hm.apart h hh h' hh' h List.mem_cons_self (List.mem_cons_of_mem _ hx)
  exact (List.nodup_cons.mp (hm.nodup h hh)).1 hx

omit [DecidableEq κ] in
/-- A list is empty exactly when its head points to itself. -/
theorem prev_head (hm : m.Holds heads q) (hh : h ∈ heads) : m.prev h = h ↔ q h = [] := by
  have hring : Ring m.next m.prev h (q h ++ []) := by simpa using hm.ring h hh
  have hlast : m.prev h = lastOf h (q h) := hring.linked.2
  rw [hlast, lastOf]
  cases hq : (q h).getLast? with
  | none => simpa using List.getLast?_eq_none_iff.mp hq
  | some x =>
    have hx : x ∈ q h := List.mem_of_getLast? hq
    constructor
    · intro he
      have he : x = h := he
      exact absurd (he ▸ hx) (hm.head_not_mem hh hh)
    · intro he
      rw [he] at hx
      cases hx

theorem isEmpty_iff (hm : m.Holds heads q) (hh : h ∈ heads) : queueIsEmpty h m = true ↔ q h = [] := by
  simp [queueIsEmpty, queueIsEnqueued, hm.prev_head hh]

theorem first_eq (hm : m.Holds heads q) (hh : h ∈ heads) : queueFirst h m = (q h).head? := by
  have hring : Ring m.next m.prev h ([] ++ q h) := hm.ring h hh
  have hnext : m.next h = firstOf h (q h) := hring.linked.1
  have hempty := hm.isEmpty_iff hh
  cases hq : q h with
  | nil => simp [queueFirst, hempty.mpr hq]
  | cons x l =>
    have hne : queueIsEmpty h m = false := by
      rw [← Bool.not_eq_true, hempty, hq]
      simp
    simp [queueFirst, hne, hnext, hq, firstOf]

theorem last_eq (hm : m.Holds heads q) (hh : h ∈ heads) : queueLast h m = (q h).getLast? := by
  have hring : Ring m.next m.prev h (q h ++ []) := by simpa using hm.ring h hh
  have hprev : m.prev h = lastOf h (q h) := hring.linked.2
  have hempty := hm.isEmpty_iff hh
  cases hq : (q h).getLast? with
  | none => simp [queueLast, hempty.mpr (List.getLast?_eq_none_iff.mp hq)]
  | some x =>
    have hne : queueIsEmpty h m = false := by
      rw [← Bool.not_eq_true, hempty]
      intro he
      rw [he] at hq
      cases hq
    simp [queueLast, hne, hprev, lastOf, hq]

/-- A node is enqueued exactly when it is in one of the queues. -/
theorem isEnqueued_iff (hm : m.Holds heads q) (hx : x ∉ heads) :
    queueIsEnqueued x m = true ↔ ∃ h ∈ heads, x ∈ q h := by
  simp only [queueIsEnqueued, ne_eq, decide_not, Bool.not_eq_true', decide_eq_false_iff_not]
  constructor
  · intro hne
    by_contra hnone
    refine hne (hm.free x fun h hh hxm => ?_).2
    rcases List.mem_cons.mp hxm with rfl | hxm
    · exact hx hh
    · exact hnone ⟨h, hh, hxm⟩
  · rintro ⟨h, hh, hxm⟩ he
    obtain ⟨a, b, hab⟩ := List.append_of_mem hxm
    have hring : Ring m.next m.prev h (a ++ x :: b) := hab ▸ hm.ring h hh
    have hnd := hm.nodup h hh
    rw [hab] at hnd
    have hprev : m.prev x = lastOf h a := hring.linked.2
    have hmem : lastOf h a ∈ h :: a := lastOf_mem h a
    rw [← hprev, he] at hmem
    rw [show h :: (a ++ x :: b) = (h :: a) ++ x :: b from rfl, List.nodup_append] at hnd
    exact hnd.2.2 x hmem x List.mem_cons_self rfl

/-- A node between the two halves of a queue. -/
theorem insert (hm : m.Holds heads q) (hh : h ∈ heads) (hx : x ∉ heads) (hfree : ∀ h' ∈ heads, x ∉ q h')
    (hab : q h = a ++ b) :
    QueueMem.Holds ⟨Function.update (Function.update m.next x (firstOf h b)) (lastOf h a) x,
      Function.update (Function.update m.prev x (lastOf h a)) (firstOf h b) x⟩ heads
      (Function.update q h (a ++ x :: b)) := by
  have hnd := hm.nodup h hh
  have hring := hm.ring h hh
  rw [hab] at hnd hring
  have hxh : x ∉ h :: (a ++ b) := by
    rw [← hab, List.mem_cons, not_or]
    exact ⟨fun he => hx (he ▸ hh), hfree h hh⟩
  have hlast : lastOf h a ∈ h :: q h := hab ▸ (List.mem_append_left b (lastOf_mem h a) : lastOf h a ∈ (h :: a) ++ b)
  have hfirst : firstOf h b ∈ h :: q h := by
    rw [hab]
    have := firstOf_mem h b
    simp only [List.mem_append, List.mem_cons, List.not_mem_nil, or_false] at this ⊢
    tauto
  -- another queue is not written to
  have hother : ∀ {h'}, h' ∈ heads → h' ≠ h → ∀ y ∈ h' :: q h', y ≠ x ∧ y ≠ lastOf h a ∧ y ≠ firstOf h b := by
    intro h' hh' hne y hy
    refine ⟨?_, ?_, ?_⟩
    · rintro rfl
      rcases List.mem_cons.mp hy with rfl | hy
      · exact hx hh'
      · exact hfree h' hh' hy
    · rintro rfl
      exact hne (hm.apart h' hh' h hh _ hy hlast)
    · rintro rfl
      exact hne (hm.apart h' hh' h hh _ hy hfirst)
  have hmem : ∀ y, y ∈ h :: (a ++ x :: b) ↔ y = x ∨ y ∈ h :: q h := by
    intro y
    rw [hab]
    simp only [List.mem_cons, List.mem_append]
    tauto
  refine ⟨fun h' hh' => ?_, fun h' hh' => ?_, fun h₁ hh₁ h₂ hh₂ y hy₁ hy₂ => ?_, fun y hy => ?_⟩
  · by_cases he : h' = h
    · subst he
      rw [Function.update_self]
      exact hring.insert hnd hxh
    · rw [Function.update_of_ne he]
      refine (hm.ring h' hh').congr (fun y hy => ?_) fun y hy => ?_
      · obtain ⟨hyx, hyl, _⟩ := hother hh' he y hy
        exact (Function.update_of_ne hyl ..).trans (Function.update_of_ne hyx ..)
      · obtain ⟨hyx, _, hyf⟩ := hother hh' he y hy
        exact (Function.update_of_ne hyf ..).trans (Function.update_of_ne hyx ..)
  · by_cases he : h' = h
    · subst he
      rw [Function.update_self, ← List.cons_append, List.nodup_middle, List.cons_append]
      exact List.nodup_cons.mpr ⟨hxh, hnd⟩
    · rw [Function.update_of_ne he]
      exact hm.nodup h' hh'
  · have hcase : ∀ {h'}, h' ∈ heads → y ∈ h' :: Function.update q h (a ++ x :: b) h' →
        (y = x ∧ h' = h) ∨ y ∈ h' :: q h' := by
      intro h' hh' hy
      by_cases he : h' = h
      · subst he
        rw [Function.update_self, hmem] at hy
        exact hy.imp (fun hyx => ⟨hyx, rfl⟩) id
      · rw [Function.update_of_ne he] at hy
        exact .inr hy
    have hnot : ∀ {h'}, h' ∈ heads → x ∉ h' :: q h' := by
      intro h' hh' hxm
      rcases List.mem_cons.mp hxm with rfl | hxm
      · exact hx hh'
      · exact hfree h' hh' hxm
    rcases hcase hh₁ hy₁ with ⟨rfl, rfl⟩ | hy₁ <;> rcases hcase hh₂ hy₂ with ⟨hyx, he⟩ | hy₂
    · exact he.symm
    · exact absurd hy₂ (hnot hh₂)
    · exact absurd (hyx ▸ hy₁) (hnot hh₁)
    · exact hm.apart h₁ hh₁ h₂ hh₂ y hy₁ hy₂
  · have hyh := hy h hh
    rw [Function.update_self, hmem, not_or] at hyh
    obtain ⟨hyx, hyq⟩ := hyh
    have hyl : y ≠ lastOf h a := fun he => hyq (he ▸ hlast)
    have hyf : y ≠ firstOf h b := fun he => hyq (he ▸ hfirst)
    have hself : m.next y = y ∧ m.prev y = y := by
      refine hm.free y fun h' hh' hym => hy h' hh' ?_
      by_cases he : h' = h
      · subst he
        exact absurd hym hyq
      · rw [Function.update_of_ne he]
        exact hym
    exact ⟨((Function.update_of_ne hyl ..).trans (Function.update_of_ne hyx ..)).trans hself.1,
      ((Function.update_of_ne hyf ..).trans (Function.update_of_ne hyx ..)).trans hself.2⟩

/-- `queue_append`. -/
theorem append (hm : m.Holds heads q) (hh : h ∈ heads) (hx : x ∉ heads) (hfree : ∀ h' ∈ heads, x ∉ q h') :
    (queueAppend h x m).Holds heads (Function.update q h (q h ++ [x])) := by
  have hring : Ring m.next m.prev h (q h ++ []) := by simpa using hm.ring h hh
  have hprev : m.prev h = lastOf h (q h) := hring.linked.2
  have hne : h ≠ x := fun he => hx (he ▸ hh)
  have hins := hm.insert hh hx hfree (List.append_nil (q h)).symm
  rw [← hprev] at hins
  simp only [queueAppend, QueueMem.setNext, QueueMem.setPrev, Function.update_self]
  exact hins

/-- `queue_prepend`. -/
theorem prepend (hm : m.Holds heads q) (hh : h ∈ heads) (hx : x ∉ heads) (hfree : ∀ h' ∈ heads, x ∉ q h') :
    (queuePrepend h x m).Holds heads (Function.update q h (x :: q h)) := by
  have hring : Ring m.next m.prev h ([] ++ q h) := hm.ring h hh
  have hnext : m.next h = firstOf h (q h) := hring.linked.1
  have hins := hm.insert hh hx hfree (List.nil_append (q h)).symm
  rw [← hnext] at hins
  simp only [queuePrepend, QueueMem.setNext, QueueMem.setPrev, Function.update_self]
  exact hins

/-- `queue_remove` of an enqueued node. -/
theorem remove (hm : m.Holds heads q) (hh : h ∈ heads) (hx : x ∈ q h) :
    (queueRemove x m).Holds heads fun h' => (q h').erase x := by
  obtain ⟨a, b, hab⟩ := List.append_of_mem hx
  have hnd := hm.nodup h hh
  have hring := hm.ring h hh
  rw [hab] at hnd hring
  have hprev : m.prev x = lastOf h a := hring.linked.2
  have hnext : m.next x = firstOf h b := by
    rw [show a ++ x :: b = (a ++ [x]) ++ b by simp] at hring
    have := hring.linked.1
    rwa [show lastOf h (a ++ [x]) = x by simp [lastOf]] at this
  have hlast : lastOf h a ∈ h :: q h := hab ▸ (List.mem_append_left _ (lastOf_mem h a) : lastOf h a ∈ (h :: a) ++ x :: b)
  have hfirst : firstOf h b ∈ h :: q h := by
    rw [hab]
    have := firstOf_mem h b
    simp only [List.mem_append, List.mem_cons, List.not_mem_nil, or_false] at this ⊢
    tauto
  -- what the function leaves in the memory
  have hn : (queueRemove x m).next = Function.update (Function.update m.next (m.prev x) (m.next x)) x x := rfl
  have hp : (queueRemove x m).prev = Function.update (Function.update m.prev (m.next x) (m.prev x)) x x := by
    have hsame : Function.update m.next (m.prev x) (m.next x) x = m.next x := by
      by_cases he : x = m.prev x
      · rw [← he]
        exact Function.update_self ..
      · exact Function.update_of_ne he ..
    simp only [queueRemove, queueNodeInit, queueDetachNode, QueueMem.setNext, QueueMem.setPrev, hsame]
  have herase : ∀ {h'}, h' ∈ heads → h' ≠ h → (q h').erase x = q h' := by
    intro h' hh' hne
    refine List.erase_of_not_mem fun hx' => hne ?_
    exact hm.apart h' hh' h hh x (List.mem_cons_of_mem _ hx') (List.mem_cons_of_mem _ hx)
  have hxab : x ∉ h :: (a ++ b) := by
    rw [← List.cons_append, List.nodup_middle] at hnd
    exact (List.nodup_cons.mp hnd).1
  have hab' : (q h).erase x = a ++ b := by
    have hxa : x ∉ a := fun hxa => hxab (List.mem_cons_of_mem _ (List.mem_append_left _ hxa))
    rw [hab, List.erase_append_right _ hxa, List.erase_cons_head]
  have hkeep : ∀ {h'}, h' ∈ heads → h' ≠ h → ∀ y ∈ h' :: q h', y ≠ x ∧ y ≠ m.prev x ∧ y ≠ m.next x := by
    intro h' hh' hne y hy
    refine ⟨?_, ?_, ?_⟩
    · rintro rfl
      exact hne (hm.apart h' hh' h hh _ hy (List.mem_cons_of_mem _ hx))
    · rintro rfl
      exact hne (hm.apart h' hh' h hh _ hy (hprev ▸ hlast))
    · rintro rfl
      exact hne (hm.apart h' hh' h hh _ hy (hnext ▸ hfirst))
  refine ⟨fun h' hh' => ?_, fun h' hh' => ?_, fun h₁ hh₁ h₂ hh₂ y hy₁ hy₂ => ?_, fun y hy => ?_⟩
  · rw [hn, hp]
    by_cases he : h' = h
    · subst he
      rw [hab']
      refine (hring.erase hnd).congr (fun y hy => ?_) fun y hy => ?_
      · exact Function.update_of_ne (show y ≠ x from fun hyx => hxab (hyx ▸ hy)) ..
      · exact Function.update_of_ne (show y ≠ x from fun hyx => hxab (hyx ▸ hy)) ..
    · rw [herase hh' he]
      refine (hm.ring h' hh').congr (fun y hy => ?_) fun y hy => ?_
      · obtain ⟨hyx, hyp, _⟩ := hkeep hh' he y hy
        exact (Function.update_of_ne hyx ..).trans (Function.update_of_ne hyp ..)
      · obtain ⟨hyx, _, hyn⟩ := hkeep hh' he y hy
        exact (Function.update_of_ne hyx ..).trans (Function.update_of_ne hyn ..)
  · exact (hm.nodup h' hh').sublist (List.erase_sublist.cons_cons h')
  · exact hm.apart h₁ hh₁ h₂ hh₂ y ((List.erase_sublist.cons_cons h₁).subset hy₁)
      ((List.erase_sublist.cons_cons h₂).subset hy₂)
  · rw [hn, hp]
    by_cases hyx : y = x
    · subst hyx
      exact ⟨Function.update_self .., Function.update_self ..⟩
    · have hnot : ∀ h' ∈ heads, y ∉ h' :: q h' := by
        intro h' hh' hym
        refine hy h' hh' ?_
        rcases List.mem_cons.mp hym with rfl | hym
        · exact List.mem_cons_self
        · exact List.mem_cons_of_mem _ ((List.mem_erase_of_ne hyx).mpr hym)
      have hself := hm.free y hnot
      have hyp : y ≠ m.prev x := fun he => hnot h hh (he ▸ hprev ▸ hlast)
      have hyn : y ≠ m.next x := fun he => hnot h hh (he ▸ hnext ▸ hfirst)
      exact ⟨((Function.update_of_ne hyx ..).trans (Function.update_of_ne hyp ..)).trans hself.1,
        ((Function.update_of_ne hyx ..).trans (Function.update_of_ne hyn ..)).trans hself.2⟩

omit [DecidableEq κ] in
theorem links_free (hm : m.Holds heads q) (hx : x ∉ heads) (hfree : ∀ h ∈ heads, x ∉ q h) :
    m.next x = x ∧ m.prev x = x := by
  refine hm.free x fun h hh hxm => ?_
  rcases List.mem_cons.mp hxm with rfl | hxm
  · exact hx hh
  · exact hfree h hh hxm

theorem nodeInit_eq (hm : m.Holds heads q) (hx : x ∉ heads) (hfree : ∀ h ∈ heads, x ∉ q h) :
    queueNodeInit x m = m := by
  obtain ⟨hn, hp⟩ := hm.links_free hx hfree
  have hnext : Function.update m.next x x = m.next := Function.update_eq_self_iff.mpr hn.symm
  have hprev : Function.update m.prev x x = m.prev := Function.update_eq_self_iff.mpr hp.symm
  simp [queueNodeInit, QueueMem.setNext, QueueMem.setPrev, hnext, hprev]

/-- `queue_remove`, of a node that may be in no queue. -/
theorem erase (hm : m.Holds heads q) (hx : x ∉ heads) :
    (queueRemove x m).Holds heads fun h => (q h).erase x := by
  by_cases hin : ∃ h ∈ heads, x ∈ q h
  · obtain ⟨h, hh, hxh⟩ := hin
    exact hm.remove hh hxh
  · have hfree : ∀ h ∈ heads, x ∉ q h := fun h hh hxh => hin ⟨h, hh, hxh⟩
    obtain ⟨hn, hp⟩ := hm.links_free hx hfree
    have hsame : queueRemove x m = queueNodeInit x m := by
      have hnext : Function.update m.next x x = m.next := Function.update_eq_self_iff.mpr hn.symm
      simp [queueRemove, queueNodeInit, queueDetachNode, QueueMem.setNext, QueueMem.setPrev, hn, hp, hnext]
    rw [hsame, hm.nodeInit_eq hx hfree]
    exact hm.congr fun h hh => (List.erase_of_not_mem (hfree h hh)).symm

end QueueMem.Holds

theorem queueMoveToEnd_eq {m : QueueMem κ} {h x : κ} (hx : h ≠ x) :
    queueMoveToEnd h x m = queueAppend h x (queueRemove x m) := by
  simp [queueMoveToEnd, queueAppend, queueRemove, queueNodeInit, QueueMem.setNext, QueueMem.setPrev,
    Function.update_of_ne hx]

theorem queueMoveToStart_eq {m : QueueMem κ} {h x : κ} (hx : h ≠ x) :
    queueMoveToStart h x m = queuePrepend h x (queueRemove x m) := by
  simp [queueMoveToStart, queuePrepend, queueRemove, queueNodeInit, QueueMem.setNext, QueueMem.setPrev,
    Function.update_of_ne hx]

namespace QueueMem.Holds

variable {m : QueueMem κ} {heads : List κ} {q : κ → List κ} {h x : κ}

/-- `queue_move_to_end`. -/
theorem moveToEnd (hm : m.Holds heads q) (hh : h ∈ heads) (hx : x ∉ heads) :
    (queueMoveToEnd h x m).Holds heads
      (Function.update (fun h' => (q h').erase x) h ((q h).erase x ++ [x])) := by
  rw [queueMoveToEnd_eq (show h ≠ x from fun he => hx (he ▸ hh))]
  refine (hm.erase hx).append hh hx fun h' hh' hxm => ?_
  exact (List.Nodup.mem_erase_iff (List.nodup_cons.mp (hm.nodup h' hh')).2).mp hxm |>.1 rfl

/-- `queue_move_to_start`. -/
theorem moveToStart (hm : m.Holds heads q) (hh : h ∈ heads) (hx : x ∉ heads) :
    (queueMoveToStart h x m).Holds heads
      (Function.update (fun h' => (q h').erase x) h (x :: (q h).erase x)) := by
  rw [queueMoveToStart_eq (show h ≠ x from fun he => hx (he ▸ hh))]
  refine (hm.erase hx).prepend hh hx fun h' hh' hxm => ?_
  exact (List.Nodup.mem_erase_iff (List.nodup_cons.mp (hm.nodup h' hh')).2).mp hxm |>.1 rfl

end QueueMem.Holds

/-! ## Sequences of operations -/

inductive QueueOp (κ : Type) where
  | prepend (queue node : κ)
  | append (queue node : κ)
  | moveToStart (queue node : κ)
  | moveToEnd (queue node : κ)
  | remove (node : κ)
  | first (queue : κ)
  | last (queue : κ)
  | isEmpty (queue : κ)
  | isEnqueued (node : κ)

/-- What an operation returns. -/
inductive QueueAnswer (κ : Type) where
  | none
  | node (o : Option κ)
  | bool (b : Bool)
  deriving DecidableEq

def QueueOp.exec (m : QueueMem κ) : QueueOp κ → QueueAnswer κ × QueueMem κ
  | .prepend queue node => (.none, queuePrepend queue node m)
  | .append queue node => (.none, queueAppend queue node m)
  | .moveToStart queue node => (.none, queueMoveToStart queue node m)
  | .moveToEnd queue node => (.none, queueMoveToEnd queue node m)
  | .remove node => (.none, queueRemove node m)
  | .first queue => (.node (queueFirst queue m), m)
  | .last queue => (.node (queueLast queue m), m)
  | .isEmpty queue => (.bool (queueIsEmpty queue m), m)
  | .isEnqueued node => (.bool (queueIsEnqueued node m), m)

/-- The queues as lists. -/
abbrev Lists (κ : Type) : Type := κ → List κ

namespace Lists

/-- One operation on the lists. -/
def exec (heads : List κ) (q : Lists κ) : QueueOp κ → QueueAnswer κ × Lists κ
  | .prepend queue node => (.none, Function.update q queue (node :: q queue))
  | .append queue node => (.none, Function.update q queue (q queue ++ [node]))
  | .moveToStart queue node =>
    (.none, Function.update (fun h => (q h).erase node) queue (node :: (q queue).erase node))
  | .moveToEnd queue node =>
    (.none, Function.update (fun h => (q h).erase node) queue ((q queue).erase node ++ [node]))
  | .remove node => (.none, fun h => (q h).erase node)
  | .first queue => (.node (q queue).head?, q)
  | .last queue => (.node (q queue).getLast?, q)
  | .isEmpty queue => (.bool (q queue).isEmpty, q)
  | .isEnqueued node => (.bool (heads.any fun h => (q h).contains node), q)

/-- Heads are not enqueued, and a node is put into a queue when it is in none. -/
def Allows (heads : List κ) (q : Lists κ) : QueueOp κ → Prop
  | .prepend queue node => queue ∈ heads ∧ node ∉ heads ∧ ∀ h ∈ heads, node ∉ q h
  | .append queue node => queue ∈ heads ∧ node ∉ heads ∧ ∀ h ∈ heads, node ∉ q h
  | .moveToStart queue node => queue ∈ heads ∧ node ∉ heads
  | .moveToEnd queue node => queue ∈ heads ∧ node ∉ heads
  | .remove node => node ∉ heads
  | .first queue => queue ∈ heads
  | .last queue => queue ∈ heads
  | .isEmpty queue => queue ∈ heads
  | .isEnqueued node => node ∉ heads

instance (heads : List κ) (q : Lists κ) (op : QueueOp κ) : Decidable (Allows heads q op) := by
  cases op <;> dsimp only [Allows] <;> infer_instance

def execAll (heads : List κ) (q : Lists κ) : List (QueueOp κ) → List (QueueAnswer κ) × Lists κ
  | [] => ([], q)
  | op :: ops =>
    let (r, q) := exec heads q op
    let (rs, q) := execAll heads q ops
    (r :: rs, q)

def AllowsAll (heads : List κ) (q : Lists κ) : List (QueueOp κ) → Prop
  | [] => True
  | op :: ops => Allows heads q op ∧ AllowsAll heads (exec heads q op).2 ops

end Lists

def queueOps (m : QueueMem κ) : List (QueueOp κ) → List (QueueAnswer κ) × QueueMem κ
  | [] => ([], m)
  | op :: ops =>
    let (r, m) := op.exec m
    let (rs, m) := queueOps m ops
    (r :: rs, m)

namespace QueueMem.Holds

variable {m : QueueMem κ} {heads : List κ} {q : Lists κ}

/-- Each operation on the links is one on the lists. -/
theorem exec (hm : m.Holds heads q) {op : QueueOp κ} (ha : Lists.Allows heads q op) :
    (op.exec m).1 = (Lists.exec heads q op).1 ∧ (op.exec m).2.Holds heads (Lists.exec heads q op).2 := by
  cases op with
  | prepend queue node => exact ⟨rfl, hm.prepend ha.1 ha.2.1 ha.2.2⟩
  | append queue node => exact ⟨rfl, hm.append ha.1 ha.2.1 ha.2.2⟩
  | moveToStart queue node => exact ⟨rfl, hm.moveToStart ha.1 ha.2⟩
  | moveToEnd queue node => exact ⟨rfl, hm.moveToEnd ha.1 ha.2⟩
  | remove node => exact ⟨rfl, hm.erase ha⟩
  | first queue => exact ⟨congrArg QueueAnswer.node (hm.first_eq ha), hm⟩
  | last queue => exact ⟨congrArg QueueAnswer.node (hm.last_eq ha), hm⟩
  | isEmpty queue =>
    refine ⟨congrArg QueueAnswer.bool ?_, hm⟩
    rw [Bool.eq_iff_iff, hm.isEmpty_iff ha, List.isEmpty_iff]
  | isEnqueued node =>
    refine ⟨congrArg QueueAnswer.bool ?_, hm⟩
    rw [Bool.eq_iff_iff, hm.isEnqueued_iff ha]
    simp only [List.any_eq_true, List.contains_iff_mem]

theorem execAll (hm : m.Holds heads q) {ops : List (QueueOp κ)} (ha : Lists.AllowsAll heads q ops) :
    (queueOps m ops).1 = (Lists.execAll heads q ops).1 ∧
      (queueOps m ops).2.Holds heads (Lists.execAll heads q ops).2 := by
  induction ops generalizing m q with
  | nil => exact ⟨rfl, hm⟩
  | cons op ops ih =>
    obtain ⟨hr, hm'⟩ := hm.exec ha.1
    obtain ⟨hrs, hm''⟩ := ih hm' ha.2
    exact ⟨congrArg₂ List.cons hr hrs, hm''⟩

end QueueMem.Holds

/-- However the queues of a memory are used, as long as no head is used as a node and a node is prepended
or appended only when it is in no queue: each of them stays a circular list, no two share a node, and
every answer is the one that lists give. -/
theorem queues_are_lists (heads : List κ) (ops : List (QueueOp κ))
    (hops : Lists.AllowsAll heads (fun _ => []) ops) :
    (queueOps {} ops).1 = (Lists.execAll heads (fun _ => []) ops).1 ∧
      (queueOps {} ops).2.Holds heads (Lists.execAll heads (fun _ => []) ops).2 :=
  (QueueMem.Holds.init fun _ _ => rfl).execAll hops

/-- A node that moves from one queue to the other. -/
theorem queues_are_lists_moved :
    (queueOps {} [.append 0 2, .append 1 3, .moveToStart 0 3, .remove 2, .first 0]).1 =
        (Lists.execAll [0, 1] (fun _ => []) [.append 0 2, .append 1 3, .moveToStart 0 3, .remove 2, .first 0]).1 ∧
      (queueOps {} [.append 0 2, .append 1 3, .moveToStart 0 3, .remove 2, .first 0]).2.Holds [0, 1]
        (Lists.execAll [0, 1] (fun _ => [])
          [.append 0 2, .append 1 3, .moveToStart 0 3, .remove 2, .first 0]).2 :=
  queues_are_lists [0, 1] [.append 0 2, .append 1 3, .moveToStart 0 3, .remove 2, .first 0]
    ⟨by decide, by decide, by decide, by decide, by decide, trivial⟩

end MNet.Wepoll
