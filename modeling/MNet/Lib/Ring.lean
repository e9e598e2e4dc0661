import Mathlib.Data.List.Chain
import Mathlib.Logic.Function.Basic

/-! # Circular doubly linked lists

A ring is a head link whose `next` leads through the members of a list and back to the head, and
whose `prev` leads the same way back. Cutting the list in two gives the two neighbours between
which a link is put in or taken out. -/

namespace MNet.Lib

variable {α : Type} {next prev next' prev' : α → α} {h x : α} {l a b : List α}

/-- Two links that follow each other. -/
def Linked (next prev : α → α) (p e : α) : Prop := next p = e ∧ prev e = p

def Ring (next prev : α → α) (h : α) (l : List α) : Prop :=
  List.IsChain (Linked next prev) ((h :: l) ++ [h])

/-- The last link of the ring that starts with `l`, and the first one. -/
def lastOf (h : α) (l : List α) : α := l.getLast?.getD h

def firstOf (h : α) (l : List α) : α := l.head?.getD h

theorem lastOf_mem (h : α) (l : List α) : lastOf h l ∈ h :: l := by
  unfold lastOf
  cases hl : l.getLast? with
  | none => simp
  | some p => simp [List.mem_of_getLast? hl]

theorem firstOf_mem (h : α) (l : List α) : firstOf h l ∈ l ++ [h] := by
  cases l with
  | nil => simp [firstOf]
  | cons e l => simp [firstOf]

theorem getLast?_cons_eq (h : α) (l : List α) : (h :: l).getLast? = some (lastOf h l) := by
  rw [List.getLast?_cons, lastOf]

theorem head?_append_eq (h : α) (l : List α) : (l ++ [h]).head? = some (firstOf h l) := by
  cases l <;> rfl

/-- A ring cut in two. -/
theorem ring_append : Ring next prev h (a ++ b) ↔
    List.IsChain (Linked next prev) (h :: a) ∧ List.IsChain (Linked next prev) (b ++ [h]) ∧
      Linked next prev (lastOf h a) (firstOf h b) := by
  rw [Ring, show (h :: (a ++ b)) ++ [h] = (h :: a) ++ (b ++ [h]) by simp, List.isChain_append,
    getLast?_cons_eq, head?_append_eq]
  simp

/-- The first half of a ring, and what follows it. -/
theorem Ring.linked (hr : Ring next prev h (a ++ b)) : Linked next prev (lastOf h a) (firstOf h b) :=
  (ring_append.mp hr).2.2

/-- The head points to itself when nothing else is there. -/
theorem Ring.next_head (hr : Ring next prev h l) (hnd : (h :: l).Nodup) : next h = h ↔ l = [] := by
  have hfirst : next h = firstOf h l := (ring_append (a := []).mp hr).2.2.1
  rw [hfirst]
  cases l with
  | nil => exact ⟨fun _ => rfl, fun _ => rfl⟩
  | cons e l => exact ⟨fun he => absurd (he ▸ List.mem_cons_self) (List.nodup_cons.mp hnd).1, nofun⟩

/-- Links that are not written to stay a ring. -/
theorem Ring.congr (hr : Ring next prev h l) (hn : ∀ p ∈ h :: l, next' p = next p)
    (hp : ∀ p ∈ h :: l, prev' p = prev p) : Ring next' prev' h l := by
  have hmem : ∀ p, p ∈ (h :: l) ++ [h] → p ∈ h :: l := by
    intro p hp
    simpa [or_comm] using hp
  refine List.IsChain.imp_of_mem_imp (fun p e hpm hem hl => ?_) hr
  exact ⟨(hn p (hmem p hpm)).trans hl.1, (hp e (hmem e hem)).trans hl.2⟩

/-- Links in a row that keep the `next` of all but the last and the `prev` of all but the first. -/
theorem isChain_relink (hc : List.IsChain (Linked next prev) l) (hnd : l.Nodup)
    (hn : ∀ p ∈ l, l.getLast? ≠ some p → next' p = next p) (hp : ∀ e ∈ l.tail, prev' e = prev e) :
    List.IsChain (Linked next' prev') l := by
  induction l with
  | nil => exact .nil
  | cons p l ih =>
    cases l with
    | nil => exact .singleton p
    | cons e l =>
      rw [List.isChain_cons_cons] at hc ⊢
      have hlast : (p :: e :: l).getLast? = (e :: l).getLast? := List.getLast?_cons_cons
      have hpe : (p :: e :: l).getLast? ≠ some p := by
        rw [hlast]
        exact fun h => (List.nodup_cons.mp hnd).1 (List.mem_of_getLast? h)
      refine ⟨⟨(hn p List.mem_cons_self hpe).trans hc.1.1, (hp e List.mem_cons_self).trans hc.1.2⟩, ?_⟩
      refine ih hc.2 (List.nodup_cons.mp hnd).2 (fun q hq hne => ?_) fun q hq => ?_
      · exact hn q (List.mem_cons_of_mem _ hq) (by rw [hlast]; exact hne)
      · exact hp q (List.mem_cons_of_mem _ hq)

/-- The two halves of a ring, when only the links between them are written to: `next` of the last
link of the first half, and `prev` of the first one of the second. -/
theorem isChain_halves (ha : List.IsChain (Linked next prev) (h :: a))
    (hb : List.IsChain (Linked next prev) (b ++ [h])) (hnd : (h :: (a ++ b)).Nodup)
    (hn : ∀ p ∈ h :: (a ++ b), p ≠ lastOf h a → next' p = next p)
    (hp : ∀ e ∈ h :: (a ++ b), e ≠ firstOf h b → prev' e = prev e) :
    List.IsChain (Linked next' prev') (h :: a) ∧ List.IsChain (Linked next' prev') (b ++ [h]) := by
  have hfirst : firstOf h b ∈ b ++ [h] := firstOf_mem h b
  have hlast : lastOf h a ∈ h :: a := lastOf_mem h a
  obtain ⟨hh, hnda, hndb, hdis⟩ : h ∉ a ++ b ∧ a.Nodup ∧ b.Nodup ∧ ∀ p ∈ a, ∀ q ∈ b, p ≠ q := by
    rw [List.nodup_cons, List.nodup_append] at hnd
    exact hnd
  rw [List.mem_append, not_or] at hh
  have hndbh : (b ++ [h]).Nodup := by
    rw [List.nodup_append]
    exact ⟨hndb, by simp, fun p hpm q hq => by
      rw [List.mem_singleton.mp hq]
      exact fun he => hh.2 (he ▸ hpm)⟩
  constructor
  · refine isChain_relink ha (List.nodup_cons.mpr ⟨hh.1, hnda⟩) (fun p hpm hne => ?_) fun e he => ?_
    · rw [getLast?_cons_eq] at hne
      exact hn p ((List.mem_append_left b hpm : p ∈ (h :: a) ++ b)) fun heq => hne (heq ▸ rfl)
    · have he : e ∈ a := he
      refine hp e (List.mem_cons_of_mem _ (List.mem_append_left _ he)) fun heq => ?_
      rw [← heq, List.mem_append, List.mem_singleton] at hfirst
      rcases hfirst with hb | rfl
      · exact hdis e he e hb rfl
      · exact hh.1 he
  · refine isChain_relink hb hndbh (fun p hpm hne => ?_) fun e he => ?_
    · rw [List.getLast?_concat] at hne
      have hpb : p ∈ b := (List.mem_append.mp hpm).resolve_right fun hs => hne (List.mem_singleton.mp hs ▸ rfl)
      refine hn p (List.mem_cons_of_mem _ (List.mem_append_right _ hpb)) fun heq => ?_
      rw [← heq, List.mem_cons] at hlast
      rcases hlast with rfl | ha
      · exact hne rfl
      · exact hdis p ha p hpb rfl
    · have hem : e ∈ h :: (a ++ b) := by
        have := List.mem_of_mem_tail he
        simp only [List.mem_append, List.mem_cons, List.not_mem_nil, or_false] at this ⊢
        tauto
      refine hp e hem fun heq => ?_
      cases b with
      | nil => simp at he
      | cons f b =>
        rw [show firstOf h (f :: b) = f from rfl] at heq
        rw [List.cons_append, List.nodup_cons] at hndbh
        exact hndbh.1 (heq ▸ he)

variable [DecidableEq α]

/-- A new link between the two halves. -/
theorem Ring.insert (hr : Ring next prev h (a ++ b)) (hnd : (h :: (a ++ b)).Nodup)
    (hx : x ∉ h :: (a ++ b)) :
    Ring (Function.update (Function.update next x (firstOf h b)) (lastOf h a) x)
      (Function.update (Function.update prev x (lastOf h a)) (firstOf h b) x) h (a ++ x :: b) := by
  have hmem : ∀ p ∈ h :: (a ++ b), p ≠ x := fun p hp he => hx (by rw [← he]; exact hp)
  have hlast : lastOf h a ≠ x := hmem _ (List.mem_append_left b (lastOf_mem h a) : lastOf h a ∈ (h :: a) ++ b)
  have hfirst : firstOf h b ≠ x := by
    refine hmem _ ?_
    have := firstOf_mem h b
    simp only [List.mem_append, List.mem_cons, List.not_mem_nil, or_false] at this ⊢
    tauto
  obtain ⟨ha, hb, _⟩ := ring_append.mp hr
  obtain ⟨ha, hb⟩ := isChain_halves ha hb hnd
    (fun p hm hne => (Function.update_of_ne hne x _).trans (Function.update_of_ne (hmem p hm) (firstOf h b) next))
    (fun e hm hne => (Function.update_of_ne hne x _).trans (Function.update_of_ne (hmem e hm) (lastOf h a) prev))
  rw [show a ++ x :: b = (a ++ [x]) ++ b by simp, ring_append]
  refine ⟨?_, hb, ?_⟩
  · rw [← List.cons_append, List.isChain_append, getLast?_cons_eq]
    refine ⟨ha, List.isChain_singleton x, fun p hp e he => ?_⟩
    obtain rfl : lastOf h a = p := by simpa using hp
    obtain rfl : x = e := by simpa using he
    exact ⟨Function.update_self .., by rw [Function.update_of_ne hfirst.symm, Function.update_self]⟩
  · rw [show lastOf h (a ++ [x]) = x by simp [lastOf]]
    exact ⟨by rw [Function.update_of_ne hlast.symm, Function.update_self], Function.update_self ..⟩

/-- A link between the two halves taken out. -/
theorem Ring.erase (hr : Ring next prev h (a ++ x :: b)) (hnd : (h :: (a ++ x :: b)).Nodup) :
    Ring (Function.update next (prev x) (next x)) (Function.update prev (next x) (prev x)) h (a ++ b) := by
  obtain ⟨ha, _, _, hpx⟩ := ring_append.mp hr
  rw [show firstOf h (x :: b) = x from rfl] at hpx
  rw [show a ++ x :: b = (a ++ [x]) ++ b by simp, ring_append] at hr
  obtain ⟨_, hb, hxe, _⟩ := hr
  rw [show lastOf h (a ++ [x]) = x by simp [lastOf]] at hxe
  have hsub : (h :: (a ++ b)).Nodup := hnd.sublist (by simp)
  rw [hpx, hxe]
  obtain ⟨ha, hb⟩ := isChain_halves ha hb hsub (fun p _ hne => Function.update_of_ne hne (firstOf h b) next)
    (fun e _ hne => Function.update_of_ne hne (lastOf h a) prev)
  exact ring_append.mpr ⟨ha, hb, Function.update_self .., Function.update_self ..⟩

end MNet.Lib
