import Mathlib.Logic.Function.Basic
import Mathlib.Data.List.Nodup

/-! # Intrusive linked lists

Lists whose links are fields of their own members: a head pointer and a `next`
field. `Chain` says that the walk from a head visits exactly a given finite
list and then ends, `Visits` only that it reaches a given member, so that it
also makes sense on a list bent into a cycle. `DChain` adds the back links. -/

namespace MNet.Lib

variable {α : Type}

/-! ## Singly linked lists -/

/-- The walk along `next` from `h` visits the list `l` and ends. -/
inductive Chain (next : α → Option α) : Option α → List α → Prop
  | nil : Chain next none []
  | cons {a : α} {l : List α} : Chain next (next a) l → Chain next (some a) (a :: l)

/-- The walk along `next` from `h` comes to `b`. -/
inductive Visits (next : α → Option α) : Option α → α → Prop
  | head {a : α} : Visits next (some a) a
  | tail {a b : α} : Visits next (next a) b → Visits next (some a) b

variable {next next' : α → Option α} {h : Option α} {l : List α}

theorem Chain.eq_nil (hc : Chain next none l) : l = [] := by
  cases hc; rfl

theorem Chain.eq_cons {a : α} (hc : Chain next (some a) l) :
    ∃ l', l = a :: l' ∧ Chain next (next a) l' := by
  cases hc with
  | cons hc => exact ⟨_, rfl, hc⟩

theorem Chain.head_eq (hc : Chain next h l) : l.head? = h := by
  cases hc <;> rfl

theorem Chain.unique {l' : List α} (hc : Chain next h l) (hc' : Chain next h l') : l = l' := by
  induction hc generalizing l' with
  | nil => exact hc'.eq_nil.symm
  | cons _ ih =>
    obtain ⟨l'', rfl, ht⟩ := hc'.eq_cons
    rw [ih ht]

theorem Chain.congr (hc : Chain next h l) (he : ∀ a ∈ l, next' a = next a) : Chain next' h l := by
  induction hc with
  | nil => exact .nil
  | @cons a l hc ih =>
    have ht := ih fun b hb => he b (List.mem_cons_of_mem _ hb)
    rw [← he a (by simp)] at ht
    exact .cons ht

/-- The rest of a chain from one of its members on. -/
theorem Chain.suffix {a : α} {l₁ l₂ : List α} (hc : Chain next h (l₁ ++ a :: l₂)) :
    Chain next (some a) (a :: l₂) := by
  induction l₁ generalizing h with
  | nil =>
    have hh : h = some a := by simpa using hc.head_eq.symm
    subst hh
    exact hc
  | cons b l₁ ih =>
    cases hc with
    | cons hc => exact ih hc

/-- A walk that ends never comes to the same member twice. -/
theorem Chain.nodup (hc : Chain next h l) : l.Nodup := by
  induction hc with
  | nil => exact List.nodup_nil
  | @cons a l hc ih =>
    refine List.nodup_cons.mpr ⟨fun hm => ?_, ih⟩
    obtain ⟨l₁, l₂, rfl⟩ := List.append_of_mem hm
    have hlen := congrArg List.length ((Chain.cons hc).unique hc.suffix)
    simp at hlen
    omega

theorem Chain.visits_iff (hc : Chain next h l) {b : α} : Visits next h b ↔ b ∈ l := by
  induction hc with
  | nil => constructor <;> intro hv <;> cases hv
  | @cons a l hc ih =>
    constructor
    · intro hv
      cases hv with
      | head => simp
      | tail hv => exact List.mem_cons_of_mem _ (ih.mp hv)
    · intro hm
      rcases List.mem_cons.mp hm with rfl | hm
      · exact .head
      · exact .tail (ih.mpr hm)

theorem not_visits_none {b : α} : ¬ Visits next none b := by
  intro hv; cases hv

/-- Changing the links of members the walk does not come to leaves the walk alone. -/
theorem Visits.congr {b : α} (he : ∀ a, Visits next h a → next' a = next a) :
    Visits next' h b ↔ Visits next h b := by
  constructor
  · intro hv
    induction hv with
    | head => exact .head
    | @tail a b _ ih =>
      have ha := he a .head
      rw [ha] at ih
      exact .tail (ih fun c hc => he c (.tail hc))
  · intro hv
    induction hv with
    | head => exact .head
    | @tail a b _ ih =>
      have ht := ih fun c hc => he c (.tail hc)
      rw [← he a .head] at ht
      exact .tail ht

/-- Fewer links lead to fewer members. -/
theorem Visits.mono_next {b : α} (hv : Visits next' h b)
    (hn : ∀ a c, next' a = some c → next a = some c) : Visits next h b := by
  induction hv with
  | head => exact .head
  | @tail a b hv ih =>
    cases hh : next' a with
    | none =>
      rw [hh] at hv
      exact absurd hv not_visits_none
    | some c =>
      rw [hh] at ih
      refine .tail ?_
      rw [hn a c hh]
      exact ih

/-- A list pushed onto twice with the same member never ends. -/
theorem not_chain_of_self {a : α} (ha : next a = some a) : ¬ Chain next (some a) l := by
  intro hc
  induction l with
  | nil => cases hc
  | cons b l ih =>
    obtain ⟨l', he, hc'⟩ := hc.eq_cons
    rw [ha] at hc'
    exact ih ((List.cons.inj he).2 ▸ hc')

/-- What follows a member is a later member, so never the first one. -/
theorem Chain.next_mem {a b : α} (hc : Chain next h l) (ha : a ∈ l) (hb : next a = some b) :
    b ∈ l ∧ h ≠ some b := by
  have hnd := hc.nodup
  induction hc with
  | nil => simp at ha
  | @cons c l hc ih =>
    obtain ⟨hcl, hnd⟩ := List.nodup_cons.mp hnd
    have hbl : b ∈ l := by
      rcases List.mem_cons.mp ha with rfl | ha
      · rw [hb] at hc
        obtain ⟨l', rfl, _⟩ := hc.eq_cons
        simp
      · exact (ih ha hnd).1
    refine ⟨List.mem_cons_of_mem _ hbl, ?_⟩
    rintro ⟨⟩
    exact hcl hbl

section Push

variable [DecidableEq α]

/-- Pushing `a` in front: `a->next = head; head = a`. -/
theorem Chain.push {a : α} (hc : Chain next h l) (ha : a ∉ l) :
    Chain (Function.update next a h) (some a) (a :: l) := by
  refine .cons ?_
  rw [Function.update_self]
  exact hc.congr fun b hb => Function.update_of_ne (fun e : b = a => ha (e ▸ hb)) _ _

private theorem Visits.of_push_aux {a b : α} {q : Option α}
    (hv : Visits (Function.update next a h) q b)
    (hq : q = some a ∨ ∀ c, Visits next q c → Visits next h c) : b = a ∨ Visits next h b := by
  induction hv with
  | @head c =>
    rcases hq with hq | hq
    · exact .inl (Option.some.inj hq)
    · exact .inr (hq c .head)
  | @tail c d _ ih =>
    apply ih
    by_cases hca : c = a
    · subst hca
      rw [Function.update_self]
      exact .inr fun e he => he
    · rw [Function.update_of_ne hca]
      rcases hq with hq | hq
      · exact absurd (Option.some.inj hq) hca
      · exact .inr fun e he => hq e (.tail he)

/-- What a push makes reachable was reachable before, or is the new head. Nothing is
assumed about the list: the pushed member may already have been on it. -/
theorem Visits.of_push {a b : α} (hv : Visits (Function.update next a h) (some a) b) :
    b = a ∨ Visits next h b :=
  hv.of_push_aux (.inl rfl)

end Push

/-! ## Doubly linked lists -/

/-- The walk along `next` from `h` visits `l` and ends, and `prev` leads back to `p`. -/
inductive DChain (next prev : α → Option α) : Option α → Option α → List α → Prop
  | nil {p : Option α} : DChain next prev p none []
  | cons {p : Option α} {a : α} {l : List α} : prev a = p →
      DChain next prev (some a) (next a) l → DChain next prev p (some a) (a :: l)

variable {prev prev' : α → Option α} {p : Option α}

theorem DChain.chain (hc : DChain next prev p h l) : Chain next h l := by
  induction hc with
  | nil => exact .nil
  | cons _ _ ih => exact .cons ih

theorem DChain.nodup (hc : DChain next prev p h l) : l.Nodup := hc.chain.nodup

theorem DChain.congr (hc : DChain next prev p h l) (hn : ∀ a ∈ l, next' a = next a)
    (hp : ∀ a ∈ l, prev' a = prev a) : DChain next' prev' p h l := by
  induction hc with
  | nil => exact .nil
  | @cons p a l ha hc ih =>
    have ht := ih (fun b hb => hn b (List.mem_cons_of_mem _ hb))
      (fun b hb => hp b (List.mem_cons_of_mem _ hb))
    rw [← hn a (by simp)] at ht
    exact .cons ((hp a (by simp)).trans ha) ht

/-- A member is the first one, with the back link the list starts from, or its back link
is another member. -/
theorem DChain.prev_mem {a : α} (hc : DChain next prev p h l) (ha : a ∈ l) :
    (h = some a ∧ prev a = p) ∨ (h ≠ some a ∧ ∃ b ∈ l, b ≠ a ∧ prev a = some b) := by
  have hnd := hc.nodup
  induction hc with
  | nil => simp at ha
  | @cons p b l hb hc ih =>
    obtain ⟨hbl, hnd⟩ := List.nodup_cons.mp hnd
    rcases List.mem_cons.mp ha with rfl | ha
    · exact .inl ⟨rfl, hb⟩
    · refine .inr ⟨?_, ?_⟩
      · intro he
        exact hbl (Option.some.inj he ▸ ha)
      · rcases ih ha hnd with ⟨_, hp⟩ | ⟨_, c, hcl, hca, hp⟩
        · exact ⟨b, by simp, fun e => hbl (e ▸ ha), hp⟩
        · exact ⟨c, List.mem_cons_of_mem _ hcl, hca, hp⟩

section Relink

variable [DecidableEq α]

/-- `f` with the entry at an optional reference replaced. -/
def updateAt {β : Type} (f : α → β) : Option α → β → α → β
  | none, _ => f
  | some a, b => Function.update f a b

@[simp] theorem updateAt_none {β : Type} (f : α → β) (b : β) : updateAt f none b = f := rfl

@[simp] theorem updateAt_some {β : Type} (f : α → β) (a : α) (b : β) :
    updateAt f (some a) b = Function.update f a b := rfl

/-- Changing the back link of the first member only changes where it leads. -/
theorem DChain.relink {q : Option α} (hc : DChain next prev p h l) :
    DChain next (updateAt prev h q) q h l := by
  cases hc with
  | nil => exact .nil
  | @cons _ a l ha hc =>
    have hnd := (DChain.cons ha hc).nodup
    refine .cons (by simp) (hc.congr (fun _ _ => rfl) fun b hb => ?_)
    exact Function.update_of_ne (fun e : b = a => (List.nodup_cons.mp hnd).1 (e ▸ hb)) _ _

/-- Pushing a fresh member in front of a doubly linked list. -/
theorem DChain.push {a : α} (hc : DChain next prev none h l) (ha : a ∉ l) :
    DChain (Function.update next a h) (Function.update (updateAt prev h (some a)) a none)
      none (some a) (a :: l) := by
  refine .cons (by simp) ?_
  rw [Function.update_self]
  refine (hc.relink (q := some a)).congr ?_ ?_ <;> intro b hb
  · exact Function.update_of_ne (fun e : b = a => ha (e ▸ hb)) _ _
  · exact Function.update_of_ne (fun e : b = a => ha (e ▸ hb)) _ _

/-- Unlinking a member: its neighbours are linked to each other, and the head moves on
when it was the first one. -/
theorem DChain.unlink {a : α} (hc : DChain next prev p h l) (ha : a ∈ l)
    (hp : ∀ q, p = some q → q ∉ l) :
    DChain (updateAt next (prev a) (next a)) (updateAt prev (next a) (prev a)) p
      (if h = some a then next a else h) (l.erase a) := by
  induction hc with
  | nil => simp at ha
  | @cons p b l hb hc ih =>
    have hnd := (DChain.cons hb hc).nodup
    obtain ⟨hbl, _⟩ := List.nodup_cons.mp hnd
    by_cases hab : b = a
    · subst hab
      rw [if_pos rfl, List.erase_cons_head, hb]
      refine (hc.relink (q := p)).congr (fun c hcl => ?_) fun _ _ => rfl
      cases p with
      | none => rfl
      | some q =>
        exact Function.update_of_ne (fun e : c = q => hp q rfl (e ▸ List.mem_cons_of_mem _ hcl)) _ _
    · have hal : a ∈ l := by
        rcases List.mem_cons.mp ha with e | hm
        · exact absurd e.symm hab
        · exact hm
      have ht := ih hal fun q hq => by
        cases hq
        exact hbl
      rw [if_neg (by simpa using hab), List.erase_cons_tail (by simpa using hab)]
      refine .cons ?_ ?_
      · -- the member after `a` comes after `b`, so the back link of `b` stays
        cases hna : next a with
        | none => exact hb
        | some d =>
          have hd := hc.chain.next_mem hal hna
          exact (Function.update_of_ne (fun e : b = d => hbl (e ▸ hd.1)) _ _).trans hb
      · have hlink : updateAt next (prev a) (next a) b = if next b = some a then next a else next b := by
          rcases hc.prev_mem hal with ⟨hh, hpa⟩ | ⟨hh, c, hcl, _, hpa⟩
          · rw [hpa, if_pos hh]
            simp
          · rw [hpa, if_neg hh]
            exact Function.update_of_ne (fun e : b = c => hbl (e ▸ hcl)) _ _
        rw [hlink]
        exact ht

end Relink

end MNet.Lib
