import Mathlib.Data.Set.Defs
import MNet.Lib.Path

/-! # Projections of runs

A run with labels of one kind, and a run of one system seen as a run of another: each step
of the first is a run of the second between the images of its states, possibly an empty one. -/

namespace MNet.Lib

variable {σ τ ι κ : Type}

/-- Steps with labels of the set `A` lead from `s` to `t`. -/
def Via (R : σ → ι → σ → Prop) (A : Set ι) (s t : σ) : Prop := ∃ l, (∀ i ∈ l, i ∈ A) ∧ Path R s l t

namespace Via

variable {R : σ → ι → σ → Prop} {R' : τ → κ → τ → Prop} {A B : Set ι} {A' : Set κ} {s t u : σ} {i : ι}

theorem refl (s : σ) : Via R A s s := ⟨[], by simp, .nil⟩

theorem of_eq (h : t = s) : Via R A s t := by
  rw [h]
  exact refl s

theorem single (h : R s i t) (hi : i ∈ A) : Via R A s t := ⟨[i], by simpa using hi, .single h⟩

theorem trans (h : Via R A s t) (h' : Via R A t u) : Via R A s u := by
  obtain ⟨l, hl, hp⟩ := h
  obtain ⟨l', hl', hp'⟩ := h'
  refine ⟨l ++ l', fun i hi => ?_, hp.append hp'⟩
  rcases List.mem_append.mp hi with hi | hi
  · exact hl i hi
  · exact hl' i hi

theorem mono (h : Via R A s t) (hs : ∀ i ∈ A, i ∈ B) : Via R B s t := by
  obtain ⟨l, hl, hp⟩ := h
  exact ⟨l, fun i hi => hs i (hl i hi), hp⟩

theorem keeps {I : σ → Prop} (h : Via R A s t) (hI : ∀ a i b, i ∈ A → R a i b → I a → I b)
    (hs : I s) : I t := by
  obtain ⟨_, hl, hp⟩ := h
  exact hp.keeps_of hl (fun a i b hi hr => hI a i b hi hr) hs

/-- Without labels there are no steps. -/
theorem of_empty (h : Via R A s t) (hA : ∀ i, i ∉ A) : t = s :=
  h.keeps (I := fun u => u = s) (fun _ i _ hi _ _ => absurd hi (hA i)) rfl

/-- What the steps of the kind are in the second system, the run is. -/
theorem project {I : σ → Prop} {f : σ → τ} (h : Via R A s t) (hI : I s)
    (hstep : ∀ a i b, i ∈ A → R a i b → I a → I b ∧ Via R' A' (f a) (f b)) :
    Via R' A' (f s) (f t) :=
  (h.keeps (I := fun u => I u ∧ Via R' A' (f s) (f u))
    (fun a i b hi hr ha => ⟨(hstep a i b hi hr ha.1).1, ha.2.trans (hstep a i b hi hr ha.1).2⟩)
    ⟨hI, refl _⟩).2

end Via

/-- A run of the first system is a run of the second with the same labels. -/
theorem Path.project {R : σ → ι → σ → Prop} {R' : τ → ι → τ → Prop} {I : σ → Prop} {f : σ → τ}
    {s t : σ} {l : List ι} (h : Path R s l t) (hI : I s)
    (hstep : ∀ a i b, R a i b → I a → I b ∧ R' (f a) i (f b)) : Path R' (f s) l (f t) := by
  induction h with
  | nil => exact .nil
  | cons hr _ ih =>
    obtain ⟨hb, hr'⟩ := hstep _ _ _ hr hI
    exact .cons hr' (ih hb)

/-- A step of the kind `p` has to be paid for: by one of the kind `q`, or from what the states
have put by. -/
theorem Path.count_le {R : σ → ι → σ → Prop} {I : σ → Prop} {p q : ι → Bool} {φ : σ → Nat} {s t : σ}
    {l : List ι} (h : Path R s l t) (hI : I s)
    (hstep : ∀ a i b, R a i b → I a → I b ∧ (p i).toNat + φ b ≤ (q i).toNat + φ a) :
    l.countP p + φ t ≤ l.countP q + φ s := by
  induction h with
  | nil => simp
  | @cons s t u i l hr _ ih =>
    obtain ⟨hb, hs⟩ := hstep _ _ _ hr hI
    have hrest := ih hb
    have hcons : ∀ r : ι → Bool, (i :: l).countP r = (r i).toNat + l.countP r := by
      intro r
      rw [List.countP_cons]
      cases r i <;> simp [Nat.add_comm]
    rw [hcons, hcons]
    omega

end MNet.Lib
