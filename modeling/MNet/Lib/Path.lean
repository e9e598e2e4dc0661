import Mathlib.Logic.Basic

/-! # Labelled runs

A run of a labelled transition relation, the list of its labels in order, and the
induction that turns a fact about one step into a fact about runs. -/

namespace MNet.Lib

variable {σ ι : Type}

/-- A run from one state to another, with its labels. -/
inductive Path (R : σ → ι → σ → Prop) : σ → List ι → σ → Prop
  | nil {s : σ} : Path R s [] s
  | cons {s t u : σ} {i : ι} {l : List ι} : R s i t → Path R t l u → Path R s (i :: l) u

namespace Path

variable {R R' : σ → ι → σ → Prop} {s t u : σ} {i : ι} {l l' : List ι}

theorem single (h : R s i t) : Path R s [i] t := .cons h .nil

theorem append (h : Path R s l t) (h' : Path R t l' u) : Path R s (l ++ l') u := by
  induction h with
  | nil => exact h'
  | cons hs _ ih => exact .cons hs (ih h')

theorem snoc (h : Path R s l t) (h' : R t i u) : Path R s (l ++ [i]) u := h.append (single h')

theorem mono (h : Path R s l t) (hr : ∀ a i b, R a i b → R' a i b) : Path R' s l t := by
  induction h with
  | nil => exact .nil
  | cons hs _ ih => exact .cons (hr _ _ _ hs) ih

/-- What every step keeps, a run keeps. -/
theorem keeps {I : σ → Prop} (h : Path R s l t) (hI : ∀ a i b, R a i b → I a → I b) (hs : I s) :
    I t := by
  induction h with
  | nil => exact hs
  | cons hr _ ih => exact ih (hI _ _ _ hr hs)

/-- What steps with labels of a kind keep, a run of such steps keeps. -/
theorem keeps_of {I : σ → Prop} {P : ι → Prop} (h : Path R s l t) (hP : ∀ i ∈ l, P i)
    (hI : ∀ a i b, P i → R a i b → I a → I b) (hs : I s) : I t := by
  induction h with
  | nil => exact hs
  | cons hr _ ih =>
    exact ih (fun j hj => hP j (List.mem_cons_of_mem _ hj)) (hI _ _ _ (hP _ (by simp)) hr hs)

end Path

end MNet.Lib
