import MNet.Lib.Exec

/-! # One computation that follows another

`m'` follows `m` along the relation `R` when from related states it returns whatever `m` returns,
and ends in a related state. Two runs of one program are compared part by part. -/

namespace MNet.Lib.Exec

variable {σ τ φ α β : Type} {R : σ → τ → Prop}

def Follows (R : σ → τ → Prop) (m : Exec σ φ α) (m' : Exec τ φ α) : Prop :=
  ∀ s s' a t, R s s' → Returns m s a t → ∃ t', Returns m' s' a t' ∧ R t t'

theorem follows_pure (a : α) : Follows R (pure a : Exec σ φ α) (pure a) := by
  intro s s' b t hR h
  obtain ⟨rfl, rfl⟩ := returns_pure.mp h
  exact ⟨s', returns_pure.mpr ⟨rfl, rfl⟩, hR⟩

theorem Follows.bind {m : Exec σ φ α} {m' : Exec τ φ α} {f : α → Exec σ φ β} {f' : α → Exec τ φ β}
    (hm : Follows R m m') (hf : ∀ a, Follows R (f a) (f' a)) : Follows R (m >>= f) (m' >>= f') := by
  intro s s' b u hR h
  obtain ⟨a, t, ha, hb⟩ := returns_bind.mp h
  obtain ⟨t', ha', hR'⟩ := hm s s' a t hR ha
  obtain ⟨u', hb', hR''⟩ := hf a t t' b u hR' hb
  exact ⟨u', returns_bind.mpr ⟨a, t', ha', hb'⟩, hR''⟩

theorem Follows.ite {c : Prop} [Decidable c] {m n : Exec σ φ α} {m' n' : Exec τ φ α}
    (h : Follows R m m') (h' : Follows R n n') : Follows R (if c then m else n) (if c then m' else n') := by
  split
  · exact h
  · exact h'

/-- What is found in the first state is found in the second. -/
theorem follows_require {γ δ : Type} {e : φ} {f : σ → γ} {g : τ → δ} {p : γ → Option α} {q : δ → Option α}
    (h : ∀ s s' a, R s s' → p (f s) = some a → q (g s') = some a) :
    Follows R (read f >>= fun c => require e (p c)) (read g >>= fun d => require e (q d)) := by
  intro s s' a t hR ha
  simp only [returns_bind, returns_read, returns_require, and_assoc, exists_eq_left,
    exists_and_left] at ha
  obtain ⟨ha, rfl⟩ := ha
  refine ⟨s', ?_, hR⟩
  simp only [returns_bind, returns_read, returns_require, and_assoc, exists_eq_left, exists_and_left]
  exact ⟨h t s' a hR ha, trivial⟩

/-- A value that no state has a part in. -/
theorem follows_require_same {e : φ} {o : Option α} :
    Follows R (require e o : Exec σ φ α) (require e o) := by
  intro s s' a t hR ha
  obtain ⟨hsome, rfl⟩ := returns_require.mp ha
  exact ⟨s', returns_require.mpr ⟨hsome, rfl⟩, hR⟩

theorem follows_modify {f : σ → σ} {g : τ → τ} (h : ∀ s s', R s s' → R (f s) (g s')) :
    Follows R (modify f : Exec σ φ Unit) (modify g) := by
  intro s s' a t hR ha
  obtain rfl := returns_modify.mp ha
  exact ⟨g s', returns_modify.mpr rfl, h s s' hR⟩

end MNet.Lib.Exec
