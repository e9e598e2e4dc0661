import Mathlib.Order.Defs.Unbundled
import MNet.Lib.Exec

/-! # Computations that stay within a relation

`Within R m s` says that wherever `m` ends when it is started in `s`, the relation `R` holds
between the two states. With `R` reflexive and transitive the judgement follows the structure
of the computation: a sequence stays within `R` when its parts do. -/

namespace MNet.Lib.Exec

variable {σ φ α β : Type} {R R' : σ → σ → Prop} {s : σ}

def Within (R : σ → σ → Prop) (m : Exec σ φ α) (s : σ) : Prop := ∀ a t, Returns m s a t → R s t

theorem Within.mono {m : Exec σ φ α} (h : Within R m s) (hr : ∀ t, R s t → R' s t) : Within R' m s :=
  fun a t ha => hr t (h a t ha)

theorem within_fail {e : φ} : Within R (fail e : Exec σ φ α) s := fun _ _ h => absurd h returns_fail

theorem Within.ite {c : Prop} [Decidable c] {m m' : Exec σ φ α} (h : c → Within R m s)
    (h' : ¬ c → Within R m' s) : Within R (if c then m else m') s := by
  split
  · exact h ‹_›
  · exact h' ‹_›

/-! ## Parts that only look -/

theorem Within.bind_same {m : Exec σ φ α} {f : α → Exec σ φ β}
    (h : ∀ a t, Returns m s a t → t = s ∧ Within R (f a) s) : Within R (m >>= f) s := by
  intro b u hb
  obtain ⟨a, t, ha, hf⟩ := returns_bind.mp hb
  obtain ⟨rfl, hw⟩ := h a t ha
  exact hw b u hf

theorem Within.read_bind {f : σ → α} {g : α → Exec σ φ β} (h : Within R (g (f s)) s) :
    Within R (read f >>= g) s :=
  .bind_same fun a t ha => by
    obtain ⟨rfl, rfl⟩ := returns_read.mp ha
    exact ⟨rfl, h⟩

theorem Within.require_bind {e : φ} {o : Option α} {g : α → Exec σ φ β}
    (h : ∀ a, o = some a → Within R (g a) s) : Within R (require e o >>= g) s :=
  .bind_same fun a t ha => by
    obtain ⟨ho, rfl⟩ := returns_require.mp ha
    exact ⟨rfl, h a ho⟩

section Refl

variable [Std.Refl R]

theorem within_of_eq {m : Exec σ φ α} (h : ∀ a t, Returns m s a t → t = s) : Within R m s := by
  intro a t ha
  rw [h a t ha]
  exact Std.Refl.refl s

theorem within_pure (a : α) : Within R (pure a : Exec σ φ α) s :=
  within_of_eq fun _ _ h => (returns_pure.mp h).2

theorem within_read (f : σ → α) : Within R (read f : Exec σ φ α) s :=
  within_of_eq fun _ _ h => (returns_read.mp h).2

theorem within_require (e : φ) (o : Option α) : Within R (require e o : Exec σ φ α) s :=
  within_of_eq fun _ _ h => (returns_require.mp h).2

theorem Within.when {c : Prop} [Decidable c] {m : Exec σ φ Unit} (h : c → Within R m s) :
    Within R (when c m) s := .ite h fun _ => within_pure ()

theorem Within.forSome {o : Option α} {f : α → Exec σ φ Unit} (h : ∀ a, o = some a → Within R (f a) s) :
    Within R (forSome o f) s := by
  cases o with
  | none => exact within_pure ()
  | some a => exact h a rfl

end Refl

theorem Within.bind [IsTrans σ R] {m : Exec σ φ α} {f : α → Exec σ φ β} (hm : Within R m s)
    (hf : ∀ a t, Returns m s a t → Within R (f a) t) : Within R (m >>= f) s := by
  intro b u h
  obtain ⟨a, t, ha, hb⟩ := returns_bind.mp h
  exact IsTrans.trans s t u (hm a t ha) (hf a t ha b u hb)

end MNet.Lib.Exec
