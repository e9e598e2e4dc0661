import MNet.Lib.Exec

/-! # What a computation ends in

`Ends m s P` says that `m` returns from `s`, without a fault, and in what way. It goes through a
program from its first statement to its last. -/

namespace MNet.Lib.Exec

variable {σ φ α β : Type} {s t : σ} {a : α} {P : α → σ → Prop}

theorem Returns.ends {m : Exec σ φ α} (h : Returns m s a t) : Ends m s P ↔ P a t := by
  constructor
  · rintro ⟨a', t', h', hp⟩
    obtain ⟨rfl, rfl⟩ := h.det h'
    exact hp
  · exact fun hp => ⟨a, t, h, hp⟩

@[simp] theorem ends_pure : Ends (pure a : Exec σ φ α) s P ↔ P a s := Returns.ends rfl

@[simp] theorem ends_bind {m : Exec σ φ α} {f : α → Exec σ φ β} {Q : β → σ → Prop} :
    Ends (m >>= f) s Q ↔ Ends m s fun a t => Ends (f a) t Q := by
  simp only [Ends, returns_bind]
  constructor
  · rintro ⟨b, u, ⟨a, t, hm, hf⟩, hq⟩
    exact ⟨a, t, hm, b, u, hf, hq⟩
  · rintro ⟨a, t, hm, b, u, hf, hq⟩
    exact ⟨b, u, ⟨a, t, hm, hf⟩, hq⟩

@[simp] theorem ends_read {f : σ → α} : Ends (read f : Exec σ φ α) s P ↔ P (f s) s := Returns.ends rfl

@[simp] theorem ends_modify {f : σ → σ} {P : Unit → σ → Prop} :
    Ends (modify f : Exec σ φ Unit) s P ↔ P () (f s) := Returns.ends rfl

@[simp] theorem ends_fail {e : φ} : ¬ Ends (fail e : Exec σ φ α) s P := by
  simp [Ends]

@[simp] theorem ends_require_some {e : φ} : Ends (require e (some a) : Exec σ φ α) s P ↔ P a s :=
  ends_pure

theorem ends_ite {c : Prop} [Decidable c] {m m' : Exec σ φ α} :
    Ends (if c then m else m') s P ↔ (c → Ends m s P) ∧ (¬ c → Ends m' s P) := by
  by_cases h : c <;> simp [h]

theorem Ends.mono {m : Exec σ φ α} {Q : α → σ → Prop} (h : Ends m s P) (hpq : ∀ a t, P a t → Q a t) :
    Ends m s Q := by
  obtain ⟨a, t, hr, hp⟩ := h
  exact ⟨a, t, hr, hpq a t hp⟩

/-! ## Faults -/

theorem fault_of_bind {m : Exec σ φ α} {f : α → Exec σ φ β} {e : φ} (h : fault m s = some e) :
    fault (m >>= f) s = some e := by
  have hb : (m >>= f) s = Exec.bind m f s := rfl
  unfold fault at h ⊢
  rw [hb, Exec.bind]
  cases hm : m s with
  | ok r =>
    rw [hm] at h
    cases h
  | error e' =>
    rw [hm] at h
    exact h

/-- The first part returns, and what follows stops with a fault. -/
theorem Ends.fault_bind {m : Exec σ φ α} {f : α → Exec σ φ β} {e : φ} (h : Ends m s P)
    (hf : ∀ a t, P a t → fault (f a) t = some e) : fault (m >>= f) s = some e := by
  obtain ⟨a, t, hr, hp⟩ := h
  have hb : (m >>= f) s = f a t := by
    have hb : (m >>= f) s = Exec.bind m f s := rfl
    rw [hb, Exec.bind, show m s = .ok (a, t) from hr]
  rw [fault, hb]
  exact hf a t hp

end MNet.Lib.Exec
