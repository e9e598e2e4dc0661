import Mathlib.Logic.Basic

/-! # State passing with faults

A computation reads and changes a state and returns a value, or stops with a
fault. `Returns` is the judgement the proofs work with: a computation started
in `s` returns `a` and leaves `t`. A `do` block is taken apart one step at a
time with `returns_bind`. -/

namespace MNet.Lib

/-- A computation over states `σ` that returns an `α` or stops with a fault `φ`. -/
def Exec (σ φ α : Type) : Type := σ → Except φ (α × σ)

namespace Exec

variable {σ φ α β : Type}

protected def pure (a : α) : Exec σ φ α := fun s => .ok (a, s)

protected def bind (m : Exec σ φ α) (f : α → Exec σ φ β) : Exec σ φ β := fun s =>
  match m s with
  | .ok (a, t) => f a t
  | .error e => .error e

instance : Monad (Exec σ φ) where
  pure := Exec.pure
  bind := Exec.bind

/-- The part `f` of the current state. -/
def read (f : σ → α) : Exec σ φ α := fun s => .ok (f s, s)

def modify (f : σ → σ) : Exec σ φ Unit := fun s => .ok ((), f s)

def fail (e : φ) : Exec σ φ α := fun _ => .error e

/-- The value behind an optional reference, or the fault `e`. -/
def require (e : φ) : Option α → Exec σ φ α
  | some a => pure a
  | none => fail e

/-- `if (c) m;`. -/
def when (c : Prop) [Decidable c] (m : Exec σ φ Unit) : Exec σ φ Unit := if c then m else pure ()

/-- `if (o) f(o);` for a reference `o`. -/
def forSome (o : Option α) (f : α → Exec σ φ Unit) : Exec σ φ Unit :=
  match o with
  | none => pure ()
  | some a => f a

/-- `m`, started in `s`, returns `a` and leaves the state `t`. -/
def Returns (m : Exec σ φ α) (s : σ) (a : α) (t : σ) : Prop := m s = .ok (a, t)

/-- `m`, started in `s`, returns something. -/
def Terminates (m : Exec σ φ α) (s : σ) : Prop := ∃ a t, Returns m s a t

@[simp] theorem returns_pure {a b : α} {s t : σ} :
    Returns (pure a : Exec σ φ α) s b t ↔ b = a ∧ t = s := by
  constructor
  · intro h; cases h; exact ⟨rfl, rfl⟩
  · rintro ⟨rfl, rfl⟩; rfl

@[simp] theorem returns_bind {m : Exec σ φ α} {f : α → Exec σ φ β} {s u : σ} {b : β} :
    Returns (m >>= f) s b u ↔ ∃ a t, Returns m s a t ∧ Returns (f a) t b u := by
  have hb : (m >>= f) s = Exec.bind m f s := rfl
  constructor
  · intro h
    unfold Returns at h
    rw [hb] at h
    unfold Exec.bind at h
    cases hm : m s with
    | error e => rw [hm] at h; cases h
    | ok p => rw [hm] at h; exact ⟨p.1, p.2, hm, h⟩
  · rintro ⟨a, t, hm, hf⟩
    unfold Returns at hm hf ⊢
    rw [hb]
    simp only [Exec.bind, hm, hf]

@[simp] theorem returns_read {f : σ → α} {s t : σ} {a : α} :
    Returns (read f : Exec σ φ α) s a t ↔ a = f s ∧ t = s := by
  constructor
  · intro h; cases h; exact ⟨rfl, rfl⟩
  · rintro ⟨rfl, rfl⟩; rfl

@[simp] theorem returns_modify {f : σ → σ} {s t : σ} {u : Unit} :
    Returns (modify f : Exec σ φ Unit) s u t ↔ t = f s := by
  constructor
  · intro h; cases h; rfl
  · rintro rfl; rfl

@[simp] theorem returns_fail {e : φ} {s t : σ} {a : α} :
    ¬ Returns (fail e : Exec σ φ α) s a t := by
  intro h; cases h

@[simp] theorem returns_require {e : φ} {o : Option α} {s t : σ} {a : α} :
    Returns (require e o : Exec σ φ α) s a t ↔ o = some a ∧ t = s := by
  cases o with
  | none => simp [require]
  | some b => simp [require, eq_comm]

theorem require_some_bind {e : φ} {a : α} {f : α → Exec σ φ β} : (require e (some a) >>= f) = f a := rfl

theorem returns_ite {c : Prop} [Decidable c] {m m' : Exec σ φ α} {s t : σ} {a : α} :
    Returns (if c then m else m') s a t ↔ (c ∧ Returns m s a t) ∨ (¬ c ∧ Returns m' s a t) := by
  by_cases h : c <;> simp [h]

theorem returns_when {c : Prop} [Decidable c] {m : Exec σ φ Unit} {s t : σ} {u : Unit} :
    Returns (when c m) s u t ↔ (c ∧ Returns m s u t) ∨ (¬ c ∧ t = s) := by
  unfold when
  by_cases h : c <;> simp [h]

@[simp] theorem returns_forSome_none {f : α → Exec σ φ Unit} {s t : σ} {u : Unit} :
    Returns (forSome none f) s u t ↔ t = s := by
  simp [forSome]

@[simp] theorem returns_forSome_some {a : α} {f : α → Exec σ φ Unit} {s t : σ} {u : Unit} :
    Returns (forSome (some a) f) s u t ↔ Returns (f a) s u t := Iff.rfl

/-- A computation has one outcome. -/
theorem Returns.det {m : Exec σ φ α} {s t t' : σ} {a a' : α} (h : Returns m s a t)
    (h' : Returns m s a' t') : a = a' ∧ t = t' := by
  unfold Returns at h h'
  rw [h] at h'
  cases h'
  exact ⟨rfl, rfl⟩

/-- `m` returns from `s`, and what it returns and leaves is as `P` says. -/
def Ends (m : Exec σ φ α) (s : σ) (P : α → σ → Prop) : Prop := ∃ a t, Returns m s a t ∧ P a t

instance {m : Exec σ φ α} {s : σ} {P : α → σ → Prop} [∀ a t, Decidable (P a t)] : Decidable (Ends m s P) :=
  match h : m s with
  | .ok (a, t) => decidable_of_iff (P a t) (by
      refine ⟨fun hp => ⟨a, t, h, hp⟩, fun hends => ?_⟩
      obtain ⟨_, _, h', hp⟩ := hends
      obtain ⟨rfl, rfl⟩ := Returns.det h h'
      exact hp)
  | .error _ => isFalse (by
      intro hends
      obtain ⟨_, _, h', _⟩ := hends
      rw [Returns, h] at h'
      cases h')

/-- A sequence whose first part has a known outcome. -/
theorem Returns.bind_iff {m : Exec σ φ α} {f : α → Exec σ φ β} {s t u : σ} {a : α} {b : β}
    (h : Returns m s a t) : Returns (m >>= f) s b u ↔ Returns (f a) t b u := by
  rw [returns_bind]
  constructor
  · rintro ⟨a', t', h', hf⟩
    obtain ⟨rfl, rfl⟩ := h.det h'
    exact hf
  · exact fun hf => ⟨a, t, h, hf⟩

/-! ## Termination -/

/-- A sequence returns when its first part does and the rest does from wherever that ends. -/
theorem Terminates.bind {m : Exec σ φ α} {f : α → Exec σ φ β} {s : σ} (h : Terminates m s)
    (hf : ∀ a t, Returns m s a t → Terminates (f a) t) : Terminates (m >>= f) s := by
  obtain ⟨a, t, ha⟩ := h
  obtain ⟨b, u, hb⟩ := hf a t ha
  exact ⟨b, u, returns_bind.mpr ⟨a, t, ha, hb⟩⟩

theorem Returns.terminates_bind_iff {m : Exec σ φ α} {f : α → Exec σ φ β} {s t : σ} {a : α}
    (h : Returns m s a t) : Terminates (m >>= f) s ↔ Terminates (f a) t :=
  exists_congr fun _ => exists_congr fun _ => h.bind_iff

theorem Terminates.ite {c : Prop} [Decidable c] {m m' : Exec σ φ α} {s : σ}
    (h : c → Terminates m s) (h' : ¬ c → Terminates m' s) : Terminates (if c then m else m') s := by
  split
  · exact h ‹_›
  · exact h' ‹_›

/-- `m` returns from every state. -/
def Halts (m : Exec σ φ α) : Prop := ∀ s, Terminates m s

theorem halts_pure (a : α) : Halts (pure a : Exec σ φ α) := fun s => ⟨a, s, rfl⟩

theorem halts_read (f : σ → α) : Halts (read f : Exec σ φ α) := fun s => ⟨f s, s, rfl⟩

theorem halts_modify (f : σ → σ) : Halts (modify f : Exec σ φ Unit) := fun s => ⟨(), f s, rfl⟩

theorem Halts.bind {m : Exec σ φ α} {f : α → Exec σ φ β} (h : Halts m) (hf : ∀ a, Halts (f a)) :
    Halts (m >>= f) := fun s => (h s).bind fun a t _ => hf a t

theorem Halts.ite {c : Prop} [Decidable c] {m m' : Exec σ φ α} (h : Halts m) (h' : Halts m') :
    Halts (if c then m else m') := fun s => .ite (fun _ => h s) fun _ => h' s

/-- A sequence whose second part always returns. -/
theorem terminates_bind_of_halts {m : Exec σ φ α} {f : α → Exec σ φ β} {s : σ} (hf : ∀ a, Halts (f a)) :
    Terminates (m >>= f) s ↔ Terminates m s := by
  constructor
  · rintro ⟨b, u, h⟩
    obtain ⟨a, t, ha, _⟩ := returns_bind.mp h
    exact ⟨a, t, ha⟩
  · intro h
    exact h.bind fun a t _ => hf a t

/-- The fault `m` stops with, if it does. -/
def fault (m : Exec σ φ α) (s : σ) : Option φ :=
  match m s with
  | .ok _ => none
  | .error e => some e

theorem not_terminates_of_fault {m : Exec σ φ α} {s : σ} {e : φ} (h : fault m s = some e) :
    ¬ Terminates m s := by
  rintro ⟨a, t, ha⟩
  rw [fault, ha] at h
  cases h

end Exec

end MNet.Lib
