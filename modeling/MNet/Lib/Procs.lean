import Mathlib.Logic.Function.Basic
import MNet.Lib.Path

/-! # Processes that share a world

A program calls atomic operations one after another, each going on with the result of the one
before. Processes run their programs as often as they like, in any interleaving, and may be
killed between any two operations. What holds of a program wherever it may stop holds of every
process in every run. -/

namespace MNet.Lib

inductive Prog (ω α : Type) where
  | ret (a : α)
  | call (o : ω) (k : Int → Prog ω α)

namespace Prog

variable {ω α β : Type}

protected def bind : Prog ω α → (α → Prog ω β) → Prog ω β
  | ret a, f => f a
  | call o k, f => call o fun r => (k r).bind f

instance : Monad (Prog ω) where
  pure := ret
  bind := Prog.bind

/-- One operation and its result. -/
def op (o : ω) : Prog ω Int := call o ret

@[simp] theorem pure_eq (a : α) : (pure a : Prog ω α) = ret a := rfl

@[simp] theorem ret_bind (a : α) (f : α → Prog ω β) : (ret a : Prog ω α) >>= f = f a := rfl

@[simp] theorem call_bind (o : ω) (k : Int → Prog ω α) (f : α → Prog ω β) :
    call o k >>= f = call o fun r => k r >>= f := rfl

@[simp] theorem op_bind (o : ω) (f : Int → Prog ω β) : op o >>= f = call o f := rfl

end Prog

/-- A process: whether it is alive, and what is left of the program it is in. -/
structure Proc (ω α : Type) where
  alive : Bool := true
  left : Option (Prog ω α) := none

/-- The world, the processes, and what their programs have returned, in order. -/
structure Fleet (π ω α σ : Type) where
  world : σ
  procs : π → Proc ω α := fun _ => {}
  returned : List (π × α) := []

inductive Fleet.Act (π ω : Type) where
  | start (p : π)
  | call (p : π) (o : ω)
  | finish (p : π)
  | kill (p : π)
  | other

namespace Fleet

variable {π ω α σ : Type} [DecidableEq π]

def set (s : Fleet π ω α σ) (p : π) (q : Proc ω α) : Fleet π ω α σ :=
  { s with procs := Function.update s.procs p q }

@[simp] theorem set_self (s : Fleet π ω α σ) (p : π) (q : Proc ω α) : (s.set p q).procs p = q :=
  Function.update_self ..

theorem set_of_ne (s : Fleet π ω α σ) {p i : π} (q : Proc ω α) (h : i ≠ p) :
    (s.set p q).procs i = s.procs i := Function.update_of_ne h ..

/-- One step of one process, or of the world by itself. `main p` is the program of `p`, and
`exec` what an operation of `p` does and returns. -/
inductive Step (main : π → Prog ω α) (exec : σ → π → ω → Int → σ → Prop) (env : σ → σ → Prop) :
    Fleet π ω α σ → Act π ω → Fleet π ω α σ → Prop
  | start {s : Fleet π ω α σ} {p : π} : s.procs p = { alive := true, left := none } →
    Step main exec env s (.start p) (s.set p { alive := true, left := some (main p) })
  | call {s : Fleet π ω α σ} {p : π} {o : ω} {k : Int → Prog ω α} {r : Int} {w : σ} :
    s.procs p = { alive := true, left := some (.call o k) } → exec s.world p o r w →
    Step main exec env s (.call p o) { s.set p { alive := true, left := some (k r) } with world := w }
  | finish {s : Fleet π ω α σ} {p : π} {a : α} :
    s.procs p = { alive := true, left := some (.ret a) } →
    Step main exec env s (.finish p)
      { s.set p { alive := true, left := none } with returned := s.returned ++ [(p, a)] }
  | kill {s : Fleet π ω α σ} {p : π} : (s.procs p).alive = true →
    Step main exec env s (.kill p) (s.set p { s.procs p with alive := false })
  | other {s : Fleet π ω α σ} {w : σ} : env s.world w → Step main exec env s .other { s with world := w }

variable {main : π → Prog ω α} {exec : σ → π → ω → Int → σ → Prop} {env : σ → σ → Prop}
  {s t : Fleet π ω α σ} {a : Act π ω} {p : π}

/-- What is left of the programs satisfies `S`. -/
def Stops (S : π → Prog ω α → Prop) (s : Fleet π ω α σ) : Prop :=
  ∀ p q, (s.procs p).left = some q → S p q

/-- What holds of every program and of what any result leaves of it holds of all that is left. -/
theorem Step.stops {S : π → Prog ω α → Prop} (h : Step main exec env s a t) (hmain : ∀ p, S p (main p))
    (hcall : ∀ p o k, S p (.call o k) → ∀ r, S p (k r)) (hs : Stops S s) : Stops S t := by
  -- the process that steps has `left` left, the others what they had
  have hset : ∀ {p : π} {q : Proc ω α}, (∀ r, q.left = some r → S p r) → Stops S (s.set p q) := by
    intro p q hq i r hi
    by_cases hip : i = p
    · subst hip
      rw [set_self] at hi
      exact hq r hi
    · rw [set_of_ne s q hip] at hi
      exact hs i r hi
  cases h with
  | start => exact hset fun r hr => Option.some.inj hr ▸ hmain _
  | call hp => exact hset fun r hr => Option.some.inj hr ▸ hcall _ _ _ (hs _ _ (by rw [hp])) _
  | finish => exact hset fun r hr => by cases hr
  | kill => exact hset fun r hr => hs _ r hr
  | other => exact hs

end Fleet

/-! ## A semaphore with one permit -/

/-- Of the processes at most one has the permit, and else the semaphore has it. There may have been
no permit from the start: `m` is how many there were. -/
inductive Permit {π : Type} (m : Nat) (has : π → Bool) : Nat → Prop
  | free : (∀ p, has p = false) → Permit m has m
  | taken {p : π} : m = 1 → has p = true → (∀ q, has q = true → q = p) → Permit m has 0

namespace Permit

variable {π : Type} {has : π → Bool} {m n : Nat} {p q : π}

theorem one (h : Permit m has n) (hp : has p = true) (hq : has q = true) : p = q := by
  cases h with
  | free h => rw [h] at hp; cases hp
  | taken _ _ h => rw [h p hp, h q hq]

theorem zero (h : Permit m has n) (hp : has p = true) : n = 0 := by
  cases h with
  | free h => rw [h] at hp; cases hp
  | taken => rfl

theorem of_has (h : Permit m has n) (hp : has p = true) : m = 1 := by
  cases h with
  | free h => rw [h] at hp; cases hp
  | taken hm => exact hm

theorem le (h : Permit m has n) : n ≤ m := by
  cases h with
  | free => exact Nat.le_refl m
  | taken => exact Nat.zero_le m

variable [DecidableEq π]

theorem take (h : Permit m has n) (hm : m ≤ 1) (hn : 0 < n) : Permit m (Function.update has p true) (n - 1) := by
  cases h with
  | taken => exact absurd hn (Nat.lt_irrefl 0)
  | free h =>
    obtain rfl : m = 1 := by omega
    refine .taken (p := p) rfl (Function.update_self ..) fun q hq => ?_
    by_contra hne
    rw [Function.update_of_ne hne, h] at hq
    cases hq

theorem give (h : Permit m has n) (hp : has p = true) : Permit m (Function.update has p false) (n + 1) := by
  have hm := h.of_has hp
  have hn := h.zero hp
  subst hn hm
  refine .free fun q => ?_
  by_cases hq : q = p
  · rw [hq, Function.update_self]
  · rw [Function.update_of_ne hq]
    by_contra hne
    exact hq (h.one (by simpa [hq] using hne) hp)

/-- Nothing changes hands. -/
theorem keep {b : Bool} (h : Permit m has n) (hb : b = has p) : Permit m (Function.update has p b) n := by
  rw [hb, Function.update_eq_self]
  exact h

end Permit

end MNet.Lib
