import MNet.Core.Sys
import MNet.Core.Touch
import Mathlib.Data.Set.Insert

/-! # Act sequences and well-behaved extensions

`Steps A` says that a core becomes another by acts of the set `A`. A callback is `Quiet`
when it leaves the core alone; the table of a `Tame` extension has quiet callbacks, except
that accepting, connecting and filtering may disconnect the channel at hand. -/

namespace MNet
open MNet.Lib MNet.Lib.Exec

/-- Acts of the set `A` lead from `k` to `k'`. -/
def Steps (A : Set Act) (k k' : Core) : Prop := ∃ acts, (∀ a ∈ acts, a ∈ A) ∧ Path CStep k acts k'

namespace Steps

variable {A B : Set Act} {k k' k'' : Core} {a : Act}

theorem refl (k : Core) : Steps A k k := ⟨[], by simp, .nil⟩

theorem of_eq (h : k' = k) : Steps A k k' := by
  rw [h]
  exact refl k

theorem single (h : CStep k a k') (ha : a ∈ A) : Steps A k k' := ⟨[a], by simpa using ha, .single h⟩

theorem mono (h : Steps A k k') (hs : A ⊆ B) : Steps B k k' := by
  obtain ⟨acts, ha, hp⟩ := h
  exact ⟨acts, fun a hm => hs (ha a hm), hp⟩

theorem trans (h : Steps A k k') (h' : Steps A k' k'') : Steps A k k'' := by
  obtain ⟨acts, ha, hp⟩ := h
  obtain ⟨acts', ha', hp'⟩ := h'
  refine ⟨acts ++ acts', fun a hm => ?_, hp.append hp'⟩
  rcases List.mem_append.mp hm with hm | hm
  · exact ha a hm
  · exact ha' a hm

theorem base (h : Steps A k k') (hb : Base k) : Base k' := by
  obtain ⟨_, _, hp⟩ := h
  exact hb.path hp

/-- What every act of `A` keeps. -/
theorem keeps {I : Core → Prop} (h : Steps A k k')
    (hI : ∀ a k k', a ∈ A → CStep k a k' → I k → I k') (hk : I k) : I k' := by
  obtain ⟨acts, ha, hp⟩ := h
  exact hp.keeps_of ha (fun k a k' hA hs => hI a k k' hA hs) hk

/-- What is not destroyed keeps its type. -/
theorem same_type {n : ChannId} {c : CChann} (h : Steps A k k') (hb : Base k) (hA : .destroy n ∉ A)
    (hn : k.heap n = some c) : ∃ c', k'.heap n = some c' ∧ c'.ctype = c.ctype := by
  refine (h.keeps (I := fun k => Base k ∧ ∃ c', k.heap n = some c' ∧ c'.ctype = c.ctype) ?_
    ⟨hb, c, hn, rfl⟩).2
  rintro a k k' ha hs ⟨hb, d, hd, hty⟩
  obtain ⟨e, he, hty'⟩ := hs.same_type hb (fun e => hA (e ▸ ha)) hd
  exact ⟨hb.step hs, e, he, hty'.trans hty⟩

/-- What is not destroyed stays allocated. -/
theorem allocated {n : ChannId} (h : Steps A k k') (hb : Base k) (hA : .destroy n ∉ A)
    (hn : k.heap n ≠ none) : k'.heap n ≠ none := by
  obtain ⟨c, hc⟩ := Option.ne_none_iff_exists'.mp hn
  obtain ⟨c', hc', _⟩ := h.same_type hb hA hc
  simp [hc']

end Steps

variable {ε : Type}

/-- A computation that changes nothing the core keeps. -/
def Quiet {α : Type} (m : M ε α) : Prop := ∀ s a t, Returns m s a t → t.core = s.core

theorem Quiet.pure {α : Type} (a : α) : Quiet (pure a : M ε α) := by
  intro s b t h
  rw [(returns_pure.mp h).2]

theorem Quiet.bind {α β : Type} {m : M ε α} {f : α → M ε β} (hm : Quiet m) (hf : ∀ a, Quiet (f a)) :
    Quiet (m >>= f) := by
  intro s b t h
  obtain ⟨a, u, h1, h2⟩ := returns_bind.mp h
  rw [hf a u b t h2, hm s a u h1]

theorem Quiet.record {e : SysEvent} (he : e.harmless) : Quiet (record e : M ε Unit) :=
  fun _ _ _ h => core_record h he

theorem Quiet.callback {op : ExtOp} {cb : ChannId → M ε Unit} {n : ChannId} (h : Quiet (cb n)) :
    Quiet (callback op cb n) := (Quiet.record (e := .extOp op n) trivial).bind fun _ => h

/-- The operations of registered types leave the library alone, and wrap the state of a
channel as CONNECTED or LISTENING only when it is. -/
structure TameOps (o : OpsTable ε) : Prop where
  openCb : ∀ ctype n, Quiet ((o ctype).openCb n)
  closeCb : ∀ ctype n, Quiet ((o ctype).closeCb n)
  listenCb : ∀ ctype n, Quiet ((o ctype).listenCb n)
  disconnectCb : ∀ ctype n, Quiet ((o ctype).disconnectCb n)
  recvFn : ∀ ctype n len, Quiet ((o ctype).recvFn n len)
  sendFn : ∀ ctype n data, CHANN_TYPE_BROADCAST < ctype → Quiet ((o ctype).sendFn n data)
  stateFn : ∀ ctype s n st, ChannState.connected.val ≤ (o ctype).stateFn s n st →
    ChannState.connected.val ≤ st.val

/-- Nothing, or a call of `mnet_chann_disconnect(n)`. -/
def Reenters (o : OpsTable ε) (n : ChannId) (s t : Sys ε) : Prop :=
  t.core = s.core ∨ ∃ a b r, a.core = s.core ∧ Returns (channDisconnectSocket o n) a r b ∧
    t.core = b.core

/-- The message slot of `n` rewritten. -/
def Rewrites (n : ChannId) (s t : Sys ε) : Prop :=
  ∃ c msg, s.core.heap n = some c ∧ t.core = s.core.set n { c with msg := msg }

structure Tame (x : ExtTable ε) : Prop where
  ops : TameOps (opsOf x)
  acceptCb : ∀ ctype n s u t, Returns ((x ctype).acceptCb n) s u t → Reenters (opsOf x) n s t
  connectCb : ∀ ctype n s u t, Returns ((x ctype).connectCb n) s u t → Reenters (opsOf x) n s t
  filterFn : ∀ ctype n s pass t, CHANN_TYPE_BROADCAST < ctype →
    Returns ((x ctype).filterFn n) s pass t →
    ∃ u, (u.core = s.core ∨ Rewrites n s u) ∧ Reenters (opsOf x) n u t

end MNet
