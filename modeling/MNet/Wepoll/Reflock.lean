import Mathlib.Data.List.Perm.Subperm
import Mathlib.Logic.Function.Basic
import Mathlib.Tactic.Common

/-! # The handle of a port

`epoll_ctl`, `epoll_wait` and `epoll_close` find the port of a handle in a tree that a lock protects,
and take a reference to it. `epoll_close` takes the handle out of the tree first, and waits until it
has the last reference before it frees the port. Any number of threads make these calls on one
handle; a step is one access to what they share. -/

namespace MNet.Wepoll

def REFLOCK_REF : BitVec 32 := 0x00000001
def REFLOCK_REF_MASK : BitVec 32 := 0x0fffffff
def REFLOCK_DESTROY : BitVec 32 := 0x10000000
def REFLOCK_DESTROY_MASK : BitVec 32 := 0xf0000000
def REFLOCK_POISON : BitVec 32 := 0x300dead0

/-- `reflock_ref`, or nothing when its assertion fails. -/
def reflockRef (state : BitVec 32) : Option (BitVec 32) :=
  let state := state + REFLOCK_REF
  if state &&& REFLOCK_DESTROY_MASK = 0 then some state else none

/-- `reflock_unref`, with whether it signals the event. -/
def reflockUnref (state : BitVec 32) : Option (BitVec 32 × Bool) :=
  let state := state - REFLOCK_REF
  if state &&& REFLOCK_DESTROY_MASK &&& ~~~REFLOCK_DESTROY = 0 then some (state, state = REFLOCK_DESTROY) else none

/-- The first part of `reflock_unref_and_destroy`, with whether it awaits the event. -/
def reflockDestroy (state : BitVec 32) : Option (BitVec 32 × Bool) :=
  let state := state + (REFLOCK_DESTROY - REFLOCK_REF)
  let refCount := state &&& REFLOCK_REF_MASK
  if state &&& REFLOCK_DESTROY_MASK = REFLOCK_DESTROY then some (state, refCount ≠ 0) else none

/-- Its end. -/
def reflockPoison (state : BitVec 32) : Option (BitVec 32) :=
  if state = REFLOCK_DESTROY then some REFLOCK_POISON else none

/-- Where a thread is: outside; in `epoll_ctl` or `epoll_wait` with a reference; about to signal the
event; in `epoll_close` before `port_close`, before `reflock_unref_and_destroy`, at the event, before
the end of `reflock_unref_and_destroy`, and before `port_delete`. -/
inductive HandlePhase where
  | idle
  | using
  | signalling
  | closing
  | destroying
  | awaiting
  | poisoning
  | deleting
  deriving DecidableEq

inductive HandleFault where
  | assertion
  | useAfterFree
  deriving DecidableEq

/-- What the threads share: whether the handle is in the tree, the count of its references, whether the
port has its completion port and whether it is in memory. -/
structure Handle (τ : Type) where
  inTree : Bool := true
  state : BitVec 32 := 0
  iocpHandle : Bool := true
  alive : Bool := true
  phases : τ → HandlePhase := fun _ => .idle

inductive HandleAction (τ : Type) where
  | find (t : τ)
  | use (t : τ)
  | unref (t : τ)
  | del (t : τ)
  | close (t : τ)
  | destroy (t : τ)
  | meet (t u : τ)
  | poison (t : τ)
  | delete (t : τ)

variable {τ : Type} [DecidableEq τ]

namespace Handle

def move (h : Handle τ) (t : τ) (p : HandlePhase) : Handle τ := { h with phases := Function.update h.phases t p }

/-- An access to the port or to the lock in it. -/
def access {α : Type} (h : Handle τ) (k : Except HandleFault α) : Except HandleFault α :=
  if h.alive = true then k else .error .useAfterFree

def assert (c : Prop) [Decidable c] {α : Type} (k : Except HandleFault α) : Except HandleFault α :=
  if c then k else .error .assertion

/-- What is left of an assertion in `reflock`. -/
def asserted {α β : Type} (o : Option α) (k : α → Except HandleFault β) : Except HandleFault β :=
  match o with
  | some a => k a
  | none => .error .assertion

end Handle

/-- A thread waits for the event only until another signals it. -/
def HandleAction.Enabled (h : Handle τ) : HandleAction τ → Prop
  | .find t => h.phases t = .idle
  | .use t => h.phases t = .using
  | .unref t => h.phases t = .using
  | .del t => h.phases t = .idle
  | .close t => h.phases t = .closing
  | .destroy t => h.phases t = .destroying
  | .meet t u => h.phases t = .signalling ∧ h.phases u = .awaiting
  | .poison t => h.phases t = .poisoning
  | .delete t => h.phases t = .deleting

def HandleAction.exec (h : Handle τ) : HandleAction τ → Except HandleFault (Handle τ)
  -- `ts_tree_find_and_ref`
  | .find t =>
    if h.inTree = false then .ok h
    else h.access (Handle.asserted (reflockRef h.state) fun state => .ok ({ h with state := state }.move t .using))
  -- `port_ctl`, or `port_wait` while it has the lock of the port
  | .use _ => h.access (.ok h)
  -- `ts_tree_node_unref`
  | .unref t => h.access (Handle.asserted (reflockUnref h.state) fun r =>
      .ok ({ h with state := r.1 }.move t (if r.2 = true then .signalling else .idle)))
  -- `ts_tree_del_and_ref`
  | .del t =>
    if h.inTree = false then .ok h
    else h.access (Handle.asserted (reflockRef h.state) fun state =>
      .ok ({ h with state := state, inTree := false }.move t .closing))
  -- `port_close`
  | .close t => h.access (.ok ({ h with iocpHandle := false }.move t .destroying))
  -- `ts_tree_node_unref_and_destroy`
  | .destroy t => h.access (Handle.asserted (reflockDestroy h.state) fun r =>
      .ok ({ h with state := r.1 }.move t (if r.2 = true then .awaiting else .poisoning)))
  | .meet t u => .ok ((h.move t .idle).move u .poisoning)
  | .poison t => h.access (Handle.asserted (reflockPoison h.state) fun state =>
      .ok ({ h with state := state }.move t .deleting))
  -- `port_delete`
  | .delete t => h.access (Handle.assert (h.iocpHandle = false) (.ok ({ h with alive := false }.move t .idle)))

/-! ## The word of the lock -/

/-- The most references that the lock can count. -/
def maxRefs : Nat := 0x0fffffff

section

variable {n : Nat}

def refs (n : Nat) : BitVec 32 := BitVec.ofNat 32 n

theorem refs_mask (h : n ≤ maxRefs) : refs n &&& REFLOCK_DESTROY_MASK = 0 := by
  refine BitVec.eq_of_getLsbD_eq fun i hi => ?_
  have hlow : ∀ i < 28, REFLOCK_DESTROY_MASK.getLsbD i = false := by decide
  rw [BitVec.getLsbD_and]
  by_cases h28 : i < 28
  · rw [hlow i h28, Bool.and_false, BitVec.ofNat_eq_ofNat, BitVec.getLsbD_zero]
  · have hlt : n < 268435456 := by
      unfold maxRefs at h
      omega
    have hpow := Nat.pow_le_pow_right Nat.two_pos (Nat.le_of_not_lt h28)
    have hbit : n.testBit i = false := Nat.testBit_lt_two_pow (Nat.lt_of_lt_of_le hlt hpow)
    rw [refs, BitVec.getLsbD_ofNat, hbit, Bool.and_false, Bool.false_and, BitVec.ofNat_eq_ofNat, BitVec.getLsbD_zero]

theorem refs_succ : refs n + REFLOCK_REF = refs (n + 1) := (BitVec.ofNat_add n 1).symm

theorem refs_pred : refs (n + 1) - REFLOCK_REF = refs n := by
  rw [← refs_succ, BitVec.add_sub_cancel]

theorem refs_eq_zero (h : n ≤ maxRefs) : refs n = 0 ↔ n = 0 := by
  unfold refs maxRefs at *
  constructor
  · intro hz
    have := congrArg BitVec.toNat hz
    simp at this
    omega
  · rintro rfl
    rfl

/-- The word once `n` references are left to a lock that is destroyed. -/
def destroyed (n : Nat) : BitVec 32 := REFLOCK_DESTROY + refs n

theorem destroy_or (h : n ≤ maxRefs) : destroyed n = REFLOCK_DESTROY ||| refs n := by
  refine BitVec.add_eq_or_of_and_eq_zero _ _ ?_
  have hmask : REFLOCK_DESTROY = REFLOCK_DESTROY_MASK &&& REFLOCK_DESTROY := by decide
  rw [hmask, BitVec.and_comm, ← BitVec.and_assoc, refs_mask h]
  rfl

theorem destroy_mask (h : n ≤ maxRefs) : destroyed n &&& REFLOCK_DESTROY_MASK = REFLOCK_DESTROY := by
  rw [destroy_or h, BitVec.and_or_distrib_right, refs_mask h]
  decide

theorem destroy_eq (h : n ≤ maxRefs) : destroyed n = REFLOCK_DESTROY ↔ n = 0 := by
  rw [← refs_eq_zero h, destroyed]
  generalize refs n = x
  constructor <;> intro he <;> bv_omega

theorem destroy_refs (h : n ≤ maxRefs) : destroyed n &&& REFLOCK_REF_MASK = refs n := by
  have hmask : REFLOCK_REF_MASK = ~~~REFLOCK_DESTROY_MASK := by decide
  have hkeep : refs n &&& ~~~REFLOCK_DESTROY_MASK = refs n := by
    have hall : REFLOCK_DESTROY_MASK ||| ~~~REFLOCK_DESTROY_MASK = BitVec.allOnes 32 := by decide
    have hsplit : refs n &&& (REFLOCK_DESTROY_MASK ||| ~~~REFLOCK_DESTROY_MASK) = refs n := by
      rw [hall, BitVec.and_allOnes]
    rw [BitVec.and_or_distrib_left, refs_mask h] at hsplit
    simpa using hsplit
  rw [destroy_or h, BitVec.and_or_distrib_right, hmask, hkeep]
  simp [REFLOCK_DESTROY, REFLOCK_DESTROY_MASK]

theorem reflockRef_refs (h : n + 1 ≤ maxRefs) : reflockRef (refs n) = some (refs (n + 1)) := by
  simp only [reflockRef, refs_succ, refs_mask h, if_true]

theorem reflockUnref_refs (h : n ≤ maxRefs) : reflockUnref (refs (n + 1)) = some (refs n, false) := by
  have hne : refs n ≠ REFLOCK_DESTROY := by
    intro he
    have hmask := refs_mask h
    rw [he] at hmask
    exact absurd hmask (by decide)
  simp [reflockUnref, refs_pred, refs_mask h, hne]

theorem reflockUnref_destroy (h : n ≤ maxRefs) :
    reflockUnref (destroyed (n + 1)) = some (destroyed n, decide (n = 0)) := by
  have hpred : destroyed (n + 1) - REFLOCK_REF = destroyed n := by
    rw [destroyed, destroyed, ← refs_succ, ← BitVec.add_assoc, BitVec.add_sub_cancel]
  simp [reflockUnref, hpred, destroy_mask h, destroy_eq h]

theorem reflockDestroy_refs (h : n ≤ maxRefs) :
    reflockDestroy (refs (n + 1)) = some (destroyed n, decide (n ≠ 0)) := by
  have hadd : refs (n + 1) + (REFLOCK_DESTROY - REFLOCK_REF) = destroyed n := by
    rw [destroyed, ← refs_succ]
    simp only [REFLOCK_DESTROY, REFLOCK_REF]
    bv_omega
  simp only [reflockDestroy, hadd, destroy_mask h, destroy_refs h, if_true, ne_eq, refs_eq_zero h]

end

/-! ## The invariant -/

/-- How far the handle is closed, and by which thread. -/
inductive HandleStage (τ : Type) where
  | opened
  | closing (u : τ)
  | closed (u : τ)
  | awaiting (u : τ)
  | signalled (u t : τ)
  | poisoning (u : τ)
  | deleting (u : τ)
  | gone

namespace HandleStage

variable {st : HandleStage τ} {t : τ} {p : HandlePhase}

/-- Where the stage has a thread. -/
def phase : HandleStage τ → τ → HandlePhase
  | .opened, _ | .gone, _ => .idle
  | .closing u, t => if t = u then .closing else .idle
  | .closed u, t => if t = u then .destroying else .idle
  | .awaiting u, t => if t = u then .awaiting else .idle
  | .signalled u s, t => if t = s then .signalling else if t = u then .awaiting else .idle
  | .poisoning u, t => if t = u then .poisoning else .idle
  | .deleting u, t => if t = u then .deleting else .idle

/-- The word of the lock when `n` threads use the port. -/
def word : HandleStage τ → Nat → BitVec 32
  | .opened, n => refs n
  | .closing _, n | .closed _, n => refs (n + 1)
  | .awaiting _, n | .signalled _ _, n | .poisoning _, n => destroyed n
  | .deleting _, _ | .gone, _ => REFLOCK_POISON

/-- How many threads may use the port. The one that signals the event is not the one that waits for it. -/
def Users : HandleStage τ → Nat → Prop
  | .opened, _ | .closing _, _ | .closed _, _ => True
  | .awaiting _, n => 0 < n
  | .signalled u t, n => n = 0 ∧ u ≠ t
  | .poisoning _, n | .deleting _, n | .gone, n => n = 0

def inTree : HandleStage τ → Bool
  | .opened => true
  | _ => false

def iocpHandle : HandleStage τ → Bool
  | .opened | .closing _ => true
  | _ => false

def alive : HandleStage τ → Bool
  | .gone => false
  | _ => true

/-- The threads that the stage names, and where they are. -/
inductive Has : HandleStage τ → τ → HandlePhase → Prop
  | closing {u : τ} : Has (.closing u) u .closing
  | closed {u : τ} : Has (.closed u) u .destroying
  | awaiting {u : τ} : Has (.awaiting u) u .awaiting
  | signalling {u t : τ} : Has (.signalled u t) t .signalling
  | signalled {u t : τ} : Has (.signalled u t) u .awaiting
  | poisoning {u : τ} : Has (.poisoning u) u .poisoning
  | deleting {u : τ} : Has (.deleting u) u .deleting

theorem has (h : st.phase t = p) (hp : p ≠ .idle) : st.Has t p := by
  subst h
  cases st <;> simp only [phase, ne_eq] at hp ⊢ <;> repeat' split at hp
  case closing.isTrue ht => rw [if_pos ht, ht]; exact .closing
  case closed.isTrue ht => rw [if_pos ht, ht]; exact .closed
  case awaiting.isTrue ht => rw [if_pos ht, ht]; exact .awaiting
  case signalled.isTrue ht => rw [if_pos ht, ht]; exact .signalling
  case signalled.isFalse.isTrue hs ht => rw [if_neg hs, if_pos ht, ht]; exact .signalled
  case poisoning.isTrue ht => rw [if_pos ht, ht]; exact .poisoning
  case deleting.isTrue ht => rw [if_pos ht, ht]; exact .deleting
  all_goals simp at hp

theorem phase_ne_using : st.phase t ≠ .using := by
  intro h
  cases has h (by decide)

end HandleStage

namespace Handle

variable {h : Handle τ} {st : HandleStage τ} {hs : List τ} {t u : τ} {p : HandlePhase}

/-- The threads in `hs` use the port. -/
structure Inv (h : Handle τ) (st : HandleStage τ) (hs : List τ) : Prop where
  nodup : hs.Nodup
  inside : ∀ t ∈ hs, h.phases t = .using ∧ st.phase t = .idle
  outside : ∀ t, t ∉ hs → h.phases t = st.phase t
  word : h.state = st.word hs.length
  users : st.Users hs.length
  inTree : h.inTree = st.inTree
  iocpHandle : h.iocpHandle = st.iocpHandle
  alive : h.alive = st.alive

theorem Inv.start : ({} : Handle τ).Inv .opened [] :=
  ⟨List.nodup_nil, fun _ ht => absurd ht List.not_mem_nil, fun _ _ => rfl, rfl, trivial, rfl, rfl, rfl⟩

theorem Inv.mem_of_using (i : h.Inv st hs) (ht : h.phases t = .using) : t ∈ hs := by
  by_contra hn
  rw [i.outside t hn] at ht
  exact HandleStage.phase_ne_using ht

theorem Inv.not_mem (i : h.Inv st hs) (ht : h.phases t ≠ .using) : t ∉ hs := fun hin => ht (i.inside t hin).1

theorem Inv.has (i : h.Inv st hs) (ht : h.phases t = p) (hidle : p ≠ .idle) (husing : p ≠ .using) :
    st.Has t p ∧ t ∉ hs := by
  have hn := i.not_mem (ht ▸ husing)
  exact ⟨HandleStage.has ((i.outside t hn).symm.trans ht) hidle, hn⟩

omit [DecidableEq τ] in
theorem access_ok {α : Type} {k : Except HandleFault α} (ha : h.alive = true) : h.access k = k := if_pos ha

/-- A thread enters a port that is in the tree. -/
theorem Inv.enter (i : h.Inv .opened hs) (ht : h.phases t = .idle) :
    ({ h with state := refs (hs.length + 1) }.move t .using).Inv .opened (t :: hs) := by
  have hn := i.not_mem (t := t) (by simp [ht])
  refine ⟨List.nodup_cons.mpr ⟨hn, i.nodup⟩, fun x hx => ?_, fun x hx => ?_, rfl, trivial, i.inTree, i.iocpHandle,
    i.alive⟩
  · refine ⟨?_, rfl⟩
    rcases List.mem_cons.mp hx with rfl | hx
    · exact Function.update_self ..
    · have hne : x ≠ t := fun he => hn (he ▸ hx)
      exact (Function.update_of_ne hne ..).trans (i.inside x hx).1
  · rw [List.mem_cons, not_or] at hx
    exact (Function.update_of_ne hx.1 ..).trans (i.outside x hx.2)

/-- A thread that the stage moves is not among the users. -/
theorem Inv.moves {h' : Handle τ} {st' : HandleStage τ} (i : h.Inv st hs) (ht : t ∉ hs)
    (hphases : h'.phases = Function.update h.phases t p) (hst : ∀ x, st'.phase x = if x = t then p else st.phase x)
    (hword : h'.state = st'.word hs.length) (husers : st'.Users hs.length) (htree : h'.inTree = st'.inTree)
    (hport : h'.iocpHandle = st'.iocpHandle) (halive : h'.alive = st'.alive) : h'.Inv st' hs := by
  refine ⟨i.nodup, fun x hx => ?_, fun x hx => ?_, hword, husers, htree, hport, halive⟩
  · have hne : x ≠ t := fun he => ht (he ▸ hx)
    rw [hphases, Function.update_of_ne hne, hst, if_neg hne]
    exact i.inside x hx
  · rw [hphases, Function.update_apply, hst, i.outside x hx]

/-! ## Steps -/

/-- At most `maxRefs` threads can have references. -/
def Few (τ : Type) : Prop := ∀ l : List τ, l.Nodup → l.length ≤ maxRefs

def Safe (h : Handle τ) (a : HandleAction τ) : Prop := ∃ h' st hs, a.exec h = .ok h' ∧ h'.Inv st hs

/-- A thread that finds the port can take a reference. -/
theorem Inv.found (few : Few τ) (i : h.Inv st hs) (ht : h.phases t = .idle) (htree : ¬h.inTree = false) :
    st = .opened ∧ t ∉ hs ∧ reflockRef h.state = some (refs (hs.length + 1)) := by
  rw [i.inTree, Bool.not_eq_false] at htree
  cases st <;> try cases htree
  have hn := i.not_mem (t := t) (by simp [ht])
  have hroom : hs.length + 1 ≤ maxRefs := few (t :: hs) (List.nodup_cons.mpr ⟨hn, i.nodup⟩)
  have hword : h.state = refs hs.length := i.word
  rw [hword]
  exact ⟨rfl, hn, reflockRef_refs hroom⟩

theorem Inv.find (few : Few τ) (i : h.Inv st hs) (ht : h.phases t = .idle) : h.Safe (.find t) := by
  by_cases htree : h.inTree = false
  · exact ⟨h, st, hs, if_pos htree, i⟩
  obtain ⟨rfl, _, href⟩ := i.found few ht htree
  refine ⟨_, .opened, t :: hs, ?_, i.enter ht⟩
  simp only [HandleAction.exec, if_neg htree, access_ok i.alive, href, asserted]

theorem Inv.use (i : h.Inv st hs) (ht : h.phases t = .using) : h.Safe (.use t) := by
  have hin := i.mem_of_using ht
  have halive : h.alive = true := by
    rw [i.alive]
    have hu := i.users
    cases st <;> try rfl
    rw [List.eq_nil_of_length_eq_zero hu] at hin
    exact absurd hin List.not_mem_nil
  exact ⟨h, st, hs, access_ok halive, i⟩

theorem Inv.del (few : Few τ) (i : h.Inv st hs) (ht : h.phases t = .idle) : h.Safe (.del t) := by
  by_cases htree : h.inTree = false
  · exact ⟨h, st, hs, if_pos htree, i⟩
  obtain ⟨rfl, hn, href⟩ := i.found few ht htree
  refine ⟨{ h with state := refs (hs.length + 1), inTree := false }.move t .closing, .closing t, hs, ?_,
    i.moves hn rfl (fun _ => rfl) rfl trivial rfl i.iocpHandle i.alive⟩
  simp only [HandleAction.exec, if_neg htree, access_ok i.alive, href, asserted]

theorem Inv.close (i : h.Inv st hs) (ht : h.phases t = .closing) : h.Safe (.close t) := by
  obtain ⟨hhas, hn⟩ := i.has ht (by decide) (by decide)
  cases hhas
  refine ⟨_, .closed t, hs, access_ok i.alive, i.moves hn rfl (fun x => ?_) i.word trivial i.inTree rfl i.alive⟩
  by_cases hx : x = t <;> simp [HandleStage.phase, hx]

theorem Inv.destroy (few : Few τ) (i : h.Inv st hs) (ht : h.phases t = .destroying) : h.Safe (.destroy t) := by
  obtain ⟨hhas, hn⟩ := i.has ht (by decide) (by decide)
  cases hhas
  have hroom := few hs i.nodup
  have hword : h.state = refs (hs.length + 1) := i.word
  by_cases hzero : hs.length = 0
  · have hlast : reflockDestroy h.state = some (destroyed hs.length, false) := by
      rw [hword, reflockDestroy_refs hroom, decide_eq_false (not_not.mpr hzero)]
    refine ⟨{ h with state := destroyed hs.length }.move t .poisoning, .poisoning t, hs, ?_,
      i.moves hn rfl (fun x => ?_) rfl hzero i.inTree i.iocpHandle i.alive⟩
    · change h.access (asserted (reflockDestroy h.state) _) = _
      rw [access_ok i.alive, hlast]
      rfl
    · by_cases hx : x = t <;> simp [HandleStage.phase, hx]
  · have hmore : reflockDestroy h.state = some (destroyed hs.length, true) := by
      rw [hword, reflockDestroy_refs hroom, decide_eq_true hzero]
    refine ⟨{ h with state := destroyed hs.length }.move t .awaiting, .awaiting t, hs, ?_,
      i.moves hn rfl (fun x => ?_) rfl (Nat.pos_of_ne_zero hzero) i.inTree i.iocpHandle i.alive⟩
    · change h.access (asserted (reflockDestroy h.state) _) = _
      rw [access_ok i.alive, hmore]
      rfl
    · by_cases hx : x = t <;> simp [HandleStage.phase, hx]

theorem Inv.poison (i : h.Inv st hs) (ht : h.phases t = .poisoning) : h.Safe (.poison t) := by
  obtain ⟨hhas, hn⟩ := i.has ht (by decide) (by decide)
  cases hhas
  -- the last user has signalled the event, or there was none
  have hzero : hs.length = 0 := i.users
  have hword : h.state = REFLOCK_DESTROY := by
    rw [i.word, hzero]
    rfl
  refine ⟨{ h with state := REFLOCK_POISON }.move t .deleting, .deleting t, hs, ?_,
    i.moves hn rfl (fun x => ?_) rfl hzero i.inTree i.iocpHandle i.alive⟩
  · simp only [HandleAction.exec, access_ok i.alive, reflockPoison, hword, if_true, asserted]
  · by_cases hx : x = t <;> simp [HandleStage.phase, hx]

theorem Inv.delete (i : h.Inv st hs) (ht : h.phases t = .deleting) : h.Safe (.delete t) := by
  obtain ⟨hhas, hn⟩ := i.has ht (by decide) (by decide)
  cases hhas
  have hclosed : h.iocpHandle = false := i.iocpHandle
  refine ⟨{ h with alive := false }.move t .idle, .gone, hs, ?_,
    i.moves hn rfl (fun x => ?_) i.word i.users i.inTree i.iocpHandle rfl⟩
  · simp only [HandleAction.exec, access_ok i.alive, Handle.assert, hclosed, if_true]
  · by_cases hx : x = t <;> simp [HandleStage.phase, hx]

theorem Inv.meet (i : h.Inv st hs) (ht : h.phases t = .signalling) (hu : h.phases u = .awaiting) :
    h.Safe (.meet t u) := by
  obtain ⟨hhas, hn⟩ := i.has ht (by decide) (by decide)
  obtain ⟨hhasu, _⟩ := i.has hu (by decide) (by decide)
  have htu : u ≠ t := by
    rintro rfl
    rw [ht] at hu
    cases hu
  cases hhas
  cases hhasu
  have hnil : hs = [] := List.eq_nil_of_length_eq_zero i.users.1
  subst hnil
  refine ⟨_, .poisoning u, [], rfl, List.nodup_nil, fun x hx => absurd hx List.not_mem_nil, fun x hx => ?_, i.word, rfl,
    i.inTree, i.iocpHandle, i.alive⟩
  have hout := i.outside x hx
  by_cases hxu : x = u
  · subst hxu
    simp [move, HandleStage.phase]
  · by_cases hxt : x = t
    · subst hxt
      simp [move, HandleStage.phase, hxu]
    · simpa [move, HandleStage.phase, hxu, hxt] using hout

/-- A thread that uses the port leaves it. -/
theorem Inv.exit {h' : Handle τ} {st' : HandleStage τ} (i : h.Inv st hs)
    (hphases : h'.phases = Function.update h.phases t p) (hst : ∀ x, st'.phase x = if x = t then p else st.phase x)
    (hword : h'.state = st'.word (hs.erase t).length) (husers : st'.Users (hs.erase t).length)
    (htree : h'.inTree = st'.inTree) (hport : h'.iocpHandle = st'.iocpHandle) (halive : h'.alive = st'.alive) :
    h'.Inv st' (hs.erase t) := by
  refine ⟨i.nodup.erase t, fun x hx => ?_, fun x hx => ?_, hword, husers, htree, hport, halive⟩
  · obtain ⟨hne, hin⟩ := i.nodup.mem_erase_iff.mp hx
    rw [hphases, Function.update_of_ne hne, hst, if_neg hne]
    exact i.inside x hin
  · rw [hphases, Function.update_apply, hst]
    by_cases hne : x = t
    · rw [if_pos hne, if_pos hne]
    · rw [if_neg hne, if_neg hne]
      exact i.outside x fun hin => hx (i.nodup.mem_erase_iff.mpr ⟨hne, hin⟩)

theorem unref_ok {state : BitVec 32} {b : Bool} (ha : h.alive = true) (hr : reflockUnref h.state = some (state, b)) :
    (HandleAction.unref t).exec h =
      .ok ({ h with state := state }.move t (if b = true then .signalling else .idle)) := by
  change h.access (asserted (reflockUnref h.state) _) = _
  rw [access_ok ha, hr]
  rfl

theorem Inv.unref (few : Few τ) (i : h.Inv st hs) (ht : h.phases t = .using) : h.Safe (.unref t) := by
  have hin := i.mem_of_using ht
  have hroom : (hs.erase t).length ≤ maxRefs := few _ (i.nodup.erase t)
  have hlen : hs.length = (hs.erase t).length + 1 := by
    have hpos := List.length_pos_of_mem hin
    have hers := List.length_erase_of_mem hin
    omega
  have hroom' : (hs.erase t).length + 1 ≤ maxRefs := hlen ▸ few hs i.nodup
  have hidle : st.phase t = .idle := (i.inside t hin).2
  have hsame : ∀ x, st.phase x = if x = t then .idle else st.phase x := by
    intro x
    by_cases hx : x = t
    · rw [if_pos hx, hx, hidle]
    · rw [if_neg hx]
  have hword := i.word
  have husers := i.users
  rw [hlen] at hword husers
  cases st
  case opened =>
    have hr : reflockUnref h.state = some (refs (hs.erase t).length, false) := by
      rw [hword]
      exact reflockUnref_refs hroom
    exact ⟨_, .opened, _, unref_ok i.alive hr, i.exit rfl hsame rfl trivial i.inTree i.iocpHandle i.alive⟩
  case closing u =>
    have hr : reflockUnref h.state = some (refs ((hs.erase t).length + 1), false) := by
      rw [hword]
      exact reflockUnref_refs hroom'
    exact ⟨_, .closing u, _, unref_ok i.alive hr, i.exit rfl hsame rfl trivial i.inTree i.iocpHandle i.alive⟩
  case closed u =>
    have hr : reflockUnref h.state = some (refs ((hs.erase t).length + 1), false) := by
      rw [hword]
      exact reflockUnref_refs hroom'
    exact ⟨_, .closed u, _, unref_ok i.alive hr, i.exit rfl hsame rfl trivial i.inTree i.iocpHandle i.alive⟩
  case awaiting u =>
    have hr : reflockUnref h.state = some (destroyed (hs.erase t).length, decide ((hs.erase t).length = 0)) := by
      rw [hword]
      exact reflockUnref_destroy hroom
    by_cases hzero : (hs.erase t).length = 0
    -- the last one signals the thread that waits
    · rw [decide_eq_true hzero] at hr
      have hut : u ≠ t := by
        rintro rfl
        simp [HandleStage.phase] at hidle
      exact ⟨_, .signalled u t, _, unref_ok i.alive hr,
        i.exit rfl (fun _ => rfl) rfl ⟨hzero, hut⟩ i.inTree i.iocpHandle i.alive⟩
    · rw [decide_eq_false hzero] at hr
      exact ⟨_, .awaiting u, _, unref_ok i.alive hr,
        i.exit rfl hsame rfl (Nat.pos_of_ne_zero hzero) i.inTree i.iocpHandle i.alive⟩
  case signalled => exact absurd husers.1 (Nat.succ_ne_zero _)
  all_goals exact absurd husers (Nat.succ_ne_zero _)

theorem Inv.exec {a : HandleAction τ} (few : Few τ) (i : h.Inv st hs) (en : a.Enabled h) : h.Safe a := by
  cases a with
  | find t => exact i.find few en
  | use t => exact i.use en
  | unref t => exact i.unref few en
  | del t => exact i.del few en
  | close t => exact i.close en
  | destroy t => exact i.destroy few en
  | meet t u => exact i.meet en.1 en.2
  | poison t => exact i.poison en
  | delete t => exact i.delete en

/-! ## Runs -/

inductive Runs : List (HandleAction τ) → Handle τ → Prop
  | nil : Runs [] {}
  | step {l : List (HandleAction τ)} {h h' : Handle τ} {a : HandleAction τ} :
    Runs l h → a.Enabled h → a.exec h = .ok h' → Runs (l ++ [a]) h'

theorem Runs.inv {l : List (HandleAction τ)} (few : Few τ) (hr : Runs l h) : ∃ st hs, h.Inv st hs := by
  induction hr with
  | nil => exact ⟨.opened, [], .start⟩
  | step _ en hexec ih =>
    obtain ⟨st, hs, i⟩ := ih
    obtain ⟨h'', st', hs', hok, i'⟩ := i.exec few en
    rw [hexec] at hok
    cases hok
    exact ⟨st', hs', i'⟩

end Handle

/-- The state after an action. -/
def HandleAction.after (a : HandleAction τ) (h : Handle τ) : Handle τ :=
  match a.exec h with
  | .ok h' => h'
  | .error _ => h

namespace Handle

theorem few_bool : Few Bool := by
  intro l hl
  have hsub : l ⊆ [true, false] := fun b _ => by cases b <;> decide
  exact Nat.le_trans (hl.subperm hsub).length_le (by decide)

/-- One thread uses the port, and another is about to wait for it in `epoll_close`. -/
def leaves : Handle Bool :=
  (HandleAction.close true).after ((HandleAction.del true).after ((HandleAction.find false).after {}))

def waits : Handle Bool := (HandleAction.destroy true).after leaves

def deletes : Handle Bool :=
  (HandleAction.poison true).after ((HandleAction.meet false true).after ((HandleAction.unref false).after waits))

theorem waits_runs : Runs [.find false, .del true, .close true, .destroy true] waits := by
  have hfind : Runs [.find false] ((HandleAction.find false).after {}) := Runs.nil.step rfl rfl
  have hdel : Runs [.find false, .del true] ((HandleAction.del true).after ((HandleAction.find false).after {})) :=
    hfind.step rfl rfl
  have hclose : Runs [.find false, .del true, .close true] leaves := hdel.step rfl rfl
  exact hclose.step rfl rfl

theorem deletes_runs :
    Runs [.find false, .del true, .close true, .destroy true, .unref false, .meet false true, .poison true]
      deletes := by
  have hunref : Runs [.find false, .del true, .close true, .destroy true, .unref false]
      ((HandleAction.unref false).after waits) := waits_runs.step rfl rfl
  have hmeet : Runs [.find false, .del true, .close true, .destroy true, .unref false, .meet false true]
      ((HandleAction.meet false true).after ((HandleAction.unref false).after waits)) := hunref.step ⟨rfl, rfl⟩ rfl
  exact hmeet.step rfl rfl

variable {l : List (HandleAction τ)} {a : HandleAction τ}

/-- No assertion fails, and no thread has a port that is freed. Of the assertions of `port_delete` only
that about the completion port depends on the other threads; `MNet.Wepoll.PortDelete` has the others. -/
theorem handle_safe (few : Few τ) (hr : Runs l h) (en : a.Enabled h) : ∃ h', a.exec h = .ok h' := by
  obtain ⟨st, hs, i⟩ := hr.inv few
  obtain ⟨h', _, _, hok, _⟩ := i.exec few en
  exact ⟨h', hok⟩

theorem handle_safe_waits : ∃ h', (HandleAction.unref false).exec waits = .ok h' :=
  handle_safe few_bool waits_runs rfl

/-- A port is freed once, out of the tree, by the only thread that is left. -/
theorem delete_alone (few : Few τ) (hr : Runs l h) (ht : h.phases t = .deleting) :
    h.alive = true ∧ h.inTree = false ∧ h.iocpHandle = false ∧ ∀ u, u ≠ t → h.phases u = .idle := by
  obtain ⟨st, hs, i⟩ := hr.inv few
  obtain ⟨hhas, _⟩ := i.has ht (by decide) (by decide)
  cases hhas
  have hnil : hs = [] := List.eq_nil_of_length_eq_zero i.users
  subst hnil
  refine ⟨i.alive, i.inTree, i.iocpHandle, fun u hu => ?_⟩
  rw [i.outside u List.not_mem_nil]
  exact if_neg hu

theorem delete_alone_deletes : deletes.phases false = .idle :=
  (delete_alone (t := true) few_bool deletes_runs rfl).2.2.2 false (by decide)

/-- The thread that waits for the event waits for one that uses the port or signals the event, which does
not wait in vain either. -/
theorem close_woken (few : Few τ) (hr : Runs l h) :
    (∀ u, h.phases u = .awaiting → ∃ t, (HandleAction.unref t).Enabled h ∨ (HandleAction.meet t u).Enabled h) ∧
    ∀ t, h.phases t = .signalling → ∃ u, (HandleAction.meet t u).Enabled h := by
  obtain ⟨st, hs, i⟩ := hr.inv few
  refine ⟨fun u hu => ?_, fun t ht => ?_⟩
  · obtain ⟨hhas, hn⟩ := i.has hu (by decide) (by decide)
    cases hhas with
    | awaiting =>
      obtain ⟨t, hin⟩ := List.exists_mem_of_length_pos i.users
      exact ⟨t, .inl (i.inside t hin).1⟩
    | signalled =>
      rename_i t
      have hnil : hs = [] := List.eq_nil_of_length_eq_zero i.users.1
      subst hnil
      have ht : h.phases t = .signalling := (i.outside t List.not_mem_nil).trans (if_pos rfl)
      exact ⟨t, .inr ⟨ht, hu⟩⟩
  · obtain ⟨hhas, hn⟩ := i.has ht (by decide) (by decide)
    cases hhas
    rename_i u
    obtain ⟨hzero, hut⟩ := i.users
    have hnil : hs = [] := List.eq_nil_of_length_eq_zero hzero
    subst hnil
    have hu : h.phases u = .awaiting := by
      rw [i.outside u List.not_mem_nil]
      exact (if_neg hut).trans (if_pos rfl)
    exact ⟨u, ht, hu⟩

theorem close_woken_waits : ∃ t, (HandleAction.unref t).Enabled waits ∨ (HandleAction.meet t true).Enabled waits :=
  (close_woken few_bool waits_runs).1 true rfl

end Handle

end MNet.Wepoll
