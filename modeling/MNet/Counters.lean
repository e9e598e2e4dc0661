import Mathlib.Algebra.Order.BigOperators.Group.List
import Mathlib.Algebra.Order.Group.Int
import MNet.Tls.Bland

/-! # The traffic counters

What `mnet_chann_bytes` tells is compared with the history: the bytes `send_fn` has accepted for a
channel, and those `recv_fn` has returned. -/

namespace MNet
open MNet.Lib MNet.Lib.Exec

variable {ε : Type} {x : ExtTable ε} {s t : Sys ε} {n m : ChannId} {c d : Chann}

def mnetChannBytes (n : Option ChannId) (beSend : Bool) : M ε Int := do
  match n with
  | none => return -1
  | some n =>
    let c ← deref n
    return if beSend then c.bytesSend else c.bytesRecv

theorem returns_mnetChannBytes {on : Bool} {v : Int} (hc : s.heap n = some c) :
    Returns (mnetChannBytes (some n) on) s v t ↔ v = (if on then c.bytesSend else c.bytesRecv) ∧ t = s := by
  rw [mnetChannBytes, (returns_deref.mpr ⟨hc, rfl⟩).bind_iff, returns_pure]

/-! ## The history -/

/-- The bytes `send_fn` accepts for `n`. -/
def SysEvent.accepts (n : ChannId) : SysEvent → Int
  | .sendFn m _ r => if m = n then max r 0 else 0
  | _ => 0

/-- The bytes a successful `recv_fn` returns for `n`. -/
def SysEvent.receives (n : ChannId) : SysEvent → Int
  | .recvFn m r => if m = n then max r 0 else 0
  | _ => 0

/-- The result of `recv_fn` for `n`, whether it is a byte count or not. -/
def SysEvent.results (n : ChannId) : SysEvent → Int
  | .recvFn m r => if m = n then r else 0
  | _ => 0

def tally (f : SysEvent → Int) (tr : List SysEvent) : Int := (tr.map f).sum

section Tally

variable {f g : SysEvent → Int} {e : SysEvent} {l tr : List SysEvent}

@[simp] theorem tally_nil : tally f [] = 0 := rfl

@[simp] theorem tally_cons : tally f (e :: tr) = f e + tally f tr := by simp [tally]

theorem tally_append : tally f (l ++ tr) = tally f l + tally f tr := by simp [tally]

theorem tally_zero (h : ∀ e ∈ l, f e = 0) : tally f l = 0 := by
  refine List.sum_eq_zero fun v hv => ?_
  obtain ⟨e, he, rfl⟩ := List.mem_map.mp hv
  exact h e he

theorem tally_nonneg (h : ∀ e ∈ l, 0 ≤ f e) : 0 ≤ tally f l := by
  refine List.sum_nonneg fun v hv => ?_
  obtain ⟨e, he, rfl⟩ := List.mem_map.mp hv
  exact h e he

/-- Terms that are not larger add up to the same only if they are the same. -/
theorem tally_eq_iff (h : ∀ e ∈ l, f e ≤ g e) : tally f l = tally g l ↔ ∀ e ∈ l, f e = g e := by
  induction l with
  | nil => simp
  | cons e l ih =>
    have hl : ∀ e ∈ l, f e ≤ g e := fun e he => h e (List.mem_cons_of_mem _ he)
    have hle : tally f l ≤ tally g l := List.sum_le_sum hl
    have he := h e (by simp)
    rw [tally_cons, tally_cons, List.forall_mem_cons, ← ih hl]
    omega

/-- Nothing is taken off what a longer history adds up to. -/
theorem tally_mono {tr' : List SysEvent} (hsub : tr <:+ tr') (h : ∀ e ∈ tr', 0 ≤ f e) :
    tally f tr ≤ tally f tr' := by
  obtain ⟨l, rfl⟩ := hsub
  have := tally_nonneg fun e he => h e (List.mem_append_left tr he)
  rw [tally_append]
  omega

end Tally

theorem accepts_nonneg (e : SysEvent) : 0 ≤ e.accepts n := by
  cases e <;> simp only [SysEvent.accepts, le_refl]
  split
  · exact Int.le_max_right _ _
  · exact Int.le_refl _

theorem receives_nonneg (e : SysEvent) : 0 ≤ e.receives n := by
  cases e <;> simp only [SysEvent.receives, le_refl]
  split
  · exact Int.le_max_right _ _
  · exact Int.le_refl _

theorem results_le (e : SysEvent) : e.results n ≤ e.receives n := by
  cases e <;> simp only [SysEvent.results, SysEvent.receives, le_refl]
  split
  · exact Int.le_max_left _ _
  · exact Int.le_refl _

theorem SysEvent.still.silent {e : SysEvent} (he : e.still) :
    e.accepts n = 0 ∧ e.results n = 0 := by
  cases e <;> first | exact he.elim | exact ⟨rfl, rfl⟩

/-! ## The counters follow the history -/

/-- The counters are what the history adds up to, but `owed` is not yet entered. -/
structure Counted (owed : ChannId → Int) (s : Sys ε) : Prop where
  fresh : Fresh s
  sent : ∀ n c, s.heap n = some c → c.bytesSend = tally (·.accepts n) s.kernel.trace
  received : ∀ n c, s.heap n = some c → c.bytesRecv + owed n = tally (·.results n) s.kernel.trace
  unborn : ∀ n, s.nextChann ≤ n → tally (·.accepts n) s.kernel.trace = 0 ∧
    tally (·.results n) s.kernel.trace = 0 ∧ owed n = 0

namespace Counted

variable {owed owed' : ChannId → Int}

theorem dry (h : Counted owed s) (hd : Dry s t) : Counted owed t := by
  obtain ⟨l, hl, htr⟩ := hd.kernel.trace
  have hsame : ∀ n, tally (·.accepts n) t.kernel.trace = tally (·.accepts n) s.kernel.trace ∧
      tally (·.results n) t.kernel.trace = tally (·.results n) s.kernel.trace := by
    intro n
    rw [htr, tally_append, tally_append, tally_zero fun e he => (hl e he).silent.1,
      tally_zero fun e he => (hl e he).silent.2, Int.zero_add, Int.zero_add]
    exact ⟨rfl, rfl⟩
  have hold : ∀ n d, t.heap n = some d → (∃ c, s.heap n = some c ∧ c.data = d.data) ∨
      (s.nextChann ≤ n ∧ d.data = Chann.blank.data) := by
    intro n d hc
    by_cases hn : n < s.nextChann
    · exact .inl (hd.was hn hc)
    · exact .inr ⟨Nat.le_of_not_lt hn, (hd.blank h.fresh).2 n d (Nat.le_of_not_lt hn) hc⟩
  refine ⟨hd.fresh h.fresh, fun n d hc => ?_, fun n d hc => ?_, fun n hn => ?_⟩
  · rw [(hsame n).1]
    obtain ⟨c, hc, he⟩ | ⟨hn, he⟩ := hold n d hc
    · rw [← h.sent n c hc]
      exact (congrArg Prod.fst he).symm
    · rw [(h.unborn n hn).1]
      exact congrArg Prod.fst he
  · rw [(hsame n).2]
    obtain ⟨c, hc, he⟩ | ⟨hn, he⟩ := hold n d hc
    · rw [← h.received n c hc, show c.bytesRecv = d.bytesRecv from congrArg (·.2.1) he]
    · rw [(h.unborn n hn).2.1, (h.unborn n hn).2.2, show d.bytesRecv = 0 from congrArg (·.2.1) he]
      rfl
  · rw [(hsame n).1, (hsame n).2]
    exact h.unborn n (Nat.le_trans hd.nextChann hn)

/-- Events of the channel `n`, and what is entered for them. -/
theorem entered {l : List SysEvent} {f : Chann → Chann} (h : Counted owed s) (hn : n < s.nextChann)
    (hheap : t.heap = Function.update s.heap n ((s.heap n).map f)) (hnext : t.nextChann = s.nextChann)
    (htr : t.kernel.trace = l ++ s.kernel.trace)
    (hsend : ∀ c, (f c).bytesSend = c.bytesSend + tally (·.accepts n) l)
    (hrecv : ∀ c, (f c).bytesRecv + owed' n = c.bytesRecv + owed n + tally (·.results n) l)
    (hother : ∀ m, m ≠ n → tally (·.accepts m) l = 0 ∧ tally (·.results m) l = 0 ∧ owed' m = owed m) :
    Counted owed' t := by
  have hcases : ∀ m d, t.heap m = some d → (m = n ∧ ∃ c, s.heap n = some c ∧ f c = d) ∨
      (m ≠ n ∧ s.heap m = some d) := by
    intro m d hd
    rw [hheap] at hd
    by_cases hm : m = n
    · rw [hm, Function.update_self] at hd
      exact .inl ⟨hm, Option.map_eq_some_iff.mp hd⟩
    · rw [Function.update_of_ne hm] at hd
      exact .inr ⟨hm, hd⟩
  refine ⟨fun m hm => ?_, fun m d hd => ?_, fun m d hd => ?_, fun m hm => ?_⟩
  · rw [hnext] at hm
    rw [hheap, Function.update_of_ne (Nat.ne_of_gt (Nat.lt_of_lt_of_le hn hm))]
    exact h.fresh m hm
  · rw [htr, tally_append]
    obtain ⟨rfl, c, hc, rfl⟩ | ⟨hm, hd⟩ := hcases m d hd
    · rw [hsend, h.sent m c hc, Int.add_comm]
    · rw [(hother m hm).1, h.sent m d hd, Int.zero_add]
  · rw [htr, tally_append]
    obtain ⟨rfl, c, hc, rfl⟩ | ⟨hm, hd⟩ := hcases m d hd
    · rw [hrecv, h.received m c hc, Int.add_comm]
    · rw [(hother m hm).2.1, (hother m hm).2.2, h.received m d hd, Int.zero_add]
  · rw [hnext] at hm
    obtain ⟨ha, hr, ho⟩ := hother m (Nat.ne_of_gt (Nat.lt_of_lt_of_le hn hm))
    obtain ⟨ha', hr', ho'⟩ := h.unborn m hm
    rw [htr, tally_append, tally_append, ha, hr, ha', hr', ho, ho']
    exact ⟨rfl, rfl, rfl⟩

/-- A write that has nothing to do with the counters. -/
theorem write (h : Counted owed s) (hc : s.heap n = some c)
    (hd : d.bytesSend = c.bytesSend ∧ d.bytesRecv = c.bytesRecv) : Counted owed (s.setChann n d) := by
  refine h.entered (f := fun c => { d with bytesSend := c.bytesSend, bytesRecv := c.bytesRecv })
    (l := []) (h.fresh.lt hc) ?_ rfl rfl (fun _ => ?_) (fun _ => ?_) fun _ _ => ⟨rfl, rfl, rfl⟩
  · rw [hc, Option.map_some, ← hd.1, ← hd.2]
    rfl
  · exact (Int.add_zero _).symm
  · exact (Int.add_zero _).symm

/-- A channel is freed. -/
theorem free (h : Counted owed s) : Counted owed { s with heap := Function.update s.heap n none } := by
  have hsome : ∀ m d, Function.update s.heap n none m = some d → s.heap m = some d := by
    intro m d hd
    by_cases hm : m = n
    · rw [hm, Function.update_self] at hd
      cases hd
    · rwa [Function.update_of_ne hm] at hd
  refine ⟨fun m hm => ?_, fun m d hd => h.sent m d (hsome m d hd), fun m d hd => h.received m d (hsome m d hd),
    h.unborn⟩
  by_cases hmn : m = n
  · rw [hmn]
    exact Function.update_self ..
  · exact (Function.update_of_ne hmn ..).trans (h.fresh m hm)

theorem hungUp (h : Counted owed s) (hup : HungUp n s t) : Counted owed t := by
  obtain ⟨a, c, ha, hc, ht⟩ := hup
  have hrec : Counted owed (s.recorded (.extOp .disconnectCb n)) :=
    ⟨h.fresh, fun m d hd => (h.sent m d hd).trans (Int.zero_add _).symm,
      fun m d hd => (h.received m d hd).trans (Int.zero_add _).symm, fun m hm => by
        show tally _ (_ :: _) = 0 ∧ tally _ (_ :: _) = 0 ∧ _
        rw [tally_cons, tally_cons, (h.unborn m hm).1, (h.unborn m hm).2.1]
        exact ⟨rfl, rfl, (h.unborn m hm).2.2⟩⟩
  have hset : Counted owed (a.setChann n { c with rwbSend := [] }) := (hrec.dry ha.dry).write hc ⟨rfl, rfl⟩
  exact hset.dry ht.dry

theorem settling (h : Counted owed s) (hs : Settling s t) : Counted owed t := by
  induction hs with
  | refl => exact h
  | tail _ hstep ih =>
    obtain hr | ⟨n, hup⟩ := hstep
    · exact ih.dry hr.dry
    · exact ih.hungUp hup

/-- Every entry keeps the books balanced. -/
theorem booked {e : Entry} (h : Counted (fun _ => 0) s) (hb : Booked s e t) : Counted (fun _ => 0) t := by
  by_cases he : e.timed
  · exact h.dry (hb.dry he)
  cases hb with
  | rest hr => exact h.dry hr.dry
  | hangUp hup => exact h.hungUp hup
  | @direct a n c data r hc _ _ ha =>
    refine (h.dry ha.dry).entered (f := (·.sent data r)) (l := [.sendFn n data r])
      (Nat.lt_of_lt_of_le (h.fresh.lt hc) ha.nextChann) rfl rfl rfl (fun c => ?_) (fun c => ?_) fun m hm => ?_
    · simp [Chann.sent, SysEvent.accepts]
    · simp [Chann.sent, SysEvent.results]
    · simp [SysEvent.accepts, SysEvent.results, Ne.symm hm]
  | behind hc => exact h.write hc ⟨rfl, rfl⟩
  | @flush a n c r hc _ ha =>
    refine (h.dry ha.dry).entered (f := (·.flushed r)) (l := [.sendFn n (rwbDrainParam c.rwbSend) r])
      (Nat.lt_of_lt_of_le (h.fresh.lt hc) ha.nextChann) rfl rfl rfl (fun c => ?_) (fun c => ?_) fun m hm => ?_
    · simp [Chann.flushed, SysEvent.accepts]
    · simp [Chann.flushed, SysEvent.results]
    · simp [SysEvent.accepts, SysEvent.results, Ne.symm hm]
  | @recv a b n c r hc ha hb =>
    -- while a failure is handled, the result is in the history and not in the counter
    have hrec : Counted (fun m => if m = n then r else 0) ((a.recorded (.recvFn n r)).alter n id) := by
      refine (h.dry ha.dry).entered (f := id) (l := [.recvFn n r])
        (Nat.lt_of_lt_of_le (h.fresh.lt hc) ha.nextChann) rfl rfl rfl (fun c => ?_) (fun c => ?_) fun m hm => ?_
      · simp [SysEvent.accepts]
      · simp [SysEvent.results]
      · simp [SysEvent.accepts, SysEvent.results, hm, Ne.symm hm]
    rw [alter_id (f := id) _ fun _ => rfl] at hrec
    have hlt : n < b.nextChann := by
      have hle := settling_nextChann hb
      exact Nat.lt_of_lt_of_le (Nat.lt_of_lt_of_le (h.fresh.lt hc) ha.nextChann) hle
    refine (hrec.settling hb).entered (l := []) hlt rfl rfl rfl (fun c => ?_) (fun c => ?_) fun m hm => ?_
    · simp
    · simp
    · simp [hm]
  | @free a b d n c q _ ha hc hkill hd =>
    have hset : Counted (fun _ => 0) (a.setChann n { c with rwbSend := q }) :=
      (h.dry ha.dry).write hc ⟨rfl, rfl⟩
    exact ((hset.dry (untimed_data.tmKill _ _ hkill)).dry hd.dry).free
  | _ => exact absurd trivial he

end Counted

theorem Step.counted {l : Call × Ret} (hx : Modest x) (h : Step x s l t) (hs : Counted (fun _ => 0) s) :
    Counted (fun _ => 0) t :=
  Posts.keeps (hx.posts_apiCall l.1 _ _ h) (fun _ _ _ _ hb hs => hs.booked hb) hs

theorem counted_start (o : Oracle) (e : ε) : Counted (fun _ => 0) (Sys.start o e) :=
  ⟨fun _ _ => rfl, fun _ _ => nofun, fun _ _ => nofun, fun _ _ => ⟨rfl, rfl, rfl⟩⟩

/-- A `recv_fn` for `n` that did not work. -/
def SysEvent.failsRecv (n : ChannId) : SysEvent → Prop
  | .recvFn m r => m = n ∧ r < 0
  | _ => False

instance (n : ChannId) : (e : SysEvent) → Decidable (e.failsRecv n)
  | .recvFn m r => inferInstanceAs (Decidable (m = n ∧ r < 0))
  | .socket .. | .setup .. | .nonblock .. | .connect .. | .accept .. | .close .. |
    .send .. | .sendto .. | .recv .. | .epollCtl .. | .extOp .. | .sendFn .. => instDecidableFalse

/-- The counters of `n` in `t` are exact, and not smaller than those in `s`, a state before it. -/
structure ExactBytes (n : ChannId) (s t : Sys ε) : Prop where
  sent : Returns (mnetChannBytes (some n) true) t (tally (·.accepts n) t.kernel.trace) t
  received : Returns (mnetChannBytes (some n) false) t (tally (·.receives n) t.kernel.trace) t
  grow : ∀ on v w, Returns (mnetChannBytes (some n) on) s v s → Returns (mnetChannBytes (some n) on) t w t →
    v ≤ w

/-- They are unless a `recv_fn` for the channel has failed. -/
theorem bytes_exact_iff (hx : Modest x) {o : Oracle} {e : ε} {l l' : List (Call × Ret)}
    (h : Run x (Sys.start o e) l s) (h' : Run x s l' t) (hc : s.heap n = some c) (hd : t.heap n = some d) :
    ExactBytes n s t ↔ ∀ e ∈ t.kernel.trace, ¬ e.failsRecv n := by
  have hs := h.keeps (fun _ _ _ hstep hs => hstep.counted hx hs) (counted_start o e)
  have ht := h'.keeps (fun _ _ _ hstep hs => hstep.counted hx hs) hs
  have hsuffix := hx.suffix_run h'
  have heq : ∀ ev : SysEvent, ev.results n = ev.receives n ↔ ¬ ev.failsRecv n := by
    intro ev
    cases ev <;> simp only [SysEvent.results, SysEvent.receives, SysEvent.failsRecv, not_false_eq_true]
    split <;> simp_all
  have hreceived := ht.received n d hd
  rw [Int.add_zero] at hreceived
  constructor
  · intro hex ev hev
    have hrecv := ((returns_mnetChannBytes hd).mp hex.received).1
    rw [if_neg (by simp), hreceived] at hrecv
    exact (heq ev).mp ((tally_eq_iff fun ev _ => results_le ev).mp hrecv.symm ev hev)
  · intro hno
    have hsame : tally (·.results n) t.kernel.trace = tally (·.receives n) t.kernel.trace :=
      (tally_eq_iff fun ev _ => results_le ev).mpr fun ev hev => (heq ev).mpr (hno ev hev)
    refine ⟨(returns_mnetChannBytes hd).mpr ⟨(ht.sent n d hd).symm, rfl⟩,
      (returns_mnetChannBytes hd).mpr ⟨?_, rfl⟩, fun on v w hv hw => ?_⟩
    · rw [← hsame, ← hreceived]
      rfl
    rw [((returns_mnetChannBytes hc).mp hv).1, ((returns_mnetChannBytes hd).mp hw).1]
    cases on with
    | true =>
      rw [if_pos rfl, if_pos rfl, hs.sent n c hc, ht.sent n d hd]
      exact tally_mono hsuffix fun ev _ => accepts_nonneg ev
    | false =>
      have hold := hs.received n c hc
      rw [Int.add_zero] at hold
      rw [if_neg (by simp), if_neg (by simp), hold, hreceived]
      refine tally_mono hsuffix fun ev hev => ?_
      rw [(heq ev).mpr (hno ev hev)]
      exact receives_nonneg ev

/-- Five bytes are received, and counted. -/
theorem bytes_exact_once : ∃ s t : Sys Unit, (t.heap 0).map Chann.bytesRecv = some 5 ∧ ExactBytes 0 s t := by
  have hrun : After noExt [.mnetInit, .channOpen CHANN_TYPE_DGRAM, .channConnect (some 0) (some 1) 80]
      (Sys.start quietOracle ()) fun _ s => (s.heap 0).isSome = true ∧
        After noExt [.channRecv (some 0) true 5] s fun _ t =>
          (t.heap 0).map Chann.bytesRecv = some 5 ∧ ∀ e ∈ t.kernel.trace, ¬ e.failsRecv 0 := by decide +kernel
  obtain ⟨l, s, h, hs, hrest⟩ := hrun.run
  obtain ⟨l', t, h', hbytes, hno⟩ := hrest.run
  obtain ⟨c, hc⟩ := Option.isSome_iff_exists.mp hs
  obtain ⟨d, hd, _⟩ := Option.map_eq_some_iff.mp hbytes
  exact ⟨s, t, hbytes, (bytes_exact_iff modest_noExt h h' hc hd).mpr hno⟩

/-- A failed receive is counted as a byte less. -/
theorem not_bytes_exact : ¬ ∀ (o : Oracle) (l l' : List (Call × Ret)) (s t : Sys Unit) (n : ChannId)
    (c d : Chann), Run noExt (Sys.start o ()) l s → Run noExt s l' t → s.heap n = some c → t.heap n = some d →
      ExactBytes n s t := by
  intro hall
  have hrun : After noExt [.mnetInit, .channOpen CHANN_TYPE_DGRAM, .channConnect (some 0) (some 1) 80,
      .channRecv (some 0) true 5] (Sys.start (failingOracle [8]) ()) fun _ t =>
        (t.heap 0).map Chann.bytesRecv = some (-1) := by decide +kernel
  obtain ⟨l, t, h, hbytes⟩ := hrun.run
  obtain ⟨d, hd, hneg⟩ := Option.map_eq_some_iff.mp hbytes
  have hrecv := ((returns_mnetChannBytes hd).mp (hall _ _ [] t t 0 d d h .nil hd hd).received).1
  rw [if_neg (by simp), hneg] at hrecv
  have hpos : 0 ≤ tally (·.receives 0) t.kernel.trace := tally_nonneg fun e _ => receives_nonneg e
  omega

end MNet
