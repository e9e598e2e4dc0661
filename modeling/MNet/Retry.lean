import MNet.Flush
import MNet.Ledger

/-! # Writes that would block

When `send_fn` takes nothing, the bytes it was called with are kept, and the next call for the channel
passes the same bytes: first the caller's buffer, then its copy in the cache. -/

namespace MNet
open MNet.Lib MNet.Lib.Exec

variable {ε : Type} {x : ExtTable ε} {s t : Sys ε} {n m : ChannId} {c d : Chann} {out : Set ChannId}

/-! ## The history -/

/-- What the next call of `send_fn` for `n` has to pass, if the last one of the connection took
nothing. -/
def overdue (n : ChannId) : List SysEvent → Option (List UInt8)
  | [] => none
  | .sendFn m b r :: tr => if m = n then (if r = 0 then some b else none) else overdue n tr
  | .extOp .disconnectCb m :: tr => if m = n then none else overdue n tr
  | _ :: tr => overdue n tr

/-- Every call of `send_fn` passes what it has to. -/
def Repeats : List SysEvent → Prop
  | [] => True
  | .sendFn n b _ :: tr => (∀ b', overdue n tr = some b' → b = b') ∧ Repeats tr
  | _ :: tr => Repeats tr

/-- A call of `send_fn` for `n`, or the end of its connection. -/
def SysEvent.about (n : ChannId) : SysEvent → Prop
  | .sendFn m _ _ => m = n
  | .extOp .disconnectCb m => m = n
  | _ => False

theorem overdue_self (b : List UInt8) (r : Int) (tr : List SysEvent) :
    overdue n (.sendFn n b r :: tr) = if r = 0 then some b else none := if_pos rfl

theorem overdue_cons {e : SysEvent} {tr : List SysEvent} (he : ¬ e.about n) :
    overdue n (e :: tr) = overdue n tr := by
  cases e with
  | sendFn m b r => exact if_neg he
  | extOp op m => cases op <;> first | exact if_neg he | rfl
  | _ => rfl

theorem overdue_append {l tr : List SysEvent} (hl : ∀ e ∈ l, ¬ e.about n) :
    overdue n (l ++ tr) = overdue n tr := by
  induction l with
  | nil => rfl
  | cons e l ih =>
    rw [List.cons_append, overdue_cons (hl e (by simp)), ih fun e he => hl e (List.mem_cons_of_mem _ he)]

/-- Nothing but a call of `send_fn` has to repeat anything. -/
def SysEvent.sends : SysEvent → Prop
  | .sendFn .. => True
  | _ => False

theorem repeats_cons {e : SysEvent} {tr : List SysEvent} (he : ¬ e.sends) :
    Repeats (e :: tr) ↔ Repeats tr := by
  cases e <;> first | exact absurd trivial he | exact Iff.rfl

theorem repeats_append {l tr : List SysEvent} (hl : ∀ e ∈ l, ¬ e.sends) :
    Repeats (l ++ tr) ↔ Repeats tr := by
  induction l with
  | nil => rfl
  | cons e l ih =>
    rw [List.cons_append, repeats_cons (hl e (by simp)), ih fun e he => hl e (List.mem_cons_of_mem _ he)]

theorem Repeats.tail {l tr : List SysEvent} (h : Repeats (l ++ tr)) : Repeats tr := by
  induction l with
  | nil => exact h
  | cons e l ih =>
    rw [List.cons_append] at h
    cases e with
    | sendFn => exact ih h.2
    | _ => exact ih h

theorem SysEvent.still.aside {e : SysEvent} (he : e.still) (n : ChannId) : ¬ e.about n ∧ ¬ e.sends := by
  cases e with
  | sendFn => exact he.elim
  | extOp op m => cases op <;> first | exact he.elim | exact ⟨id, id⟩
  | _ => exact ⟨id, id⟩

/-! ## The cache keeps what is overdue -/

/-- What is overdue for a channel is at the head of its cache, but for those in `out`. -/
structure Retrying (out : Set ChannId) (s : Sys ε) : Prop where
  fresh : Fresh s
  repeats : Repeats s.kernel.trace
  head : ∀ n c b, n ∉ out → s.heap n = some c → overdue n s.kernel.trace = some b →
    c.rwbSend ≠ [] ∧ rwbDrainParam c.rwbSend = b
  unborn : ∀ n, s.nextChann ≤ n → overdue n s.kernel.trace = none

namespace Retrying

theorem dry (h : Retrying out s) (hd : Dry s t) : Retrying out t := by
  obtain ⟨l, hl, htr⟩ := hd.kernel.trace
  have hsame : ∀ n, overdue n t.kernel.trace = overdue n s.kernel.trace := fun n => by
    rw [htr, overdue_append fun e he => ((hl e he).aside n).1]
  refine ⟨hd.fresh h.fresh, ?_, fun n d b hn hc hb => ?_, fun n hn => ?_⟩
  · rw [htr]
    exact (repeats_append fun e he => ((hl e he).aside 0).2).mpr h.repeats
  · rw [hsame] at hb
    by_cases hlt : n < s.nextChann
    · obtain ⟨c, hc, he⟩ := hd.was hlt hc
      have hcache : c.rwbSend = d.rwbSend := congrArg (·.2.2) he
      rw [← hcache]
      exact h.head n c b hn hc hb
    · rw [h.unborn n (Nat.le_of_not_lt hlt)] at hb
      cases hb
  · rw [hsame]
    exact h.unborn n (Nat.le_trans hd.nextChann hn)

/-- One channel is written to, and the history grows by one event about it or none. -/
theorem entered {l : List SysEvent} {f : Chann → Chann} (h : Retrying out s) (hn : n < s.nextChann)
    (hheap : t.heap = Function.update s.heap n ((s.heap n).map f)) (hnext : t.nextChann = s.nextChann)
    (htr : t.kernel.trace = l ++ s.kernel.trace) (hrep : Repeats t.kernel.trace)
    (hother : ∀ m, m ≠ n → ∀ e ∈ l, ¬ e.about m)
    (hhead : n ∉ out → ∀ c b, s.heap n = some c → overdue n t.kernel.trace = some b →
      (f c).rwbSend ≠ [] ∧ rwbDrainParam (f c).rwbSend = b) : Retrying out t := by
  refine ⟨fun m hm => ?_, hrep, fun m d b hm hd hb => ?_, fun m hm => ?_⟩
  · rw [hnext] at hm
    rw [hheap, Function.update_of_ne (Nat.ne_of_gt (Nat.lt_of_lt_of_le hn hm))]
    exact h.fresh m hm
  · rw [hheap] at hd
    by_cases hmn : m = n
    · subst hmn
      rw [Function.update_self] at hd
      obtain ⟨c, hc, rfl⟩ := Option.map_eq_some_iff.mp hd
      exact hhead hm c b hc hb
    · rw [Function.update_of_ne hmn] at hd
      rw [htr, overdue_append (hother m hmn)] at hb
      exact h.head m d b hm hd hb
  · rw [hnext] at hm
    rw [htr, overdue_append (hother m (Nat.ne_of_gt (Nat.lt_of_lt_of_le hn hm)))]
    exact h.unborn m hm

/-- What is overdue for `n` does not matter any more. -/
theorem excuse (h : Retrying out s) (n : ChannId) : Retrying (insert n out) s :=
  { h with head := fun m c b hm => h.head m c b fun hmo => hm (.inr hmo) }

/-- A write to a channel for which nothing is overdue, or whose cache keeps it. -/
theorem write (h : Retrying out s) (hc : s.heap n = some c)
    (hd : ∀ b, overdue n s.kernel.trace = some b → c.rwbSend ≠ [] → rwbDrainParam c.rwbSend = b →
      d.rwbSend ≠ [] ∧ rwbDrainParam d.rwbSend = b) : Retrying out (s.setChann n d) := by
  refine h.entered (f := fun _ => d) (l := []) (h.fresh.lt hc) ?_ rfl rfl h.repeats (fun _ _ _ h => nomatch h)
    fun hn c' b hc' hb => ?_
  · rw [hc]
    rfl
  · obtain ⟨hne, hhead⟩ := h.head n c' b hn hc' hb
    rw [hc, Option.some.injEq] at hc'
    exact hd b hb (hc' ▸ hne) (hc' ▸ hhead)

/-- The connection of `n` is over, so nothing is overdue. -/
theorem hangs (h : Retrying out s) (n : ChannId) : Retrying out (s.recorded (.extOp .disconnectCb n)) := by
  have hother : ∀ m b, overdue m (.extOp .disconnectCb n :: s.kernel.trace) = some b →
      overdue m s.kernel.trace = some b := by
    intro m b hb
    by_cases hm : n = m
    · rw [show overdue m (.extOp .disconnectCb n :: s.kernel.trace) = none from if_pos hm] at hb
      cases hb
    · rwa [overdue_cons (e := .extOp .disconnectCb n) hm] at hb
  refine ⟨h.fresh, h.repeats, fun m c b hm hc hb => h.head m c b hm hc (hother m b hb), fun m hm => ?_⟩
  have hnone := h.unborn m hm
  by_contra hsome
  obtain ⟨b, hb⟩ := Option.ne_none_iff_exists'.mp hsome
  rw [hother m b hb] at hnone
  cases hnone

theorem hungUp (h : Retrying out s) (hup : HungUp n s t) : Retrying out t := by
  obtain ⟨a, c, ha, hc, ht⟩ := hup
  have hrec : Retrying out a := (h.hangs n).dry ha.dry
  have hover : overdue n a.kernel.trace = none := by
    obtain ⟨l, hl, htr⟩ := ha.kernel.trace
    rw [htr, overdue_append fun e he => ((hl e he).aside n).1]
    exact if_pos rfl
  have hset : Retrying out (a.setChann n { c with rwbSend := [] }) := hrec.write hc fun b hb => by
    rw [hover] at hb
    cases hb
  exact hset.dry ht.dry

theorem settling (h : Retrying out s) (hs : Settling s t) : Retrying out t := by
  induction hs with
  | refl => exact h
  | tail _ hstep ih =>
    obtain hr | ⟨n, hup⟩ := hstep
    · exact ih.dry hr.dry
    · exact ih.hungUp hup

/-- A channel is freed, and with it what was overdue. -/
theorem free (h : Retrying (insert n out) s) :
    Retrying out { s with heap := Function.update s.heap n none } := by
  refine ⟨fun m hm => ?_, h.repeats, fun m d b hm hd hb => ?_, h.unborn⟩
  · by_cases hmn : m = n
    · rw [hmn]
      exact Function.update_self ..
    · exact (Function.update_of_ne hmn ..).trans (h.fresh m hm)
  · by_cases hmn : m = n
    · rw [hmn] at hd
      cases (Function.update_self ..).symm.trans hd
    · exact h.head m d b (by simp [hmn, hm]) ((Function.update_of_ne hmn ..).symm.trans hd) hb

/-- Every entry passes what it has to. -/
theorem booked {e : Entry} (h : Retrying ∅ s) (hb : Booked s e t) : Retrying ∅ t := by
  by_cases he : e.timed
  · exact h.dry (hb.dry he)
  cases hb with
  | rest hr => exact h.dry hr.dry
  | hangUp hup => exact h.hungUp hup
  | @direct a n c data r hc hempty hdata ha =>
    have hda := h.dry ha.dry
    obtain ⟨c', hc', he'⟩ := ha.dry.stays (h.fresh.lt hc) hc
    have hcache : c'.rwbSend = [] := (congrArg (·.2.2) he').trans hempty
    have hover : overdue n a.kernel.trace = none := by
      by_contra hsome
      obtain ⟨b, hb⟩ := Option.ne_none_iff_exists'.mp hsome
      exact (hda.head n c' b (by simp) hc' hb).1 hcache
    have hrep : Repeats (.sendFn n data r :: a.kernel.trace) :=
      ⟨fun b hb => (by rw [hover] at hb; cases hb), hda.repeats⟩
    refine hda.entered (f := (·.sent data r)) (l := [.sendFn n data r]) (hda.fresh.lt hc') rfl rfl rfl hrep
      (fun m hm e hel => ?_) fun _ d b hd hb => ?_
    · rw [List.mem_singleton.mp hel]
      exact fun hab => hm hab.symm
    · -- what was not taken is all there is in the cache
      rw [hc', Option.some.injEq] at hd
      subst hd
      replace hb : overdue n (.sendFn n data r :: a.kernel.trace) = some b := hb
      rw [overdue_self] at hb
      by_cases hr : r = 0
      · rw [if_pos hr, Option.some.injEq] at hb
        subst hb hr
        have hpos : (0 : Int) < data.length := by simpa [List.length_pos_iff] using hdata
        rw [Chann.sent, if_pos ⟨Int.le_refl 0, hpos⟩, hcache]
        exact ⟨by simp [rwbCache, rwbCreateTail], rfl⟩
      · rw [if_neg hr] at hb
        cases hb
  | @behind n c data hc hne hdata =>
    refine h.write hc fun b _ _ hhead => ?_
    obtain ⟨blk, q, hq⟩ := List.exists_cons_of_ne_nil hne
    rw [hq] at hhead
    exact ⟨by simp [rwbCache, rwbCreateTail], by rw [hq]; exact hhead⟩
  | @flush a n c r hc hne ha =>
    have hda := h.dry ha.dry
    obtain ⟨c', hc', he'⟩ := ha.dry.stays (h.fresh.lt hc) hc
    have hcache : c'.rwbSend = c.rwbSend := congrArg (·.2.2) he'
    have hrep : Repeats (.sendFn n (rwbDrainParam c.rwbSend) r :: a.kernel.trace) := by
      refine ⟨fun b hb => ?_, hda.repeats⟩
      rw [← hcache]
      exact (hda.head n c' b (by simp) hc' hb).2
    refine hda.entered (f := (·.flushed r)) (l := [.sendFn n (rwbDrainParam c.rwbSend) r]) (hda.fresh.lt hc')
      rfl rfl rfl hrep (fun m hm e hel => ?_) fun _ d b hd hb => ?_
    · rw [List.mem_singleton.mp hel]
      exact fun hab => hm hab.symm
    · -- nothing was taken, and the head is what it was
      rw [hc', Option.some.injEq] at hd
      subst hd
      replace hb : overdue n (.sendFn n (rwbDrainParam c.rwbSend) r :: a.kernel.trace) = some b := hb
      rw [overdue_self] at hb
      by_cases hr : r = 0
      · rw [if_pos hr, Option.some.injEq] at hb
        subst hb hr
        rw [Chann.flushed, if_neg (by omega), hcache]
        exact ⟨hne, rfl⟩
      · rw [if_neg hr] at hb
        cases hb
  | @recv a b n c r hc ha hb =>
    have hrec : Retrying ∅ (a.recorded (.recvFn n r)) :=
      { h.dry ha.dry with }
    have hb' := hrec.settling hb
    cases hbn : b.heap n with
    | none =>
      rw [Sys.alter, hbn, Option.map_none, ← hbn, Function.update_eq_self]
      exact hb'
    | some d =>
      rw [alter_of _ hbn]
      exact hb'.write hbn fun _ _ hne hhead => ⟨hne, hhead⟩
  | @free a b d n c q _ ha hc hkill hd =>
    have hset : Retrying (insert n ∅) (a.setChann n { c with rwbSend := q }) := by
      refine ((h.dry ha.dry).excuse n).entered (f := fun c => { c with rwbSend := q }) (l := [])
        ((h.dry ha.dry).fresh.lt hc) ?_ rfl rfl (h.dry ha.dry).repeats (by simp)
        fun hn => absurd (Set.mem_insert n ∅) hn
      rw [hc]
      rfl
    exact ((hset.dry (untimed_data.tmKill _ _ hkill)).dry hd.dry).free
  | _ => exact absurd trivial he

end Retrying

theorem Step.retrying {l : Call × Ret} (hx : Modest x) (h : Step x s l t) (hs : Retrying ∅ s) : Retrying ∅ t :=
  Posts.keeps (hx.posts_apiCall l.1 _ _ h) (fun _ _ _ _ hb hs => hs.booked hb) hs

theorem retrying_start (o : Oracle) (e : ε) : Retrying ∅ (Sys.start o e) :=
  ⟨fun _ _ => rfl, trivial, fun _ _ _ _ => nofun, fun _ _ => rfl⟩

/-- Between two calls of `send_fn` within one connection, the first of which takes nothing, the bytes
stay the same. -/
theorem would_block_retried (hx : Modest x) {o : Oracle} {e : ε} {l : List (Call × Ret)}
    (h : Run x (Sys.start o e) l s) {newer mid older : List SysEvent} {b b' : List UInt8} {r : Int}
    (htr : s.kernel.trace = newer ++ .sendFn n b' r :: (mid ++ .sendFn n b 0 :: older))
    (hmid : ∀ e ∈ mid, ¬ e.about n) : b' = b := by
  have hs := h.keeps (fun _ _ _ hstep hs => hstep.retrying hx hs) (retrying_start o e)
  have hrep := hs.repeats
  rw [htr] at hrep
  refine hrep.tail.1 b ?_
  rw [overdue_append hmid, overdue_self, if_pos rfl]

/-- A byte is turned away, two more are put behind it, and the flush passes the byte alone. -/
theorem retried_once : ∃ s : Sys Unit, Reachable noExt s ∧ ∃ b', .sendFn 0 b' 1 ∈ s.kernel.trace ∧ b' = [1] := by
  have hrun : After noExt [.mnetInit, .channOpen CHANN_TYPE_STREAM, .channConnect (some 0) (some 0) 80, .poll,
      .resultNext 5, .resultNext 5, .channSend (some 0) (some [1]), .channSend (some 0) (some [2, 3]), .poll,
      .resultNext 5] (Sys.start (readyOracle EPOLLOUT) ()) fun _ s =>
        s.kernel.trace.drop 3 = .sendFn 0 [1] 1 ::
          ([.send 4 [1] 1, .epollCtl 4 0x2015 0] ++ .sendFn 0 [1] 0 :: s.kernel.trace.drop 7) := by
    decide +kernel
  obtain ⟨l, s, h, hdrop⟩ := hrun.run
  have htr : s.kernel.trace = s.kernel.trace.take 3 ++ .sendFn 0 [1] 1 ::
      ([.send 4 [1] 1, .epollCtl 4 0x2015 0] ++ .sendFn 0 [1] 0 :: s.kernel.trace.drop 7) := by
    rw [← hdrop, List.take_append_drop]
  have hmid : ∀ e ∈ [SysEvent.send 4 [1] 1, .epollCtl 4 0x2015 0], ¬ e.about 0 := by
    simp [SysEvent.about]
  refine ⟨s, ⟨_, _, _, h⟩, [1], ?_, would_block_retried modest_noExt h htr hmid⟩
  rw [htr]
  simp

end MNet
