import MNet.Ringing
import MNet.Tls.Filter

/-! # Intervals

How long a timer takes to go off, and to go off again. The interval of a timer is a 32-bit field
between two 64-bit values. -/

namespace MNet
open MNet.Lib MNet.Lib.Exec

variable {ε : Type} {x : ExtTable ε} {s t : Sys ε} {n : ChannId} {c : Chann} {l : List TmNode} {node : TmNode} {d last v : Int} {u : Unit}

/-! ## Machine integers -/

theorem wrap32_of (h0 : 0 < v) (h : v < 2 ^ 31) : wrap32 v = v := by
  rw [wrap32, Int.bmod_def]
  omega

theorem wrap64_of (h : -2 ^ 63 ≤ v) (h' : v < 2 ^ 63) : wrap64 v = v := by
  rw [wrap64, Int.bmod_def]
  omega

/-- A deadline that fits is not put forward. -/
theorem le_wrap64 (h : v < 2 ^ 63) : v ≤ wrap64 v := by
  rw [wrap64, Int.bmod_def]
  omega

/-! ## The timer of a channel -/

/-- The timer of `n`, if it has one, has the interval `d` and does not go off before `last + d`. -/
def Awaits (n : ChannId) (d last : Int) (s : Sys ε) : Prop :=
  ∀ k ∈ s.mnet.tmClock.getD [], k.tm.chann = n → k.tm.interval = d ∧ last + d ≤ k.tm.time

/-- The call arms the timer of `n`, changes it or cancels it. -/
def Retimes (n : ChannId) : Call → Prop
  | .channActiveEvent (some m) .timer _ => m = n
  | _ => False

instance (n : ChannId) : (c : Call) → Decidable (Retimes n c)
  | .channActiveEvent (some m) .timer _ => inferInstanceAs (Decidable (m = n))
  | .mnetInit | .mnetFini | .multiAcceptBalancer .. | .multiResetEvent | .extRegister .. |
    .poll | .resultNext .. | .channOpen .. | .channClose .. | .channConnect .. |
    .channDisconnect .. | .channListen .. | .channSetOpaque .. | .channRecv .. |
    .channSend .. | .dgramRecv .. | .dgramSend .. | .socketSetBufsize .. |
    .channActiveEvent none .. | .channActiveEvent (some _) .recv _ |
    .channActiveEvent (some _) .send _ | .channActiveEvent (some _) .accept _ |
    .channActiveEvent (some _) .connected _ | .channActiveEvent (some _) .disconnect _ => instDecidableFalse

/-- A new node for `n` is the only one. -/
theorem awaits_tmUpdate (h : Wound s) (hd : wrap32 v = d) (hfit : s.now + d < 2 ^ 63)
    (hret : Returns (tmUpdate n v) s u t) : Awaits n d s.now t := by
  obtain ⟨c, l, node, hc, hl, hid, hfind, rfl⟩ := tmUpdate_eq hret
  intro k hk hkn
  rcases mem_skiplistInsert.mp hk with rfl | hk
  · refine ⟨hd, ?_⟩
    show s.now + d ≤ wrap64 (s.now + wrap32 v)
    rw [hd]
    exact le_wrap64 hfit
  · obtain ⟨hk, hne⟩ := mem_skiplistRemove.mp hk
    have hown := h.owner hl hk
    rw [hkn, timers_of hc, hid] at hown
    exact absurd (Option.some.inj hown).symm hne

theorem awaits_tmActive (h : Wound s) (hno : s.timers n = none) (hd : wrap32 v = d) (hv : v = d)
    (hfit : s.now + d < 2 ^ 63) (hret : Returns (tmActive n v) s u t) : Awaits n d s.now t := by
  obtain ⟨c, l, hc, hl, rfl⟩ := tmActive_eq hret
  intro k hk hkn
  rcases mem_skiplistInsert.mp hk with rfl | hk
  · refine ⟨hd, ?_⟩
    show s.now + d ≤ wrap64 (s.now + v)
    rw [hv]
    exact le_wrap64 hfit
  · have hown := h.owner hl hk
    rw [hkn, hno] at hown
    cases hown

/-- A timer of `v` milliseconds, where there was one before and where there was none. -/
theorem awaits_activeTimer (h : Wound s) (hv : 0 < v) (hsmall : v * 1000 < 2 ^ 31)
    (hfit : s.now + v * 1000 < 2 ^ 63) (hret : Returns (activeTimer n v) s u t) : Awaits n (v * 1000) s.now t := by
  have h64 : wrap64 (v * 1000) = v * 1000 := wrap64_of (by omega) (by omega)
  have h32 : wrap32 (v * 1000) = v * 1000 := wrap32_of (by omega) hsmall
  simp only [activeTimer, returns_bind, returns_deref, and_assoc, exists_and_left, exists_eq_left] at hret
  obtain ⟨c, hc, hret⟩ := hret
  rw [if_pos hv] at hret
  rcases returns_ite.mp hret with ⟨_, hret⟩ | ⟨hno, hret⟩
  · rw [h64] at hret
    exact awaits_tmUpdate h h32 hfit hret
  · rw [h64] at hret
    exact awaits_tmActive h ((timers_of hc).trans (by simpa using hno)) h32 rfl hfit hret

theorem Awaits.moved {a : Sys ε} (h : Awaits n d last s) (hclock : a.mnet.tmClock = s.mnet.tmClock) :
    Awaits n d last a := by
  rw [Awaits, hclock]
  exact h

theorem Awaits.posts {A : Set Entry} (h : Awaits n d last s) (hw : Wound s) (hp : Posts A s t)
    (hA : ∀ e ∈ A, e ≠ .wipe ∧ ¬ e.touches n) : Awaits n d last t := by
  refine (hp.keeps (I := fun a => Wound a ∧ Awaits n d last a) (fun e a b he hb ha => ?_) ⟨hw, h⟩).2
  obtain ⟨hwipe, hno⟩ := hA e he
  refine ⟨ha.1.booked hb hwipe, fun k hk hkn => ha.2 k (ha.1.nodes hb ?_ hk) hkn⟩
  rw [hkn]
  exact hno

/-- Other calls leave the timer alone. -/
theorem Step.awaits {i : Call × Ret} (hm : Modest x) (h : Step x s i t) (hw : Wound s) (hno : ¬ Retimes n i.1)
    (hloop : ∀ fuel, i.1 ≠ .resultNext fuel) (ha : Awaits n d last s) : Awaits n d last t := by
  obtain ⟨call, r⟩ := i
  by_cases hcall : call = .mnetFini
  · subst hcall
    obtain ⟨_, _, h⟩ := returns_ret.mp h
    obtain ⟨_, hwiped⟩ | rfl := mnetFini_wipes h
    · intro k hk
      rw [hwiped] at hk
      cases hk
    · exact ha
  refine ha.posts hw (hm.posts_apiCall _ _ _ h) fun e he => ?_
  have hidle : ∀ e : Entry, e.idle → e ≠ .wipe ∧ ¬ e.touches n := by
    intro e he
    cases e <;> first | exact he.elim | exact ⟨by simp, id⟩
  cases call with
  | mnetFini => exact absurd rfl hcall
  | resultNext fuel => exact absurd rfl (hloop fuel)
  | mnetInit =>
    obtain he | rfl := he
    · exact hidle e he
    · exact ⟨by simp, id⟩
  | poll =>
    obtain he | rfl | ⟨m, rfl⟩ := he
    · exact hidle e he
    · exact ⟨by simp, id⟩
    · exact ⟨by simp, id⟩
  | channActiveEvent m et w =>
    cases et with
    | timer =>
      obtain he | ⟨k, rfl, rfl⟩ := he
      · exact hidle e he
      · exact ⟨by simp, hno⟩
    | _ => exact hidle e he
  | _ => exact hidle e he

/-- The cursor moves on from the timer that is due. -/
theorem Due.wound (hdue : Due s l node) (h : Wound s) :
    Wound { s with mnet := { s.mnet with tmPos := some (skiplistNext l node.id) } } := by
  refine h.moved rfl rfl rfl rfl rfl rfl fun _ => h.sampled ?_
  rw [hdue.pos]
  exact Option.some_ne_none _

/-- The message loop gives out a timer message of `n` in time, or none. -/
theorem Awaits.resultNext {fuel : Nat} {r : Ret} (hm : Modest x) (hp : Polite x) (ha : Awaits n d last s) (hw : Wound s)
    (hf : Filed (NoTimer (· = n)) s) (h0 : 0 < d) (hsmall : d < 2 ^ 31) (hfit : s.now + d < 2 ^ 63)
    (h : Step x s (.resultNext fuel, r) t) :
    (Rings n r t ∧ last + d ≤ s.now ∧ Awaits n d s.now t) ∨ (¬ Rings n r t ∧ Awaits n d last t) := by
  obtain ⟨l, node, a, c, e, hdue, rfl, hup, hc, rfl⟩ | ⟨_, hst, _, hno⟩ := resultNext_cases hp hm hf h
  swap
  · exact .inr ⟨hno n rfl, ha.moved hst.clock⟩
  have hmoved := hdue.wound hw
  by_cases hn : node.tm.chann = n
  · -- the timer goes off, and was due when the poll looked at the clock
    obtain ⟨hint, htime⟩ := ha node (by rw [hdue.clock]; exact (skiplistFind_some hdue.find).1) hn
    have hpast : s.mnet.tmCurrent ≤ s.now := hw.sampled (by rw [hdue.pos]; exact Option.some_ne_none _)
    have hlate := hdue.time
    refine .inl ⟨⟨by rw [hn], { c with msg := msgOf node.tm.chann c .timer none 0 }, ?_, rfl⟩, by omega, ?_⟩
    · rw [← hn]
      exact Function.update_self ..
    · have hsame : wrap32 node.tm.interval = d := by
        rw [hint]
        exact wrap32_of h0 hsmall
      have hagain := awaits_tmUpdate hmoved hsame hfit hup
      rw [← hn]
      exact hagain.moved rfl
  · refine .inr ⟨fun ⟨hr, _⟩ => hn (Option.some.inj (Ret.msg.inj hr)), fun k hk hkn => ?_⟩
    exact ha k ((hmoved.mem_tmUpdate hup fun he => hn (he.symm.trans hkn)).mp hk) hkn

/-! ## Runs -/

/-- A run in which no timer message of `n` comes before `d` has passed since `last`, or since the
one before it. The loop reads the clock first of all when it rearms a timer. -/
inductive Spaced (x : ExtTable ε) (n : ChannId) (d : Int) : Int → Sys ε → List (Call × Ret) → Sys ε → Prop
  | done {last : Int} {s : Sys ε} : Spaced x n d last s [] s
  | rings {last : Int} {s a t : Sys ε} {i : Call × Ret} {l : List (Call × Ret)} : Step x s i a →
    Rings n i.2 a → last + d ≤ s.now → Spaced x n d s.now a l t → Spaced x n d last s (i :: l) t
  | quiet {last : Int} {s a t : Sys ε} {i : Call × Ret} {l : List (Call × Ret)} : Step x s i a →
    ¬ Rings n i.2 a → Spaced x n d last a l t → Spaced x n d last s (i :: l) t

/-- The timer of `n` is let alone, does not fire while a report of `n` is in the queue, and could be
armed again for `d`. -/
def KeepsTime (n : ChannId) (d : Int) (s : Sys ε) (c : Call) : Prop :=
  Unqueued (· = n) s c ∧ ¬ Retimes n c ∧ s.now + d < 2 ^ 63

/-- Only the message loop gives out messages. -/
theorem not_rings_of {i : Call × Ret} (h : Step x s i t) (hloop : ∀ fuel, i.1 ≠ .resultNext fuel) :
    ¬ Rings n i.2 t := by
  rintro ⟨hr, _⟩
  obtain ⟨call, r⟩ := i
  simp only at hr
  subst hr
  cases call with
  | resultNext fuel => exact hloop fuel rfl
  | _ =>
    obtain ⟨_, hr, _⟩ := returns_ret.mp h
    cases hr

section

variable (hx : Obedient x) (hm : Modest x) (hp : Polite x)
include hx hm hp

theorem Awaits.spaced {is : List (Call × Ret)} (ha : Awaits n d last s) (ho : Ordered s) (hw : Wound s)
    (hf : Filed (NoTimer (· = n)) s) (h0 : 0 < d) (hsmall : d < 2 ^ 31)
    (h : RunWhere x (KeepsTime n d) s is t) : Spaced x n d last s is t := by
  induction h generalizing last with
  | nil => exact .done
  | @cons s a t i is hstep _ ih =>
    obtain ⟨hstep, hqueue, hno, hfit⟩ := hstep
    have hoa := hstep.ordered hx ho
    have hwa := hstep.wound hm hx ho hw
    have hfa := hstep.noTimer hp hx hm hqueue ho hf
    by_cases hloop : ∃ fuel, i.1 = .resultNext fuel
    · obtain ⟨fuel, hcall⟩ := hloop
      obtain ⟨call, r⟩ := i
      simp only at hcall
      subst hcall
      obtain ⟨hring, hlate, hnext⟩ | ⟨hquiet, hnext⟩ := ha.resultNext hm hp hw hf h0 hsmall hfit hstep
      · exact .rings hstep hring hlate (ih hnext hoa hwa hfa)
      · exact .quiet hstep hquiet (ih hnext hoa hwa hfa)
    · have hother : ∀ fuel, i.1 ≠ .resultNext fuel := fun fuel he => hloop ⟨fuel, he⟩
      exact .quiet hstep (not_rings_of hstep hother) (ih (hstep.awaits hm hw hno hother ha) hoa hwa hfa)

/-- With a clock that does not go back and polite types: a timer of `v` milliseconds goes off when they
have passed, and again when they have passed since, if `v * 1000` is below 2³¹, no report of the channel
waits that is of a timer, and the timer never fires while a report of the channel is in the queue. -/
theorem interval_kept {o : Oracle} {e : ε} {l l' : List (Call × Ret)} {w : Sys ε} {r : Ret}
    (hclock : Monotone o.clock) (hrun : Run x (Sys.start o e) l s) (hfree : TimerFree (· = n) s)
    (hc : s.heap n = some c) (hopen : c.state ≠ .closed) (hv : 0 < v) (hsmall : v * 1000 < 2 ^ 31)
    (hfit : s.now + v * 1000 < 2 ^ 63) (hact : Step x s (.channActiveEvent (some n) .timer v, r) t)
    (hrest : RunWhere x (KeepsTime n (v * 1000)) t l' w) : Spaced x n (v * 1000) s.now t l' w := by
  obtain ⟨ho, hw, hf, _⟩ := hrun.ticking hp hx hm hclock hfree
  have ha : Awaits n (v * 1000) s.now t := by
    obtain ⟨_, _, hret⟩ := returns_ret.mp hact
    simp only [mnetChannActiveEvent] at hret
    rw [(returns_read.mpr ⟨rfl, rfl⟩).bind_iff, (returns_deref.mpr ⟨hc, rfl⟩).bind_iff, if_neg (by simp),
      if_pos ⟨trivial, hopen⟩] at hret
    exact awaits_activeTimer hw hv hsmall hfit hret
  exact ha.spaced hx hm hp (hact.ordered hx ho) (hact.wound hm hx ho hw) (hact.noTimer hp hx hm trivial ho hf)
    (by omega) hsmall hrest

end

theorem timerFree_of {N : ChannId → Prop} (h : s.mnet.disChanns = none) : TimerFree N s := by
  intro n _ hw
  obtain ⟨q, hq, _⟩ := hw
  rw [h] at hq
  cases hq

theorem unqueued_of {N : ChannId → Prop} {call : Call} (h : s.mnet.disChanns = none) : Unqueued N s call := by
  cases call with
  | resultNext fuel =>
    rintro l node _ _ ⟨q, hq, _⟩
    rw [h] at hq
    cases hq
  | _ => trivial

set_option synthInstance.maxSize 1000 in
/-- A timer of a millisecond, one that has passed when the poll looks at the clock. -/
theorem interval_kept_once : ∃ (s t w : Sys Tls) (l : List (Call × Ret)),
    (Call.resultNext 5, Ret.msg (some 0)) ∈ l ∧ Spaced tlsTable 0 (1 * 1000) s.now t l w := by
  have hrun : After tlsTable [.mnetInit, .channOpen 1] (Sys.start lateOracle {}) fun _ s => ((s.heap 0).map (·.state) =
          some .disconnect ∧ s.mnet.disChanns = none ∧ s.now + 1 * 1000 < 2 ^ 63) ∧
        After tlsTable [.channActiveEvent (some 0) .timer 1] s fun _ t =>
          AfterWhere tlsTable (fun a c => a.mnet.disChanns = none ∧ ¬ Retimes 0 c ∧ a.now + 1 * 1000 < 2 ^ 63) [.poll] t
            fun a => (a.mnet.disChanns = none ∧ a.now + 1 * 1000 < 2 ^ 63) ∧
              After tlsTable [.resultNext 5] a fun rs _ => rs = [.msg (some 0)] := by decide +kernel
  obtain ⟨_, s, hs, ⟨hchann, hnone, hfit⟩, hact⟩ := hrun.run
  obtain ⟨r, t, hact, hpoll⟩ := hact.step
  obtain ⟨l, a, hpoll, ⟨hdis, hfita⟩, hnext⟩ := hpoll.run
  obtain ⟨q, w, hnext, hq⟩ := hnext.step
  obtain rfl : q = .msg (some 0) := List.head_eq_of_cons_eq hq
  obtain ⟨c, hc, hst⟩ := Option.map_eq_some_iff.mp hchann
  have hrest : RunWhere tlsTable (KeepsTime 0 (1 * 1000)) t (l ++ [(.resultNext 5, .msg (some 0))]) w :=
    Path.snoc (hpoll.mono fun _ _ _ hi => ⟨hi.1, unqueued_of hi.2.1, hi.2.2⟩)
      ⟨hnext, unqueued_of hdis, (by decide), hfita⟩
  have hmono : Monotone lateOracle.clock := fun i j hij => by
    show (1000 : Int) * i ≤ 1000 * j
    omega
  exact ⟨s, t, w, _, by simp, interval_kept obedient_tlsTable modest_tlsTable polite_tlsTable hmono hs (timerFree_of hnone)
    hc (by rw [hst]; decide) (by decide) (by decide) hfit hact hrest⟩

set_option synthInstance.maxSize 1000 in
/-- A timer of 2147484 milliseconds in the place of one of a millisecond goes off at once. -/
theorem not_interval_kept : ∃ (l : List (Call × Ret)) (s t a b : Sys Tls) (r r' : Ret),
    Monotone lateOracle.clock ∧ Run tlsTable (Sys.start lateOracle {}) l s ∧ s.now + 2147484 * 1000 < 2 ^ 63 ∧
      Step tlsTable s (.channActiveEvent (some 0) .timer 2147484, r) t ∧ Step tlsTable t (.poll, r') a ∧
        Step tlsTable a (.resultNext 5, .msg (some 0)) b ∧ Rings 0 (.msg (some 0)) b ∧
          a.now < s.now + 2147484 * 1000 := by
  have hrun : After tlsTable [.mnetInit, .channOpen 1, .channActiveEvent (some 0) .timer 1]
      (Sys.start lateOracle {}) fun _ s => s.now = 2000 ∧
        After tlsTable [.channActiveEvent (some 0) .timer 2147484] s fun _ t => After tlsTable [.poll] t fun _ a =>
          a.now = 5000 ∧ After tlsTable [.resultNext 5] a fun rs b => rs = [.msg (some 0)] ∧
            (b.heap 0).map (·.msg.event) = some (some .timer) := by decide +kernel
  obtain ⟨_, s, hs, hnow, hact⟩ := hrun.run
  obtain ⟨r, t, hact, hpoll⟩ := hact.step
  obtain ⟨r', a, hpoll, hnow', hnext⟩ := hpoll.step
  obtain ⟨q, b, hnext, hq, hmsg⟩ := hnext.step
  obtain rfl : q = .msg (some 0) := List.head_eq_of_cons_eq hq
  obtain ⟨c, hc, hev⟩ := Option.map_eq_some_iff.mp hmsg
  have hmono : Monotone lateOracle.clock := fun i j hij => by
    show (1000 : Int) * i ≤ 1000 * j
    omega
  exact ⟨_, s, t, a, b, r, r', hmono, hs, by rw [hnow]; decide, hact, hpoll, hnext, ⟨rfl, c, hc, hev⟩,
    by rw [hnow, hnow']; decide⟩

end MNet
