import MNet.WriteInterest

/-! # What `mnet_chann_cached` counts

The value is computed from the head block and the number of blocks, as if every block behind the
head were of `MNET_BUF_SIZE`. The backlog is what the blocks really have left to send. -/

namespace MNet
open MNet.Lib MNet.Lib.Exec

variable {ε : Type} {x : ExtTable ε} {s t : Sys ε} {n : ChannId} {c d : Chann}

def mnetChannCached (n : Option ChannId) : M ε Int := do
  match n with
  | none => return 0
  | some n =>
    let c ← deref n
    return channCached c

/-- The sum over the blocks of `len - ptr`. -/
def backlog (h : RwbHead) : Nat := (h.map rwbBuffered).sum

@[simp] theorem backlog_nil : backlog [] = 0 := rfl

@[simp] theorem backlog_cons (b : Rwb) (h : RwbHead) : backlog (b :: h) = rwbBuffered b + backlog h := by
  simp [backlog]

theorem backlog_eq (h : RwbHead) : backlog h = (unsent h).length := by
  induction h with
  | nil => rfl
  | cons b h ih => rw [backlog_cons, unsent_cons, List.length_append, ih, rwbBuffered_eq]

/-- As far as an `int` can tell, the blocks behind the head hold `MNET_BUF_SIZE` bytes each. -/
def Level (h : RwbHead) : Prop := (h.tail.length * MNET_BUF_SIZE) % 2 ^ 32 = backlog h.tail

/-- Reducing to 32 bits finds the number again that is congruent and small enough. -/
theorem wrap32_eq_iff {a b : Int} (h0 : 0 ≤ b) (hb : b < 2 ^ 31) : wrap32 a = b ↔ a % 2 ^ 32 = b := by
  have hmod : wrap32 a = Int.bmod (a % 2 ^ 32) (2 ^ 32) := by
    rw [wrap32]
    exact (Int.emod_bmod ..).symm
  constructor
  · intro h
    have hself := Int.bmod_emod (x := a) (m := 2 ^ 32)
    rw [show Int.bmod a (2 ^ 32) = b from h] at hself
    rw [show ((2 ^ 32 : Nat) : Int) = 2 ^ 32 by rfl] at hself
    rw [← hself]
    exact Int.emod_eq_of_lt h0 (by omega)
  · intro h
    rw [hmod, h]
    exact Int.bmod_eq_of_le (by omega) (by omega)

/-- The value is the backlog exactly when the blocks behind the head are level. -/
theorem rwbCached_eq_backlog_iff {h : RwbHead} (hfit : backlog h < 2 ^ 31) :
    rwbCached h = backlog h ↔ Level h := by
  cases h with
  | nil => simp [rwbCached, Level]
  | cons b h =>
    rw [backlog_cons] at hfit ⊢
    rw [rwbCached, wrap32_eq_iff (by omega) (by omega), Level]
    have hcount : ((rwbCount (b :: h) : Int) - 1) = h.length := by simp [rwbCount]
    rw [hcount, List.tail_cons]
    generalize h.length * MNET_BUF_SIZE = m
    omega

theorem rwbCached_cons (b : Rwb) (h : RwbHead) :
    rwbCached (b :: h) = wrap32 (rwbBuffered b + h.length * MNET_BUF_SIZE) := by
  rw [rwbCached, show ((rwbCount (b :: h) : Int) - 1) = h.length by simp [rwbCount]]

/-- A block behind others adds `MNET_BUF_SIZE`, whatever it holds. -/
theorem rwbCached_rwbCache_iff {h : RwbHead} {data : List UInt8} (hne : h ≠ []) (hlevel : Level h)
    (hfit : backlog h + data.length < 2 ^ 31) :
    rwbCached (rwbCache h data) = backlog h + data.length ↔ data.length = MNET_BUF_SIZE := by
  cases h with
  | nil => exact absurd rfl hne
  | cons b h =>
    rw [backlog_cons] at hfit ⊢
    rw [Level, List.tail_cons] at hlevel
    rw [show rwbCache (b :: h) data = b :: (h ++ [rwbNew data]) from rfl, rwbCached_cons,
      wrap32_eq_iff (by omega) (by omega), List.length_append, List.length_singleton]
    rw [MNET_BUF_SIZE] at hlevel ⊢
    omega

theorem rwbCached_singleton (data : List UInt8) (hfit : data.length < 2 ^ 31) :
    rwbCached (rwbCache [] data) = data.length := by
  rw [show rwbCache [] data = [rwbNew data] from rfl, rwbCached_cons,
    wrap32_eq_iff (by omega) (by omega)]
  simp only [rwbBuffered, Rwb.len, rwbNew, List.length_nil]
  omega

theorem returns_mnetChannCached {v : Int} (hc : s.heap n = some c) :
    Returns (mnetChannCached (some n)) s v t ↔ v = channCached c ∧ t = s := by
  rw [mnetChannCached, (returns_deref.mpr ⟨hc, rfl⟩).bind_iff, returns_pure]

/-- The guard of `mnet_chann_send` lets the data through. -/
def TakesData (x : ExtTable ε) (s : Sys ε) (n : ChannId) (c : Chann) (data : List UInt8) : Prop :=
  data ≠ [] ∧ channState x s n c ≥ ChannState.connected.val

/-- What the guard turns down changes nothing. -/
theorem channSend_refused {data : List UInt8} {r : Ret} (hc : s.heap n = some c)
    (hno : ¬ TakesData x s n c data) (h : Step x s (.channSend (some n) (some data), r) t) : t = s := by
  obtain ⟨v, _, h⟩ := returns_ret.mp h
  rw [mnetChannSend, (returns_require.mpr ⟨rfl, rfl⟩).bind_iff, returns_bind] at h
  obtain ⟨ready, a, hready, h⟩ := h
  have hst : ready = decide (channState x s n c ≥ ChannState.connected.val) ∧ a = s := by
    rw [channReady, (returns_read.mpr ⟨rfl, rfl⟩).bind_iff, (returns_deref.mpr ⟨hc, rfl⟩).bind_iff] at hready
    exact returns_pure.mp hready
  obtain ⟨rfl, rfl⟩ := hst
  rcases returns_ite.mp h with ⟨⟨hdata, hr⟩, _⟩ | ⟨_, h⟩
  · exact absurd ⟨hdata, of_decide_eq_true hr⟩ hno
  · exact (returns_pure.mp h).2

/-- `mnet_chann_cached` tells the backlog, and counts the `data` that a send leaves in the cache
as a whole. -/
structure TellsBacklog (x : ExtTable ε) (s : Sys ε) (n : ChannId) (c : Chann) (data : List UInt8) :
    Prop where
  value : Returns (mnetChannCached (some n)) s (backlog c.rwbSend) s
  positive : ∀ v, Returns (mnetChannCached (some n)) s v s → (0 < v ↔ unsent c.rwbSend ≠ [])
  send : ∀ r t d v w, Step x s (.channSend (some n) (some data), r) t → t.heap n = some d →
    d.rwbSend = rwbCache c.rwbSend data → Returns (mnetChannCached (some n)) s v s →
      Returns (mnetChannCached (some n)) t w t → w = v + data.length

/-- The value is the backlog exactly when the blocks behind the head are level, and stays it
exactly when data goes into an empty cache or comes in pieces of `MNET_BUF_SIZE`. -/
theorem tells_backlog_iff {data : List UInt8} (hc : s.heap n = some c)
    (hfit : backlog c.rwbSend + data.length < 2 ^ 31) :
    TellsBacklog x s n c data ↔ Level c.rwbSend ∧
      (TakesData x s n c data → c.rwbSend ≠ [] → data.length = MNET_BUF_SIZE) := by
  have hvalue := rwbCached_eq_backlog_iff (h := c.rwbSend) (by omega)
  constructor
  · intro h
    obtain ⟨hv, _⟩ := (returns_mnetChannCached hc).mp h.value
    have hlevel := hvalue.mp hv.symm
    refine ⟨hlevel, fun htakes hne => (rwbCached_rwbCache_iff hne hlevel hfit).mp ?_⟩
    have hheap : (s.setChann n { c with rwbSend := rwbCache c.rwbSend data }).heap n =
        some { c with rwbSend := rwbCache c.rwbSend data } := Function.update_self ..
    exact h.send _ _ _ _ _ (channSend_behind hc htakes.2 hne htakes.1) hheap rfl h.value
      ((returns_mnetChannCached hheap).mpr ⟨rfl, rfl⟩)
  · rintro ⟨hlevel, hsend⟩
    have hv : channCached c = backlog c.rwbSend := hvalue.mpr hlevel
    refine ⟨(returns_mnetChannCached hc).mpr ⟨hv.symm, rfl⟩, fun v hr => ?_, fun r t d v w h hd hwhole hr hr' => ?_⟩
    · rw [((returns_mnetChannCached hc).mp hr).1, hv, backlog_eq, Int.natCast_pos, List.length_pos_iff]
    · rw [((returns_mnetChannCached hc).mp hr).1, ((returns_mnetChannCached hd).mp hr').1, hv, channCached, hwhole]
      by_cases hne : c.rwbSend = []
      · rw [hne] at hfit ⊢
        rw [rwbCached_singleton data (by simpa using hfit)]
        simp
      by_cases htakes : TakesData x s n c data
      · exact (rwbCached_rwbCache_iff hne hlevel hfit).mpr (hsend htakes hne)
      · obtain rfl := channSend_refused hc htakes h
        rw [hc, Option.some.injEq] at hd
        subst hd
        simp [rwbCache, rwbCreateTail] at hwhole

/-- Behind one cached byte, as much as the value allows for. -/
theorem tells_backlog_once : ∃ (s : Sys Unit) (c : Chann), Reachable noExt s ∧ c.rwbSend.length = 1 ∧
    TellsBacklog noExt s 0 c (List.replicate 65536 7) := by
  obtain ⟨l, s, c, h, hs, hlen⟩ := stuck_run
  obtain ⟨b, hb⟩ := List.length_eq_one_iff.mp hlen
  have hone : rwbBuffered b = 1 := hs.small b (by rw [hb]; exact List.mem_singleton_self b)
  have hsum : backlog c.rwbSend = 1 := by rw [hb, backlog_cons, backlog_nil, hone]
  have hfit : backlog c.rwbSend + (List.replicate 65536 (7 : UInt8)).length < 2 ^ 31 := by
    rw [hsum, List.length_replicate]
    omega
  have hlevel : Level c.rwbSend := by simp [Level, hb]
  refine ⟨s, c, ⟨_, _, _, h.run⟩, hlen, (tells_backlog_iff hs.chann hfit).mpr ⟨hlevel, fun _ _ => ?_⟩⟩
  rw [List.length_replicate]
  rfl

/-- Two cached bytes count as 65537. -/
theorem not_tells_backlog : ¬ ∀ (s : Sys Unit) (n : ChannId) (c : Chann) (data : List UInt8),
    Reachable noExt s → s.heap n = some c → backlog c.rwbSend + data.length < 2 ^ 31 →
      TellsBacklog noExt s n c data := by
  intro hall
  obtain ⟨l, s, c, h, hs, hlen⟩ := stuck_run
  obtain ⟨l', t, d, h', ht, hlen'⟩ := hs.sends 1
  rw [hlen] at hlen'
  obtain ⟨b, b', hd⟩ := List.length_eq_two.mp hlen'
  have hb : rwbBuffered b = 1 := ht.small b (by rw [hd]; simp)
  have hb' : rwbBuffered b' = 1 := ht.small b' (by rw [hd]; simp)
  have hsum : backlog d.rwbSend = 2 := by rw [hd, backlog_cons, backlog_cons, backlog_nil, hb, hb']
  have htells := hall t 0 d [] ⟨_, _, _, h.run.append h'.run⟩ ht.chann (by rw [hsum]; decide)
  have hlevel : Level d.rwbSend := ((rwbCached_eq_backlog_iff (by rw [hsum]; decide)).mp
    ((returns_mnetChannCached ht.chann).mp htells.value).1.symm)
  rw [hd, Level, List.tail_cons, backlog_cons, backlog_nil, hb', List.length_singleton] at hlevel
  exact absurd hlevel (by decide)

end MNet
