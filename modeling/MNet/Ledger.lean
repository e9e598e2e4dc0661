import MNet.Bland
import MNet.Moves.Spec

/-! # The ledger

What becomes of the data of the channels and of their timers, entry by entry. Every call is a
sequence of entries, whatever the callbacks of a registered type do besides. -/

namespace MNet
open MNet.Lib MNet.Lib.Exec

variable {ε : Type} {x : ExtTable ε} {s t : Sys ε} {n : ChannId} {u : Unit}

/-- The counters of a channel, its cache and its timer. -/
def Chann.stock (c : Chann) : Int × Int × RwbHead × Option NodeId :=
  (c.bytesSend, c.bytesRecv, c.rwbSend, c.timerNode)

def Mnet.clockwork (ss : Mnet) (i : NodeId) : Bool × Option (List TmNode) × Option TmLink × Int × NodeId :=
  (ss.isInit, ss.tmClock, ss.tmPos, ss.tmCurrent, i)

abbrev Resting : Sys ε → Sys ε → Prop := Leaves Chann.stock Mnet.clockwork

theorem Leaves.resting (h : Bland s t) : Resting s t :=
  h.mono Chann.stock (fun _ => rfl) (·.2) fun _ _ => rfl

theorem Lib.Exec.Within.resting {α : Type} {m : M ε α} (h : Within Bland m s) : Within Resting m s :=
  h.mono fun _ => Leaves.resting

/-- The socket of `n` is torn down: its callback runs, and its cache is empty. -/
def HungUp (n : ChannId) (s t : Sys ε) : Prop := ∃ a c,
  Resting (s.recorded (.extOp .disconnectCb n)) a ∧ a.heap n = some c ∧
    Resting (a.setChann n { c with rwbSend := [] }) t

/-- Channels may be disconnected. -/
abbrev Settling : Sys ε → Sys ε → Prop :=
  Relation.ReflTransGen fun s t => Resting s t ∨ ∃ n, HungUp n s t

theorem Lib.Exec.Within.settling {α : Type} {m : M ε α} (h : Within Resting m s) : Within Settling m s :=
  h.mono fun _ ht => .single (.inl ht)

theorem HungUp.nextChann (h : HungUp n s t) : s.nextChann ≤ t.nextChann := by
  obtain ⟨a, c, ha, _, ht⟩ := h
  exact Nat.le_trans ha.nextChann ht.nextChann

theorem settling_nextChann (h : Settling s t) : s.nextChann ≤ t.nextChann := by
  induction h with
  | refl => exact Nat.le_refl _
  | tail _ hstep ih =>
    obtain hr | ⟨n, hup⟩ := hstep
    · exact Nat.le_trans ih hr.nextChann
    · exact Nat.le_trans ih hup.nextChann

/-- The callbacks leave data and timers alone. Those that may call back disconnect channels. -/
structure Modest (x : ExtTable ε) : Prop where
  cb : ∀ ctype op n s, Within Settling ((extConfig x ctype).cb op n) s
  disconnectCb : ∀ ctype n s, Within Resting ((extConfig x ctype).disconnectCb n) s
  recvFn : ∀ ctype n len s, Within Resting ((extConfig x ctype).recvFn n len) s
  sendFn : ∀ ctype n data s, Within Resting ((extConfig x ctype).sendFn n data) s
  filterFn : ∀ ctype n s, Within Settling ((extConfig x ctype).filterFn n) s

/-! ## Entries -/

/-- The channel after `send_fn` was called for the `data` of a caller and returned `r`. -/
def Chann.sent (c : Chann) (data : List UInt8) (r : Int) : Chann :=
  { c with
    bytesSend := c.bytesSend + max r 0
    rwbSend := if 0 ≤ r ∧ r < data.length then rwbCache c.rwbSend (data.drop r.toNat) else c.rwbSend }

/-- The same for the head of the cache. -/
def Chann.flushed (c : Chann) (r : Int) : Chann :=
  { c with
    bytesSend := c.bytesSend + max r 0
    rwbSend := if 0 < r then rwbDrain c.rwbSend r.toNat else c.rwbSend }

/-- The channel `n` rewritten, if there is one. -/
def Sys.alter (s : Sys ε) (n : ChannId) (f : Chann → Chann) : Sys ε :=
  { s with heap := Function.update s.heap n ((s.heap n).map f) }

theorem alter_of (s : Sys ε) {f : Chann → Chann} {c : Chann} (hc : s.heap n = some c) :
    s.alter n f = s.setChann n (f c) := by
  rw [Sys.alter, hc]
  rfl

theorem alter_id (s : Sys ε) {f : Chann → Chann} (hf : ∀ c, f c = c) : s.alter n f = s := by
  rw [Sys.alter, show f = id from funext hf, Option.map_id_fun, id, Function.update_eq_self]

theorem alter_alter (s : Sys ε) (f g : Chann → Chann) : (s.alter n f).alter n g = s.alter n (g ∘ f) := by
  simp only [Sys.alter, Function.update_self, Function.update_idem, Option.map_map]

theorem returns_alter {f : Chann → Chann} (h : Returns (modifyChann n f) s u t) : t = s.alter n f := by
  obtain ⟨c, hc, rfl⟩ := returns_modifyChann.mp h
  exact (alter_of s hc).symm

inductive Entry where
  | rest
  | hangUp (n : ChannId)
  /-- Data of a caller: sent at once, or put behind what is cached. -/
  | direct (n : ChannId)
  | behind (n : ChannId)
  | flush (n : ChannId)
  | recv (n : ChannId)
  /-- A timer armed, changed or cancelled by the user. -/
  | timer (n : ChannId)
  /-- The cursor moves on, and the timer it leaves is armed again. -/
  | fire (n : ChannId)
  | park
  | schedule
  | boot
  | free (n : ChannId)
  | wipe
deriving DecidableEq

/-- The entries that have nothing to do with timers. -/
def Entry.idle : Entry → Prop
  | .timer _ | .fire _ | .park | .schedule | .boot | .free _ | .wipe => False
  | _ => True

/-- One entry: when it is made, and what it changes. -/
inductive Booked : Sys ε → Entry → Sys ε → Prop
  | rest {s t : Sys ε} : Resting s t → Booked s .rest t
  | hangUp {s t : Sys ε} {n : ChannId} : HungUp n s t → Booked s (.hangUp n) t
  | direct {s a : Sys ε} {n : ChannId} {c : Chann} {data : List UInt8} {r : Int} :
    s.heap n = some c → c.rwbSend = [] → data ≠ [] → Resting s a →
    Booked s (.direct n) ((a.recorded (.sendFn n data r)).alter n (·.sent data r))
  | behind {s : Sys ε} {n : ChannId} {c : Chann} {data : List UInt8} :
    s.heap n = some c → c.rwbSend ≠ [] → data ≠ [] →
    Booked s (.behind n) (s.setChann n { c with rwbSend := rwbCache c.rwbSend data })
  | flush {s a : Sys ε} {n : ChannId} {c : Chann} {r : Int} :
    s.heap n = some c → c.rwbSend ≠ [] → Resting s a →
    Booked s (.flush n) ((a.recorded (.sendFn n (rwbDrainParam c.rwbSend) r)).alter n (·.flushed r))
  | recv {s a b : Sys ε} {n : ChannId} {c : Chann} {r : Int} :
    s.heap n = some c → Resting s a → Settling (a.recorded (.recvFn n r)) b →
    Booked s (.recv n) (b.alter n fun c => { c with bytesRecv := c.bytesRecv + r })
  | timer {s t : Sys ε} {n : ChannId} {c : Chann} {v : Int} {u : Unit} :
    s.heap n = some c → c.state ≠ .closed → Returns (activeTimer n v) s u t → Booked s (.timer n) t
  | fire {s t : Sys ε} {clock : List TmNode} {node : TmNode} {u : Unit} :
    s.mnet.tmClock = some clock → skiplistFind clock node.id = some node →
    s.mnet.tmPos = some (.node node.id) → node.tm.time ≤ s.mnet.tmCurrent →
    Returns (tmUpdate node.tm.chann node.tm.interval)
      { s with mnet := { s.mnet with tmPos := some (skiplistNext clock node.id) } } u t →
    Booked s (.fire node.tm.chann) t
  | park {s : Sys ε} : Booked s .park { s with mnet := { s.mnet with tmPos := none } }
  | schedule {s t : Sys ε} {u : Unit} : Returns tmSchedule s u t → Booked s .schedule t
  | boot {s : Sys ε} {ss : Mnet} : s.mnet.isInit = false →
    ss.isInit = true → ss.tmClock = some [] → ss.tmPos = s.mnet.tmPos → ss.tmCurrent = s.mnet.tmCurrent →
    Booked s .boot { s with mnet := ss }
  | free {s a b d : Sys ε} {n : ChannId} {c : Chann} {h : RwbHead} {u : Unit} :
    Resting s a → a.heap n = some c → Returns (tmKill n) (a.setChann n { c with rwbSend := h }) u b →
    Resting b d →
    Booked s (.free n) { d with heap := Function.update d.heap n none }
  | wipe {s : Sys ε} : Booked s .wipe { s with mnet := {} }

/-- Entries of the set `A`. -/
abbrev Posts (A : Set Entry) : Sys ε → Sys ε → Prop :=
  Relation.ReflTransGen fun s t => ∃ e ∈ A, Booked s e t

/-- What every entry of `A` keeps. -/
theorem Posts.keeps {A : Set Entry} {I : Sys ε → Prop} (h : Posts A s t)
    (hI : ∀ e s t, e ∈ A → Booked s e t → I s → I t) (hs : I s) : I t := by
  induction h with
  | refl => exact hs
  | tail _ hb ih =>
    obtain ⟨e, he, hb⟩ := hb
    exact hI e _ _ he hb ih

theorem Posts.subset {A B : Set Entry} (h : Posts A s t) (hs : A ⊆ B) : Posts B s t :=
  Relation.ReflTransGen.mono (fun _ _ ⟨e, he, hb⟩ => ⟨e, hs he, hb⟩) _ _ h

/-- What a channel has sent, received and cached. -/
def Chann.data (c : Chann) : Int × Int × RwbHead := (c.bytesSend, c.bytesRecv, c.rwbSend)

/-- No data is touched. -/
abbrev Dry : Sys ε → Sys ε → Prop := Leaves Chann.data fun _ _ => ()

theorem Leaves.dry (h : Resting s t) : Dry s t :=
  h.mono (fun p => (p.1, p.2.1, p.2.2.1)) (fun _ => rfl) (fun _ => ()) fun _ _ => rfl

theorem untimed_data : Untimed Chann.data fun _ _ => () := ⟨fun _ _ => rfl, fun _ _ _ _ _ _ => rfl⟩

/-- The entries that have only to do with timers. -/
def Entry.timed : Entry → Prop
  | .timer _ | .fire _ | .park | .schedule | .boot | .wipe => True
  | _ => False

theorem Booked.dry {e : Entry} (h : Booked s e t) (he : e.timed) : Dry s t := by
  cases h with
  | timer _ _ h => exact untimed_data.activeTimer _ _ h
  | @fire _ clock node _ _ _ _ _ h =>
    have hpos : Dry s { s with mnet := { s.mnet with tmPos := some (skiplistNext clock node.id) } } :=
      .of_heap rfl rfl rfl (.refl _)
    exact hpos.trans (untimed_data.tmUpdate _ _ _ h)
  | schedule h => exact untimed_data.tmSchedule _ _ h
  | park | boot | wipe => exact .of_heap rfl rfl rfl (.refl _)
  | _ => exact he.elim

/-! ## The history only grows -/

theorem Leaves.suffix {α β : Type} {f : Chann → α} {g : Mnet → NodeId → β} (h : Leaves f g s t) :
    s.kernel.trace <:+ t.kernel.trace := by
  obtain ⟨l, _, ht⟩ := h.kernel.trace
  exact ⟨l, ht.symm⟩

theorem HungUp.suffix (h : HungUp n s t) : s.kernel.trace <:+ t.kernel.trace := by
  obtain ⟨a, c, ha, _, ht⟩ := h
  exact (List.suffix_cons _ _).trans (ha.suffix.trans ht.suffix)

theorem settling_suffix (h : Settling s t) : s.kernel.trace <:+ t.kernel.trace := by
  induction h with
  | refl => exact List.suffix_refl _
  | tail _ hstep ih =>
    obtain hr | ⟨n, hup⟩ := hstep
    · exact ih.trans hr.suffix
    · exact ih.trans hup.suffix

theorem Booked.suffix {e : Entry} (h : Booked s e t) : s.kernel.trace <:+ t.kernel.trace := by
  by_cases he : e.timed
  · exact (h.dry he).suffix
  cases h with
  | rest hr => exact hr.suffix
  | hangUp hup => exact hup.suffix
  | direct _ _ _ ha | flush _ _ ha => exact ha.suffix.trans (List.suffix_cons _ _)
  | behind => exact List.suffix_refl _
  | recv _ ha hb => exact ha.suffix.trans ((List.suffix_cons _ _).trans (settling_suffix hb))
  | free ha _ hkill hd =>
    have hset := (untimed_data.tmKill _ _ hkill).suffix
    exact ha.suffix.trans (hset.trans hd.suffix)
  | _ => exact absurd trivial he

theorem Posts.suffix {A : Set Entry} (h : Posts A s t) : s.kernel.trace <:+ t.kernel.trace := by
  induction h with
  | refl => exact List.suffix_refl _
  | tail _ hb ih =>
    obtain ⟨e, _, hb⟩ := hb
    exact ih.trans hb.suffix

/-! ## Disconnecting -/

theorem Leaves.recorded {e : SysEvent} (he : e.still) : Resting s (s.recorded e) :=
  (bland_recorded he s).resting

theorem resting_pushDis : Within Resting (pushDis n : M ε Unit) s :=
  .read_bind <| .bind (leaves_modifyChann fun _ => rfl) fun _ _ _ => leaves_modifyMnet fun _ _ => rfl

theorem resting_disNext : Within Resting (disNext : M ε (Option ChannId)) s := by
  refine .read_bind ?_
  cases s.mnet.disChanns with
  | none => exact within_pure none
  | some n =>
    exact .deref_bind fun _ _ => .bind (leaves_modifyMnet fun _ _ => rfl) fun _ _ _ => within_pure _

/-- Nothing happens to a channel without a socket. -/
theorem disconnects (hcb : ∀ ctype n s, Within Resting ((extConfig x ctype).disconnectCb n) s) {r : Int}
    (h : Returns (channDisconnectSocket (opsOf x) n) s r t) : t = s ∨ HungUp n s t := by
  simp only [channDisconnectSocket, returns_bind, returns_deref, and_assoc, exists_and_left,
    exists_eq_left] at h
  obtain ⟨c, hc, h⟩ := h
  rcases returns_ite.mp h with ⟨_, h⟩ | ⟨_, h⟩
  swap
  · exact .inl (returns_pure.mp h).2
  simp only [destroyCache, returns_bind, returns_deref, returns_require, returns_modifyChann, returns_pure,
    and_assoc, exists_and_left, exists_eq_left] at h
  obtain ⟨_, a, hcall, d, _, _, b, hclose, _, _, ⟨e, he, q, hq, _, hb, rfl⟩, _, _, ⟨f, hf, rfl⟩, rfl, rfl⟩ := h
  obtain ⟨_, _, rfl, hcall⟩ := returns_callback.mp hcall
  rw [opsConfig_opsOf] at hcall
  obtain ⟨rfl, _⟩ := rwbDestroy_eq_some.mp hq
  rw [he, Option.some.injEq] at hb
  subst hb
  refine .inr ⟨b, e, (hcb _ _ _ _ _ hcall).trans ((bland_sysClose _).resting _ _ hclose), he, ?_⟩
  exact .of_set hf rfl

theorem settling_disconnectSocket (hcb : ∀ ctype n s, Within Resting ((extConfig x ctype).disconnectCb n) s) :
    Within Settling (channDisconnectSocket (opsOf x) n) s := by
  intro r t h
  obtain rfl | hup := disconnects hcb h
  · exact .refl
  · exact .single (.inr ⟨n, hup⟩)

section Modest

variable (hx : Modest x)
include hx

theorem Modest.settling_disconnect : Within Settling (channDisconnectSocket (opsOf x) n) s :=
  settling_disconnectSocket hx.disconnectCb

theorem Modest.settling_callback (op : ExtOp) (ctype : Nat) (hop : op ≠ .disconnectCb) :
    Within Settling (callback op ((extConfig x ctype).cb op) n) s := by
  refine Within.bind (Within.settling fun _ t h => ?_) fun _ _ _ => hx.cb ctype op n _
  rw [returns_record] at h
  subst h
  refine Leaves.recorded ?_
  cases op <;> first | exact absurd rfl hop | trivial

theorem Modest.settling_channMsg {event : ChannEvent} {r : Option ChannId} {err : Int} :
    Within Settling (channMsg x n event r err) s :=
  .bind (Within.settling (leaves_modifyChann fun _ => rfl)) fun _ _ _ => .deref_bind fun c _ =>
    hx.filterFn c.ctype n _

theorem Modest.settling_channFail : Within Settling (channFail x n) s :=
  hx.settling_disconnect.bind fun _ _ _ => .read_bind <| hx.settling_channMsg.bind fun _ _ _ =>
    .when fun _ => resting_pushDis.settling

theorem Modest.settling_channAccept : Within Settling (channAccept x n) s :=
  .deref_bind fun l _ => (bland_acFn _).resting.settling.bind fun _ _ _ => .ite
    (fun _ => (bland_setNonblocking _).resting.settling.bind fun _ _ _ => .ite
      (fun _ => (bland_channCreate _ _).resting.settling.bind fun _ _ _ =>
        .bind (Within.settling (leaves_modifyChann fun _ => rfl)) fun _ _ _ =>
          (hx.settling_callback .acceptCb l.ctype (by simp)).bind fun _ _ _ => within_pure _)
      fun _ => within_pure _)
    fun _ => within_pure _

theorem Modest.settling_channCloseSocket : Within Settling (channCloseSocket (opsOf x) n) s := by
  refine .deref_bind fun c _ => .ite (fun _ => Within.bind ?_ fun _ _ _ => .read_bind <|
    .bind (Within.settling (leaves_modifyChann fun _ => rfl)) fun _ _ _ =>
      .bind (Within.settling (leaves_modifyMnet fun _ _ => rfl)) fun _ _ _ =>
        Within.settling (leaves_modifyChann fun _ => rfl)) fun _ => within_pure ()
  rw [opsConfig_opsOf]
  exact hx.settling_callback .closeCb c.ctype (by simp)

end Modest

/-! ## Transfers -/

/-- A set with all entries that have nothing to do with timers. -/
def Idle (A : Set Entry) : Prop := ∀ e : Entry, e.idle → e ∈ A

section Transfers

variable {A : Set Entry} (hA : Idle A)
include hA

theorem Idle.rest (h : Resting s t) : Posts A s t := .single ⟨.rest, hA _ trivial, .rest h⟩

theorem Idle.settling (h : Settling s t) : Posts A s t := by
  induction h with
  | refl => exact .refl
  | tail _ hstep ih =>
    obtain hr | ⟨n, hup⟩ := hstep
    · exact ih.tail ⟨.rest, hA _ trivial, .rest hr⟩
    · exact ih.tail ⟨.hangUp n, hA _ trivial, .hangUp hup⟩

theorem Idle.settles {α : Type} {m : M ε α} (h : Within Settling m s) : Within (Posts A) m s :=
  h.mono fun _ => hA.settling

theorem Idle.rests {α : Type} {m : M ε α} (h : Within Resting m s) : Within (Posts A) m s :=
  h.mono fun _ => hA.rest

variable (hx : Modest x)
include hx

omit hA in
/-- What a call of `send_fn` comes to, less the cache. -/
theorem Modest.channSend_booked {data : List UInt8} {r : Int} (h : Returns (channSend x n data) s r t) :
    ∃ a, Resting s a ∧
      t = (a.recorded (.sendFn n data r)).alter n fun c => { c with bytesSend := c.bytesSend + max r 0 } := by
  obtain ⟨c, a, _, hfn, ⟨hneg, rfl⟩ | ⟨hpos, d, hd, rfl⟩⟩ := channSend_cases h
  · refine ⟨a, hx.sendFn _ _ _ _ _ _ hfn, (alter_id _ fun c => ?_).symm⟩
    rw [Int.max_eq_right hneg, Int.add_zero]
  · refine ⟨a, hx.sendFn _ _ _ _ _ _ hfn, ?_⟩
    rw [alter_of _ (show (a.recorded _).heap n = some d from hd), Int.max_eq_left (Int.le_of_lt hpos)]

theorem Modest.posts_channSendedLoop {fuel : Nat} (hne : ∀ c, s.heap n = some c → c.rwbSend ≠ []) :
    Within (Posts A) (channSendedLoop x n fuel) s := by
  induction fuel generalizing s with
  | zero => exact within_fail
  | succ fuel ih =>
    intro u t h
    simp only [channSendedLoop, returns_bind, returns_deref, and_assoc, exists_and_left, exists_eq_left] at h
    obtain ⟨c, hc, r, b, hsend, h⟩ := h
    obtain ⟨a, ha, rfl⟩ := hx.channSend_booked hsend
    have hflush : Posts A s ((a.recorded (.sendFn n (rwbDrainParam c.rwbSend) r)).alter n (·.flushed r)) :=
      .single ⟨.flush n, hA _ trivial, .flush hc (hne c hc) ha⟩
    rcases returns_ite.mp h with ⟨hpos, h⟩ | ⟨hneg, h⟩
    · obtain ⟨_, d, hdrain, h⟩ := returns_bind.mp h
      obtain rfl := returns_alter hdrain
      rw [alter_alter] at h
      have he : ((fun c : Chann => { c with rwbSend := rwbDrain c.rwbSend r.toNat }) ∘
          fun c : Chann => { c with bytesSend := c.bytesSend + max r 0 }) = (·.flushed r) := by
        funext c
        simp [Chann.flushed, hpos]
      rw [he] at h
      simp only [returns_bind, returns_deref, and_assoc, exists_and_left, exists_eq_left] at h
      obtain ⟨e, hd, h⟩ := h
      rcases returns_ite.mp h with ⟨⟨_, hcount⟩, h⟩ | ⟨_, h⟩
      · refine hflush.trans (ih (fun e' he' => ?_) _ _ h)
        rw [hd, Option.some.injEq] at he'
        subst he'
        exact List.ne_nil_of_length_pos hcount
      · rw [(returns_pure.mp h).2]
        exact hflush
    · have he : (fun c : Chann => { c with bytesSend := c.bytesSend + max r 0 }) = (·.flushed r) := by
        funext c
        simp [Chann.flushed, hneg]
      rw [he] at h
      refine hflush.trans (Within.ite (fun _ => ?_) (fun _ => within_pure ()) _ _ h)
      exact hA.settles hx.settling_channFail

theorem Modest.posts_channSendedRwb : Within (Posts A) (channSendedRwb x n) s := by
  refine .deref_bind fun c hc => .ite (fun _ => within_pure true) fun hcount => ?_
  refine (hx.posts_channSendedLoop hA fun d hd => ?_).bind fun _ _ _ => .deref_bind fun _ _ => within_pure _
  rw [hc, Option.some.injEq] at hd
  subst hd
  exact List.ne_nil_of_length_pos (Nat.pos_of_ne_zero fun h0 => hcount (Nat.le_of_eq h0))

theorem Modest.posts_mnetChannSend {buf : Option (List UInt8)} :
    Within (Posts A) (mnetChannSend x (some n) buf) s := by
  refine .require_bind fun m hm => .bind_same fun ready a hready => ⟨channReady_same hready, ?_⟩
  obtain rfl := Option.some.inj hm
  refine .ite (fun hguard => .deref_bind fun c hc => .ite (fun hcount => ?_) fun hcount => ?_) fun _ => within_pure _
  · refine .bind (fun _ t h => ?_) fun _ _ _ => within_pure _
    obtain ⟨d, hd, rfl⟩ := returns_modifyChann.mp h
    rw [hc, Option.some.injEq] at hd
    subst hd
    exact .single ⟨.behind n, hA _ trivial, .behind hc (List.ne_nil_of_length_pos hcount) hguard.1⟩
  · intro r t h
    have hnil : c.rwbSend = [] := List.eq_nil_of_length_eq_zero (Nat.eq_zero_of_not_pos hcount)
    obtain ⟨q, b, hsend, h⟩ := returns_bind.mp h
    obtain ⟨a, ha, rfl⟩ := hx.channSend_booked hsend
    have hdirect : Posts A s ((a.recorded (.sendFn n (buf.getD []) q)).alter n (·.sent (buf.getD []) q)) :=
      .single ⟨.direct n, hA _ trivial, .direct hc hnil hguard.1 ha⟩
    rcases returns_ite.mp h with ⟨hneg, h⟩ | ⟨hpos, h⟩
    · have he : (fun c : Chann => { c with bytesSend := c.bytesSend + max q 0 }) =
          (·.sent (buf.getD []) q) := by
        funext c
        simp [Chann.sent, hneg]
      rw [he] at h
      exact hdirect.trans (((hA.settles hx.settling_channFail).bind fun _ _ _ => within_pure _) _ _ h)
    rcases returns_ite.mp h with ⟨hlt, h⟩ | ⟨hge, h⟩
    · obtain ⟨_, d, hcache, h⟩ := returns_bind.mp h
      obtain rfl := returns_alter hcache
      rw [alter_alter] at h
      have he : ((fun c : Chann => { c with rwbSend := rwbCache c.rwbSend ((buf.getD []).drop q.toNat) }) ∘
          fun c : Chann => { c with bytesSend := c.bytesSend + max q 0 }) = (·.sent (buf.getD []) q) := by
        funext c
        simp [Chann.sent, Int.not_lt.mp hpos, hlt]
      rw [he] at h
      exact hdirect.trans (((hA.rests (bland_evtAdd _).resting).bind fun _ _ _ => within_pure _) _ _ h)
    · have he : (fun c : Chann => { c with bytesSend := c.bytesSend + max q 0 }) =
          (·.sent (buf.getD []) q) := by
        funext c
        simp [Chann.sent, hge]
      rw [he] at h
      rw [(returns_pure.mp h).2]
      exact hdirect

theorem Modest.posts_mnetChannRecv {buf : Bool} {len : Int} :
    Within (Posts A) (mnetChannRecv x (some n) buf len) s := by
  refine .require_bind fun m hm => .bind_same fun ready a hready => ⟨channReady_same hready, ?_⟩
  obtain rfl := Option.some.inj hm
  refine .ite (fun _ => .deref_bind fun c hc => ?_) fun _ => within_pure _
  intro r t h
  simp only [returns_bind, returns_record, returns_pure] at h
  obtain ⟨q, a, hfn, _, _, rfl, _, b, hfail, _, d, hcount, _, rfl⟩ := h
  rw [returns_alter hcount]
  refine .single ⟨.recv n, hA _ trivial, .recv hc (hx.recvFn _ _ _ _ _ _ hfn) ?_⟩
  exact Within.when (fun _ => hx.settling_channFail) _ _ hfail

end Transfers

/-! ## The message loop -/

section Loop

variable {A : Set Entry} (hA : Idle A) (hx : Modest x)
include hA hx

theorem Modest.posts_emit {event : ChannEvent} {r : Option ChannId} {err : Int} :
    Within (Posts A) (emit x n event r err) s :=
  hA.settles (hx.settling_channMsg.bind fun _ _ _ => within_pure _)

theorem Modest.posts_evtDispatch {kev : Kev} : Within (Posts A) (evtDispatch x kev) s := by
  refine .require_bind fun n _ => .deref_bind fun c _ => .ite (fun _ => within_pure _) fun _ => ?_
  have hdown : ∀ a err, Within (Posts A)
      (do let _ ← channDisconnectSocket (opsOf x) n; emit x n .disconnect none err) a :=
    fun _ _ => (hA.settles hx.settling_disconnect).bind fun _ _ _ => hx.posts_emit hA
  refine .ite (fun _ => .ite (fun _ => ?_) fun _ => hdown _ _) fun _ => ?_
  · exact (hA.rests bland_channGetErr.resting).bind fun _ _ _ => hdown _ _
  · cases c.state with
    | closed => exact within_pure _
    | disconnect => exact within_pure _
    | listening =>
      refine .ite (fun _ => (hA.settles hx.settling_channAccept).bind fun q _ _ => ?_) fun _ => hx.posts_emit hA
      cases q with
      | none => exact within_pure _
      | some m => exact (hA.rests (bland_evtAdd _).resting).bind fun _ _ _ => hx.posts_emit hA
    | connecting =>
      exact .deref_bind fun _ _ => (hA.rests (bland_sysSockError _).resting).bind fun _ _ _ => .ite
        (fun _ => (hA.rests (bland_evtDel _).resting).bind fun _ _ _ =>
          (hA.rests (bland_evtAdd _).resting).bind fun _ _ _ =>
            .bind (hA.rests (leaves_modifyChann fun _ => rfl)) fun _ _ _ => hx.posts_emit hA)
        fun _ => hdown _ _
    | connected =>
      exact .ite (fun _ => hx.posts_emit hA) fun _ => .ite
        (fun _ => (hx.posts_channSendedRwb hA).bind fun _ _ _ => .ite
          (fun _ => .deref_bind fun _ _ => .ite (fun _ => hx.posts_emit hA)
            fun _ => (hA.rests (bland_evtDel _).resting).bind fun _ _ _ => within_pure _)
          fun _ => within_pure _)
        fun _ => within_pure _

theorem Modest.posts_tmNext {fuel : Nat} (hfire : ∀ n, .fire n ∈ A) (hpark : .park ∈ A) :
    Within (Posts A) (tmNext x fuel) s := by
  induction fuel generalizing s with
  | zero => exact within_fail
  | succ fuel ih =>
    intro p t h
    obtain ⟨_, rfl, _⟩ | ⟨clock, node, hclock, hpos, hfind, ⟨_, _, rfl⟩ | ⟨hdue, a, pass, b, hup, hmsg, hnext⟩⟩ :=
      tmNext_cases h
    · exact .refl
    · exact .single ⟨.park, hpark, .park⟩
    have hfired : Posts A s a := .single ⟨_, hfire _, .fire hclock hfind hpos hdue hup⟩
    have hb : Posts A s b := hfired.trans (hA.settling (hx.settling_channMsg _ _ hmsg))
    obtain ⟨_, _, rfl⟩ | ⟨_, hnext⟩ := hnext
    · exact hb
    · exact hb.trans (ih _ _ hnext)

theorem Modest.posts_evtPass {fuel : Nat} (hfire : ∀ n, .fire n ∈ A) (hpark : .park ∈ A) :
    Within (Posts A) (evtPass x fuel) s := by
  refine (hx.posts_tmNext hA hfire hpark).bind fun tm _ _ => ?_
  cases tm with
  | some n => exact within_pure _
  | none =>
    refine (hA.rests resting_disNext).bind fun dis _ _ => ?_
    cases dis with
    | some n => exact within_pure _
    | none =>
      exact .bind (hA.rests (leaves_modifyMnet fun _ _ => rfl)) fun _ _ _ =>
        .read_bind <| .ite (fun _ => within_pure _) fun _ => .read_bind (hx.posts_evtDispatch hA)

theorem Modest.posts_evtLoop {fuel rounds : Nat} (hfire : ∀ n, .fire n ∈ A) (hpark : .park ∈ A) :
    Within (Posts A) (evtLoop x fuel rounds) s := by
  induction rounds generalizing s with
  | zero => exact within_fail
  | succ rounds ih =>
    refine (hx.posts_evtPass hA hfire hpark).bind fun p _ _ => ?_
    cases p with
    | ret q => exact within_pure q
    | next => exact ih

/-! ## Creating and freeing -/

omit hA hx in
theorem posts_channDestroy (hfree : .free n ∈ A) : Within (Posts A) (channDestroy n : M ε Unit) s := by
  refine .deref_bind fun c _ => .ite (fun _ => ?_) fun _ => within_pure ()
  intro u t h
  simp only [destroyCache, returns_bind, returns_deref, returns_require, returns_modifyChann, and_assoc,
    exists_and_left, exists_eq_left] at h
  obtain ⟨_, a, hunlink, _, _, ⟨d, hd, q, _, d', hd', rfl⟩, _, b, hkill, _, e, hcount, hfreed⟩ := h
  rw [hd, Option.some.injEq] at hd'
  subst hd'
  rw [freeChann, returns_modify] at hfreed
  subst hfreed
  refine .single ⟨.free n, hfree, .free (bland_unlinkChann.resting _ _ hunlink) hd hkill ?_⟩
  have hrest : Within Resting (modifyMnet fun ss => { ss with channCount := ss.channCount - 1 }) b :=
    leaves_modifyMnet fun _ _ => rfl
  exact hrest _ _ hcount

omit hA hx in
theorem posts_evtDelLoop {fuel : Nat} {p : Option ChannId} (hfree : ∀ n, .free n ∈ A) :
    Within (Posts A) (evtDelLoop fuel p : M ε Unit) s := by
  induction fuel generalizing s p with
  | zero =>
    cases p with
    | none => exact within_pure ()
    | some n => exact within_fail
  | succ fuel ih =>
    cases p with
    | none => exact within_pure ()
    | some n => exact .deref_bind fun _ _ => (posts_channDestroy (hfree n)).bind fun _ _ _ => ih

omit hx in
theorem posts_evtDelChanns (hfree : ∀ n, .free n ∈ A) : Within (Posts A) (evtDelChanns : M ε Unit) s :=
  .read_bind <| .read_bind <| (posts_evtDelLoop hfree).bind fun _ _ _ =>
    hA.rests (leaves_modifyMnet fun _ _ => rfl)

omit hx in
theorem posts_evtPoll (hfree : ∀ n, .free n ∈ A) (hsched : .schedule ∈ A) :
    Within (Posts A) (evtPoll : M ε Int) s :=
  (posts_evtDelChanns hA hfree).bind fun _ _ _ => .bind (fun _ _ h => .single ⟨_, hsched, .schedule h⟩)
    fun _ _ _ => (hA.rests (bland_sysEpollWait _).resting).bind fun recs _ _ => .read_bind <| by
      cases recs with
      | none =>
        exact .bind (hA.rests (leaves_modifyMnet fun _ _ => rfl)) fun _ _ _ =>
          .ite (fun _ => within_pure _) fun _ => within_read _
      | some evts => exact .bind (hA.rests (leaves_modifyMnet fun _ _ => rfl)) fun _ _ _ => within_read _

theorem Modest.posts_finiLoop {fuel : Nat} {p : Option ChannId} (hfree : ∀ n, .free n ∈ A) :
    Within (Posts A) (finiLoop x fuel p) s := by
  induction fuel generalizing s p with
  | zero =>
    cases p with
    | none => exact within_pure ()
    | some n => exact within_fail
  | succ fuel ih =>
    cases p with
    | none => exact within_pure ()
    | some n =>
      exact .deref_bind fun _ _ => (hA.settles hx.settling_disconnect).bind fun _ _ _ =>
        (hA.settles hx.settling_channCloseSocket).bind fun _ _ _ =>
          (posts_channDestroy (hfree n)).bind fun _ _ _ => ih

theorem Modest.posts_mnetFini (hfree : ∀ n, .free n ∈ A) (hwipe : .wipe ∈ A) :
    Within (Posts A) (mnetFini x) s := by
  refine .read_bind <| .ite (fun _ => .read_bind <| .read_bind <| (hx.posts_finiLoop hA hfree).bind fun _ _ _ =>
    (hA.rests bland_evtFini.resting).bind fun _ _ _ => ?_) fun _ => within_pure ()
  intro _ t h
  rw [returns_modifyMnet] at h
  subst h
  exact .single ⟨.wipe, hwipe, .wipe⟩

omit hx in
theorem posts_mnetInit (hboot : .boot ∈ A) : Within (Posts A) (mnetInit : M ε Int) s := by
  intro r t h
  simp only [mnetInit, returns_bind, returns_readMnet, and_assoc, exists_and_left, exists_eq_left] at h
  rcases returns_ite.mp h with ⟨_, h⟩ | ⟨hno, h⟩
  · rw [(returns_pure.mp h).2]
  simp only [returns_bind, returns_modifyMnet, returns_pure] at h
  obtain ⟨_, a, hinit, _, b, hclock, _, _, rfl, _, rfl⟩ := h
  have hb : Resting s b := (bland_evtInit.resting _ _ hinit).trans (leaves_sysClock _ _ hclock)
  refine (hA.rest hb).tail ⟨.boot, hboot, .boot ?_ rfl rfl rfl rfl⟩
  have hlib : b.mnet.isInit = s.mnet.isInit := congrArg Prod.fst hb.lib
  rw [hlib]
  exact Bool.eq_false_of_not_eq_true hno

/-! ## Calls -/

theorem Modest.posts_mnetChannOpen {ctype : Nat} : Within (Posts A) (mnetChannOpen x ctype) s :=
  .ite (fun _ => within_pure _) fun _ => .read_bind <| .ite (fun _ => within_pure _) fun _ =>
    (hA.rests (bland_channCreate _ _).resting).bind fun _ _ _ =>
      (hA.settles (hx.settling_callback .openCb ctype (by simp))).bind fun _ _ _ => within_pure _

theorem Modest.posts_mnetChannClose {n : Option ChannId} : Within (Posts A) (mnetChannClose x n) s := by
  cases n with
  | none => exact within_pure ()
  | some n =>
    exact .deref_bind fun _ _ => .ite (fun _ => (hA.settles hx.settling_disconnect).bind fun _ _ _ =>
      hA.settles hx.settling_channCloseSocket) fun _ => within_pure ()

theorem Modest.posts_mnetChannConnect {n : Option ChannId} {host : Option Nat} {port : Int} :
    Within (Posts A) (mnetChannConnect x n host port) s := by
  cases n with
  | none => exact within_pure _
  | some n =>
    cases host with
    | none => exact within_pure _
    | some host =>
      have hset : ∀ {a : Sys ε} {f : Chann → Chann}, (∀ c, (f c).stock = c.stock) →
          Within (Posts A) (modifyChann n f) a := fun hf => hA.rests (leaves_modifyChann hf)
      refine .ite (fun _ => (hA.rests (bland_channOpenSocket _ _ _).resting).bind fun fd _ _ => .ite (fun _ => ?_)
        fun _ => within_pure _) fun _ => within_pure _
      refine .bind (hset fun _ => rfl) fun _ _ _ => .deref_bind fun c _ => .ite (fun _ => ?_) fun _ => ?_
      · exact (hA.rests (bland_sysConnect _ _).resting).bind fun _ _ _ => .read_bind <| .ite
          (fun _ => .bind (hset fun _ => rfl) fun _ _ _ => (hA.rests (bland_evtAdd _).resting).bind fun _ _ _ =>
            (hA.settles (hx.settling_callback .connectCb c.ctype (by simp))).bind fun _ _ _ => within_pure _)
          fun _ => within_pure _
      · exact .bind (hset fun _ => rfl) fun _ _ _ => (hA.rests (bland_evtAdd _).resting).bind fun _ _ _ =>
          (hA.settles (hx.settling_callback .connectCb c.ctype (by simp))).bind fun _ _ _ => within_pure _

theorem Modest.posts_mnetChannListen {n : Option ChannId} {host : Option Nat} {port : Int} {backlog : BitVec 32} :
    Within (Posts A) (mnetChannListen x n host port backlog) s := by
  cases n with
  | none => exact within_pure _
  | some n =>
    refine .ite (fun _ => (hA.rests (bland_channOpenSocket _ _ _).resting).bind fun fd _ _ => .ite (fun _ => ?_)
      fun _ => within_pure _) fun _ => within_pure _
    exact .bind (hA.rests (leaves_modifyChann fun _ => rfl)) fun _ _ _ =>
      .bind (hA.rests (leaves_modifyChann fun _ => rfl)) fun _ _ _ =>
        (hA.rests (bland_evtAdd _).resting).bind fun _ _ _ => .deref_bind fun c _ =>
          (hA.settles (hx.settling_callback .listenCb c.ctype (by simp))).bind fun _ _ _ => within_pure _

omit hx in
theorem posts_mnetChannActiveEvent {n : Option ChannId} {et : ChannEvent} {v : Int}
    (htimer : et = .timer → ∀ m, n = some m → .timer m ∈ A) :
    Within (Posts A) (mnetChannActiveEvent x n et v) s := by
  cases n with
  | none => exact within_pure ()
  | some n =>
    refine .read_bind <| .deref_bind fun c hc => .ite (fun _ => hA.rests bland_activeSend.resting) fun _ =>
      .ite (fun hguard _ t h => ?_) fun _ => within_pure ()
    exact .single ⟨.timer n, htimer hguard.1 n rfl, .timer hc hguard.2 h⟩

theorem Modest.posts_dgramAim {host : Nat} {port : Int} : Within (Posts A) (dgramAim x n host port) s :=
  .bind_same fun _ _ hready => ⟨channReady_same hready, .ite
    (fun _ => hA.rests (leaves_modifyChann fun _ => rfl))
    fun _ => (hx.posts_mnetChannConnect hA).bind fun _ _ _ => within_pure ()⟩

end Loop

/-- What a call may enter. -/
def Call.entries : Call → Set Entry
  | .mnetInit => {e | e.idle ∨ e = .boot}
  | .mnetFini => {e | e.idle ∨ e = .wipe ∨ ∃ n, e = .free n}
  | .poll => {e | e.idle ∨ e = .schedule ∨ ∃ n, e = .free n}
  | .resultNext _ => {e | e.idle ∨ e = .park ∨ ∃ n, e = .fire n}
  | .channActiveEvent n .timer _ => {e | e.idle ∨ ∃ m, n = some m ∧ e = .timer m}
  | _ => {e | e.idle}

theorem Call.idle_entries (c : Call) : Idle c.entries := by
  intro e he
  cases c with
  | channActiveEvent n et v => cases et <;> first | exact he | exact .inl he
  | _ => first | exact he | exact .inl he

theorem Modest.posts_apiCall (hx : Modest x) (c : Call) : Within (Posts c.entries) (apiCall x c) s := by
  have hA := c.idle_entries
  cases c with
  | mnetInit => exact Within.ret (posts_mnetInit hA (.inr rfl))
  | mnetFini => exact Within.ret (hx.posts_mnetFini hA (fun n => .inr (.inr ⟨n, rfl⟩)) (.inr (.inl rfl)))
  | multiAcceptBalancer on => exact Within.ret (hA.rests (leaves_modifyMnet fun _ _ => rfl))
  | multiResetEvent => exact Within.ret (hA.rests bland_mnetMultiResetEvent.resting)
  | extRegister ctype => exact Within.ret (hA.rests bland_mnetExtRegister.resting)
  | poll => exact Within.ret (posts_evtPoll hA (fun n => .inr (.inr ⟨n, rfl⟩)) (.inr (.inl rfl)))
  | resultNext fuel =>
    exact Within.ret (hx.posts_evtLoop hA (fun n => .inr (.inr ⟨n, rfl⟩)) (.inr (.inl rfl)))
  | channOpen ctype => exact Within.ret (hx.posts_mnetChannOpen hA)
  | channClose n => exact Within.ret (hx.posts_mnetChannClose hA)
  | channConnect n host port => exact Within.ret (hx.posts_mnetChannConnect hA)
  | channDisconnect n =>
    cases n with
    | none => exact Within.ret (within_pure _)
    | some n => exact Within.ret ((hA.settles hx.settling_disconnect).bind fun _ _ _ => within_pure _)
  | channListen n host port backlog => exact Within.ret (hx.posts_mnetChannListen hA)
  | channSetOpaque n p =>
    cases n with
    | none => exact Within.ret (within_pure _)
    | some n => exact Within.ret (hA.rests (leaves_modifyChann fun _ => rfl))
  | channActiveEvent n et v =>
    refine Within.ret (posts_mnetChannActiveEvent hA fun het m hm => ?_)
    rw [het]
    exact .inr ⟨m, hm, rfl⟩
  | channRecv n buf len =>
    cases n with
    | none => exact Within.ret (.require_bind fun _ h => by cases h)
    | some n => exact Within.ret (hx.posts_mnetChannRecv hA)
  | channSend n buf =>
    cases n with
    | none => exact Within.ret (.require_bind fun _ h => by cases h)
    | some n => exact Within.ret (hx.posts_mnetChannSend hA)
  | dgramRecv n buf len =>
    cases n with
    | none => exact Within.ret (.require_bind fun _ h => by cases h)
    | some n =>
      refine Within.ret fun r t h => ?_
      obtain rfl | ⟨_, hrecv⟩ := mnetDgramRecv_cases h
      · exact .refl
      · exact hx.posts_mnetChannRecv hA _ _ hrecv
  | dgramSend n addr buf =>
    cases n with
    | none => exact Within.ret (.require_bind fun _ h => by cases h)
    | some n =>
      refine Within.ret fun r t h => ?_
      obtain ⟨rfl, _⟩ | ⟨_, host, port, a, _, _, _, _, haim, hsend⟩ := mnetDgramSend_cases h
      · exact .refl
      · exact (hx.posts_dgramAim hA _ _ haim).trans (hx.posts_mnetChannSend hA _ _ hsend)
  | socketSetBufsize n size => exact Within.ret (hA.rests bland_mnetChannSocketSetBufsize.resting)

theorem Modest.suffix_run (hx : Modest x) {l : List (Call × Ret)} (h : Run x s l t) :
    s.kernel.trace <:+ t.kernel.trace := by
  induction h with
  | nil => exact List.suffix_refl _
  | cons hstep _ ih => exact (Posts.suffix (hx.posts_apiCall _ _ _ hstep)).trans ih

/-! ## The built-in types -/

theorem modest_noExt : Modest noExt where
  cb ctype op n _ := by
    rw [extConfig_noExt, internalExt_cb]
    exact within_pure ()
  disconnectCb ctype n _ := by
    rw [extConfig_noExt]
    exact within_pure ()
  recvFn ctype n len _ := by
    rw [extConfig_noExt]
    exact (bland_internal_recvFn ctype len).resting
  sendFn ctype n data _ := by
    rw [extConfig_noExt]
    exact (bland_internal_sendFn ctype data).resting
  filterFn ctype n _ := by
    rw [extConfig_noExt]
    exact within_pure true

end MNet
