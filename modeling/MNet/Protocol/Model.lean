import MNet.Moves.Api
import MNet.Moves.Spec

/-! # The callback protocol

What an extension may rely on about the order of its operation callbacks. A monitor reads the
history: it keeps for each channel how far its life has got, and turns down an event that
comes out of order. Nothing is assumed about the state, receive and send callbacks but that
they leave the library alone, and those that may call back do so with `mnet_chann_disconnect`
on any channels. -/

namespace MNet
open MNet.Lib MNet.Lib.Exec

/-! ## The monitor -/

/-- How far the life of a channel has got: not opened, without a socket that was announced,
with the socket of a descriptor, or closed. -/
inductive Phase where
  | unborn | idle | up (fd : Int) | gone
deriving DecidableEq

/-- The phases, the descriptors that are open, and the one opened last. `unsaid` are those that
`socket` returned and no callback has announced; the history is clean when there was none
whenever `close_cb` was called. -/
structure Monitor where
  phase : ChannId → Phase := fun _ => .unborn
  isOpen : Int → Bool := fun _ => false
  newest : Int := 0
  unsaid : List Int := []
  clean : Bool := true

/-- What an operation callback makes of the phase of its channel, if it is in order. The
socket it announces is the newest descriptor, which must be open, and so must be the one of
a `disconnect_cb`. -/
def Monitor.after (w : Monitor) (p : Phase) : ExtOp → Option Phase
  | .openCb => if p = .unborn then some .idle else none
  | .acceptCb => if p = .unborn ∧ w.isOpen w.newest then some (.up w.newest) else none
  | .connectCb | .listenCb => if p = .idle ∧ w.isOpen w.newest then some (.up w.newest) else none
  | .disconnectCb => match p with
    | .up fd => if w.isOpen fd then some .idle else none
    | _ => none
  | .closeCb => if p = .idle then some .gone else none

/-- A descriptor is opened, by `socket` when `own`. -/
def Monitor.opens (w : Monitor) (fd : Int) (own : Bool) : Monitor :=
  { w with
    isOpen := Function.update w.isOpen fd true
    newest := fd
    unsaid := if own then fd :: w.unsaid else w.unsaid }

def Monitor.closes (w : Monitor) (fd : Int) : Monitor :=
  { w with isOpen := Function.update w.isOpen fd false, unsaid := w.unsaid.erase fd }

/-- A callback has brought `n` to the phase `p`. -/
def Monitor.enters (w : Monitor) (op : ExtOp) (n : ChannId) (p : Phase) : Monitor :=
  { w with
    phase := Function.update w.phase n p
    unsaid := match p with
      | .up fd => w.unsaid.erase fd
      | _ => w.unsaid
    clean := w.clean && (op ≠ .closeCb || w.unsaid = []) }

def Monitor.next (w : Monitor) : SysEvent → Option Monitor
  | .socket fd => some (if 0 < fd then w.opens fd true else w)
  | .accept _ fd => some (if 0 < fd then w.opens fd false else w)
  | .close fd => some (w.closes fd)
  | .extOp op n => (w.after (w.phase n) op).map (w.enters op n)
  | _ => some w

/-- The monitor after a history, newest first, unless something in it was out of order. -/
def monitor : List SysEvent → Option Monitor
  | [] => some {}
  | e :: tr => (monitor tr).bind (·.next e)

/-- What the monitor does not look at. -/
def SysEvent.unseen : SysEvent → Prop
  | .socket fd | .accept _ fd => fd ≤ 0
  | .close _ | .extOp .. => False
  | _ => True

theorem SysEvent.plain.unseen {e : SysEvent} (h : e.plain) : e.unseen := by
  cases e <;> first | exact h | trivial

section Monitor

variable {w v : Monitor} {tr l : List SysEvent} {n : ChannId} {fd : Int} {op : ExtOp}

theorem Monitor.next_unseen {e : SysEvent} (he : e.unseen) : w.next e = some w := by
  cases e with
  | socket fd | accept _ fd => exact congrArg some (if_neg (Int.not_lt.mpr he))
  | close | extOp => exact he.elim
  | _ => rfl

theorem monitor_append (h : monitor tr = some w) (hl : ∀ e ∈ l, e.unseen) :
    monitor (l ++ tr) = some w := by
  induction l with
  | nil => exact h
  | cons e l ih =>
    show (monitor (l ++ tr)).bind (·.next e) = some w
    rw [ih fun e he => hl e (List.mem_cons_of_mem _ he)]
    exact Monitor.next_unseen (hl e (by simp))

theorem monitor_socket (h : monitor tr = some w) (hpos : 0 < fd) :
    monitor (.socket fd :: tr) = some (w.opens fd true) := by
  show (monitor tr).bind (·.next _) = _
  rw [h]
  exact congrArg some (if_pos hpos)

theorem monitor_accept {lfd : Int} (h : monitor tr = some w) (hpos : 0 < fd) :
    monitor (.accept lfd fd :: tr) = some (w.opens fd false) := by
  show (monitor tr).bind (·.next _) = _
  rw [h]
  exact congrArg some (if_pos hpos)

theorem monitor_close (h : monitor tr = some w) :
    monitor (.close fd :: tr) = some (w.closes fd) := by
  show (monitor tr).bind (·.next _) = _
  rw [h]
  rfl

theorem monitor_op {p : Phase} (h : monitor tr = some w) (hp : w.after (w.phase n) op = some p) :
    monitor (.extOp op n :: tr) = some (w.enters op n p) := by
  show (monitor tr).bind (·.next _) = _
  rw [h]
  show (w.after (w.phase n) op).map _ = _
  rw [hp]
  rfl

/-- No descriptor waits to be announced, and none ever did at a `close_cb`. -/
def Monitor.Tidy (w : Monitor) : Prop := w.unsaid = [] ∧ w.clean = true

theorem Monitor.Tidy.closes {own : Bool} (h : w.Tidy) : ((w.opens fd own).closes fd).Tidy := by
  refine ⟨?_, h.2⟩
  cases own <;> simp [Monitor.opens, Monitor.closes, h.1]

theorem Monitor.Tidy.shut (h : w.Tidy) : (w.closes fd).Tidy := by
  refine ⟨?_, h.2⟩
  simp [Monitor.closes, h.1]

/-- The descriptor that was just opened is announced. -/
theorem Monitor.Tidy.announced {own : Bool} (h : w.Tidy) (hop : op ≠ .closeCb) :
    ((w.opens fd own).enters op n (.up fd)).Tidy := by
  refine ⟨?_, ?_⟩
  · cases own <;> simp [Monitor.opens, Monitor.enters, h.1]
  · simp [Monitor.opens, Monitor.enters, h.2, hop]

theorem Monitor.Tidy.enters {p : Phase} (h : w.Tidy) : (w.enters op n p).Tidy := by
  refine ⟨?_, ?_⟩
  · cases p <;> simp [Monitor.enters, h.1]
  · simp [Monitor.enters, h.1, h.2]

end Monitor

/-! ## What the library keeps -/

variable {ε : Type} {x : ExtTable ε} {s t : Sys ε} {n : ChannId} {c : Chann} {w : Monitor}

/-- The phase a channel is in. -/
def Chann.phase (c : Chann) : Phase :=
  match c.state with
  | .closed => .gone
  | .disconnect => .idle
  | _ => .up c.fd

def Sys.phase (s : Sys ε) (n : ChannId) : Phase :=
  match s.heap n with
  | some c => c.phase
  | none => if n < s.nextChann then .gone else .unborn

/-- The monitor agrees with the state. -/
structure Obeys (w : Monitor) (s : Sys ε) : Prop where
  reg : Registered s.core.heap s.mnet.channs s.mnet.channCount s.nextChann
  phase : ∀ n, w.phase n = s.phase n
  isOpen : ∀ fd, w.isOpen fd = true ↔ s.kernel.socks fd ≠ none
  fds : ∀ n c, s.heap n = some c → c.state.active → 0 < c.fd ∧ s.kernel.socks c.fd ≠ none
  inj : ∀ n m c d, s.heap n = some c → s.heap m = some d → c.state.active → d.state.active →
    c.fd = d.fd → n = m

/-- No `connect` in the history was refused at once. -/
def Sys.Unrefused (s : Sys ε) : Prop := ∀ e ∈ s.kernel.trace, ¬ e.refuses

/-- Nothing in the history was out of order, and the monitor agrees with the state. -/
structure Follows (w : Monitor) (s : Sys ε) : Prop where
  run : monitor s.kernel.trace = some w
  obeys : Obeys w s
  tidy : s.Unrefused → w.Tidy

def Ordered (s : Sys ε) : Prop := ∃ w, Follows w s

/-- What the monitor has to do with a channel, and its place in the list. -/
def Chann.bones (c : Chann) : Int × ChannState × Option ChannId × Option ChannId :=
  (c.fd, c.state, c.prev, c.next)

/-- Nothing the monitor could see. -/
structure Aside (s t : Sys ε) : Prop where
  bones : ∀ m, (t.heap m).map Chann.bones = (s.heap m).map Chann.bones
  nextChann : t.nextChann = s.nextChann
  channs : t.mnet.channs = s.mnet.channs
  channCount : t.mnet.channCount = s.mnet.channCount
  socks : t.kernel.socks = s.kernel.socks
  trace : Adds SysEvent.unseen s t

theorem Aside.was {d : Chann} (h : Aside s t) (hd : t.heap n = some d) :
    ∃ c, s.heap n = some c ∧ d.fd = c.fd ∧ d.state = c.state := by
  have hb := h.bones n
  rw [hd] at hb
  obtain ⟨c, hc, he⟩ := Option.map_eq_some_iff.mp hb.symm
  exact ⟨c, hc, congrArg Prod.fst he.symm, congrArg (·.2.1) he.symm⟩

theorem Chann.phase_eq {c d : Chann} (hfd : d.fd = c.fd) (hst : d.state = c.state) :
    d.phase = c.phase := by
  unfold Chann.phase
  rw [hfd, hst]

theorem Obeys.aside (h : Obeys w s) (ha : Aside s t) : Obeys w t where
  reg := by
    rw [ha.channs, ha.channCount, ha.nextChann]
    refine h.reg.congr fun m => ?_
    have hm := congrArg (Option.map fun p : Int × ChannState × Option ChannId × Option ChannId => p.2.2)
      (ha.bones m)
    rw [Option.map_map, Option.map_map] at hm
    rw [links_core, links_core]
    exact hm
  phase n := by
    rw [h.phase n]
    unfold Sys.phase
    rw [ha.nextChann]
    cases ht : t.heap n with
    | none =>
      have hb := ha.bones n
      rw [ht] at hb
      rw [Option.map_eq_none_iff.mp hb.symm]
    | some d =>
      obtain ⟨c, hc, hfd, hst⟩ := ha.was ht
      rw [hc]
      exact (Chann.phase_eq hfd hst).symm
  isOpen fd := by
    rw [ha.socks]
    exact h.isOpen fd
  fds n d hd hact := by
    obtain ⟨c, hc, hfd, hst⟩ := ha.was hd
    rw [ha.socks, hfd]
    exact h.fds n c hc (hst ▸ hact)
  inj n m d e hd he hda hea hde := by
    obtain ⟨c, hc, hfd, hst⟩ := ha.was hd
    obtain ⟨c', hc', hfd', hst'⟩ := ha.was he
    exact h.inj n m c c' hc hc' (hst ▸ hda) (hst' ▸ hea) (by rw [← hfd, ← hfd', hde])

theorem Sys.Unrefused.before (h : t.Unrefused) (ht : s.kernel.trace <:+ t.kernel.trace) :
    s.Unrefused := fun e he => h e (ht.subset he)

theorem Follows.aside (h : Follows w s) (ha : Aside s t) : Follows w t where
  run := by
    obtain ⟨l, hl, ht⟩ := ha.trace
    rw [ht]
    exact monitor_append h.run hl
  obeys := h.obeys.aside ha
  tidy hu := h.tidy (hu.before ha.trace.suffix)

/-- The history does not matter. -/
theorem Obeys.recorded {v : Monitor} {e : SysEvent} (h : Obeys w s) (hp : v.phase = w.phase)
    (ho : v.isOpen = w.isOpen) : Obeys v (s.recorded e) where
  reg := h.reg
  phase n := by
    rw [hp]
    exact h.phase n
  isOpen fd := by
    rw [ho]
    exact h.isOpen fd
  fds := h.fds
  inj := h.inj

/-- A callback that is in order. -/
theorem Follows.enter {op : ExtOp} {p : Phase} (hrun : monitor s.kernel.trace = some w)
    (hp : w.after (w.phase n) op = some p)
    (ho : Obeys { w with phase := Function.update w.phase n p } s)
    (htidy : s.Unrefused → (w.enters op n p).Tidy) :
    Follows (w.enters op n p) (s.recorded (.extOp op n)) where
  run := monitor_op hrun hp
  obeys := ho.recorded rfl rfl
  tidy hu := htidy (hu.before (List.suffix_cons _ _))

/-! ## Writes the monitor sees -/

section

variable {v : Monitor} {c' : Chann} {fd : Int}

/-- The channel `n` rewritten, with sockets opened or closed along with it. -/
theorem Obeys.write (h : Obeys w s) (hc : s.heap n = some c)
    (heap : t.heap = Function.update s.heap n (some c')) (hprev : c'.prev = c.prev)
    (hnext : c'.next = c.next) (hnew : t.nextChann = s.nextChann)
    (hmnet : t.mnet.channs = s.mnet.channs ∧ t.mnet.channCount = s.mnet.channCount)
    (hphase : v.phase = Function.update w.phase n c'.phase)
    (hopen : ∀ fd, v.isOpen fd = true ↔ t.kernel.socks fd ≠ none)
    (hown : c'.state.active → 0 < c'.fd ∧ t.kernel.socks c'.fd ≠ none ∧
      ∀ m d, m ≠ n → s.heap m = some d → d.state.active → d.fd ≠ c'.fd)
    (hkeep : ∀ m d, m ≠ n → s.heap m = some d → d.state.active → t.kernel.socks d.fd ≠ none) :
    Obeys v t := by
  have hcases : ∀ {m d}, t.heap m = some d → (m = n ∧ d = c') ∨ (m ≠ n ∧ s.heap m = some d) := by
    intro m d hd
    rw [heap] at hd
    by_cases hm : m = n
    · subst hm
      rw [Function.update_self, Option.some.injEq] at hd
      exact .inl ⟨rfl, hd.symm⟩
    · rw [Function.update_of_ne hm] at hd
      exact .inr ⟨hm, hd⟩
  refine ⟨?_, fun m => ?_, hopen, fun m d hd hact => ?_, fun m i d e hd he hda hea hde => ?_⟩
  · rw [hmnet.1, hmnet.2, hnew]
    refine h.reg.congr fun m => ?_
    rw [links_core, links_core, heap]
    by_cases hm : m = n
    · subst hm
      simp [hc, hprev, hnext]
    · rw [Function.update_of_ne hm]
  · rw [hphase]
    unfold Sys.phase
    rw [heap, hnew]
    by_cases hm : m = n
    · subst hm
      simp
    · rw [Function.update_of_ne hm, Function.update_of_ne hm]
      exact h.phase m
  · obtain ⟨rfl, rfl⟩ | ⟨hm, hd⟩ := hcases hd
    · exact ⟨(hown hact).1, (hown hact).2.1⟩
    · exact ⟨(h.fds m d hd hact).1, hkeep m d hm hd hact⟩
  · obtain ⟨rfl, rfl⟩ | ⟨hm, hd⟩ := hcases hd
    all_goals obtain ⟨rfl, rfl⟩ | ⟨hi, he⟩ := hcases he
    · rfl
    · exact absurd hde.symm ((hown hda).2.2 i e hi he hea)
    · exact absurd hde ((hown hea).2.2 m d hm hd hda)
    · exact h.inj m i d e hd he hda hea hde

/-- A new descriptor is nobody's. -/
theorem Obeys.fresh (h : Obeys w s) (hfree : s.kernel.socks fd = none) {m : ChannId} {d : Chann}
    (hd : s.heap m = some d) (hact : d.state.active) : d.fd ≠ fd := by
  intro he
  exact (h.fds m d hd hact).2 (he ▸ hfree)

theorem Obeys.isOpen_opens {own : Bool} (h : Obeys w s) (ha : NewFd fd s t) (f : Int) :
    (w.opens fd own).isOpen f = true ↔ t.kernel.socks f ≠ none := by
  rw [ha.socks]
  by_cases hf : f = fd
  · subst hf
    simp [Monitor.opens]
  · simp only [Monitor.opens, Function.update_of_ne hf]
    exact h.isOpen f

/-- The monitor after the descriptor was opened. -/
theorem NewFd.monitor (ha : NewFd fd s t) (hw : monitor s.kernel.trace = some w) :
    ∃ own, monitor t.kernel.trace = some (w.opens fd own) := by
  obtain ⟨e, he, l, hl, ht⟩ := ha.trace
  rw [ht]
  obtain rfl | ⟨lfd, rfl⟩ := he
  · exact ⟨true, monitor_append (monitor_socket hw ha.pos) fun e he => (hl e he).unseen⟩
  · exact ⟨false, monitor_append (monitor_accept hw ha.pos) fun e he => (hl e he).unseen⟩

/-- The sockets the channels have stay open when another one is opened. -/
theorem NewFd.keeps (ha : NewFd fd s t) {f : Int} (hf : s.kernel.socks f ≠ none) :
    t.kernel.socks f ≠ none := by
  rw [ha.socks]
  by_cases he : f = fd
  · subst he
    simp
  · rwa [Function.update_of_ne he]

/-- A descriptor nobody keeps. -/
theorem Obeys.leak {own : Bool} (h : Obeys w s) (ha : NewFd fd s t) (hheap : t.heap = s.heap) :
    Obeys (w.opens fd own) t where
  reg := by
    have hcore : t.core.heap = s.core.heap := by
      funext m
      rw [core_heap, core_heap, hheap]
    rw [hcore, ha.mnet, ha.nextChann]
    exact h.reg
  phase m := by
    rw [show (w.opens fd own).phase = w.phase from rfl, h.phase m]
    unfold Sys.phase
    rw [hheap, ha.nextChann]
  isOpen := h.isOpen_opens ha
  fds m d hd hact := by
    rw [hheap] at hd
    exact ⟨(h.fds m d hd hact).1, ha.keeps (h.fds m d hd hact).2⟩
  inj := by
    rw [hheap]
    exact h.inj

/-- A descriptor for a channel without a socket, which `c'` may keep. -/
theorem Obeys.take (own : Bool) (h : Obeys w s) (ha : NewFd fd s t) (hc : s.heap n = some c)
    (heap : t.heap = Function.update s.heap n (some c')) (hprev : c'.prev = c.prev)
    (hnext : c'.next = c.next) (hfd : c'.state.active → c'.fd = fd) :
    Obeys { w.opens fd own with phase := Function.update w.phase n c'.phase } t := by
  have hopen : ∀ f, (w.opens fd own).isOpen f = true ↔ t.kernel.socks f ≠ none := h.isOpen_opens ha
  refine h.write hc heap hprev hnext ha.nextChann (by rw [ha.mnet]; exact ⟨rfl, rfl⟩) rfl hopen
    (fun hact => ?_) fun m d _ hd hda => ha.keeps (h.fds m d hd hda).2
  rw [hfd hact]
  refine ⟨ha.pos, ?_, fun m d _ hd hda => h.fresh ha.free hd hda⟩
  rw [ha.socks]
  simp

/-- A new channel in front of the list, whose contents are `c'` in the end. -/
theorem Obeys.push {ctype : Nat} {st : ChannState} {a : Sys ε} (h : Obeys w s)
    (hnew : Returns (channCreate ctype st) s n a) (hc : a.heap n = some c)
    (heap : t.heap = Function.update a.heap n (some c')) (hlinks : c'.prev = c.prev ∧ c'.next = c.next)
    (hnext : t.nextChann = a.nextChann) (hmnet : t.mnet = a.mnet)
    (hsocks : t.kernel.socks = s.kernel.socks)
    (hown : c'.state.active → 0 < c'.fd ∧ s.kernel.socks c'.fd ≠ none ∧
      ∀ m d, s.heap m = some d → d.state.active → d.fd ≠ c'.fd) :
    w.phase n = .unborn ∧ Obeys { w with phase := Function.update w.phase n c'.phase } t := by
  have hcr := channCreate_created hnew
  obtain ⟨_, _, hcore⟩ := channCreate_spec hnew
  have hnone : s.heap n = none := by
    have := h.reg.fresh_none
    rw [core_heap, Option.map_eq_none_iff] at this
    rw [hcr.id]
    exact this
  have hcases : ∀ {m d}, t.heap m = some d →
      (m = n ∧ d = c') ∨ (m ≠ n ∧ ∃ e, s.heap m = some e ∧ d.fd = e.fd ∧ d.state = e.state) := by
    intro m d hd
    rw [heap] at hd
    by_cases hm : m = n
    · subst hm
      rw [Function.update_self, Option.some.injEq] at hd
      exact .inl ⟨rfl, hd.symm⟩
    · rw [Function.update_of_ne hm, hcr.others m hm] at hd
      obtain ⟨e, he, rfl⟩ := Option.map_eq_some_iff.mp hd
      refine .inr ⟨hm, e, he, ?_⟩
      split <;> exact ⟨rfl, rfl⟩
  refine ⟨?_, ?_, fun m => ?_, fun f => ?_, fun m d hd hact => ?_, fun m i d e hd he hda hea hde => ?_⟩
  · rw [h.phase n, Sys.phase, hnone, hcr.id]
    exact if_neg (Nat.lt_irrefl _)
  · have hreg : Registered a.core.heap a.mnet.channs a.mnet.channCount a.nextChann := by
      rw [hcr.mnet, hcr.nextChann, hcr.id, hcore]
      exact h.reg.push _
    rw [hmnet, hnext]
    refine hreg.congr fun m => ?_
    rw [links_core, links_core, heap]
    by_cases hm : m = n
    · subst hm
      simp [hc, hlinks]
    · rw [Function.update_of_ne hm]
  · show Function.update w.phase n c'.phase m = _
    unfold Sys.phase
    rw [heap, hnext, hcr.nextChann]
    by_cases hm : m = n
    · subst hm
      simp
    · rw [Function.update_of_ne hm, Function.update_of_ne hm, hcr.others m hm, h.phase m, Sys.phase]
      cases s.heap m with
      | none =>
        have hlt : m < n + 1 ↔ m < s.nextChann := by
          rw [← hcr.id]
          exact Nat.lt_succ_iff.trans ⟨fun hle => Nat.lt_of_le_of_ne hle hm, Nat.le_of_lt⟩
        simp only [Option.map_none, hlt]
      | some e =>
        refine Chann.phase_eq ?_ ?_ <;> dsimp only <;> split <;> rfl
  · rw [hsocks]
    exact h.isOpen f
  · rw [hsocks]
    obtain ⟨rfl, rfl⟩ | ⟨_, e, he, hfd, hst⟩ := hcases hd
    · exact ⟨(hown hact).1, (hown hact).2.1⟩
    · rw [hfd]
      exact h.fds m e he (hst ▸ hact)
  · obtain ⟨rfl, rfl⟩ | ⟨hm, d', hd', hfd, hst⟩ := hcases hd
    all_goals obtain ⟨rfl, rfl⟩ | ⟨hi, e', he', hfe, hse⟩ := hcases he
    · rfl
    · exact absurd (hfe ▸ hde.symm) ((hown hda).2.2 i e' he' (hse ▸ hea))
    · exact absurd (hfd ▸ hde) ((hown hea).2.2 m d' hd' (hst ▸ hda))
    · exact h.inj m i d' e' hd' he' (hst ▸ hda) (hse ▸ hea) (by rw [← hfd, ← hfe, hde])

end

/-! ## Extensions -/

/-- Callbacks that may call `mnet_chann_disconnect` on any channels. -/
abbrev CallsBack (x : ExtTable ε) : Sys ε → Sys ε → Prop :=
  Relation.ReflTransGen fun s t => Aside s t ∨ ∃ n u, Returns (mnetChannDisconnect x n) s u t

/-- The callbacks of registered types leave the sockets and the connections alone, except that
`accept_cb`, `connect_cb` and `filter_fn` may disconnect channels. -/
structure Obedient (x : ExtTable ε) : Prop where
  ops : ∀ ctype op n s, op ≠ .acceptCb → op ≠ .connectCb → Within Aside ((x ctype).cb op n) s
  recvFn : ∀ ctype n len s, Within Aside ((x ctype).recvFn n len) s
  sendFn : ∀ ctype n data s, Within Aside ((x ctype).sendFn n data) s
  acceptCb : ∀ ctype n s, Within (CallsBack x) ((x ctype).acceptCb n) s
  connectCb : ∀ ctype n s, Within (CallsBack x) ((x ctype).connectCb n) s
  filterFn : ∀ ctype n s, Within (CallsBack x) ((x ctype).filterFn n) s

theorem Aside.refl (s : Sys ε) : Aside s s := ⟨fun _ => rfl, rfl, rfl, rfl, rfl, adds_of_eq rfl⟩

theorem Aside.trans {a : Sys ε} (h : Aside s a) (h' : Aside a t) : Aside s t where
  bones m := (h'.bones m).trans (h.bones m)
  nextChann := h'.nextChann.trans h.nextChann
  channs := h'.channs.trans h.channs
  channCount := h'.channCount.trans h.channCount
  socks := h'.socks.trans h.socks
  trace := h.trace.trans h'.trace

instance : Std.Refl (Aside (ε := ε)) := ⟨Aside.refl⟩

instance : IsTrans (Sys ε) Aside := ⟨fun _ _ _ => Aside.trans⟩

theorem Plain.aside (h : Plain s t) : Aside s t where
  bones m := by
    have hm := congrArg (Option.map Chann.bones) (h.face m)
    rw [Option.map_map, Option.map_map] at hm
    exact hm
  nextChann := h.nextChann
  channs := h.channs
  channCount := h.channCount
  socks := h.socks
  trace := h.trace.mono fun _ he => he.unseen

theorem aside_setChann {d : Chann} (hc : s.heap n = some c) (hd : d.bones = c.bones) :
    Aside s (s.setChann n d) := by
  refine { Aside.refl s with bones := fun m => ?_, trace := adds_of_eq rfl }
  by_cases hm : m = n
  · rw [hm, hc]
    simp [Sys.setChann, hd]
  · simp [Sys.setChann, Function.update_of_ne hm]

theorem aside_recorded {e : SysEvent} (he : e.unseen) : Aside s (s.recorded e) :=
  { Aside.refl s with trace := adds_recorded he }

theorem Controlled.aside {ev : BitVec 32} (h : Controlled n c ev s t) : Aside s t := by
  refine ⟨fun m => ?_, h.nextChann, by rw [h.mnet], by rw [h.mnet], h.socks,
    h.trace.mono fun _ he => he.unseen⟩
  rw [h.heap]
  by_cases hm : m = n
  · rw [hm, Function.update_self, h.was]
    rfl
  · rw [Function.update_of_ne hm]

end MNet
