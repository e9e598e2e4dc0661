import MNet.Core.Run

/-! # Who owns the open descriptors

Every descriptor `socket` and `accept` return belongs to one channel until it is closed,
except those a failure makes the library forget: one whose `connect` is refused at once,
and one just accepted that `fcntl` rejects. -/

namespace MNet
open MNet.Lib MNet.Lib.Exec

/-- Some channel with a socket has the descriptor. -/
def Owns (heap : Heap) (fd : Int) : Prop := ∃ n c, heap n = some c ∧ c.state.active ∧ c.fd = fd

section Owns

variable {heap : Heap} {n : ChannId} {c c' : CChann} {fd : Int}

/-- A channel without a socket is written over. -/
theorem owns_place (hn : ∀ c, heap n = some c → ¬ c.state.active) :
    Owns (Function.update heap n (some c')) fd ↔ (c'.state.active ∧ c'.fd = fd) ∨ Owns heap fd := by
  constructor
  · rintro ⟨m, d, hd, ha, hfd⟩
    rcases update_some hd with ⟨_, rfl⟩ | ⟨_, hd⟩
    · exact .inl ⟨ha, hfd⟩
    · exact .inr ⟨m, d, hd, ha, hfd⟩
  · rintro (⟨ha, hfd⟩ | ⟨m, d, hd, ha, hfd⟩)
    · exact ⟨n, c', Function.update_self .., ha, hfd⟩
    · have hm : m ≠ n := fun e => hn d (e ▸ hd) ha
      exact ⟨m, d, by rw [Function.update_of_ne hm, hd], ha, hfd⟩

theorem owns_write (hn : heap n = some c) (hfd : c'.fd = c.fd)
    (ha : c'.state.active ↔ c.state.active) :
    Owns (Function.update heap n (some c')) fd ↔ Owns heap fd := by
  constructor
  · rintro ⟨m, d, hd, hda, hdf⟩
    rcases update_some hd with ⟨_, rfl⟩ | ⟨_, hd⟩
    · exact ⟨n, c, hn, ha.mp hda, hfd ▸ hdf⟩
    · exact ⟨m, d, hd, hda, hdf⟩
  · rintro ⟨m, d, hd, hda, hdf⟩
    by_cases hm : m = n
    · subst hm
      rw [hn] at hd
      cases hd
      exact ⟨m, c', Function.update_self .., ha.mpr hda, hfd.trans hdf⟩
    · exact ⟨m, d, by rw [Function.update_of_ne hm, hd], hda, hdf⟩

theorem owns_alterAt {p : Option ChannId} {f : CChann → CChann} (hfd : ∀ c, (f c).fd = c.fd)
    (hst : ∀ c, (f c).state = c.state) : Owns (alterAt heap p f) fd ↔ Owns heap fd := by
  cases p with
  | none => exact Iff.rfl
  | some i =>
    cases hi : heap i with
    | none =>
      have he : alterAt heap (some i) f = heap := by
        simp [alterAt, hi, Function.update_eq_self_iff]
      rw [he]
    | some d =>
      have he : alterAt heap (some i) f = Function.update heap i (some (f d)) := by
        simp [alterAt, hi]
      rw [he]
      exact owns_write hi (hfd d) (by rw [hst])

theorem owns_free (hn : heap n = some c) (ha : ¬ c.state.active) :
    Owns (Function.update heap n none) fd ↔ Owns heap fd := by
  constructor
  · rintro ⟨m, d, hd, hda, hdf⟩
    have hm : m ≠ n := by
      rintro rfl
      simp at hd
    exact ⟨m, d, by rwa [Function.update_of_ne hm] at hd, hda, hdf⟩
  · rintro ⟨m, d, hd, hda, hdf⟩
    have hm : m ≠ n := by
      rintro rfl
      rw [hn] at hd
      cases hd
      exact ha hda
    exact ⟨m, d, by rw [Function.update_of_ne hm, hd], hda, hdf⟩

end Owns

/-- Every open descriptor is that of a channel with a socket or lost, and never both. -/
structure Accounted (heap : Heap) (socks : Int → Option SockId) (lost : List Int) : Prop where
  owned : ∀ fd, socks fd ≠ none → fd ∈ lost ∨ Owns heap fd
  lost : ∀ fd ∈ lost, socks fd ≠ none ∧ ¬ Owns heap fd

namespace Accounted

variable {heap heap' : Heap} {socks : Int → Option SockId} {lost : List Int} {n : ChannId}
  {c : CChann} {fd : Int} {i : SockId}

theorem congr (h : Accounted heap socks lost) (he : ∀ fd, Owns heap' fd ↔ Owns heap fd) :
    Accounted heap' socks lost :=
  ⟨fun fd hs => (h.owned fd hs).imp_right (he fd).mpr,
    fun fd hl => ⟨(h.lost fd hl).1, fun ho => (h.lost fd hl).2 ((he fd).mp ho)⟩⟩

/-- A new descriptor goes to a channel. -/
theorem give (h : Accounted heap socks lost) (hs : socks fd = none)
    (he : ∀ fd', Owns heap' fd' ↔ fd = fd' ∨ Owns heap fd') :
    Accounted heap' (Function.update socks fd (some i)) lost := by
  refine ⟨fun f hf => ?_, fun f hl => ⟨?_, fun ho => ?_⟩⟩
  · by_cases hfd : f = fd
    · exact .inr ((he f).mpr (.inl hfd.symm))
    · rw [Function.update_of_ne hfd] at hf
      exact (h.owned f hf).imp_right fun ho => (he f).mpr (.inr ho)
  · by_cases hfd : f = fd
    · simp [hfd]
    · rw [Function.update_of_ne hfd]
      exact (h.lost f hl).1
  · rcases (he f).mp ho with rfl | ho
    · exact (h.lost fd hl).1 hs
    · exact (h.lost f hl).2 ho

/-- A new descriptor goes to nobody. -/
theorem lose (h : Accounted heap socks lost) (hfree : ¬ Owns heap fd)
    (he : ∀ fd', Owns heap' fd' ↔ Owns heap fd') :
    Accounted heap' (Function.update socks fd (some i)) (fd :: lost) := by
  refine ⟨fun f hf => ?_, fun f hl => ?_⟩
  · by_cases hfd : f = fd
    · exact .inl (by simp [hfd])
    · rw [Function.update_of_ne hfd] at hf
      exact (h.owned f hf).imp (List.mem_cons_of_mem _) (he f).mpr
  · by_cases hfd : f = fd
    · subst hfd
      exact ⟨by simp, fun ho => hfree ((he f).mp ho)⟩
    · obtain ⟨hs, ho⟩ := h.lost f ((List.mem_cons.mp hl).resolve_left hfd)
      exact ⟨by rwa [Function.update_of_ne hfd], fun h' => ho ((he f).mp h')⟩

/-- A channel closes its descriptor. -/
theorem release (h : Accounted heap socks lost) (ho : Owns heap fd)
    (he : ∀ fd', Owns heap' fd' ↔ fd' ≠ fd ∧ Owns heap fd') :
    Accounted heap' (Function.update socks fd none) lost := by
  refine ⟨fun f hf => ?_, fun f hl => ?_⟩
  · have hfd : f ≠ fd := by
      rintro rfl
      simp at hf
    rw [Function.update_of_ne hfd] at hf
    exact (h.owned f hf).imp_right fun h' => (he f).mpr ⟨hfd, h'⟩
  · have hfd : f ≠ fd := by
      rintro rfl
      exact (h.lost f hl).2 ho
    rw [Function.update_of_ne hfd]
    exact ⟨(h.lost f hl).1, fun h' => (h.lost f hl).2 ((he f).mp h').2⟩

end Accounted

namespace Core

variable {k : Core} {n : ChannId} {c c' : CChann} {fd : Int}

def accounted (k : Core) : Prop := Accounted k.heap k.socks k.lost

theorem owns_push (hn : k.heap k.nextChann = none) :
    Owns (k.push c).heap fd ↔ (c.state.active ∧ c.fd = fd) ∨ Owns k.heap fd := by
  refine Iff.trans (owns_alterAt ?_ ?_) (owns_place fun d hd => ?_)
  · exact fun _ => rfl
  · exact fun _ => rfl
  · rw [hn] at hd
    cases hd

theorem owns_destroyed (hb : Base k) (hn : k.heap n = some c) (ha : ¬ c.state.active) :
    Owns (k.destroyed n c).heap fd ↔ Owns k.heap fd := by
  have hfree : (k.unlinked c).heap n = some c :=
    (unlinked_heap fun i hi => (hb.reg.neighbours hn hi).1).trans hn
  refine (owns_free hfree ha).trans (Iff.trans (owns_alterAt ?_ ?_) (owns_alterAt ?_ ?_)) <;>
    exact fun _ => rfl

theorem accounted.onWire (h : k.accounted) (bytes : List UInt8) :
    (k.onWire c bytes).accounted := by
  unfold Core.onWire
  split
  · split <;> exact h
  · exact h

/-- A write that leaves a channel its state and descriptor. -/
theorem accounted.set (h : k.accounted) (hn : k.heap n = some c) (hfd : c'.fd = c.fd)
    (hst : c'.state.active ↔ c.state.active) : (k.set n c').accounted :=
  Accounted.congr h fun _ => owns_write hn hfd hst

end Core

namespace Base

variable {k : Core} {n : ChannId} {c c' : CChann} {fd : Int}

/-- No channel has a descriptor that is not open. -/
theorem not_owns (hb : Base k) (hs : k.socks fd = none) : ¬ Owns k.heap fd := by
  rintro ⟨m, d, hd, ha, rfl⟩
  exact (hb.own.opened m d hd ha).2 hs

/-- A channel with a socket that loses it is the only one to lose it. -/
theorem owns_release (hb : Base k) (hn : k.heap n = some c) (ha : c.state.active)
    (ha' : ¬ c'.state.active) :
    Owns (Function.update k.heap n (some c')) fd ↔ fd ≠ c.fd ∧ Owns k.heap fd := by
  constructor
  · rintro ⟨m, d, hd, hda, rfl⟩
    rcases update_some hd with ⟨_, rfl⟩ | ⟨hm, hd⟩
    · exact absurd hda ha'
    · exact ⟨fun e => hm (hb.own.inj m n d c hd hn hda ha e), m, d, hd, hda, rfl⟩
  · rintro ⟨hne, m, d, hd, hda, rfl⟩
    have hm : m ≠ n := by
      rintro rfl
      rw [hn] at hd
      cases hd
      exact hne rfl
    exact ⟨m, d, (Function.update_of_ne hm ..).trans hd, hda, rfl⟩

end Base

/-- Only a refused `connect` and a rejected accepted descriptor are lost. -/
theorem CStep.accounted {k k' : Core} {a : Act} (hs : CStep k a k') (hb : Base k)
    (h : k.accounted) : k'.accounted := by
  have hidle : ∀ {n c}, k.heap n = some c → c.state = .disconnect →
      ∀ d, k.heap n = some d → ¬ d.state.active := by
    intro n c hn hc d hd
    rw [hn] at hd
    cases hd
    rw [hc]
    exact id
  cases hs with
  | create ctype =>
    exact Accounted.congr h fun fd =>
      (Core.owns_push hb.heap_fresh).trans (or_iff_right And.left)
  | @accept fd m l hm hpos hfd =>
    exact Accounted.give h hfd fun fd' => (Core.owns_push (k := k.openFd fd) hb.heap_fresh).trans
      (or_congr_left (and_iff_right trivial))
  | leak hpos hfd => exact Accounted.lose h (hb.not_owns hfd) fun _ => Iff.rfl
  | @bounce fd hpos hfd =>
    have he : ((k.openFd fd).closeFd fd).socks = k.socks := by
      simp [Core.openFd, Core.closeFd, Function.update_eq_self_iff, hfd]
    exact ⟨fun f hf => h.owned f (by rwa [he] at hf),
      fun f hl => ⟨by rw [he]; exact (h.lost f hl).1, (h.lost f hl).2⟩⟩
  | attach hn hd hpos hfd hst =>
    exact Accounted.give h hfd fun fd' =>
      (owns_place (hidle hn hd)).trans (or_congr_left (and_iff_right hst))
  | @refuse n c fd hn hd hpos hfd =>
    have hc : ¬ c.state.active := hidle hn hd c hn
    exact Accounted.lose h (hb.not_owns hfd) fun _ =>
      (owns_place (hidle hn hd)).trans (or_iff_right fun ha => hc ha.1)
  | established hn hst => exact h.set hn rfl (by rw [hst]; exact Iff.rfl)
  | @disconnect n c hn hpos ha hsp =>
    exact Accounted.release h ⟨n, c, hn, ha, rfl⟩ fun fd' => hb.owns_release hn ha id
  | close hn hd => exact Accounted.congr h fun _ => owns_write hn rfl (by rw [hd]; exact Iff.rfl)
  | destroy hn hc hsp ht =>
    exact Accounted.congr h fun fd => Core.owns_destroyed hb hn (by rw [hc]; exact id)
  | @write n c data i hn hst hd hi hc =>
    have hw : (k.onWire c (data.take i)).heap n = some c := by rwa [Core.onWire_heap]
    exact (h.onWire _).set hw rfl Iff.rfl
  | @flush n c i hn hst hne hi =>
    have hw : (k.onWire c ((rwbDrainParam c.rwbSend).take i)).heap n = some c := by
      rwa [Core.onWire_heap]
    exact (h.onWire _).set hw rfl Iff.rfl
  | slot msg hn hm => exact Accounted.congr h fun _ => owns_write hn rfl Iff.rfl
  | watch hn | unwatch hn | mute hn | rewatch hn | forget hn | sendFlag hn | report hn | arm hn | rearm hn
  | disarm hn | fire hn =>
    exact Accounted.congr h fun _ => owns_write hn rfl Iff.rfl
  | openQueue | closeQueue | deliver | schedule | park | batch | noBatch | consume | reaped | boot
  | shutdown => exact h

variable {ε : Type} {x : ExtTable ε} {s t : Sys ε} {l : List (Call × Ret)} {o : Oracle} {e : ε}

theorem Reachable.accounted (hx : Tame x) (h : Reachable x s) : s.core.accounted :=
  h.keeps hx (fun _ _ => ⟨by simp [Sys.start, Sys.core], by simp [Sys.start, Sys.core, lostFds]⟩)
    fun _ _ _ => CStep.accounted

/-! ## The channels behind `ss->channs` -/

/-- The walk from `ss->channs` comes to the channel. -/
def Sys.Listed (s : Sys ε) (n : ChannId) : Prop :=
  Visits (fun m => (s.heap m).bind Chann.next) s.mnet.channs n

/-- A listed channel with a socket, whose descriptor is `fd`. -/
def Sys.Holds (s : Sys ε) (n : ChannId) (fd : Int) : Prop :=
  s.Listed n ∧ ∃ c, s.heap n = some c ∧ c.state.active ∧ c.fd = fd

/-- Open descriptors and listed channels with a socket match one to one. -/
structure SocketsOwned (s : Sys ε) : Prop where
  owner : ∀ fd, s.kernel.socks fd ≠ none → ∃! n, s.Holds n fd
  opened : ∀ n fd, s.Holds n fd → 0 < fd ∧ s.kernel.socks fd ≠ none

theorem Base.listed_iff (hb : Base s.core) {n : ChannId} : s.Listed n ↔ s.heap n ≠ none := by
  obtain ⟨lc, hl, hmem, _⟩ := hb.reg.list
  have hnext : nextOf s.core.heap = fun m => (s.heap m).bind Chann.next :=
    bind_core s (g := Chann.next) fun _ => rfl
  have hv : s.Listed n ↔ n ∈ lc := by
    unfold Sys.Listed
    rw [← hnext]
    exact hl.chain.visits_iff
  rw [hv, ← hmem n, core_heap, ne_eq, Option.map_eq_none_iff]

theorem Base.holds_iff (hb : Base s.core) {n : ChannId} {fd : Int} :
    s.Holds n fd ↔ ∃ c, s.core.heap n = some c ∧ c.state.active ∧ c.fd = fd := by
  constructor
  · rintro ⟨_, c, hc, ha, hfd⟩
    exact ⟨c.core, core_heap_some hc, ha, hfd⟩
  · rintro ⟨c, hc, ha, hfd⟩
    rw [core_heap, Option.map_eq_some_iff] at hc
    obtain ⟨c', hc', rfl⟩ := hc
    exact ⟨hb.listed_iff.mpr (by simp [hc']), c', hc', ha, hfd⟩

/-- Between calls the open descriptors are owned one to one exactly when none was lost. -/
theorem socketsOwned_iff (hx : Tame x) (h : Run x (Sys.start o e) l s) :
    SocketsOwned s ↔ lostFds s.kernel.trace = [] := by
  have hb : Base s.core := Reachable.base hx ⟨o, e, l, h⟩
  have hacc : s.core.accounted := Reachable.accounted hx ⟨o, e, l, h⟩
  constructor
  · intro hs
    refine List.eq_nil_iff_forall_not_mem.mpr fun fd hl => ?_
    obtain ⟨hopen, hno⟩ := Accounted.lost hacc fd hl
    obtain ⟨n, hn, _⟩ := hs.owner fd hopen
    exact hno ⟨n, hb.holds_iff.mp hn⟩
  · intro hl
    refine ⟨fun fd hopen => ?_, fun n fd hn => ?_⟩
    · have ho : Owns s.core.heap fd := by
        refine (Accounted.owned hacc fd hopen).resolve_left ?_
        rw [show s.core.lost = [] from hl]
        exact List.not_mem_nil
      obtain ⟨n, hn⟩ := ho
      refine ⟨n, hb.holds_iff.mpr hn, fun m hm => ?_⟩
      obtain ⟨c, hc, ha, hfd⟩ := hn
      obtain ⟨d, hd, hda, hdf⟩ := hb.holds_iff.mp hm
      exact hb.own.inj m n d c hd hc hda ha (hdf.trans hfd.symm)
    · obtain ⟨c, hc, ha, rfl⟩ := hb.holds_iff.mp hn
      exact hb.own.opened n c hc ha

/-- A listener, a connection it accepts and one it connects to itself. -/
theorem socketsOwned_listen : ∃ s, SocketsOwned (ε := Unit) s ∧ s.kernel.socks 4 ≠ none := by
  have hrun : After noExt [.mnetInit, .channOpen 1, .channListen (some 0) none 80 1]
      (Sys.start quietOracle ()) fun _ t =>
        lostFds t.kernel.trace = [] ∧ t.kernel.socks 4 ≠ none := by decide +kernel
  obtain ⟨rs, t, h, hl, hs⟩ := hrun.run
  exact ⟨t, (socketsOwned_iff tame_noExt h).mpr hl, hs⟩

/-- An environment in which the ninth answer is a failure. -/
def refusingOracle : Oracle :=
  { quietOracle with ret := fun tick => if tick = 8 then -1 else 3, err := fun _ => 111 }

/-- A refused `connect` leaves its descriptor open, with a channel in no state to own it. -/
theorem not_socketsOwned_refused : ∃ l s, Run noExt (Sys.start refusingOracle ()) l s ∧
    ¬ SocketsOwned s := by
  have hrun : After noExt [.mnetInit, .channOpen 1, .channConnect (some 0) (some 0) 80]
      (Sys.start refusingOracle ()) fun _ t =>
        t.kernel.socks 3 ≠ none ∧ t.nextChann = 1 ∧
          (t.heap 0).map Chann.state = some .disconnect := by decide +kernel
  obtain ⟨rs, t, h, hopen, hnext, hst⟩ := hrun.run
  refine ⟨_, t, h, fun hs => ?_⟩
  obtain ⟨n, hn, _⟩ := hs.owner 3 hopen
  obtain ⟨_, c, hc, ha, _⟩ := hn
  have hlt : n < t.nextChann := (Run.base tame_noExt h (base_start _ _)).reg.lt n (by simp [hc])
  rw [hnext] at hlt
  rw [Nat.lt_one_iff.mp hlt] at hc
  rw [hc] at hst
  have hd : c.state = .disconnect := by simpa using hst
  rw [hd] at ha
  exact ha

end MNet
