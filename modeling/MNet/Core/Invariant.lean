import MNet.Core.Model
import MNet.Lib.Links

/-! # What every run keeps

The facts no defect of the library breaks: the channel list, the ownership of
descriptors by channels with a socket, blocks with something to send, and the link
between channels and timer nodes. Each part names only the components it reads. -/

namespace MNet
open MNet.Lib

def nextOf (heap : Heap) (n : ChannId) : Option ChannId := (heap n).bind CChann.next
def prevOf (heap : Heap) (n : ChannId) : Option ChannId := (heap n).bind CChann.prev

/-- `channs` with `next` and `prev` lists exactly the allocated channels. -/
structure Registered (heap : Heap) (channs : Option ChannId) (count : Int) (fresh : ChannId) :
    Prop where
  list : ∃ l, DChain (nextOf heap) (prevOf heap) none channs l ∧
    (∀ n, heap n ≠ none ↔ n ∈ l) ∧ count = l.length
  lt : ∀ n, heap n ≠ none → n < fresh

/-- Channels with a socket have open descriptors of their own. -/
structure Owning (heap : Heap) (socks : Int → Option SockId) (fresh : SockId) : Prop where
  opened : ∀ n c, heap n = some c → c.state.active → 0 < c.fd ∧ socks c.fd ≠ none
  inj : ∀ n m c d, heap n = some c → heap m = some d → c.state.active → d.state.active →
    c.fd = d.fd → n = m
  lt : ∀ fd i, socks fd = some i → i < fresh
  sid : ∀ fd fd' i, socks fd = some i → socks fd' = some i → fd = fd'

/-- Cached blocks have something to send, and only a connection has any. -/
def CChann.cacheOk (c : CChann) : Prop :=
  Live c.rwbSend ∧ (c.state.val < ChannState.connected.val → c.rwbSend = [])

def Caching (heap : Heap) : Prop := ∀ n c, heap n = some c → c.cacheOk

/-- Timer nodes and the channels they belong to point at each other. -/
structure Timed (heap : Heap) (clock : Option (List TmNode)) (fresh : NodeId) (isInit : Bool) :
    Prop where
  ids : ((clock.getD []).map TmNode.id).Nodup
  lt : ∀ m ∈ clock.getD [], m.id < fresh
  chann : ∀ m ∈ clock.getD [], ∃ c, heap m.tm.chann = some c ∧ c.timerNode = some m.id
  node : ∀ n c id, heap n = some c → c.timerNode = some id →
    ∃ m ∈ clock.getD [], m.id = id ∧ m.tm.chann = n
  booted : isInit = false → clock = none

structure Base (k : Core) : Prop where
  reg : Registered k.heap k.channs k.channCount k.nextChann
  own : Owning k.heap k.socks k.nextSock
  cache : Caching k.heap
  timed : Timed k.heap k.tmClock k.nextNode k.isInit

section Heap

variable {heap : Heap} {n m : ChannId} {c c' d : CChann}

theorem update_some (h : Function.update heap n (some c') m = some d) :
    (m = n ∧ d = c') ∨ (m ≠ n ∧ heap m = some d) := by
  by_cases hm : m = n
  · subst hm
    rw [Function.update_self] at h
    exact .inl ⟨rfl, (Option.some.inj h).symm⟩
  · rw [Function.update_of_ne hm] at h
    exact .inr ⟨hm, h⟩

theorem update_ne_none (hn : heap n = some c) :
    Function.update heap n (some c') m ≠ none ↔ heap m ≠ none := by
  by_cases hm : m = n
  · subst hm
    simp [hn]
  · rw [Function.update_of_ne hm]

/-- A channel write that keeps a field keeps the field's view of the heap. -/
theorem bind_update {α : Type} {f : CChann → Option α} (hn : heap n = some c) (hf : f c' = f c) :
    (fun i => (Function.update heap n (some c') i).bind f) = fun i => (heap i).bind f := by
  funext i
  by_cases hi : i = n
  · subst hi
    simp [hn, hf]
  · rw [Function.update_of_ne hi]

theorem alterAt_eq_none {p : Option ChannId} {f : CChann → CChann} :
    alterAt heap p f m = none ↔ heap m = none := by
  cases p with
  | none => rfl
  | some i =>
    by_cases hm : m = i
    · subst hm
      simp [alterAt]
    · simp [alterAt, Function.update_of_ne hm]

theorem alterAt_of_ne {p : Option ChannId} {f : CChann → CChann} (h : ∀ i, p = some i → i ≠ m) :
    alterAt heap p f m = heap m := by
  cases p with
  | none => rfl
  | some i => exact Function.update_of_ne (h i rfl).symm _ _

theorem alterAt_update {p : Option ChannId} {f : CChann → CChann} {v : Option CChann}
    (h : ∀ i, p = some i → i ≠ n) :
    alterAt (Function.update heap n v) p f = Function.update (alterAt heap p f) n v := by
  cases p with
  | none => rfl
  | some i =>
    simp only [alterAt, Function.update_of_ne (h i rfl)]
    exact Function.update_comm (h i rfl).symm _ _ _

/-- What a write behind a pointer makes of a channel. -/
theorem alterAt_some {p : Option ChannId} {f : CChann → CChann} (h : alterAt heap p f m = some d) :
    (p = some m ∧ ∃ c, heap m = some c ∧ d = f c) ∨ (p ≠ some m ∧ heap m = some d) := by
  cases p with
  | none => exact .inr ⟨by simp, h⟩
  | some i =>
    by_cases hm : m = i
    · subst hm
      simp only [alterAt, Function.update_self, Option.map_eq_some_iff] at h
      obtain ⟨c, hc, rfl⟩ := h
      exact .inl ⟨rfl, c, hc, rfl⟩
    · simp only [alterAt, Function.update_of_ne hm] at h
      exact .inr ⟨by simpa [eq_comm] using hm, h⟩

theorem bind_alterAt {α : Type} {p : Option ChannId} {f : CChann → CChann}
    {g : CChann → Option α} (hf : ∀ c, g (f c) = g c) :
    (fun i => (alterAt heap p f i).bind g) = fun i => (heap i).bind g := by
  funext i
  cases hi : alterAt heap p f i with
  | none => rw [alterAt_eq_none.mp hi]
  | some d =>
    rcases alterAt_some hi with ⟨_, c, hc, rfl⟩ | ⟨_, hd⟩
    · simp [hc, hf]
    · rw [hd]

/-- The link behind a pointer to an allocated channel is replaced. -/
theorem bind_alterAt_set {α : Type} {p : Option ChannId} {f : CChann → CChann}
    {g : CChann → Option α} {v : Option α} (hf : ∀ c, g (f c) = v)
    (hp : ∀ i, p = some i → heap i ≠ none) :
    (fun i => (alterAt heap p f i).bind g) = updateAt (fun i => (heap i).bind g) p v := by
  funext i
  cases p with
  | none => rfl
  | some j =>
    by_cases hi : i = j
    · subst hi
      obtain ⟨c, hc⟩ := Option.ne_none_iff_exists'.mp (hp i rfl)
      simp [alterAt, hc, hf]
    · simp [alterAt, Function.update_of_ne hi]

end Heap

/-! ## The channel list -/

namespace Registered

variable {heap : Heap} {channs : Option ChannId} {count : Int} {fresh n : ChannId} {c c' : CChann}

theorem of_write (h : Registered heap channs count fresh) (hn : heap n = some c)
    (hx : c'.next = c.next) (hp : c'.prev = c.prev) :
    Registered (Function.update heap n (some c')) channs count fresh := by
  obtain ⟨l, hl, hmem, hcount⟩ := h.list
  refine ⟨⟨l, ?_, fun m => ?_, hcount⟩, fun m hm => ?_⟩
  · have h1 : nextOf (Function.update heap n (some c')) = nextOf heap := bind_update hn hx
    have h2 : prevOf (Function.update heap n (some c')) = prevOf heap := bind_update hn hp
    rw [h1, h2]
    exact hl
  · rw [update_ne_none hn]
    exact hmem m
  · exact h.lt m ((update_ne_none hn).mp hm)

theorem fresh_none (h : Registered heap channs count fresh) : heap fresh = none := by
  by_contra hc
  exact absurd (h.lt fresh hc) (Nat.lt_irrefl _)

/-- With no channel left on the list, none is allocated. -/
theorem all_none (h : Registered heap none count fresh) (n : ChannId) : heap n = none := by
  obtain ⟨l, hl, hmem, _⟩ := h.list
  have hnil := hl.chain.eq_nil
  subst hnil
  by_contra hc
  simpa using (hmem n).mp hc

theorem push (h : Registered heap channs count fresh) (c : CChann) :
    Registered (alterAt (Function.update heap fresh (some { c with next := channs, prev := none }))
      channs fun d => { d with prev := some fresh }) (some fresh) (count + 1) (fresh + 1) := by
  obtain ⟨l, hl, hmem, hcount⟩ := h.list
  have hnone := h.fresh_none
  have hfl : fresh ∉ l := fun hm => (hmem fresh).mpr hm hnone
  have hhead : ∀ i, channs = some i → i ≠ fresh ∧ heap i ≠ none := by
    intro i hi
    have hil : i ∈ l := by
      rw [hi] at hl
      obtain ⟨l', rfl, _⟩ := hl.chain.eq_cons
      simp
    exact ⟨fun e => hfl (e ▸ hil), (hmem i).mpr hil⟩
  refine ⟨⟨fresh :: l, ?_, fun m => ?_, by simp [hcount]⟩, fun m hm => ?_⟩
  · have hn : ∀ hp : Heap, nextOf (alterAt hp channs fun d => { d with prev := some fresh }) =
        nextOf hp := fun _ => bind_alterAt fun _ => rfl
    have hp : prevOf (alterAt (Function.update heap fresh (some { c with next := channs, prev := none }))
        channs fun d => { d with prev := some fresh }) =
        updateAt (prevOf (Function.update heap fresh (some { c with next := channs, prev := none })))
          channs (some fresh) := by
      refine bind_alterAt_set (fun _ => rfl) fun i hi => ?_
      rw [Function.update_of_ne (hhead i hi).1]
      exact (hhead i hi).2
    have hpush := hl.push hfl
    rw [hn, hp]
    refine hpush.congr (fun m _ => ?_) fun m _ => ?_
    · by_cases hm : m = fresh
      · subst hm
        simp [nextOf]
      · simp [nextOf, Function.update_of_ne hm]
    · by_cases hm : m = fresh
      · subst hm
        cases hch : channs with
        | none => simp [prevOf]
        | some i =>
          have hi := (hhead i hch).1
          simp [prevOf, Function.update_of_ne (Ne.symm hi)]
      · cases hch : channs with
        | none => simp [prevOf, Function.update_of_ne hm]
        | some i =>
          by_cases hmi : m = i
          · subst hmi
            simp [Function.update_of_ne hm]
          · simp [prevOf, Function.update_of_ne hm, Function.update_of_ne hmi]
  · rw [ne_eq, alterAt_eq_none]
    by_cases hm : m = fresh
    · subst hm
      simp
    · rw [Function.update_of_ne hm]
      simpa [hm] using hmem m
  · rw [ne_eq, alterAt_eq_none] at hm
    by_cases hmf : m = fresh
    · exact hmf ▸ Nat.lt_succ_self _
    · rw [Function.update_of_ne hmf] at hm
      exact Nat.lt_succ_of_lt (h.lt m hm)

/-- The neighbours of an allocated channel are other allocated channels. -/
theorem neighbours (h : Registered heap channs count fresh) (hn : heap n = some c) {i : ChannId}
    (hi : c.next = some i ∨ c.prev = some i) : i ≠ n ∧ heap i ≠ none := by
  obtain ⟨l, hl, hmem, _⟩ := h.list
  have hnl : n ∈ l := (hmem n).mp (by simp [hn])
  rcases hi with hi | hi
  · have hx : nextOf heap n = some i := by simp [nextOf, hn, hi]
    refine ⟨fun e => ?_, (hmem i).mpr (hl.chain.next_mem hnl hx).1⟩
    subst e
    obtain ⟨l₁, l₂, rfl⟩ := List.append_of_mem hnl
    exact not_chain_of_self hx hl.chain.suffix
  · have hp : prevOf heap n = some i := by simp [prevOf, hn, hi]
    rcases hl.prev_mem hnl with ⟨_, he⟩ | ⟨_, b, hb, hbn, he⟩
    · rw [hp] at he
      cases he
    · rw [hp] at he
      cases he
      exact ⟨hbn, (hmem i).mpr hb⟩

/-- The heap after `n`, whose contents are `c`, is unlinked and freed. -/
theorem destroyed (h : Registered heap channs count fresh) (hn : heap n = some c) :
    Registered (Function.update
      (alterAt (alterAt heap c.next fun d => { d with prev := c.prev })
        c.prev fun d => { d with next := c.next })
      n none)
      (match c.prev with
        | none => c.next
        | some _ => channs)
      (count - 1) fresh := by
  obtain ⟨l, hl, hmem, hcount⟩ := h.list
  have hnl : n ∈ l := (hmem n).mp (by simp [hn])
  have hx : nextOf heap n = c.next := by simp [nextOf, hn]
  have hp : prevOf heap n = c.prev := by simp [prevOf, hn]
  have hmemi : ∀ m, Function.update (alterAt (alterAt heap c.next fun d => { d with prev := c.prev })
      c.prev fun d => { d with next := c.next }) n none m ≠ none ↔ m ∈ l.erase n := by
    intro m
    rw [hl.nodup.mem_erase_iff, ← hmem m]
    by_cases hm : m = n
    · subst hm
      simp
    · rw [Function.update_of_ne hm, ne_eq, alterAt_eq_none, alterAt_eq_none]
      simp [hm]
  refine ⟨⟨l.erase n, ?_, hmemi, ?_⟩, fun m hm => ?_⟩
  · have hul := hl.unlink hnl (by simp)
    have hhead : (if channs = some n then nextOf heap n else channs) =
        match c.prev with
        | none => c.next
        | some _ => channs := by
      rcases hl.prev_mem hnl with ⟨hh, he⟩ | ⟨hh, b, _, _, he⟩
      · rw [if_pos hh, hx, ← hp, he]
      · rw [if_neg hh, ← hp, he]
    rw [hhead, hx, hp] at hul
    have hn1 : nextOf (alterAt (alterAt heap c.next fun d => { d with prev := c.prev })
        c.prev fun d => { d with next := c.next }) = updateAt (nextOf heap) c.prev c.next := by
      have h0 : nextOf (alterAt heap c.next fun d => { d with prev := c.prev }) = nextOf heap :=
        bind_alterAt fun _ => rfl
      rw [← h0]
      refine bind_alterAt_set (g := CChann.next) (fun _ => rfl) fun i hi => ?_
      rw [ne_eq, alterAt_eq_none]
      exact (h.neighbours hn (.inr hi)).2
    have hp1 : prevOf (alterAt (alterAt heap c.next fun d => { d with prev := c.prev })
        c.prev fun d => { d with next := c.next }) = updateAt (prevOf heap) c.next c.prev := by
      have h0 : ∀ hp : Heap, prevOf (alterAt hp c.prev fun d => { d with next := c.next }) =
          prevOf hp := fun _ => bind_alterAt fun _ => rfl
      rw [h0]
      exact bind_alterAt_set (g := CChann.prev) (fun _ => rfl)
        fun i hi => (h.neighbours hn (.inl hi)).2
    rw [← hn1, ← hp1] at hul
    have hne : ∀ m ∈ l.erase n, m ≠ n := fun m hm => (hl.nodup.mem_erase_iff.mp hm).1
    refine hul.congr (fun m hm => ?_) fun m hm => ?_
    · simp only [nextOf, Function.update_of_ne (hne m hm)]
    · simp only [prevOf, Function.update_of_ne (hne m hm)]
  · rw [List.length_erase_of_mem hnl, hcount]
    have := List.length_pos_of_mem hnl
    omega
  · exact h.lt m ((hmem m).mpr (List.mem_of_mem_erase ((hmemi m).mp hm)))

end Registered

/-! ## Sockets -/

namespace Owning

variable {heap : Heap} {socks : Int → Option SockId} {fresh : SockId} {n : ChannId} {c c' : CChann}
  {fd : Int}

/-- A write that leaves the channel its descriptor, and gives it no state with a socket. -/
theorem of_write (h : Owning heap socks fresh) (hn : heap n = some c) (hfd : c'.fd = c.fd)
    (ha : c'.state.active → c.state.active) :
    Owning (Function.update heap n (some c')) socks fresh := by
  have hback : ∀ m d, Function.update heap n (some c') m = some d → d.state.active →
      ∃ e, heap m = some e ∧ e.state.active ∧ e.fd = d.fd := by
    intro m d hd hda
    rcases update_some hd with ⟨rfl, rfl⟩ | ⟨_, hd⟩
    · exact ⟨c, hn, ha hda, hfd.symm⟩
    · exact ⟨d, hd, hda, rfl⟩
  refine ⟨fun m d hd hda => ?_, fun m i d e hd he hda hea hde => ?_, h.lt, h.sid⟩
  · obtain ⟨e, he, hea, hfd⟩ := hback m d hd hda
    rw [← hfd]
    exact h.opened m e he hea
  · obtain ⟨d', hd', hda', hdf⟩ := hback m d hd hda
    obtain ⟨e', he', hea', hef⟩ := hback i e he hea
    exact h.inj m i d' e' hd' he' hda' hea' (by rw [hdf, hef, hde])

/-- An opened descriptor is nobody's yet. -/
theorem openFd (h : Owning heap socks fresh) (hs : socks fd = none) :
    Owning heap (Function.update socks fd (some fresh)) (fresh + 1) := by
  refine ⟨fun m d hd hda => ?_, h.inj, fun f i hi => ?_, fun f f' i hi hi' => ?_⟩
  · obtain ⟨hpos, hopen⟩ := h.opened m d hd hda
    refine ⟨hpos, ?_⟩
    rw [Function.update_of_ne fun e : d.fd = fd => hopen (e ▸ hs)]
    exact hopen
  · by_cases hf : f = fd
    · subst hf
      rw [Function.update_self] at hi
      cases hi
      exact Nat.lt_succ_self _
    · rw [Function.update_of_ne hf] at hi
      exact Nat.lt_succ_of_lt (h.lt f i hi)
  · by_cases hf : f = fd <;> by_cases hf' : f' = fd
    · rw [hf, hf']
    · subst hf
      rw [Function.update_self] at hi
      rw [Function.update_of_ne hf'] at hi'
      cases hi
      exact absurd (h.lt f' _ hi') (Nat.lt_irrefl _)
    · subst hf'
      rw [Function.update_self] at hi'
      rw [Function.update_of_ne hf] at hi
      cases hi'
      exact absurd (h.lt f _ hi) (Nat.lt_irrefl _)
    · rw [Function.update_of_ne hf] at hi
      rw [Function.update_of_ne hf'] at hi'
      exact h.sid f f' i hi hi'

/-- Closing a descriptor no channel has. -/
theorem closeFd (h : Owning heap socks fresh)
    (hfree : ∀ n c, heap n = some c → c.state.active → c.fd ≠ fd) :
    Owning heap (Function.update socks fd none) fresh := by
  have hold : ∀ f i, Function.update socks fd none f = some i → socks f = some i := by
    intro f i hi
    by_cases hf : f = fd
    · subst hf
      simp at hi
    · rwa [Function.update_of_ne hf] at hi
  refine ⟨fun m d hd hda => ?_, h.inj, fun f i hi => h.lt f i (hold f i hi),
    fun f f' i hi hi' => h.sid f f' i (hold f i hi) (hold f' i hi')⟩
  rw [Function.update_of_ne (hfree m d hd hda)]
  exact h.opened m d hd hda

/-- A channel without a socket gets an open descriptor that is nobody's. -/
theorem give (h : Owning heap socks fresh) (hpos : 0 < c'.fd) (hopen : socks c'.fd ≠ none)
    (hfree : ∀ m d, m ≠ n → heap m = some d → d.state.active → d.fd ≠ c'.fd) :
    Owning (Function.update heap n (some c')) socks fresh := by
  refine ⟨fun m d hd hda => ?_, fun m i d e hd he hda hea hde => ?_, h.lt, h.sid⟩
  · rcases update_some hd with ⟨rfl, rfl⟩ | ⟨_, hd⟩
    · exact ⟨hpos, hopen⟩
    · exact h.opened m d hd hda
  · rcases update_some hd with ⟨hm, hdc⟩ | ⟨hm, hd'⟩ <;>
      rcases update_some he with ⟨hi, hec⟩ | ⟨hi, he'⟩
    · rw [hm, hi]
    · rw [hdc] at hde
      exact absurd hde.symm (hfree i e hi he' hea)
    · rw [hec] at hde
      exact absurd hde (hfree m d hm hd' hda)
    · exact h.inj m i d e hd' he' hda hea hde

/-- A channel without a socket. -/
theorem place (h : Owning heap socks fresh) (ha : ¬ c'.state.active) :
    Owning (Function.update heap n (some c')) socks fresh := by
  have hback : ∀ m d, Function.update heap n (some c') m = some d → d.state.active →
      heap m = some d := by
    intro m d hd hda
    rcases update_some hd with ⟨_, rfl⟩ | ⟨_, hd⟩
    · exact absurd hda ha
    · exact hd
  exact ⟨fun m d hd hda => h.opened m d (hback m d hd hda) hda,
    fun m i d e hd he hda hea => h.inj m i d e (hback m d hd hda) (hback i e he hea) hda hea,
    h.lt, h.sid⟩

/-- A channel closes its descriptor and has no socket any more. -/
theorem release (h : Owning heap socks fresh) (hn : heap n = some c) (ha : c.state.active)
    (ha' : ¬ c'.state.active) :
    Owning (Function.update heap n (some c')) (Function.update socks c.fd none) fresh := by
  refine (h.place ha').closeFd fun m d hd hda => ?_
  rcases update_some hd with ⟨_, rfl⟩ | ⟨hm, hd⟩
  · exact absurd hda ha'
  · exact fun he => hm (h.inj m n d c hd hn hda ha he)

/-- Links between channels do not matter. -/
theorem alterAt (h : Owning heap socks fresh) {p : Option ChannId} {f : CChann → CChann}
    (hfd : ∀ c, (f c).fd = c.fd) (hst : ∀ c, (f c).state = c.state) :
    Owning (alterAt heap p f) socks fresh := by
  have hback : ∀ m d, MNet.alterAt heap p f m = some d →
      ∃ e, heap m = some e ∧ e.state = d.state ∧ e.fd = d.fd := by
    intro m d hd
    rcases alterAt_some hd with ⟨_, c, hc, rfl⟩ | ⟨_, hd⟩
    · exact ⟨c, hc, (hst c).symm, (hfd c).symm⟩
    · exact ⟨d, hd, rfl, rfl⟩
  refine ⟨fun m d hd hda => ?_, fun m i d e hd he hda hea hde => ?_, h.lt, h.sid⟩
  · obtain ⟨e, he, hes, hef⟩ := hback m d hd
    rw [← hef]
    exact h.opened m e he (hes ▸ hda)
  · obtain ⟨d', hd', hds, hdf⟩ := hback m d hd
    obtain ⟨e', he', hes, hef⟩ := hback i e he
    exact h.inj m i d' e' hd' he' (hds ▸ hda) (hes ▸ hea) (by rw [hdf, hef, hde])

theorem free (h : Owning heap socks fresh) :
    Owning (Function.update heap n none) socks fresh := by
  have hback : ∀ m d, Function.update heap n none m = some d → heap m = some d := by
    intro m d hd
    by_cases hm : m = n
    · subst hm
      simp at hd
    · rwa [Function.update_of_ne hm] at hd
  exact ⟨fun m d hd => h.opened m d (hback m d hd),
    fun m i d e hd he => h.inj m i d e (hback m d hd) (hback i e he), h.lt, h.sid⟩

end Owning

/-! ## Caches -/

namespace Caching

variable {heap : Heap} {n : ChannId} {c : CChann}

theorem of_write (h : Caching heap) (hl : c.cacheOk) :
    Caching (Function.update heap n (some c)) := by
  intro m d hd
  rcases update_some hd with ⟨_, rfl⟩ | ⟨_, hd⟩
  · exact hl
  · exact h m d hd

theorem alterAt (h : Caching heap) {p : Option ChannId} {f : CChann → CChann}
    (hf : ∀ c, (f c).rwbSend = c.rwbSend) (hs : ∀ c, (f c).state = c.state) :
    Caching (alterAt heap p f) := by
  intro m d hd
  rcases alterAt_some hd with ⟨_, c, hc, rfl⟩ | ⟨_, hd⟩
  · unfold CChann.cacheOk
    rw [hf, hs]
    exact h m c hc
  · exact h m d hd

theorem free (h : Caching heap) : Caching (Function.update heap n none) := by
  intro m d hd
  by_cases hm : m = n
  · subst hm
    simp at hd
  · rw [Function.update_of_ne hm] at hd
    exact h m d hd

end Caching

/-! ## Timers -/

namespace Timed

variable {heap : Heap} {clock : Option (List TmNode)} {fresh : NodeId} {isInit : Bool}
  {n : ChannId} {c c' : CChann}

theorem of_write (h : Timed heap clock fresh isInit) (hn : heap n = some c)
    (ht : c'.timerNode = c.timerNode) :
    Timed (Function.update heap n (some c')) clock fresh isInit := by
  refine ⟨h.ids, h.lt, fun m hm => ?_, fun i d id hd hid => ?_, h.booted⟩
  · obtain ⟨d, hd, hdt⟩ := h.chann m hm
    by_cases hmn : m.tm.chann = n
    · rw [hmn, hn] at hd
      cases hd
      exact ⟨c', by rw [hmn, Function.update_self], ht.trans hdt⟩
    · exact ⟨d, by rw [Function.update_of_ne hmn, hd], hdt⟩
  · rcases update_some hd with ⟨rfl, rfl⟩ | ⟨_, hd⟩
    · exact h.node i c id hn (ht ▸ hid)
    · exact h.node i d id hd hid

theorem alterAt (h : Timed heap clock fresh isInit) {p : Option ChannId} {f : CChann → CChann}
    (hf : ∀ c, (f c).timerNode = c.timerNode) : Timed (alterAt heap p f) clock fresh isInit := by
  cases p with
  | none => exact h
  | some i =>
    cases hi : heap i with
    | none =>
      have he : MNet.alterAt heap (some i) f = heap := by
        simp [MNet.alterAt, hi, Function.update_eq_self_iff]
      rw [he]
      exact h
    | some d =>
      have he : MNet.alterAt heap (some i) f = Function.update heap i (some (f d)) := by
        simp [MNet.alterAt, hi]
      rw [he]
      exact h.of_write hi (hf d)

/-- Of the channels only their timer nodes matter. -/
theorem congr {heap' : Heap} (h : Timed heap clock fresh isInit)
    (he : ∀ n, (heap' n).bind CChann.timerNode = (heap n).bind CChann.timerNode) : Timed heap' clock fresh isInit := by
  refine ⟨h.ids, h.lt, fun m hm => ?_, fun n c id hc hid => ?_, h.booted⟩
  · obtain ⟨c, hc, hid⟩ := h.chann m hm
    have hm := he m.tm.chann
    rw [hc] at hm
    exact Option.bind_eq_some_iff.mp (hm.trans hid)
  · have hn := he n
    rw [hc] at hn
    obtain ⟨d, hd, hd'⟩ := Option.bind_eq_some_iff.mp (hn.symm.trans hid)
    exact h.node n d id hd hd'

/-- A channel without a timer at a free address. -/
theorem place (h : Timed heap clock fresh isInit) (hn : heap n = none) (hc : c.timerNode = none) :
    Timed (Function.update heap n (some c)) clock fresh isInit := by
  refine ⟨h.ids, h.lt, fun m hm => ?_, fun i d id hd hid => ?_, h.booted⟩
  · obtain ⟨d, hd, hdt⟩ := h.chann m hm
    have hmn : m.tm.chann ≠ n := fun e => by
      rw [e, hn] at hd
      cases hd
    exact ⟨d, by rw [Function.update_of_ne hmn, hd], hdt⟩
  · rcases update_some hd with ⟨rfl, rfl⟩ | ⟨_, hd⟩
    · rw [hc] at hid
      cases hid
    · exact h.node i d id hd hid

theorem free (h : Timed heap clock fresh isInit) (hn : heap n = some c) (hc : c.timerNode = none) :
    Timed (Function.update heap n none) clock fresh isInit := by
  refine ⟨h.ids, h.lt, fun m hm => ?_, fun i d id hd hid => ?_, h.booted⟩
  · obtain ⟨d, hd, hdt⟩ := h.chann m hm
    have hmn : m.tm.chann ≠ n := fun e => by
      rw [e, hn] at hd
      cases hd
      rw [hc] at hdt
      cases hdt
    exact ⟨d, by rw [Function.update_of_ne hmn, hd], hdt⟩
  · by_cases hin : i = n
    · subst hin
      simp at hd
    · rw [Function.update_of_ne hin] at hd
      exact h.node i d id hd hid

/-- The node a channel points at is the only one that points back. -/
theorem unique (h : Timed heap clock fresh isInit) (hn : heap n = some c) {m : TmNode}
    (hm : m ∈ clock.getD []) (hmn : m.tm.chann = n) : c.timerNode = some m.id := by
  obtain ⟨d, hd, hdt⟩ := h.chann m hm
  rw [hmn, hn] at hd
  cases hd
  exact hdt

theorem id_inj (h : Timed heap clock fresh isInit) {m m' : TmNode} (hm : m ∈ clock.getD [])
    (hm' : m' ∈ clock.getD []) (he : m.id = m'.id) : m = m' :=
  List.inj_on_of_nodup_map h.ids hm hm' he

/-- The timer of `n` is gone. -/
theorem disarm {l : List TmNode} {id : NodeId} (h : Timed heap (some l) fresh isInit)
    (hn : heap n = some c) (hc : c.timerNode = some id) :
    Timed (Function.update heap n (some { c with timerNode := none }))
      (some (skiplistRemove l id)) fresh isInit := by
  refine ⟨(List.filter_sublist.map _).nodup h.ids,
    fun m hm => h.lt m (mem_skiplistRemove.mp hm).1, fun m hm => ?_, fun i d id' hd hid => ?_, ?_⟩
  · obtain ⟨hml, hid⟩ := mem_skiplistRemove.mp hm
    obtain ⟨d, hd, hdt⟩ := h.chann m hml
    have hmn : m.tm.chann ≠ n := fun e => by
      have := h.unique hn hml e
      rw [hc] at this
      exact hid (Option.some.inj this).symm
    exact ⟨d, by rw [Function.update_of_ne hmn, hd], hdt⟩
  · rcases update_some hd with ⟨_, rfl⟩ | ⟨hin, hd⟩
    · cases hid
    · obtain ⟨m, hm, hmi, hmc⟩ := h.node i d id' hd hid
      refine ⟨m, mem_skiplistRemove.mpr ⟨hm, fun e => ?_⟩, hmi, hmc⟩
      obtain ⟨m', hm', hmi', hmc'⟩ := h.node n c id hn hc
      have := h.id_inj hm hm' (e.trans hmi'.symm)
      rw [← hmc, this, hmc'] at hin
      exact hin rfl
  · intro hi
    exact absurd (h.booted hi) (by simp)

/-- A channel without a timer gets a new node. -/
theorem arm {l : List TmNode} {tm : ChannTm} (h : Timed heap (some l) fresh isInit)
    (hn : heap n = some c) (hc : c.timerNode = none) (htm : tm.chann = n) :
    Timed (Function.update heap n (some { c with timerNode := some fresh }))
      (some (skiplistInsert l { id := fresh, key := tm.time, tm := tm })) (fresh + 1) isInit := by
  refine ⟨?_, fun m hm => ?_, fun m hm => ?_, fun i d id hd hid => ?_, ?_⟩
  · have hp := (skiplistInsert_perm l { id := fresh, key := tm.time, tm := tm }).map TmNode.id
    refine (hp.nodup_iff).mpr (List.nodup_cons.mpr ⟨fun hm => ?_, h.ids⟩)
    obtain ⟨m, hm, hmf⟩ := List.mem_map.mp hm
    exact absurd (h.lt m hm) (by rw [hmf]; exact Nat.lt_irrefl _)
  · rcases mem_skiplistInsert.mp hm with rfl | hm
    · exact Nat.lt_succ_self _
    · exact Nat.lt_succ_of_lt (h.lt m hm)
  · rcases mem_skiplistInsert.mp hm with rfl | hm
    · exact ⟨_, by rw [htm, Function.update_self], rfl⟩
    · obtain ⟨d, hd, hdt⟩ := h.chann m hm
      have hmn : m.tm.chann ≠ n := fun e => by
        have := h.unique hn hm e
        rw [hc] at this
        cases this
      exact ⟨d, by rw [Function.update_of_ne hmn, hd], hdt⟩
  · rcases update_some hd with ⟨rfl, rfl⟩ | ⟨_, hd⟩
    · cases hid
      exact ⟨_, mem_skiplistInsert.mpr (.inl rfl), rfl, htm⟩
    · obtain ⟨m, hm, hmi⟩ := h.node i d id hd hid
      exact ⟨m, mem_skiplistInsert.mpr (.inr hm), hmi⟩
  · intro hi
    exact absurd (h.booted hi) (by simp)

/-- The node of `n` is replaced by a new one. -/
theorem rearm {l : List TmNode} {node : TmNode} {tm : ChannTm} (h : Timed heap (some l) fresh isInit)
    (hn : heap n = some c) (hc : c.timerNode = some node.id)
    (hf : skiplistFind l node.id = some node) (htm : tm.chann = node.tm.chann) :
    Timed (Function.update heap n (some { c with timerNode := some fresh }))
      (some (skiplistInsert (skiplistRemove l node.id) { id := fresh, key := tm.time, tm := tm }))
      (fresh + 1) isInit := by
  have hnode : node.tm.chann = n := by
    obtain ⟨m, hm, hmi, hmc⟩ := h.node n c node.id hn hc
    rw [← h.id_inj hm (skiplistFind_some hf).1 hmi]
    exact hmc
  have harm := (h.disarm hn hc).arm (Function.update_self ..) rfl (htm.trans hnode)
  rw [Function.update_idem] at harm
  exact harm

end Timed

end MNet
