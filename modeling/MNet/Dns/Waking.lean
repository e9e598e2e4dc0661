import MNet.Dns.Pending

/-! # Waking those who wait

The callbacks of a domain are called while its table is still the one to which a lookup adds. A
lookup that is answered from the table of addresses adds nothing; a response that failed leaves no
address there. -/

namespace MNet.Dns
open MNet.Lib

variable {s t u : Resolver} {m m' m₁ : Machine} {qid : Nat} {domain D E : Domain} {c callback : Callback}
  {reply : Reply} {i j : Nat} {l : Input}

/-- The callback stands at an index of the table of the domain. -/
def Resolver.Slot (s : Resolver) (D : Domain) (i : Nat) (c : Callback) : Prop :=
  ∃ tbl, s.waitTbl D = some tbl ∧ (s.tables tbl)[i]? = some c

/-- The callback is registered. -/
def Resolver.Registered (s : Resolver) (c : Callback) : Prop := ∃ D i, s.Slot D i c

/-- What the processing of a packet has called so far, newest first. It began in `m₁`, with its frame
on top, and it has not returned. -/
inductive Processing (R : Machine → Input → Machine → Prop) (m₁ : Machine) : List Callback → Machine → Prop
  | taken : Processing R m₁ [] m₁
  | call {calls : List Callback} {m m' : Machine} {c : Callback} {data : Option String} :
    Processing R m₁ calls m → R m (.call c data) m' → m.frames.length = m₁.frames.length →
    Processing R m₁ (c :: calls) m'
  | inside {calls : List Callback} {m m' : Machine} {l : Input} : Processing R m₁ calls m → R m l m' →
    m₁.frames.length ≤ m'.frames.length →
    (∀ c data, l = .call c data → m₁.frames.length < m.frames.length) → Processing R m₁ calls m'

/-- The processing of a packet, which is taken in `m₀`, wakes those that wait then, each once. -/
structure WakesEarlier (R : Machine → Input → Machine → Prop) (m₀ m₁ : Machine) : Prop where
  earlier : ∀ calls m, Processing R m₁ calls m → ∀ c ∈ calls, m₀.res.Registered c
  once : ∀ calls m, Processing R m₁ calls m → (m.invoked.map Prod.fst).Nodup
  finite : ∃ n, ∀ calls m, Processing R m₁ calls m → calls.length ≤ n

/-- While the callbacks of a domain are being called, no lookup of the domain sends a request, and no
other response for it is taken. -/
def Calm (m : Machine) : Input → Prop
  | .lookup qid D _ => m.res.Requests qid D → ∀ f ∈ m.frames, f.domain ≠ D
  | .packet (some pkgData) => ∀ qid ∈ m.res.fetchQid pkgData, ∀ item ∈ m.res.qidTbl qid,
    ∀ f ∈ m.frames, f.domain ≠ item.domain
  | _ => True

/-- A step of a calm run. -/
def CalmNext (m : Machine) (l : Input) (m' : Machine) : Prop := Next m l m' ∧ Calm m l

/-! ## The tables -/

theorem Resolver.Slot.congr (hwait : t.waitTbl = s.waitTbl) (htables : t.tables = s.tables) :
    t.Slot D i c ↔ s.Slot D i c := by
  unfold Resolver.Slot
  rw [hwait, htables]

/-- How many wait for the domain. -/
def Resolver.waiting (s : Resolver) (D : Domain) : Nat :=
  match s.waitTbl D with
  | some tbl => (s.tables tbl).length
  | none => 0

/-- A callback that is added stands behind the others of its domain. -/
theorem addWaiter_slot (ht : Tidy s) (h : (s.addWaiter D callback).Slot E i c) :
    s.Slot E i c ∨ (E = D ∧ c = callback ∧ i = s.waiting D) := by
  obtain ⟨tbl, hwait, hslot⟩ := h
  unfold Resolver.addWaiter Resolver.waiters at hwait hslot
  cases hD : s.waitTbl D with
  | some tblD =>
    simp only [hD] at hwait hslot
    by_cases htbl : tbl = tblD
    · rw [htbl] at hwait hslot
      obtain rfl := ht.inj E D tblD hwait hD
      rw [Function.update_self] at hslot
      rcases Nat.lt_trichotomy i (s.tables tblD).length with hlt | heq | hgt
      · rw [List.getElem?_append_left hlt] at hslot
        exact .inl ⟨tblD, hwait, hslot⟩
      · rw [heq, List.getElem?_concat_length, Option.some.injEq] at hslot
        exact .inr ⟨rfl, hslot.symm, by rw [heq, Resolver.waiting, hD]⟩
      · rw [List.getElem?_eq_none (by rw [List.length_append, List.length_singleton]; omega)] at hslot
        cases hslot
    · rw [Function.update_of_ne htbl] at hslot
      exact .inl ⟨tbl, hwait, hslot⟩
  | none =>
    simp only [hD] at hwait hslot
    by_cases hE : E = D
    · rw [hE, Function.update_self, Option.some.injEq] at hwait
      rw [← hwait, Function.update_self, Function.update_self, List.nil_append] at hslot
      rcases Nat.eq_zero_or_pos i with hi | hi
      · rw [hi, List.getElem?_cons_zero, Option.some.injEq] at hslot
        exact .inr ⟨hE, hslot.symm, by rw [hi, Resolver.waiting, hD]⟩
      · rw [List.getElem?_eq_none hi] at hslot
        cases hslot
    · rw [Function.update_of_ne hE] at hwait
      have hne : tbl ≠ s.nextTbl := Nat.ne_of_lt (ht.lt E tbl hwait)
      rw [Function.update_of_ne hne, Function.update_of_ne hne] at hslot
      exact .inl ⟨tbl, hwait, hslot⟩

/-- The table of another domain stays as it is, under its number. -/
theorem addWaiter_other (ht : Tidy s) {tbl : TblId} (hE : E ≠ D) (hwait : s.waitTbl E = some tbl) :
    (s.addWaiter D callback).waitTbl E = some tbl ∧ (s.addWaiter D callback).tables tbl = s.tables tbl := by
  unfold Resolver.addWaiter Resolver.waiters
  cases hD : s.waitTbl D with
  | some tblD =>
    have hne : tbl ≠ tblD := fun he => hE (ht.inj E D tblD (he ▸ hwait) hD)
    exact ⟨hwait, Function.update_of_ne hne ..⟩
  | none =>
    have hne : tbl ≠ s.nextTbl := Nat.ne_of_lt (ht.lt E tbl hwait)
    refine ⟨(Function.update_of_ne hE ..).trans hwait, ?_⟩
    exact (Function.update_of_ne hne ..).trans (Function.update_of_ne hne ..)

/-- The tables after a callback has been added depend on the tables before. -/
theorem addWaiter_congr (hwait : t.waitTbl = s.waitTbl) (htables : t.tables = s.tables)
    (hnext : t.nextTbl = s.nextTbl) :
    (t.addWaiter D callback).waitTbl = (s.addWaiter D callback).waitTbl ∧
      (t.addWaiter D callback).tables = (s.addWaiter D callback).tables := by
  unfold Resolver.addWaiter Resolver.waiters
  rw [hwait]
  cases hD : s.waitTbl D with
  | some tbl =>
    simp only [htables]
    exact ⟨hwait, trivial⟩
  | none =>
    simp only [htables, hnext]
    exact ⟨trivial, trivial⟩

/-- A lookup that sends a request adds its callback, whose number is new; any other adds none. -/
theorem queryHost_adds (hq : queryHost qid domain s = .ok (reply, t)) :
    (¬ s.Requests qid domain ∧ t.waitTbl = s.waitTbl ∧ t.tables = s.tables ∧
      s.nextCallback ≤ t.nextCallback) ∨
    (s.Requests qid domain ∧ t.nextCallback = s.nextCallback + 1 ∧
      t.waitTbl = (s.addWaiter domain s.nextCallback).waitTbl ∧
      t.tables = (s.addWaiter domain s.nextCallback).tables) := by
  obtain ⟨hno, _, buf, n, hle, rfl⟩ | ⟨hreq, _, querySize, buf, rfl⟩ := queryHost_ok hq
  · exact .inl ⟨hno, rfl, rfl, hle⟩
  · refine .inr ⟨hreq, ?_, addWaiter_congr rfl rfl rfl⟩
    unfold Resolver.addWaiter Resolver.waiters
    dsimp only [Resolver.request]
    cases s.waitTbl domain <;> rfl

/-! ## Calm runs -/

/-- Every domain whose callbacks are being called still has its table, and one frame. A callback
stands in one place, and it has been called if the frame of its domain has come past it. -/
structure Orderly (m : Machine) : Prop where
  tidy : Tidy m.res
  framed : ∀ f ∈ m.frames, m.res.waitTbl f.domain = some f.tbl
  apart : (m.frames.map Frame.domain).Nodup
  known : ∀ {D i c}, m.res.Slot D i c → c < m.res.nextCallback
  place : ∀ {D E i j c}, m.res.Slot D i c → m.res.Slot E j c → D = E ∧ i = j
  spent : ∀ c ∈ m.invoked.map Prod.fst, c < m.res.nextCallback
  called : ∀ {D i c}, m.res.Slot D i c → c ∈ m.invoked.map Prod.fst →
    ∃ f ∈ m.frames, f.domain = D ∧ i < f.next
  once : (m.invoked.map Prod.fst).Nodup

namespace Orderly

/-- Nothing has been added to the tables, and the domains that are being called still have theirs. -/
theorem resolve (h : Orderly m) (ht : Tidy t) (hslot : ∀ {D i c}, t.Slot D i c → m.res.Slot D i c)
    (hframed : ∀ f ∈ m.frames, t.waitTbl f.domain = some f.tbl)
    (hnext : m.res.nextCallback ≤ t.nextCallback) : Orderly { m with res := t } where
  tidy := ht
  framed := hframed
  apart := h.apart
  known hs := Nat.lt_of_lt_of_le (h.known (hslot hs)) hnext
  place hs hs' := h.place (hslot hs) (hslot hs')
  spent c hc := Nat.lt_of_lt_of_le (h.spent c hc) hnext
  called hs hc := h.called (hslot hs) hc
  once := h.once

theorem same (h : Orderly m) (ht : Tidy t) (hwait : t.waitTbl = m.res.waitTbl)
    (htables : t.tables = m.res.tables) (hnext : m.res.nextCallback ≤ t.nextCallback) :
    Orderly { m with res := t } :=
  h.resolve ht (fun hs => (Resolver.Slot.congr hwait htables).mp hs)
    (fun f hf => hwait ▸ h.framed f hf) hnext

/-- The callbacks of a domain are going to be called. -/
theorem push (h : Orderly m) {f : Frame} (hf : m.res.waitTbl f.domain = some f.tbl)
    (hnew : ∀ g ∈ m.frames, g.domain ≠ f.domain) : Orderly { m with frames := f :: m.frames } where
  tidy := h.tidy
  framed := List.forall_mem_cons.mpr ⟨hf, h.framed⟩
  apart := List.nodup_cons.mpr ⟨fun hmem => by
    obtain ⟨g, hg, he⟩ := List.mem_map.mp hmem
    exact hnew g hg he, h.apart⟩
  known := h.known
  place := h.place
  spent := h.spent
  called hs hc := by
    obtain ⟨g, hg, hrest⟩ := h.called hs hc
    exact ⟨g, List.mem_cons_of_mem _ hg, hrest⟩
  once := h.once

/-- A callback is added for a domain whose callbacks are not being called. -/
theorem add (h : Orderly m) (ht : Tidy t) (hwait : t.waitTbl = (m.res.addWaiter D m.res.nextCallback).waitTbl)
    (htables : t.tables = (m.res.addWaiter D m.res.nextCallback).tables)
    (hnext : t.nextCallback = m.res.nextCallback + 1) (hcalm : ∀ f ∈ m.frames, f.domain ≠ D) :
    Orderly { m with res := t } := by
  have hslot : ∀ {E i c}, t.Slot E i c →
      m.res.Slot E i c ∨ (E = D ∧ c = m.res.nextCallback ∧ i = m.res.waiting D) := fun hs =>
    addWaiter_slot h.tidy ((Resolver.Slot.congr hwait htables).mp hs)
  have hold : ∀ {E i c}, m.res.Slot E i c → c ≠ m.res.nextCallback := fun hs => Nat.ne_of_lt (h.known hs)
  refine ⟨ht, fun f hf => ?_, h.apart, fun hs => ?_, fun hs hs' => ?_, fun c hc => ?_, fun hs hc => ?_, h.once⟩
  · show t.waitTbl f.domain = some f.tbl
    rw [hwait]
    exact (addWaiter_other h.tidy (hcalm f hf) (h.framed f hf)).1
  · show _ < t.nextCallback
    rw [hnext]
    rcases hslot hs with hs | ⟨_, rfl, _⟩
    · exact Nat.lt_succ_of_lt (h.known hs)
    · exact Nat.lt_succ_self _
  · rcases hslot hs with hs | ⟨rfl, rfl, rfl⟩ <;> rcases hslot hs' with hs' | ⟨rfl, hc, rfl⟩
    · exact h.place hs hs'
    · exact absurd hc (hold hs)
    · exact absurd rfl (hold hs')
    · exact ⟨rfl, rfl⟩
  · show c < t.nextCallback
    rw [hnext]
    exact Nat.lt_succ_of_lt (h.spent c hc)
  · rcases hslot hs with hs | ⟨_, rfl, _⟩
    · exact h.called hs hc
    · exact absurd (h.spent _ hc) (Nat.lt_irrefl _)

/-- The next callback has not been called. -/
theorem uncalled (h : Orderly m) {f : Frame} {fs : List Frame} (hf : m.frames = f :: fs)
    (hs : m.res.Slot f.domain f.next c) : c ∉ m.invoked.map Prod.fst := by
  intro hc
  obtain ⟨g, hg, hdomain, hlt⟩ := h.called hs hc
  have hsame : g = f := by
    rw [hf] at hg
    rcases List.mem_cons.mp hg with he | hg
    · exact he
    · have hapart := h.apart
      rw [hf] at hapart
      exact absurd (hdomain ▸ List.mem_map_of_mem hg) (List.nodup_cons.mp hapart).1
  rw [hsame] at hlt
  exact Nat.lt_irrefl _ hlt

/-- The next callback is called. -/
theorem step (h : Orderly m) {f : Frame} {fs : List Frame} (hf : m.frames = f :: fs) {data : Option String}
    (hs : m.res.Slot f.domain f.next c) : Orderly { m with
      frames := { f with next := f.next + 1 } :: fs
      invoked := (c, data) :: m.invoked } := by
  have hnew := h.uncalled hf hs
  obtain ⟨htidy, hframed, hapart, hknown, hplace, hspent, hcalled, honce⟩ := h
  rw [hf] at hframed hapart hcalled
  refine ⟨htidy, ?_, hapart, hknown, hplace, ?_, fun {D i c'} hs' hc => ?_, List.nodup_cons.mpr ⟨hnew, honce⟩⟩
  · exact List.forall_mem_cons.mpr (List.forall_mem_cons.mp hframed)
  · exact List.forall_mem_cons.mpr ⟨hknown hs, hspent⟩
  · rcases List.mem_cons.mp hc with rfl | hc
    · obtain ⟨rfl, rfl⟩ := hplace hs hs'
      exact ⟨_, List.mem_cons_self, rfl, Nat.lt_succ_self _⟩
    · obtain ⟨g, hg, hdomain, hlt⟩ := hcalled hs' hc
      rcases List.mem_cons.mp hg with rfl | hg
      · exact ⟨_, List.mem_cons_self, hdomain, Nat.lt_succ_of_lt hlt⟩
      · exact ⟨g, List.mem_cons_of_mem _ hg, hdomain, hlt⟩

/-- All callbacks of the domain have been called. -/
theorem finish (h : Orderly m) {f : Frame} {fs : List Frame} (hf : m.frames = f :: fs)
    (ht : Tidy (m.res.finish f)) : Orderly { m with res := m.res.finish f, frames := fs } := by
  have hother : ∀ {D}, D ≠ f.domain → (m.res.finish f).waitTbl D = m.res.waitTbl D := fun hD =>
    Function.update_of_ne hD ..
  have hslot : ∀ {D i c}, (m.res.finish f).Slot D i c → D ≠ f.domain ∧ m.res.Slot D i c := by
    intro D i c ⟨tbl, hwait, hs⟩
    have hD : D ≠ f.domain := by
      intro he
      rw [he, show (m.res.finish f).waitTbl f.domain = none from Function.update_self ..] at hwait
      cases hwait
    exact ⟨hD, tbl, (hother hD).symm.trans hwait, hs⟩
  obtain ⟨htidy, hframed, hapart, hknown, hplace, hspent, hcalled, honce⟩ := h
  rw [hf] at hframed hapart hcalled
  obtain ⟨hnot, hapart⟩ := List.nodup_cons.mp hapart
  refine ⟨ht, fun g hg => ?_, hapart, fun hs => hknown (hslot hs).2,
    fun hs hs' => hplace (hslot hs).2 (hslot hs').2, hspent, fun hs hc => ?_, honce⟩
  · have hD : g.domain ≠ f.domain := fun he => hnot (he ▸ List.mem_map_of_mem hg)
    exact (hother hD).trans (hframed g (List.mem_cons_of_mem _ hg))
  · obtain ⟨g, hg, hdomain, hlt⟩ := hcalled (hslot hs).2 hc
    rcases List.mem_cons.mp hg with rfl | hg
    · exact absurd hdomain.symm (hslot hs).1
    · exact ⟨g, hg, hdomain, hlt⟩

end Orderly

theorem CalmNext.orderly (h : CalmNext m l m') (hm : Orderly m) : Orderly m' := by
  obtain ⟨h, hcalm⟩ := h
  have ht := h.tidy hm.tidy
  cases h with
  | lookup _ _ _ hq =>
    obtain ⟨_, hwait, htables, hnext⟩ | ⟨hreq, hnext, hwait, htables⟩ := queryHost_adds hq
    · exact hm.same ht hwait htables hnext
    · exact hm.add ht hwait htables hnext (hcalm hreq)
  | noPacket => exact hm
  | unknown => exact hm.same ht rfl rfl (Nat.le_refl _)
  | @packet pkgData out qid item ret _ _ hqid hitem =>
    obtain ⟨f, t, hr⟩ : ∃ f t, recvResponse pkgData qid item ret out m.res = (f, t) := ⟨_, _, rfl⟩
    rw [hr] at ht ⊢
    obtain ⟨hwait, htables, _, hnext, hframe⟩ := recvResponse_cases hr
    have hsame : Orderly { m with res := t } := hm.same ht hwait htables (Nat.le_of_eq hnext.symm)
    obtain ⟨rfl, _⟩ | ⟨f, rfl, hdomain, hf, _⟩ := hframe
    · exact hsame
    · refine hsame.push (f := f) ?_ fun g hg => ?_
      · exact (congrFun hwait f.domain).trans (hdomain ▸ hf)
      · exact hdomain ▸ hcalm qid hqid item hitem g hg
  | @call f fs c hf hc =>
    exact hm.step hf ⟨f.tbl, hm.framed f (hf ▸ List.mem_cons_self), hc⟩
  | done hf => exact hm.finish hf ht

theorem orderly_start (svrTbl : List Nat) : Orderly (Machine.start svrTbl) where
  tidy := tidy_start svrTbl
  framed f hf := nomatch hf
  apart := List.nodup_nil
  known hs := by
    obtain ⟨_, hwait, _⟩ := hs
    cases hwait
  place hs := by
    obtain ⟨_, hwait, _⟩ := hs
    cases hwait
  spent c hc := nomatch hc
  called hs := by
    obtain ⟨_, hwait, _⟩ := hs
    cases hwait
  once := List.nodup_nil

/-! ## The processing of a packet -/

/-- While callbacks of a domain are being called, its table stays as it is. -/
theorem CalmNext.tables (h : CalmNext m l m') (hm : Orderly m) {f : Frame} (hf : f ∈ m.frames) :
    m'.res.tables f.tbl = m.res.tables f.tbl := by
  obtain ⟨h, hcalm⟩ := h
  cases h with
  | lookup _ _ _ hq =>
    obtain ⟨_, _, htables, _⟩ | ⟨hreq, _, _, htables⟩ := queryHost_adds hq
    · exact congrFun htables f.tbl
    · exact (congrFun htables f.tbl).trans (addWaiter_other hm.tidy (hcalm hreq f hf) (hm.framed f hf)).2
  | packet => exact congrFun (recvResponse_cases rfl).2.1 f.tbl
  | noPacket | unknown | call | done => rfl

/-- The frame of the packet is still there, and what it has called is the beginning of the table. -/
def Serving (m₁ : Machine) (f₁ : Frame) (base : List Frame) (calls : List Callback) (m : Machine) : Prop :=
  ∃ inner f, m.frames = inner ++ f :: base ∧ f.tbl = f₁.tbl ∧
    m.res.tables f₁.tbl = m₁.res.tables f₁.tbl ∧ calls.reverse = (m₁.res.tables f₁.tbl).take f.next

section Serving

variable {f₁ : Frame} {base : List Frame} {calls : List Callback} {data : Option String}

/-- A call of the packet itself. -/
theorem Serving.call (h : Serving m₁ f₁ base calls m) (hs : Next m (.call c data) m')
    (hlen : m.frames.length = base.length + 1) : Serving m₁ f₁ base (c :: calls) m' := by
  obtain ⟨inner, f, hframes, htbl, htables, hcalls⟩ := h
  have hinner : inner = [] := by
    rw [hframes, List.length_append, List.length_cons] at hlen
    exact List.length_eq_zero_iff.mp (by omega)
  rw [hinner, List.nil_append] at hframes
  cases hs with
  | call hf hc =>
    obtain ⟨rfl, rfl⟩ := List.cons.inj (hframes.symm.trans hf)
    rw [htbl, htables] at hc
    refine ⟨[], _, rfl, htbl, htables, ?_⟩
    rw [List.reverse_cons, hcalls, List.take_add_one, hc]
    rfl

/-- Whatever happens inside a call leaves the frame below. -/
theorem Serving.inside (h : Serving m₁ f₁ base calls m) (hm : Orderly m) (hs : CalmNext m l m')
    (hlen : base.length + 1 ≤ m'.frames.length) (hnot : ∀ c data, l = .call c data → base.length + 1 < m.frames.length) :
    Serving m₁ f₁ base calls m' := by
  obtain ⟨inner, f, hframes, htbl, htables, hcalls⟩ := h
  have hmem : f ∈ m.frames := by
    rw [hframes]
    exact List.mem_append_right _ List.mem_cons_self
  have htables : m'.res.tables f₁.tbl = m₁.res.tables f₁.tbl := by
    rw [← htables, ← htbl]
    exact hs.tables hm hmem
  have hkept : ∀ inner', m'.frames = inner' ++ f :: base → Serving m₁ f₁ base calls m' :=
    fun inner' he => ⟨inner', f, he, htbl, htables, hcalls⟩
  obtain ⟨hs, _⟩ := hs
  cases hs with
  | lookup | noPacket | unknown => exact hkept inner hframes
  | @packet pkgData out qid item ret =>
    refine hkept ((recvResponse pkgData qid item ret out m.res).1.toList ++ inner) ?_
    rw [List.append_assoc, ← hframes]
  | @call g fs c hf =>
    have hlong := hnot _ _ rfl
    rw [hframes] at hf hlong
    cases inner with
    | nil => exact absurd hlong (Nat.lt_irrefl _)
    | cons g' inner =>
      obtain ⟨_, rfl⟩ := List.cons.inj hf
      exact hkept (_ :: inner) rfl
  | @done g fs hf =>
    rw [hframes] at hf
    cases inner with
    | nil =>
      obtain ⟨_, rfl⟩ := List.cons.inj hf
      exact absurd hlen (Nat.not_succ_le_self _)
    | cons g' inner =>
      obtain ⟨_, rfl⟩ := List.cons.inj hf
      exact hkept inner rfl

theorem Processing.serving (h : Processing CalmNext m₁ calls m) (hm : Orderly m₁)
    (hf : m₁.frames = f₁ :: base) (hnext : f₁.next = 0) : Orderly m ∧ Serving m₁ f₁ base calls m := by
  have hlen : m₁.frames.length = base.length + 1 := by rw [hf, List.length_cons]
  induction h with
  | taken =>
    refine ⟨hm, [], f₁, hf, rfl, rfl, ?_⟩
    rw [hnext]
    rfl
  | call _ hs htop ih => exact ⟨hs.orderly ih.1, ih.2.call hs.1 (htop.trans hlen)⟩
  | inside _ hs hdeep hnot ih =>
    rw [hlen] at hdeep hnot
    exact ⟨hs.orderly ih.1, ih.2.inside ih.1 hs hdeep hnot⟩

end Serving

/-- In a calm run, a response wakes those that wait when it is taken, each of them once. -/
theorem response_wakes_earlier {svrTbl : List Nat} {ls : List Input} {m₀ : Machine} {pkgData : List UInt8}
    (h : Path CalmNext (Machine.start svrTbl) ls m₀) (hp : CalmNext m₀ (.packet (some pkgData)) m₁)
    (htaken : m₁.frames.length = m₀.frames.length + 1) : WakesEarlier CalmNext m₀ m₁ := by
  have hm₀ : Orderly m₀ := h.keeps (fun _ _ _ hs hi => hs.orderly hi) (orderly_start svrTbl)
  have hm₁ := hp.orderly hm₀
  -- the frame of the packet
  obtain ⟨f₁, hf, hnext, hslots⟩ : ∃ f₁, m₁.frames = f₁ :: m₀.frames ∧ f₁.next = 0 ∧
      ∀ D i c, m₁.res.Slot D i c → m₀.res.Slot D i c := by
    obtain ⟨hp, _⟩ := hp
    cases hp with
    | unknown => exact absurd htaken (Nat.ne_of_lt (Nat.lt_succ_self _))
    | @packet _ out qid item ret =>
      obtain ⟨f, t, hr⟩ : ∃ f t, recvResponse pkgData qid item ret out m₀.res = (f, t) := ⟨_, _, rfl⟩
      rw [hr] at htaken ⊢
      obtain ⟨hwait, htables, _, _, hframe⟩ := recvResponse_cases hr
      obtain ⟨rfl, _⟩ | ⟨f, rfl, _, _, hnext, _⟩ := hframe
      · exact absurd htaken (Nat.ne_of_lt (Nat.lt_succ_self _))
      · exact ⟨f, rfl, hnext, fun D i c hs => (Resolver.Slot.congr hwait htables).mp hs⟩
  have hframed := hm₁.framed f₁ (hf ▸ List.mem_cons_self)
  refine ⟨fun calls m hproc c hc => ?_, fun calls m hproc => (hproc.serving hm₁ hf hnext).1.once,
    (m₁.res.tables f₁.tbl).length, fun calls m hproc => ?_⟩
  · obtain ⟨_, inner, f, _, _, _, hcalls⟩ := hproc.serving hm₁ hf hnext
    have hmem : c ∈ m₁.res.tables f₁.tbl := by
      rw [← List.mem_reverse, hcalls] at hc
      exact List.mem_of_mem_take hc
    obtain ⟨i, hi⟩ := List.mem_iff_getElem?.mp hmem
    exact ⟨f₁.domain, i, hslots _ _ _ ⟨f₁.tbl, hframed, hi⟩⟩
  · obtain ⟨_, inner, f, _, _, _, hcalls⟩ := hproc.serving hm₁ hf hnext
    have hle : calls.reverse.length ≤ (m₁.res.tables f₁.tbl).length := by
      rw [hcalls]
      exact List.length_take_le' ..
    rwa [List.length_reverse] at hle

/-- `a.b` is looked up. -/
def waitingMachine : Machine :=
  { Machine.start [4] with res := (Machine.start [4]).res.lookedUp 1 domains.1 }

/-- The packet `[1, 0]`, a broken response, has been taken. -/
def wakingMachine : Machine := { waitingMachine with
  res := (recvResponse [1, 0] 1 ⟨domains.1, 21⟩ (-10) [0, 0, 0, 0] waitingMachine.res).2
  frames := (recvResponse [1, 0] 1 ⟨domains.1, 21⟩ (-10) [0, 0, 0, 0] waitingMachine.res).1.toList ++
    waitingMachine.frames }

/-- Its callback has been called. -/
def wokenMachine : Machine :=
  { wakingMachine with frames := [⟨1, domains.1, none, 0, 1⟩], invoked := [(0, none)] }

theorem waiting_run : Path CalmNext (Machine.start [4]) [.lookup 1 domains.1 .waits] waitingMachine := by
  have hlook : queryHost 1 domains.1 (Machine.start [4]).res = .ok (.waits, (Machine.start [4]).res.lookedUp 1 domains.1) :=
    queryHost_lookedUp (by decide +kernel)
  exact .single ⟨.lookup (fun _ hf => nomatch hf) (by decide) (by decide) hlook, fun _ _ hf => nomatch hf⟩

theorem waking_step : CalmNext waitingMachine (.packet (some [1, 0])) wakingMachine := by
  refine ⟨.packet (fun _ hf => nomatch hf) (by decide) (by decide +kernel) (by decide +kernel) (parsed_of (fun _ => 0) ?_),
    fun _ _ _ _ _ hf => nomatch hf⟩
  decide +kernel

theorem length_waking_frames : wakingMachine.frames.length = 1 := by decide +kernel

theorem woken_step : Next wakingMachine (.call 0 none) wokenMachine :=
  .call (f := ⟨1, domains.1, none, 0, 0⟩) (by decide +kernel) (by decide +kernel)

/-- The callback looks up another domain. -/
theorem response_wakes_earlier_once : ∃ m₀ m₁ m : Machine, Processing CalmNext m₁ [0] m ∧
    m₀.res.Registered 0 ∧ m.res.Registered 1 ∧ (m.invoked.map Prod.fst).Nodup := by
  obtain ⟨t, hquery, hwaits⟩ : ∃ t, queryHost 2 domains.2 wokenMachine.res = .ok (.waits, t) ∧ t.Registered 1 :=
    ⟨_, queryHost_lookedUp (by decide +kernel), domains.2, 0, 1, by decide +kernel, by decide +kernel⟩
  let m : Machine := { wokenMachine with res := t }
  have hlookup : CalmNext wokenMachine (.lookup 2 domains.2 .waits) m := by
    refine ⟨.lookup ?_ (by decide) (by decide) hquery, fun _ f hf => ?_⟩
    · intro f hf
      cases hf
      exact Nat.one_pos
    · obtain rfl := List.mem_singleton.mp hf
      decide
  have hproc : Processing CalmNext wakingMachine [0] m :=
    .inside (.call .taken ⟨woken_step, trivial⟩ rfl) hlookup (Nat.le_of_eq length_waking_frames) fun _ _ h => nomatch h
  have hwakes := response_wakes_earlier waiting_run waking_step (by decide +kernel)
  exact ⟨_, _, _, hproc, hwakes.earlier _ _ hproc 0 List.mem_cons_self, hwaits, hwakes.once _ _ hproc⟩

/-- The callback looks up its own domain again, and what it adds is called. -/
theorem not_response_wakes_earlier : ¬ ∀ (svrTbl : List Nat) (ls : List Input) (m₀ m₁ : Machine)
    (pkgData : List UInt8), Path Next (Machine.start svrTbl) ls m₀ → Next m₀ (.packet (some pkgData)) m₁ →
    m₁.frames.length = m₀.frames.length + 1 → WakesEarlier Next m₀ m₁ := by
  intro h
  obtain ⟨t, hquery, hadded⟩ : ∃ t, queryHost 2 domains.1 wokenMachine.res = .ok (.waits, t) ∧
      (t.tables 0)[1]? = some 1 := ⟨_, queryHost_lookedUp (by decide +kernel), by decide +kernel⟩
  let a : Machine := { wokenMachine with res := t }
  let b : Machine := { a with frames := [⟨1, domains.1, none, 0, 2⟩], invoked := [(1, none), (0, none)] }
  have hlookup : Next wokenMachine (.lookup 2 domains.1 .waits) a := by
    refine .lookup (fun f hf => ?_) (by decide) (by decide) hquery
    cases hf
    exact Nat.one_pos
  have hcall : Next a (.call 1 none) b :=
    .call (f := ⟨1, domains.1, none, 0, 1⟩) rfl hadded
  have hproc : Processing Next wakingMachine [1, 0] b :=
    .call (.inside (.call .taken woken_step rfl) hlookup (Nat.le_of_eq length_waking_frames)
      fun _ _ h => nomatch h) hcall length_waking_frames.symm
  have hwakes := h [4] _ _ _ _ (waiting_run.mono fun _ _ _ hs => hs.1) waking_step.1 (by decide +kernel)
  obtain ⟨D, i, hslot⟩ := hwakes.earlier _ _ hproc 1 List.mem_cons_self
  -- one callback had been given out
  have hm : Orderly waitingMachine := waiting_run.keeps (fun _ _ _ hs hi => hs.orderly hi) (orderly_start [4])
  have hnext : waitingMachine.res.nextCallback = 1 := by decide +kernel
  exact absurd (hm.known hslot) (by rw [hnext]; exact Nat.lt_irrefl _)

end MNet.Dns
