import MNet.Wepoll.PortSpec

/-! # What a port is for

Seen by its user, a port is a set of sockets with the events that are looked for on each. `epoll_ctl`
changes the set; `epoll_wait` tells of events that are looked for, and stops looking on a one-shot
socket that it has told of; a socket drops out only when AFD found that it was closed. `EpollSet.Step`
says this without any of the queues, packets and poll operations of the port. -/

namespace MNet.Wepoll

variable {τ : Type}

/-- From sockets to the events that are looked for, with the data that goes with them. -/
abbrev EpollSet : Type := Nat → Option EpollEvent

/-- AFD finds during the action that a socket was closed. -/
def PortAction.Closes : PortAction τ → Prop
  | .ctl env .. => env.Closes
  | .wait env .. => env.Closes
  | .resume env .. => env.Closes
  | .close => False
  | .complete _ _ info => info.Closed
  | .dequeue .. => False
  | .fail .. => False

/-- AFD has found that a socket was closed. -/
def ClosesIn (l : List (PortAction τ × PortAnswer)) : Prop := ∃ x ∈ l, x.1.Closes

namespace EpollSet

/-- Some sockets drop out, which happens only when `closed`. -/
def Drops (closed : Prop) (m m' : EpollSet) : Prop := ∀ k, m' k = m k ∨ (closed ∧ m' k = none)

theorem Drops.refl {closed : Prop} (m : EpollSet) : Drops closed m m := fun _ => .inl rfl

/-- Only the sockets `l` stay. -/
def restrict (m : EpollSet) (l : List Nat) : EpollSet := fun k => if k ∈ l then m k else none

/-- The events `l` are told of, each with its socket. -/
inductive Tells (closed : Prop) : EpollSet → List (Nat × EpollEvent) → EpollSet → Prop
  | done {m m' : EpollSet} : Drops closed m m' → Tells closed m [] m'
  | tell {m m₁ m' : EpollSet} {k : Nat} {ev w : EpollEvent} {l : List (Nat × EpollEvent)} :
    Drops closed m m₁ → m₁ k = some w → ev.data = w.data → ev.events ≠ 0 → ev.events &&& ~~~w.events = 0 →
    Tells closed (Function.update m₁ k (some w.told)) l m' → Tells closed m ((k, ev) :: l) m'

/-- What an action does to the set. -/
inductive Step (closed : Prop) : EpollSet → PortAction τ → PortAnswer → EpollSet → Prop
  | add {m m' : EpollSet} {env : WinEnv} {k : Nat} {ev : EpollEvent} :
    m k = none → Drops closed (Function.update m k (some ev.armed)) m' →
    Step closed m (.ctl env EPOLL_CTL_ADD k ev) (.code 0) m'
  | mod {m m' : EpollSet} {env : WinEnv} {k : Nat} {ev : EpollEvent} :
    m k ≠ none → Drops closed (Function.update m k (some ev.armed)) m' →
    Step closed m (.ctl env EPOLL_CTL_MOD k ev) (.code 0) m'
  | del {m : EpollSet} {env : WinEnv} {k : Nat} {ev : EpollEvent} :
    m k ≠ none → Step closed m (.ctl env EPOLL_CTL_DEL k ev) (.code 0) (Function.update m k none)
  | refused {m : EpollSet} {env : WinEnv} {op : Int} {k : Nat} {ev : EpollEvent} :
    (op = EPOLL_CTL_MOD ∨ op = EPOLL_CTL_DEL → m k = none) → Step closed m (.ctl env op k ev) (.code (-1)) m
  | waits {m m' : EpollSet} {env : WinEnv} {t : τ} {n : Int} {alloc : Bool} :
    Drops closed m m' → Step closed m (.wait env t n alloc) (.wait .waiting) m'
  | refusesWait {m m' : EpollSet} {env : WinEnv} {t : τ} {n k : Int} {alloc : Bool} :
    Drops closed m m' → (k = -1 ∨ k = 0) → Step closed m (.wait env t n alloc) (.wait (.returned k [])) m'
  | waitsOn {m m' : EpollSet} {env : WinEnv} {t : τ} {again : Bool} :
    Drops closed m m' → Step closed m (.resume env t again) (.wait .waiting) m'
  | tells {m m' : EpollSet} {env : WinEnv} {t : τ} {again : Bool} {n : Int} {l : List (Nat × EpollEvent)} :
    Tells closed m l m' → (l.map Prod.fst).Nodup → (n = l.length ∨ (n = -1 ∧ l = [])) →
    Step closed m (.resume env t again) (.wait (.returned n (l.map Prod.snd))) m'
  | close {m : EpollSet} : Step closed m .close .none m
  | complete {m : EpollSet} {s : SockId} {status : NtStatus} {info : AfdPollInfo} :
    Step closed m (.complete s status info) .none m
  | dequeue {m : EpollSet} {t : τ} {n : Nat} : Step closed m (.dequeue t n) .none m
  | fail {m : EpollSet} {t : τ} : Step closed m (.fail t) .none m

/-- What the set is after the actions, with their answers. -/
inductive Runs : List (PortAction τ × PortAnswer) → EpollSet → Prop
  | nil : Runs [] fun _ => none
  | step {l : List (PortAction τ × PortAnswer)} {m m' : EpollSet} {a : PortAction τ} {r : PortAnswer} :
    Runs l m → Step (ClosesIn (l ++ [(a, r)])) m a r m' → Runs (l ++ [(a, r)]) m'

end EpollSet

/-! ## The sockets of a port as a set -/

namespace Epoll

variable {e e' : Epoll τ} {m : EpollSet} {s : SockId} {k : Nat} {ev : EpollEvent} {closed : Prop}

/-- Two sockets have two keys. -/
def Apart (e : Epoll τ) : Prop := ∀ s ∈ e.tree, ∀ s' ∈ e.tree, e.key s = e.key s' → s = s'

theorem Adopts.apart (hd : e.Adopts s k ev e') (ha : e.Apart) : e'.Apart := by
  have hkey : ∀ z ∈ e.tree, e'.key z = e.key z := by
    intro z hz
    have hzs : z ≠ s := by
      rintro rfl
      exact hd.fresh hz
    rw [hd.key, Function.update_of_ne hzs]
  have hself : e'.key s = k := by rw [hd.key, Function.update_self]
  intro z hz z' hz' hk
  rw [hd.tree, List.mem_cons] at hz hz'
  rcases hz with rfl | hz
  · rcases hz' with rfl | hz'
    · rfl
    · exact absurd ((hkey z' hz').symm.trans (hk.symm.trans hself)) (hd.free z' hz')
  · rcases hz' with rfl | hz'
    · exact absurd ((hkey z hz).symm.trans (hk.trans hself)) (hd.free z hz)
    · exact ha z hz z' hz' ((hkey z hz).symm.trans (hk.trans (hkey z' hz')))

/-- The set is that of the sockets in the tree. -/
def Watches (e : Epoll τ) (m : EpollSet) : Prop :=
  ∀ k w, m k = some w ↔ ∃ s ∈ e.tree, e.key s = k ∧ e.watch s = some w

theorem Linked.exists_watch (hl : e.Linked) (hs : s ∈ e.tree) : ∃ w, e.watch s = some w := by
  obtain ⟨v, hv⟩ := hl.exists_sock (List.mem_append_left _ hs)
  exact ⟨v.watch, by simp [watch, hv]⟩

namespace Watches

theorem none_iff (h : e.Watches m) (hl : e.Linked) : m k = none ↔ ∀ s ∈ e.tree, e.key s ≠ k := by
  constructor
  · intro hnone s hs hk
    obtain ⟨w, hw⟩ := hl.exists_watch hs
    rw [(h k w).mpr ⟨s, hs, hk, hw⟩] at hnone
    cases hnone
  · intro hall
    by_contra hne
    obtain ⟨w, hw⟩ := Option.ne_none_iff_exists'.mp hne
    obtain ⟨s, hs, hk, _⟩ := (h k w).mp hw
    exact hall s hs hk

theorem get (h : e.Watches m) (hs : s ∈ e.tree) {w : EpollEvent} (hw : e.watch s = some w) : m (e.key s) = some w :=
  (h _ w).mpr ⟨s, hs, rfl, hw⟩

/-- Sockets leave the tree. -/
theorem shrinks (h : e.Watches m) (ha : e.Apart) (hsh : e.Shrinks closed e') :
    ∃ m', EpollSet.Drops closed m m' ∧ e'.Watches m' := by
  have hmem : ∀ k, k ∈ e'.tree.map e'.key ↔ ∃ s ∈ e'.tree, e'.key s = k := fun k => List.mem_map
  refine ⟨m.restrict (e'.tree.map e'.key), fun k => ?_, fun k w => ?_⟩
  · unfold EpollSet.restrict
    split
    · exact .inl rfl
    rename_i hin
    by_cases hc : closed
    · exact .inr ⟨hc, rfl⟩
    · left
      by_contra hne
      obtain ⟨w, hw⟩ := Option.ne_none_iff_exists'.mp (Ne.symm hne)
      obtain ⟨s, hs, hk, _⟩ := (h k w).mp hw
      have hs' := hsh.kept hc s hs
      exact hin ((hmem k).mpr ⟨s, hs', (hsh.watched s hs').2.1.trans hk⟩)
  · unfold EpollSet.restrict
    split
    · rename_i hin
      rw [h k w]
      constructor
      · rintro ⟨s, hs, hk, hw⟩
        obtain ⟨s', hs', hk'⟩ := (hmem k).mp hin
        obtain ⟨hs'e, hkey, hwatch⟩ := hsh.watched s' hs'
        obtain rfl : s' = s := ha s' hs'e s hs (hkey.symm.trans (hk'.trans hk.symm))
        exact ⟨s', hs', hk', hwatch.trans hw⟩
      · rintro ⟨s, hs, hk, hw⟩
        obtain ⟨hse, hkey, hwatch⟩ := hsh.watched s hs
        exact ⟨s, hse, hkey.symm.trans hk, hwatch.symm.trans hw⟩
    · rename_i hin
      refine iff_of_false (by simp) ?_
      rintro ⟨s, hs, hk, _⟩
      exact hin ((hmem k).mpr ⟨s, hs, hk⟩)

theorem keeps (h : e.Watches m) (ha : e.Apart) (hk : e.Keeps closed e') :
    ∃ m', EpollSet.Drops closed m m' ∧ e'.Watches m' := h.shrinks ha hk.shrinks

theorem same (h : e.Watches m) (ha : e.Apart) (hk : e.Keeps False e') : e'.Watches m := by
  obtain ⟨m', hd, hw⟩ := h.keeps ha hk
  obtain rfl : m' = m := funext fun k => (hd k).resolve_right (by simp)
  exact hw

/-- What is looked for on one socket changes. -/
theorem write (h : e.Watches m) (ha : e.Apart) (hs : s ∈ e.tree) {w : EpollEvent} (htree : e'.tree = e.tree)
    (hkey : e'.key = e.key) (hw : e'.watch = Function.update e.watch s (some w)) :
    e'.Watches (Function.update m (e.key s) (some w)) := by
  intro k w'
  rw [htree, hkey, hw]
  by_cases hk : k = e.key s
  · subst hk
    rw [Function.update_self]
    constructor
    · intro he
      cases he
      exact ⟨s, hs, rfl, Function.update_self ..⟩
    · rintro ⟨z, hz, hkz, hwz⟩
      obtain rfl : z = s := ha z hz s hs hkz
      rwa [Function.update_self] at hwz
  · rw [Function.update_of_ne hk, h k w']
    refine exists_congr fun z => and_congr_right fun _ => and_congr_right fun hkz => ?_
    have hzs : z ≠ s := by
      rintro rfl
      exact hk hkz.symm
    rw [Function.update_of_ne hzs]

theorem adopts (h : e.Watches m) (hd : e.Adopts s k ev e') : e'.Watches (Function.update m k (some ev.armed)) := by
  intro k' w
  rw [hd.tree, hd.key, hd.watch]
  have hother : ∀ z ∈ e.tree, z ≠ s := fun z hz he => hd.fresh (he ▸ hz)
  by_cases hk : k' = k
  · subst hk
    rw [Function.update_self]
    constructor
    · intro he
      cases he
      exact ⟨s, List.mem_cons_self, Function.update_self .., Function.update_self ..⟩
    · rintro ⟨z, hz, hkz, hwz⟩
      rcases List.mem_cons.mp hz with rfl | hz
      · rwa [Function.update_self] at hwz
      · rw [Function.update_of_ne (hother z hz)] at hkz
        exact absurd hkz (hd.free z hz)
  · rw [Function.update_of_ne hk, h k' w]
    constructor
    · rintro ⟨z, hz, hkz, hwz⟩
      refine ⟨z, List.mem_cons_of_mem s hz, ?_, ?_⟩
      · rwa [Function.update_of_ne (hother z hz)]
      · rwa [Function.update_of_ne (hother z hz)]
    · rintro ⟨z, hz, hkz, hwz⟩
      rcases List.mem_cons.mp hz with rfl | hz
      · rw [Function.update_self] at hkz
        exact absurd hkz.symm hk
      · rw [Function.update_of_ne (hother z hz)] at hkz hwz
        exact ⟨z, hz, hkz, hwz⟩

theorem removes (h : e.Watches m) (ha : e.Apart) (hl : e.Linked) (hs : s ∈ e.tree) (hr : e.Removes s e') :
    e'.Watches (Function.update m (e.key s) none) := by
  obtain ⟨hk, htree⟩ := hr
  intro k w
  have hmem : ∀ z, z ∈ e'.tree ↔ z ≠ s ∧ z ∈ e.tree := fun z => htree ▸ hl.nodup_tree.mem_erase_iff
  by_cases hks : k = e.key s
  · subst hks
    rw [Function.update_self]
    refine iff_of_false (by simp) ?_
    rintro ⟨z, hz, hkz, _⟩
    obtain ⟨hze, hkey, _⟩ := hk.shrinks.watched z hz
    exact ((hmem z).mp hz).1 (ha z hze s hs (hkey.symm.trans hkz))
  · rw [Function.update_of_ne hks, h k w]
    constructor
    · rintro ⟨z, hz, hkz, hwz⟩
      have hz' : z ∈ e'.tree := (hmem z).mpr ⟨fun he => hks (he ▸ hkz.symm), hz⟩
      obtain ⟨_, hkey, hwatch⟩ := hk.shrinks.watched z hz'
      exact ⟨z, hz', hkey.trans hkz, hwatch.trans hwz⟩
    · rintro ⟨z, hz, hkz, hwz⟩
      obtain ⟨hze, hkey, hwatch⟩ := hk.shrinks.watched z hz
      exact ⟨z, hze, hkey.symm.trans hkz, hwatch.symm.trans hwz⟩

end Watches

/-- Sockets that were in the tree have the keys they had. -/
theorem Shrinks.apart (h : e.Shrinks closed e') (ha : e.Apart) : e'.Apart := by
  intro s hs s' hs' hk
  obtain ⟨hse, hks, _⟩ := h.watched s hs
  obtain ⟨hse', hks', _⟩ := h.watched s' hs'
  exact ha s hse s' hse' (hks.symm.trans (hk.trans hks'))

theorem Apart.congr (ha : e.Apart) (htree : e'.tree = e.tree) (hkey : e'.key = e.key) : e'.Apart := by
  unfold Apart
  rw [htree, hkey]
  exact ha

/-- What the port tells is told of the set. -/
theorem Tells.watches {l : List (SockId × EpollEvent)} (ht : e.Tells closed l e') (ha : e.Apart) (h : e.Watches m)
    (hnd : (l.map Prod.fst).Nodup) : ∃ m' l', EpollSet.Tells closed m l' m' ∧ e'.Watches m' ∧
      l'.map Prod.snd = l.map Prod.snd ∧ l'.map Prod.fst = (l.map Prod.fst).map e.key ∧
      ∀ s ∈ l.map Prod.fst, s ∈ e.tree := by
  induction ht generalizing m with
  | done hsh =>
    obtain ⟨m', hd, hw⟩ := h.shrinks ha hsh
    exact ⟨m', [], .done hd, hw, rfl, rfl, by simp⟩
  | @tell e e₁ e₂ e' s ev l hsh hr ht ih =>
    obtain ⟨m₁, hd, hw₁⟩ := h.shrinks ha hsh
    have ha₁ := hsh.apart ha
    obtain ⟨w, hws, hdata, hne, hsub, hwatch⟩ := hr.asked
    have hw₂ := hw₁.write ha₁ hr.mem hr.tree hr.key hwatch
    obtain ⟨m', l', htells, hw', hsnd, hfst, hmem⟩ := ih (ha₁.congr hr.tree hr.key) hw₂ (List.nodup_cons.mp hnd).2
    have hkey : ∀ z ∈ e₁.tree, e₁.key z = e.key z := fun z hz => (hsh.watched z hz).2.1
    have hall : ∀ z ∈ l.map Prod.fst, z ∈ e₁.tree := fun z hz => hr.tree ▸ hmem z hz
    refine ⟨m', (e₁.key s, ev) :: l', .tell hd (hw₁.get hr.mem hws) hdata hne hsub htells, hw', ?_, ?_, ?_⟩
    · simp [hsnd]
    · have hmap : (l.map Prod.fst).map e₂.key = (l.map Prod.fst).map e.key := by
        refine List.map_congr_left fun z hz => ?_
        rw [hr.key]
        exact hkey z (hall z hz)
      rw [List.map_cons, hfst, hmap, hkey s hr.mem]
      rfl
    · intro z hz
      rcases List.mem_cons.mp hz with rfl | hz
      · exact (hsh.watched _ hr.mem).1
      · exact (hsh.watched z (hall z hz)).1

end Epoll

end MNet.Wepoll
