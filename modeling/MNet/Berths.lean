import MNet.Protocol

/-! # Descriptors of channels

A descriptor that a channel keeps is open, and no other channel keeps it. This is so of a refused
connect as well, whose channel is not active. -/

namespace MNet
open MNet.Lib MNet.Lib.Exec

variable {ε : Type} {x : ExtTable ε} {s t : Sys ε} {n : ChannId} {c : Chann}

structure Berthed (s : Sys ε) : Prop where
  opened : ∀ n c, s.heap n = some c → 0 < c.fd → s.kernel.socks c.fd ≠ none
  inj : ∀ n m c d, s.heap n = some c → s.heap m = some d → 0 < c.fd → c.fd = d.fd → n = m

namespace Berthed

variable {fd : Int}

/-- What is kept was kept before, and is still open. -/
theorem mono (h : Berthed s) (hfd : ∀ m d, t.heap m = some d → 0 < d.fd → ∃ c, s.heap m = some c ∧ c.fd = d.fd)
    (hsocks : ∀ m d, t.heap m = some d → 0 < d.fd → t.kernel.socks d.fd = s.kernel.socks d.fd) : Berthed t where
  opened m d hd hpos := by
    obtain ⟨c, hc, he⟩ := hfd m d hd hpos
    rw [hsocks m d hd hpos, ← he]
    exact h.opened m c hc (he ▸ hpos)
  inj m i d e hd he hpos heq := by
    obtain ⟨c, hc, hcd⟩ := hfd m d hd hpos
    obtain ⟨f, hf, hfe⟩ := hfd i e he (heq ▸ hpos)
    exact h.inj m i c f hc hf (hcd ▸ hpos) (by rw [hcd, hfe, heq])

theorem of_fd (h : Berthed s) (hfd : ∀ m, (t.heap m).map Chann.fd = (s.heap m).map Chann.fd)
    (hsocks : t.kernel.socks = s.kernel.socks) : Berthed t := by
  refine h.mono (fun m d hd _ => ?_) fun _ _ _ _ => by rw [hsocks]
  have hm := hfd m
  rw [hd] at hm
  exact Option.map_eq_some_iff.mp hm.symm

/-- A channel is written to. -/
theorem of_set {d : Chann} (h : Berthed s) (hc : s.heap n = some c)
    (hheap : t.heap = Function.update s.heap n (some d)) (hd : d.fd = c.fd)
    (hsocks : t.kernel.socks = s.kernel.socks) : Berthed t := by
  refine h.of_fd (fun m => ?_) hsocks
  rw [hheap]
  by_cases hm : m = n
  · simp [hm, hc, hd]
  · rw [Function.update_of_ne hm]

theorem aside (h : Berthed s) (ha : Aside s t) : Berthed t := by
  refine h.of_fd (fun m => ?_) ha.socks
  have hm := congrArg (Option.map Prod.fst) (ha.bones m)
  rw [Option.map_map, Option.map_map] at hm
  exact hm

/-- A descriptor that was not open is no channel's. -/
theorem unused (h : Berthed s) (hfree : s.kernel.socks fd = none) (hc : s.heap n = some c) (hpos : 0 < c.fd) :
    c.fd ≠ fd := fun he => h.opened n c hc hpos (he ▸ hfree)

theorem recorded {e : SysEvent} (h : Berthed s) : Berthed (s.recorded e) := ⟨h.opened, h.inj⟩

/-- Nobody but `n` keeps the new descriptor, if `n` does. -/
theorem take {k : SockId} (h : Berthed s) (hfree : s.kernel.socks fd = none)
    (hsocks : t.kernel.socks = Function.update s.kernel.socks fd (some k))
    (hheap : ∀ m d, t.heap m = some d → 0 < d.fd → (m = n ∧ d.fd = fd) ∨ ∃ c, s.heap m = some c ∧ c.fd = d.fd) :
    Berthed t where
  opened m d hd hpos := by
    rw [hsocks]
    obtain ⟨_, he⟩ | ⟨c, hc, he⟩ := hheap m d hd hpos
    · simp [he]
    · rw [Function.update_of_ne (he ▸ h.unused hfree hc (he ▸ hpos)), ← he]
      exact h.opened m c hc (he ▸ hpos)
  inj m i d e hd he hpos heq := by
    obtain ⟨hm, hdf⟩ | ⟨c, hc, hcd⟩ := hheap m d hd hpos
    all_goals obtain ⟨hi, hef⟩ | ⟨f, hf, hfe⟩ := hheap i e he (heq ▸ hpos)
    · rw [hm, hi]
    · exact absurd (by rw [hfe, ← heq, hdf]) (h.unused hfree hf (by rw [hfe, ← heq]; exact hpos))
    · exact absurd (by rw [hcd, heq, hef]) (h.unused hfree hc (hcd ▸ hpos))
    · exact h.inj m i c f hc hf (hcd ▸ hpos) (by rw [hcd, hfe, heq])

/-- A channel gets the new descriptor, or keeps its own. -/
theorem take_update {d : Chann} (h : Berthed s) (hnew : NewFd fd s t) (hc : s.heap n = some c)
    (hheap : t.heap = Function.update s.heap n (some d)) (hd : d.fd = fd ∨ d.fd = c.fd) : Berthed t := by
  refine h.take (n := n) hnew.free hnew.socks fun m e he _ => ?_
  rw [hheap] at he
  by_cases hm : m = n
  · subst hm
    rw [Function.update_self, Option.some.injEq] at he
    subst he
    exact hd.imp (fun hd => ⟨rfl, hd⟩) fun hd => ⟨c, hc, hd.symm⟩
  · rw [Function.update_of_ne hm] at he
    exact .inr ⟨e, he, rfl⟩

theorem released {d : Chann} (h : Berthed s) (hr : Released n d s t) : Berthed t := by
  have hback : ∀ m e, t.heap m = some e → 0 < e.fd → m ≠ n ∧ s.heap m = some e := by
    intro m e he hpos
    rw [hr.heap] at he
    by_cases hm : m = n
    · rw [hm, Function.update_self, Option.some.injEq] at he
      rw [← he] at hpos
      exact absurd hpos (by simp)
    · rw [Function.update_of_ne hm] at he
      exact ⟨hm, he⟩
  refine h.mono (fun m e he hpos => ⟨e, (hback m e he hpos).2, rfl⟩) fun m e he hpos => ?_
  obtain ⟨hm, hs⟩ := hback m e he hpos
  rw [hr.socks, Function.update_of_ne fun heq => hm (h.inj m n e d hs hr.was hpos heq)]

theorem closed (h : Berthed s) (hfree : ∀ m d, s.heap m = some d → 0 < d.fd → d.fd ≠ fd) {u : Unit}
    (hclose : Returns (sysClose fd) s u t) : Berthed t := by
  obtain ⟨hheap, _, _, _, hsocks, _⟩ := sysClose_cases hclose
  rw [← hheap] at hfree
  refine h.mono (fun m d hd _ => ⟨d, hheap ▸ hd, rfl⟩) fun m d hd hpos => ?_
  rw [hsocks, Function.update_of_ne (hfree m d hd hpos)]

theorem destroyed (h : Berthed s) (hd : Destroyed n c s t) : Berthed t := by
  refine h.mono (fun m d hm _ => ?_) fun _ _ _ _ => by rw [hd.socks]
  obtain ⟨_, e, he, hfd, _⟩ := hd.kept hm
  exact ⟨e, he, hfd.symm⟩

theorem created {ctype : Nat} {st : ChannState} (h : Berthed s) (hcr : Created n ctype st s t) : Berthed t := by
  obtain ⟨p, hp⟩ := hcr.chann
  refine h.mono (fun m d hd hpos => ?_) fun _ _ _ _ => by rw [hcr.kernel]
  by_cases hm : m = n
  · rw [hm, hp, Option.some.injEq] at hd
    rw [← hd] at hpos
    exact absurd hpos (by simp)
  · rw [hcr.others m hm] at hd
    obtain ⟨c, hc, rfl⟩ := Option.map_eq_some_iff.mp hd
    refine ⟨c, hc, ?_⟩
    split <;> rfl

theorem leaked (h : Berthed s) (hnew : NewFd fd s t) (hheap : t.heap = s.heap) : Berthed t :=
  h.take (n := 0) hnew.free hnew.socks fun _ d hd _ => .inr ⟨d, hheap ▸ hd, rfl⟩

/-- A descriptor that does not come to use, which is closed again. -/
theorem bounced {a : Sys ε} {addr : SockAddr} {u : Unit} (h : Berthed s) (hnew : NewFd fd s a)
    (hc : s.heap n = some c) (hheap : a.heap = Function.update s.heap n (some { c with addr := addr }))
    (hclose : Returns (sysClose fd) a u t) : Berthed t := by
  refine (h.take_update hnew hc hheap (.inr rfl)).closed (fun m d hd hpos => ?_) hclose
  rw [hheap] at hd
  by_cases hm : m = n
  · rw [hm, Function.update_self, Option.some.injEq] at hd
    rw [← hd] at hpos ⊢
    exact h.unused (c := c) hnew.free hc hpos
  · rw [Function.update_of_ne hm] at hd
    exact h.unused hnew.free hd hpos

/-- A new channel gets the descriptor. -/
theorem accepted {a b : Sys ε} {ctype : Nat} {st : ChannState} {addr : SockAddr} (h : Berthed s)
    (hnew : NewFd fd s a) (hheap : a.heap = s.heap) (hcreate : Returns (channCreate ctype st) a n b) : Berthed (b.setChann n { c with fd := fd, addr := addr }) := by
  have hcr := channCreate_created hcreate
  refine h.take (n := n) (k := s.kernel.nextSock) hnew.free ?_ fun m d hd _ => ?_
  · show b.kernel.socks = _
    rw [hcr.kernel, hnew.socks]
  · by_cases hm : m = n
    · rw [hm, setChann_self, Option.some.injEq] at hd
      exact .inl ⟨hm, by rw [← hd]⟩
    · rw [show (b.setChann n _).heap m = b.heap m from Function.update_of_ne hm .., hcr.others m hm, hheap] at hd
      obtain ⟨e, he, rfl⟩ := Option.map_eq_some_iff.mp hd
      refine .inr ⟨e, he, ?_⟩
      split <;> rfl

end Berthed

section

variable (hx : Obedient x)
include hx

theorem channDisconnectSocket_berthed {r : Int} (h : Returns (channDisconnectSocket (opsOf x) n) s r t)
    (hs : Berthed s) : Berthed t := by
  obtain ⟨c, _, ⟨_, _, rfl⟩ | ⟨_, _, _, a, d, u, hcb, hrel⟩⟩ := channDisconnectSocket_cases h
  · exact hs
  rw [opsConfig_opsOf] at hcb
  exact (hs.recorded.aside (aside_cb hx _ .disconnectCb (by decide) (by decide) _ _ hcb)).released hrel

theorem CallsBack.berthed (h : CallsBack x s t) (hs : Berthed s) : Berthed t := by
  induction h with
  | refl => exact hs
  | tail _ hstep ih =>
    obtain ha | ⟨m, u, hd⟩ := hstep
    · exact ih.aside ha
    · cases m with
      | none => rwa [(returns_pure.mp hd).2]
      | some m =>
        simp only [mnetChannDisconnect, returns_bind, returns_pure] at hd
        obtain ⟨r, b, hd, _, rfl⟩ := hd
        exact channDisconnectSocket_berthed hx hd ih

theorem Move.berthed {d : Deed} (h : Move x s d t) (hs : Berthed s) : Berthed t := by
  cases h with
  | plain h => exact hs.aside h.aside
  | forget hc | sendFlag hc | cache hc | address hc => exact hs.aside (aside_setChann hc rfl)
  | established hc _ => exact hs.of_set hc rfl rfl rfl
  | ctl h =>
    obtain ⟨_, _, hctl, _⟩ := evtCtl_cases h
    exact hs.aside hctl.aside
  | queue | wipe => exact hs.of_fd (fun _ => rfl) rfl
  | opened _ hnew hcb =>
    obtain ⟨_, _, rfl, hcb⟩ := returns_callback.mp hcb
    exact (hs.created (channCreate_created hnew)).recorded.aside (aside_cb hx _ .openCb (by decide) (by decide) _ _ hcb)
  | accept hl hnew hheap hcreate hc hcb =>
    exact (callsBack_cb hx _ .acceptCb _ _ hcb).berthed hx (hs.accepted hnew hheap hcreate).recorded
  | attach hc hst hnew hent hheap hadd hcb =>
    obtain ⟨_, _, hctl⟩ := evtAdd_cases hadd
    exact (callsBack_cb hx _ _ _ _ hcb).berthed hx ((hs.take_update hnew hc hheap (.inl rfl)).aside hctl.aside).recorded
  | refuse hc hst hnew hheap href => exact hs.take_update hnew hc hheap (.inl rfl)
  | bounce hc _ hnew hheap hclose => exact hs.bounced hnew hc hheap hclose
  | leak hnew hheap _ => exact hs.leaked hnew hheap
  | message _ h =>
    obtain ⟨c, hc, h⟩ := channMsg_cases h
    exact (callsBack_filterFn hx _ _ _ h).berthed hx (hs.aside (aside_setChann hc rfl))
  | send h => exact hs.aside (aside_channSend hx h)
  | recv _ h => exact (hs.aside (aside_recvFn hx _ _ _ _ h)).recorded
  | disconnect h => exact channDisconnectSocket_berthed hx h hs
  | close _ h =>
    obtain ⟨c, _, ⟨_, rfl⟩ | ⟨_, a, d, _, hcb, hd, rfl⟩⟩ := channCloseSocket_cases h
    · exact hs
    rw [opsConfig_opsOf] at hcb
    exact (hs.recorded.aside (aside_cb hx _ .closeCb (by decide) (by decide) _ _ hcb)).of_set hd rfl rfl rfl
  | destroy h =>
    obtain ⟨c, hc, ⟨_, rfl⟩ | hdes⟩ := channDestroy_cases h
    · exact hs
    · exact hs.destroyed hdes

theorem Moves.berthed {A : Set Deed} (h : Moves x A s t) (hs : Berthed s) : Berthed t :=
  h.keeps (fun _ _ _ _ hm hs => hm.berthed hx hs) hs

theorem Step.berthed {l : Call × Ret} (h : Step x s l t) (hs : Berthed s) : Berthed t :=
  (moves_apiCall l.1 l.2 t h).berthed hx hs

end

theorem berthed_start (o : Oracle) (e : ε) : Berthed (Sys.start o e) where
  opened n c hc := by cases hc
  inj n m c d hc := by cases hc

end MNet
