import MNet.Addr
import MNet.Kernel

/-! # Addresses of the C++ wrapper

A `ChannAddr` of `mnet_wrapper.h` keeps an address as a value and as text. `resolveHost` makes the
text with `sprintf`, and `copyAddr` out of the whole array `ip`. -/

namespace MNet
open MNet.Lib
open MNet.Dns (CString DOT)

/-- `std::string`, whose characters may be NULs. -/
abbrev CppString := List UInt8

/-- `c_str()`, as far as a C function reads it. -/
def cStr (s : CppString) : CString where
  bytes := s.takeWhile (· ≠ 0)
  noNul h := by simpa using List.mem_takeWhile_imp h

/-! ## Names of hosts -/

inductive SockType where
  | stream | dgram
deriving DecidableEq

/-- `struct in_addr`, in the order of the text. -/
structure InAddr where
  a : UInt8
  b : UInt8
  c : UInt8
  d : UInt8
deriving DecidableEq

/-- What `inet_ntop` writes, and `getnameinfo` for a numeric host. -/
def InAddr.text (i : InAddr) : List UInt8 :=
  digits i.a.toNat ++ DOT :: (digits i.b.toNat ++ DOT :: (digits i.c.toNat ++ DOT :: digits i.d.toNat))

/-- What the system knows of names: the addresses of a host, unless there is an error, and whether
an address is given back as text. -/
structure Netdb where
  getaddrinfo : CString → Option (List UInt8) → SockType → Option (List InAddr)
  getnameinfo : InAddr → Bool

/-- A pointer that is `none` is NULL. -/
def mnetResolve (db : Netdb) (host : Option CString) (port : Int) (ctype : Nat)
    (addr : Option ChannAddrT) : Int × Option ChannAddrT :=
  match host, addr with
  | some host, some addr =>
    let socktype := if ctype = CHANN_TYPE_DGRAM ∨ ctype = CHANN_TYPE_BROADCAST then .dgram else .stream
    match db.getaddrinfo host (if port > 0 then some (decimal port) else none) socktype with
    | none => (0, some addr)
    | some ai =>
      match ai.find? (fun curr => 7 < curr.text.length) with
      | none => (0, some addr)
      | some validIn =>
        if db.getnameinfo validIn then
          (1, some { strncpy addr validIn.text (validIn.text.length + 1) with port := port })
        else (0, some addr)
  | _, addr => (0, addr)

/-! ## The wrapper -/

/-- `tcp` -/
def TCP : CppString := [116, 99, 112]

/-- `udp` -/
def UDP : CppString := [117, 100, 112]

def channType (streamType : CppString) : Nat :=
  if streamType = TCP then CHANN_TYPE_STREAM
  else if streamType = UDP then CHANN_TYPE_DGRAM
  else CHANN_TYPE_BROADCAST

/-- `std::string::find`, as an `int`, in which `npos` is -1. -/
def find (s : CppString) (c : UInt8) : Int :=
  match s.findIdx? (· == c) with
  | some i => wrap32 i
  | none => -1

/-- `%s:%d` -/
def printAddr (addr : ChannAddrT) : CppString := addr.text ++ COLON :: decimal addr.port

structure ChannAddr where
  addr : ChannAddrT
  addrString : CppString

/-- The memory of the object is not initialised. -/
def ChannAddr.new (memory : ChannAddrT) : ChannAddr where
  addr := { memory with port := 0 }
  addrString := []

def ChannAddr.ofIpPort (memory : ChannAddrT) (ipPort : CppString) : ChannAddr where
  addr := (mnetParseIpport (some (cStr ipPort)) (some memory)).2.getD memory
  addrString := ipPort

/-- The host and the port in front of and behind a colon that is not the first character. -/
def splitHostPort (hostPort : CppString) : CString × Int :=
  let f := find hostPort COLON
  if 0 < f then
    (cStr (hostPort.take f.toNat), atoi (cStr (hostPort.drop (f.toNat + 1))).bytes)
  else (cStr hostPort, 0)

/-- The call of `mnet_resolve` that `resolveHost` makes, with its own `addr` on the stack. -/
def resolveCall (db : Netdb) (stack : ChannAddrT) (hostPort streamType : CppString) :
    Int × Option ChannAddrT :=
  let (host, port) := splitHostPort hostPort
  mnetResolve db (some host) port (channType streamType) (some stack)

def ChannAddr.resolveHost (db : Netdb) (memory stack : ChannAddrT) (hostPort streamType : CppString) :
    ChannAddr :=
  if 0 < hostPort.length ∧ 0 < streamType.length then
    match resolveCall db stack hostPort streamType with
    | (r, some addr) => if r ≠ 0 then ofIpPort memory (printAddr addr) else new memory
    | (_, none) => new memory
  else new memory

/-- All of `ip` becomes part of the text. -/
def ChannAddr.copyAddr (self : ChannAddr) (a : Option ChannAddrT) : ChannAddr :=
  match a with
  | some a => { addr := a, addrString := (List.range SIZEOF_IP).map a.ip ++ COLON :: decimal a.port }
  | none => self

/-! ## Dotted quads -/

/-- A number of up to three digits. -/
structure Octet (g : List UInt8) : Prop where
  pos : 1 ≤ g.length
  short : g.length ≤ 3
  digit : ∀ c ∈ g, isDigit c

def DottedQuad (t : List UInt8) : Prop :=
  ∃ a b c d, t = a ++ DOT :: (b ++ DOT :: (c ++ DOT :: d)) ∧ Octet a ∧ Octet b ∧ Octet c ∧ Octet d

theorem octet_digits (v : UInt8) : Octet (digits v.toNat) where
  pos := List.length_pos_of_ne_nil (digits_ne_nil _)
  short := (length_digits_le (by decide)).mpr (Nat.lt_trans v.toNat_lt (by decide))
  digit _ hc := isDigit_of_mem_digits hc

theorem InAddr.dottedQuad (i : InAddr) : DottedQuad i.text :=
  ⟨_, _, _, _, rfl, octet_digits i.a, octet_digits i.b, octet_digits i.c, octet_digits i.d⟩

section Quad

variable {t : List UInt8} {v : Int}

theorem DottedQuad.length (h : DottedQuad t) : 7 ≤ t.length ∧ t.length ≤ 15 := by
  obtain ⟨a, b, c, d, rfl, ha, hb, hc, hd⟩ := h
  have := And.intro ha.pos ha.short
  have := And.intro hb.pos hb.short
  have := And.intro hc.pos hc.short
  have := And.intro hd.pos hd.short
  simp only [List.length_append, List.length_cons]
  omega

theorem DottedQuad.mem (h : DottedQuad t) {c : UInt8} (hc : c ∈ t) : c = DOT ∨ isDigit c := by
  obtain ⟨g₁, g₂, g₃, g₄, rfl, h₁, h₂, h₃, h₄⟩ := h
  simp only [List.mem_append, List.mem_cons] at hc
  rcases hc with hc | hc | hc | hc | hc | hc | hc
  · exact .inr (h₁.digit c hc)
  · exact .inl hc
  · exact .inr (h₂.digit c hc)
  · exact .inl hc
  · exact .inr (h₃.digit c hc)
  · exact .inl hc
  · exact .inr (h₄.digit c hc)

theorem DottedQuad.noNul (h : DottedQuad t) : 0 ∉ t := fun h0 =>
  absurd (h.mem h0) (by decide)

theorem DottedQuad.noColon (h : DottedQuad t) : COLON ∉ t := fun hc =>
  absurd (h.mem hc) (by decide)

theorem DottedQuad.ne_colon (h : DottedQuad t) (c : UInt8) (hc : c ∈ t) : decide (c ≠ COLON) = true :=
  decide_eq_true fun he => h.noColon (he ▸ hc)

theorem decimal_noNul (v : Int) : 0 ∉ decimal v := fun h0 =>
  absurd (mem_decimal h0) (by decide)

/-! ## What is printed is parsed -/

theorem cStr_bytes {s : CppString} (h : 0 ∉ s) : (cStr s).bytes = s :=
  List.takeWhile_eq_self_iff.mpr fun _ hc => decide_eq_true fun he => h (he ▸ hc)

theorem printed_noNul (h : DottedQuad t) : 0 ∉ t ++ COLON :: decimal v := by
  rw [List.mem_append, List.mem_cons]
  rintro (h0 | h0 | h0)
  · exact h.noNul h0
  · exact absurd h0 (by decide)
  · exact decimal_noNul v h0

theorem hostPart_printed (h : DottedQuad t) : hostPart (cStr (t ++ COLON :: decimal v)) = t := by
  rw [hostPart, cStr_bytes (printed_noNul h), List.takeWhile_append_of_pos h.ne_colon,
    List.takeWhile_cons_of_neg (by simp), List.append_nil]

theorem portPart_printed (h : DottedQuad t) :
    portPart (cStr (t ++ COLON :: decimal v)) = decimal v := by
  rw [portPart, cStr_bytes (printed_noNul h), List.dropWhile_append_of_pos h.ne_colon,
    List.dropWhile_cons_of_neg (by simp), List.tail_cons]

/-- A printed address is read back, into whatever the address was before. -/
theorem parse_printed (h : DottedQuad t) (hv : -2 ^ 31 ≤ v ∧ v < 2 ^ 31) (addr : ChannAddrT) :
    ∃ addr', mnetParseIpport (some (cStr (t ++ COLON :: decimal v))) (some addr) = (1, some addr') ∧
      addr'.text = t ∧ addr'.port = v := by
  have hcolon : COLON ∈ (cStr (t ++ COLON :: decimal v)).bytes := by
    rw [cStr_bytes (printed_noNul h)]
    exact List.mem_append_right _ List.mem_cons_self
  have hhost := hostPart_printed (v := v) h
  have hlen := h.length
  have hholds := fillIp_host (hhost.symm ▸ hlen.1) (hhost.symm ▸ Nat.lt_of_le_of_lt hlen.2 (by decide))
    hcolon addr
  refine ⟨_, mnetParseIpport_colon hcolon addr, ?_, ?_⟩
  · exact hholds.text.trans hhost
  · show atoi (portPart _) = v
    rw [portPart_printed h, atoi_decimal hv.1 hv.2]

end Quad

/-! ## Where an address comes from -/

section Resolve

variable {db : Netdb} {memory stack : ChannAddrT} {hostPort streamType : CppString}

theorem mnetResolve_found {host : CString} {port : Int} {ctype : Nat}
    (h : (mnetResolve db (some host) port ctype (some stack)).1 ≠ 0) :
    ∃ i : InAddr, mnetResolve db (some host) port ctype (some stack) =
      (1, some { strncpy stack i.text (i.text.length + 1) with port := port }) := by
  unfold mnetResolve at h ⊢
  dsimp only at h ⊢
  split at h
  · exact absurd rfl h
  · split at h
    · exact absurd rfl h
    · rename_i i _
      split at h
      · exact ⟨i, if_pos ‹_›⟩
      · exact absurd rfl h

theorem strncpy_text (i : InAddr) : (strncpy stack i.text (i.text.length + 1)).Holds i.text where
  fits := Nat.lt_of_le_of_lt i.dottedQuad.length.2 (by decide)
  noNul := i.dottedQuad.noNul
  byte k hk := (strncpy_ip _ _ _).trans (if_pos (Nat.lt_succ_of_lt hk))
  nul := by
    rw [strncpy_ip, if_pos (Nat.lt_succ_self _)]
    exact List.getD_eq_default _ _ (Nat.le_refl _)

/-- A port is an `int`. -/
theorem splitHostPort_port (hostPort : CppString) :
    -2 ^ 31 ≤ (splitHostPort hostPort).2 ∧ (splitHostPort hostPort).2 < 2 ^ 31 := by
  unfold splitHostPort
  dsimp only
  split
  · exact atoi_mem _
  · exact And.intro (Int.neg_nonpos_of_nonneg (by decide)) (by decide : (0 : Int) < 2 ^ 31)

/-- What `resolveHost` prints. -/
theorem resolveCall_found (h : (resolveCall db stack hostPort streamType).1 ≠ 0) :
    ∃ addr, resolveCall db stack hostPort streamType = (1, some addr) ∧ DottedQuad addr.text ∧
      -2 ^ 31 ≤ addr.port ∧ addr.port < 2 ^ 31 := by
  obtain ⟨i, hi⟩ := mnetResolve_found h
  refine ⟨_, hi, ?_, splitHostPort_port hostPort⟩
  have htext : (strncpy stack i.text (i.text.length + 1)).text = i.text := (strncpy_text i).text
  exact htext.symm ▸ i.dottedQuad

end Resolve

/-- The two ways to a `ChannAddr` that has an address. -/
inductive Origin where
  | resolveHost | copyAddr
deriving DecidableEq

inductive Produced (db : Netdb) : Origin → ChannAddr → Prop
  | resolveHost (memory stack : ChannAddrT) {hostPort streamType : CppString}
      (hhost : 0 < hostPort.length) (htype : 0 < streamType.length)
      (hfound : (resolveCall db stack hostPort streamType).1 ≠ 0) :
      Produced db .resolveHost (.resolveHost db memory stack hostPort streamType)
  | copyAddr (self : ChannAddr) {a : ChannAddrT} (hquad : DottedQuad a.text)
      (hport : 0 ≤ a.port ∧ a.port ≤ 65535) :
      Produced db .copyAddr (self.copyAddr (some a))

/-- The text, parsed into any address, gives the value. -/
def ChannAddr.Agrees (self : ChannAddr) : Prop :=
  ∀ addr, ∃ addr', mnetParseIpport (some (cStr self.addrString)) (some addr) = (1, some addr') ∧
    addr'.text = self.addr.text ∧ addr'.port = self.addr.port

theorem ofIpPort_agrees {t : List UInt8} {v : Int} (h : DottedQuad t) (hv : -2 ^ 31 ≤ v ∧ v < 2 ^ 31)
    (memory : ChannAddrT) : (ChannAddr.ofIpPort memory (t ++ COLON :: decimal v)).Agrees := by
  intro addr
  obtain ⟨addr', hparse, htext, hport⟩ := parse_printed h hv addr
  obtain ⟨own, hown, howntext, hownport⟩ := parse_printed h hv memory
  have haddr : (ChannAddr.ofIpPort memory (t ++ COLON :: decimal v)).addr = own := by
    rw [ChannAddr.ofIpPort, hown]
    rfl
  exact ⟨addr', hparse, by rw [haddr, htext, howntext], by rw [haddr, hport, hownport]⟩

/-- The text ends in front of the colon. -/
theorem copyAddr_text {a : ChannAddrT} (hquad : DottedQuad a.text) (self : ChannAddr) :
    (cStr (self.copyAddr (some a)).addrString).bytes = a.text := by
  have hlen : a.text.length ≠ ((List.range SIZEOF_IP).map a.ip).length := by
    have hle := hquad.length.2
    rw [List.length_map, List.length_range]
    unfold SIZEOF_IP
    omega
  exact (List.takeWhile_append).trans (if_neg hlen)

/-- The text and the value of an address agree where `resolveHost` has made it, and never where
`copyAddr` has. -/
theorem channAddr_agrees {db : Netdb} {o : Origin} {self : ChannAddr} (h : Produced db o self) :
    self.Agrees ↔ o = .resolveHost := by
  cases h with
  | resolveHost memory stack hhost htype hfound =>
    refine iff_of_true ?_ rfl
    obtain ⟨addr, hcall, hquad, hport⟩ := resolveCall_found hfound
    rw [ChannAddr.resolveHost, if_pos ⟨hhost, htype⟩, hcall]
    exact ofIpPort_agrees hquad hport memory
  | copyAddr self hquad hport =>
    refine iff_of_false (fun h => ?_) (by decide)
    obtain ⟨_, hparse, _⟩ := h { ip := fun _ => 0 }
    rw [mnetParseIpport_no_colon (copyAddr_text hquad self ▸ hquad.noColon)] at hparse
    cases hparse

/-- `localhost:80` -/
def localhost80 : CppString := [108, 111, 99, 97, 108, 104, 111, 115, 116, 58, 56, 48]

/-- Every host is the one itself. -/
def loopbackDb : Netdb where
  getaddrinfo _ _ _ := some [⟨127, 0, 0, 1⟩]
  getnameinfo _ := true

/-- `127.0.0.1` and the port 80. -/
def loopbackAddr : ChannAddrT where
  ip k := (InAddr.text ⟨127, 0, 0, 1⟩).getD k 0
  port := 80

theorem loopbackAddr_quad : DottedQuad loopbackAddr.text := by
  have htext : loopbackAddr.text = InAddr.text ⟨127, 0, 0, 1⟩ := by decide +kernel
  exact htext ▸ InAddr.dottedQuad _

theorem channAddr_agrees_loopback :
    (ChannAddr.resolveHost loopbackDb loopbackAddr { ip := fun _ => 0 } localhost80 TCP).Agrees ∧
      ¬ ((ChannAddr.new { ip := fun _ => 0 }).copyAddr (some loopbackAddr)).Agrees := by
  have hresolve : Produced loopbackDb .resolveHost
      (.resolveHost loopbackDb loopbackAddr { ip := fun _ => 0 } localhost80 TCP) :=
    .resolveHost _ _ (by decide) (by decide) (by decide +kernel)
  have hcopy : Produced loopbackDb .copyAddr
      ((ChannAddr.new { ip := fun _ => 0 }).copyAddr (some loopbackAddr)) :=
    .copyAddr _ loopbackAddr_quad (by decide)
  refine ⟨(channAddr_agrees hresolve).mpr rfl, fun h => ?_⟩
  cases (channAddr_agrees hcopy).mp h

theorem not_channAddr_agrees :
    ¬ ∀ (db : Netdb) (o : Origin) (self : ChannAddr), Produced db o self → self.Agrees := by
  intro h
  have hcopy : Produced loopbackDb .copyAddr
      ((ChannAddr.new { ip := fun _ => 0 }).copyAddr (some loopbackAddr)) :=
    .copyAddr _ loopbackAddr_quad (by decide)
  obtain ⟨addr', hparse, _⟩ := h _ _ _ hcopy { ip := fun _ => 0 }
  have hzero : (mnetParseIpport (some (cStr ((ChannAddr.new { ip := fun _ => 0 }).copyAddr
      (some loopbackAddr)).addrString)) (some { ip := fun _ => 0 })).1 = 0 := by
    decide +kernel
  rw [hparse] at hzero
  cases hzero

end MNet
