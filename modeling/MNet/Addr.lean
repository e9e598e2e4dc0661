import Mathlib.Data.List.GetD
import MNet.Dns.Model
import MNet.Lib.Decimal

/-! # Addresses from text

`mnet_parse_ipport` takes a string such as `127.0.0.1:8080` apart. The part in front of the first
colon is copied into `ip` whatever its length. -/

namespace MNet
open MNet.Lib
open MNet.Dns (CString)

/-- `chann_addr_t`, with the indices of `ip` written so far, newest first. An index past the end of
`ip` is kept apart from the rest of the memory. -/
structure ChannAddrT where
  ip : Nat → UInt8
  port : Int := 0
  writes : List Nat := []

/-- `sizeof(addr->ip)`. -/
def SIZEOF_IP : Nat := 17

def COLON : UInt8 := 58

/-- `0.0.0.0` -/
def ANY_IP : List UInt8 := [48, 46, 48, 46, 48, 46, 48]

def ChannAddrT.put (addr : ChannAddrT) (i : Nat) (v : UInt8) : ChannAddrT :=
  { addr with ip := Function.update addr.ip i v, writes := i :: addr.writes }

/-- The index of the first `c`. -/
def strchr (s : CString) (c : UInt8) : Option Nat := s.bytes.findIdx? (· == c)

/-- Writes `n` bytes, NULs behind the end of `src`. -/
def strncpy (addr : ChannAddrT) (src : List UInt8) : Nat → ChannAddrT
  | 0 => addr
  | n + 1 => (strncpy addr src n).put n (src.getD n 0)

/-- A pointer that is `none` is NULL. -/
def mnetParseIpport (ipport : Option CString) (addr : Option ChannAddrT) : Int × Option ChannAddrT :=
  match ipport, addr with
  | some ipport, some addr =>
    match strchr ipport COLON with
    | some p =>
      let addr := if 7 ≤ p then strncpy (addr.put p 0) ipport.bytes p else strncpy addr ANY_IP 8
      (1, some { addr with port := atoi (ipport.bytes.drop (p + 1)) })
    | none => (0, some addr)
  | _, addr => (0, addr)

/-! ## The text of an address -/

/-- `ip` as a string that ends inside the array. -/
def ChannAddrT.text (addr : ChannAddrT) : List UInt8 :=
  ((List.range SIZEOF_IP).map addr.ip).takeWhile (· ≠ 0)

/-- `t` stands in `ip`, with a NUL behind it. -/
structure ChannAddrT.Holds (addr : ChannAddrT) (t : List UInt8) : Prop where
  fits : t.length < SIZEOF_IP
  noNul : 0 ∉ t
  byte : ∀ k < t.length, addr.ip k = t.getD k 0
  nul : addr.ip t.length = 0

section Text

variable {addr : ChannAddrT} {t : List UInt8}

theorem ChannAddrT.Holds.text (h : addr.Holds t) : addr.text = t := by
  have hsplit : (List.range SIZEOF_IP).map addr.ip =
      t ++ 0 :: ((List.range SIZEOF_IP).map addr.ip).drop (t.length + 1) := by
    have hfits := h.fits
    refine List.ext_getElem (by simp; omega) fun k hk _ => ?_
    rw [List.getElem_map, List.getElem_range]
    rcases Nat.lt_trichotomy k t.length with hlt | heq | hgt
    · rw [List.getElem_append_left hlt, h.byte k hlt, List.getD_eq_getElem _ _ hlt]
    · subst heq
      rw [List.getElem_append_right (Nat.le_refl _), h.nul]
      simp
    · obtain ⟨m, rfl⟩ : ∃ m, k = t.length + 1 + m := ⟨k - (t.length + 1), by omega⟩
      rw [List.getElem_append_right (by omega)]
      simp [show t.length + 1 + m - t.length = m + 1 by omega]
  have hnul : ∀ c ∈ t, decide (c ≠ 0) = true := fun c hc => decide_eq_true fun he => h.noNul (he ▸ hc)
  rw [ChannAddrT.text, hsplit, List.takeWhile_append_of_pos hnul, List.takeWhile_cons_of_neg (by simp),
    List.append_nil]

@[simp] theorem ChannAddrT.put_ip_self (i : Nat) (v : UInt8) : (addr.put i v).ip i = v :=
  Function.update_self ..

theorem ChannAddrT.put_ip_of_ne {i k : Nat} (h : k ≠ i) (v : UInt8) :
    (addr.put i v).ip k = addr.ip k :=
  Function.update_of_ne h ..

theorem strncpy_ip (src : List UInt8) (n k : Nat) :
    (strncpy addr src n).ip k = if k < n then src.getD k 0 else addr.ip k := by
  induction n with
  | zero => rfl
  | succ n ih =>
    rw [strncpy]
    by_cases hk : k = n
    · rw [hk, ChannAddrT.put_ip_self, if_pos (Nat.lt_succ_self n)]
    · rw [ChannAddrT.put_ip_of_ne hk, ih]
      exact if_congr (by omega) rfl rfl

theorem mem_strncpy_writes {src : List UInt8} {n k : Nat} :
    k ∈ (strncpy addr src n).writes ↔ k < n ∨ k ∈ addr.writes := by
  induction n with
  | zero => exact (or_iff_right (Nat.not_lt_zero k)).symm
  | succ n ih =>
    rw [strncpy, ChannAddrT.put, List.mem_cons, ih, ← or_assoc]
    exact or_congr_left (by omega)

end Text

/-! ## What is parsed -/

/-- The part in front of the first colon. -/
def hostPart (ipport : CString) : List UInt8 := ipport.bytes.takeWhile (· ≠ COLON)

/-- The part behind it. -/
def portPart (ipport : CString) : List UInt8 := (ipport.bytes.dropWhile (· ≠ COLON)).tail

section Parse

variable {ipport : CString}

theorem hostPart_append (h : COLON ∈ ipport.bytes) :
    ipport.bytes = hostPart ipport ++ COLON :: portPart ipport := by
  have hsplit := List.takeWhile_append_dropWhile (p := (· ≠ COLON)) (l := ipport.bytes)
  cases hdrop : ipport.bytes.dropWhile (· ≠ COLON) with
  | nil =>
    have hall := List.dropWhile_eq_nil_iff.mp hdrop COLON h
    simp at hall
  | cons c cs =>
    have hc : c = COLON := by
      have hhead := List.head?_dropWhile_not (· ≠ COLON) ipport.bytes
      rw [hdrop] at hhead
      simpa using hhead
    rw [hc] at hdrop
    rw [hostPart, portPart, hdrop, List.tail_cons, ← hdrop, hsplit]

theorem hostPart_noNul (ipport : CString) : 0 ∉ hostPart ipport := fun h =>
  ipport.noNul ((List.takeWhile_prefix _).subset h)

theorem strchr_colon (h : COLON ∈ ipport.bytes) :
    strchr ipport COLON = some (hostPart ipport).length := by
  have hhost : (hostPart ipport).findIdx? (· == COLON) = none := by
    refine List.findIdx?_eq_none_iff.mpr fun c hc => ?_
    have hne := List.mem_takeWhile_imp hc
    simpa using hne
  rw [strchr, hostPart_append h, List.findIdx?_append, hhost, List.findIdx?_cons]
  simp

theorem strchr_no_colon (h : COLON ∉ ipport.bytes) : strchr ipport COLON = none := by
  refine List.findIdx?_eq_none_iff.mpr fun c hc => ?_
  simpa using fun he : c = COLON => h (he ▸ hc)

/-- What `ip` is filled with. -/
def fillIp (ipport : CString) (addr : ChannAddrT) : ChannAddrT :=
  if 7 ≤ (hostPart ipport).length then
    strncpy (addr.put (hostPart ipport).length 0) ipport.bytes (hostPart ipport).length
  else strncpy addr ANY_IP 8

theorem mnetParseIpport_colon (h : COLON ∈ ipport.bytes) (addr : ChannAddrT) :
    mnetParseIpport (some ipport) (some addr) =
      (1, some { fillIp ipport addr with port := atoi (portPart ipport) }) := by
  have hport : ipport.bytes.drop ((hostPart ipport).length + 1) = portPart ipport := by
    rw [hostPart_append h, ← List.drop_drop, List.drop_left, List.drop_one, List.tail_cons]
  simp only [mnetParseIpport, strchr_colon h, hport]
  rfl

theorem mnetParseIpport_no_colon (h : COLON ∉ ipport.bytes) (addr : ChannAddrT) :
    mnetParseIpport (some ipport) (some addr) = (0, some addr) := by
  simp only [mnetParseIpport, strchr_no_colon h]

/-! ## The bounds of `ip` -/

theorem fillIp_any (h : (hostPart ipport).length < 7) (addr : ChannAddrT) :
    (fillIp ipport addr).Holds ANY_IP := by
  rw [fillIp, if_neg (Nat.not_le.mpr h)]
  refine ⟨by decide, by decide, fun k hk => ?_, ?_⟩
  · exact (strncpy_ip _ _ _).trans (if_pos (Nat.lt_succ_of_lt hk))
  · exact (strncpy_ip _ _ _).trans rfl

/-- The terminator stands behind the bytes that are copied. -/
theorem fillIp_host (h : 7 ≤ (hostPart ipport).length) (hlen : (hostPart ipport).length < SIZEOF_IP)
    (hcolon : COLON ∈ ipport.bytes) (addr : ChannAddrT) :
    (fillIp ipport addr).Holds (hostPart ipport) := by
  rw [fillIp, if_pos h]
  refine ⟨hlen, hostPart_noNul ipport, fun k hk => ?_, ?_⟩
  · rw [strncpy_ip, if_pos hk, hostPart_append hcolon, List.getD_append _ _ _ _ hk]
  · rw [strncpy_ip, if_neg (Nat.lt_irrefl _), ChannAddrT.put_ip_self]

/-- Among the indices is the length of the part in front of the colon. -/
theorem fillIp_inside {addr : ChannAddrT} (hnew : addr.writes = []) :
    (∀ i ∈ (fillIp ipport addr).writes, i < SIZEOF_IP) ↔ (hostPart ipport).length < SIZEOF_IP := by
  unfold fillIp
  split
  · refine ⟨fun h => h _ (mem_strncpy_writes.mpr (.inr List.mem_cons_self)), fun hlen i hi => ?_⟩
    rcases mem_strncpy_writes.mp hi with hlt | hmem
    · exact Nat.lt_trans hlt hlen
    · rw [ChannAddrT.put, hnew, List.mem_singleton] at hmem
      exact hmem ▸ hlen
  · have hshort : (hostPart ipport).length < SIZEOF_IP := show _ < 17 by omega
    refine iff_of_true (fun i hi => ?_) hshort
    rcases mem_strncpy_writes.mp hi with hlt | hmem
    · exact Nat.lt_of_lt_of_le hlt (by decide)
    · rw [hnew] at hmem
      cases hmem

/-- What the parser owes its caller for the string `ipport`. -/
structure ParsesSafely (ipport : CString) (addr : ChannAddrT) : Prop where
  found : ∀ addr', mnetParseIpport (some ipport) (some addr) = (1, some addr') →
    COLON ∈ ipport.bytes ∧ (∀ i ∈ addr'.writes, i < SIZEOF_IP) ∧
      (∃ k < SIZEOF_IP, addr'.ip k = 0) ∧
      addr'.text = if 7 ≤ (hostPart ipport).length then hostPart ipport else ANY_IP
  missing : COLON ∉ ipport.bytes → mnetParseIpport (some ipport) (some addr) = (0, some addr)

/-- The parser is safe on the strings whose part in front of the colon fits into `ip`. -/
theorem mnetParseIpport_safe (ipport : CString) (ip : Nat → UInt8) (port : Int) :
    ParsesSafely ipport { ip, port } ↔
      (COLON ∈ ipport.bytes → (hostPart ipport).length < SIZEOF_IP) := by
  refine ⟨fun h hcolon => ?_, fun h => ⟨fun addr' hparse => ?_, fun hno => ?_⟩⟩
  · obtain ⟨_, hinside, _⟩ := h.found _ (mnetParseIpport_colon hcolon _)
    exact (fillIp_inside rfl).mp hinside
  · by_cases hcolon : COLON ∈ ipport.bytes
    · have hlen := h hcolon
      rw [mnetParseIpport_colon hcolon, Prod.mk.injEq, Option.some.injEq] at hparse
      obtain ⟨_, rfl⟩ := hparse
      have hinside : ∀ i ∈ (fillIp ipport { ip, port }).writes, i < SIZEOF_IP :=
        (fillIp_inside rfl).mpr hlen
      by_cases h7 : 7 ≤ (hostPart ipport).length
      · have hholds := fillIp_host h7 hlen hcolon { ip, port }
        rw [if_pos h7]
        exact ⟨hcolon, hinside, ⟨_, hholds.fits, hholds.nul⟩, hholds.text⟩
      · have hholds := fillIp_any (Nat.not_le.mp h7) { ip, port }
        rw [if_neg h7]
        exact ⟨hcolon, hinside, ⟨_, hholds.fits, hholds.nul⟩, hholds.text⟩
    · rw [mnetParseIpport_no_colon hcolon] at hparse
      cases hparse
  · exact mnetParseIpport_no_colon hno _

end Parse

/-- `localhost.example:80` -/
def longIpport : CString where
  bytes := [108, 111, 99, 97, 108, 104, 111, 115, 116, 46, 101, 120, 97, 109, 112, 108, 101, 58, 56, 48]
  noNul := by decide

theorem not_mnetParseIpport_safe :
    ¬ ∀ (ipport : CString) (addr : ChannAddrT), addr.writes = [] → ParsesSafely ipport addr := by
  intro h
  have hcolon : COLON ∈ longIpport.bytes := by decide
  obtain ⟨_, hinside, _⟩ :=
    (h longIpport { ip := fun _ => 0 } rfl).found _ (mnetParseIpport_colon hcolon _)
  have hwritten : 17 ∈ (fillIp longIpport { ip := fun _ => 0 }).writes := by decide +kernel
  exact Nat.lt_irrefl _ (hinside 17 hwritten)

end MNet
