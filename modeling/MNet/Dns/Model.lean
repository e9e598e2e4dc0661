import Mathlib.Logic.Function.Basic
import MNet.Lib.Exec

/-! # DNS queries and responses

`mdns.c`, on a host that stores numbers low byte first. A function faults when it leaves a buffer,
whose size is the length of the list, or writes past the end of `domain_buf`. What the functions
that read a response write is in `out`. Sums of `int`s do not overflow for buffers that fit into
memory. -/

namespace MNet.Dns
open MNet.Lib

inductive Fault where
  | outOfBounds
deriving DecidableEq, Repr

/-! ## Numbers in memory -/

def load16 (lo hi : UInt8) : UInt16 := UInt16.ofNat (lo.toNat + 256 * hi.toNat)

def bytes16 (v : UInt16) : List UInt8 := [UInt8.ofNat v.toNat, UInt8.ofNat (v.toNat / 256)]

def htons (v : UInt16) : UInt16 := UInt16.ofNat (v.toNat % 256 * 256 + v.toNat / 256)

def ntohs (v : UInt16) : UInt16 := htons v

/-- A NUL-terminated string, less the NUL. -/
structure CString where
  bytes : List UInt8
  noNul : 0 ∉ bytes
deriving DecidableEq

/-! ## Structures -/

/-- `dns_header_t`. -/
structure DnsHeader where
  id : UInt16 := 0
  rd : BitVec 1 := 0
  tc : BitVec 1 := 0
  aa : BitVec 1 := 0
  opcode : BitVec 4 := 0
  qr : BitVec 1 := 0
  rcode : BitVec 4 := 0
  z : BitVec 3 := 0
  ra : BitVec 1 := 0
  qdcount : UInt16 := 0
  ancount : UInt16 := 0
  nscount : UInt16 := 0
  arcount : UInt16 := 0
deriving DecidableEq

/-- The bit fields fill each byte from its least significant bit on. -/
def DnsHeader.bytes (h : DnsHeader) : List UInt8 :=
  bytes16 h.id ++
    [.ofBitVec (h.qr ++ h.opcode ++ h.aa ++ h.tc ++ h.rd), .ofBitVec (h.ra ++ h.z ++ h.rcode)] ++
    bytes16 h.qdcount ++ bytes16 h.ancount ++ bytes16 h.nscount ++ bytes16 h.arcount

/-- `dns_question_t`. -/
structure DnsQuestion where
  qtype : UInt16
  qclass : UInt16
deriving DecidableEq

def DnsQuestion.bytes (q : DnsQuestion) : List UInt8 := bytes16 q.qtype ++ bytes16 q.qclass

/-- `sizeof(dns_header_t)` and `sizeof(dns_question_t)`. -/
def SIZEOF_DNS_HEADER : Nat := 12
def SIZEOF_DNS_QUESTION : Nat := 4

/-- `sizeof(dns_rr_data_t) - 2`. -/
def sizeofDnsRrData : Nat := 10

def DNS_BUF_SIZE : Nat := 1024
def QUERY_DOMAIN_LEN : Nat := 256

/-! ## Names -/

/-- `.` -/
def DOT : UInt8 := 46

/-- The array `domain_buf`, with the indices written so far, newest first, those past its end
included. -/
structure DomainBuf where
  byte : Nat → UInt8
  writes : List Nat := []

def DomainBuf.put (buf : DomainBuf) (i : Nat) (v : UInt8) : DomainBuf where
  byte := Function.update buf.byte i v
  writes := i :: buf.writes

/-- Validates the length of a label, and stores it at `pos`. -/
def getLabelLen (buf : DomainBuf) (pos llen : Nat) : Bool × DomainBuf :=
  if llen > 63 ∨ llen ≤ 0 then (false, buf) else (true, buf.put pos (UInt8.ofNat llen))

/-- The loop of `_construct_domain_field` over what is left of the domain: `none` when a label is
refused, and otherwise `i`, `j` and `dot` behind the loop. -/
def constructLoop : List UInt8 → Nat → Nat → Nat → DomainBuf → Option (Nat × Nat × Nat) × DomainBuf
  | [], i, j, dot, buf => (some (i, j, dot), buf)
  | c :: cs, i, j, dot, buf =>
    if i < QUERY_DOMAIN_LEN then
      if c = DOT then
        match getLabelLen buf j (i - j) with
        | (false, buf) => (none, buf)
        | (true, buf) => constructLoop cs (i + 1) (1 + i) (dot + 1) buf
      else constructLoop cs (i + 1) j dot (buf.put (1 + i) c)
    else (some (i, j, dot), buf)

def constructDomainField (buf : DomainBuf) (domain : CString) : Nat × DomainBuf :=
  match constructLoop domain.bytes 0 0 0 (buf.put 0 DOT) with
  | (none, buf) => (0, buf)
  | (some (i, j, dot), buf) =>
    match getLabelLen buf j (i - j) with
    | (false, buf) => (0, buf)
    | (true, buf) => if dot < 1 ∨ i > 255 then (0, buf) else (i + 1, buf)

/-- `domain_buf` is filled, unless something is written past its end: `none`. -/
def domainField (stack : Nat → UInt8) (domain : CString) : Option (Nat × DomainBuf) :=
  let field := constructDomainField { byte := stack } domain
  if ∀ k ∈ field.2.writes, k < QUERY_DOMAIN_LEN then some field else none

/-! ## Queries -/

/-- `bytes` copied to the offset `off`. -/
def store (buf : List UInt8) (off : Nat) (bytes : List UInt8) : List UInt8 :=
  buf.take off ++ bytes ++ buf.drop (off + bytes.length)

/-- A pointer that is `none` is NULL. The result is returned with the buffer. -/
def mdnsQueryBuild (buf : Option (List UInt8)) (qid : UInt16) (domain : Option CString) :
    Except Fault (Int × Option (List UInt8)) :=
  match buf, domain with
  | some buf, some domain =>
    if qid = 0 then .ok (-1, some buf)
    else
      match domainField (fun _ => 0) domain with
      | none => .error .outOfBounds
      | some field =>
        -- kept in a byte
        let dlen := UInt8.ofNat field.1
        if dlen = 0 then .ok (-2, some buf)
        else if buf.length < DNS_BUF_SIZE then .error .outOfBounds
        else
          let querySize := SIZEOF_DNS_HEADER + dlen.toNat + 1 + SIZEOF_DNS_QUESTION
          let h : DnsHeader := { id := qid, rd := 1, qdcount := htons 1 }
          let q : DnsQuestion := { qtype := htons 1, qclass := htons 1 }
          let buf := store buf 0 (List.replicate DNS_BUF_SIZE 0)
          let buf := store buf 0 h.bytes
          let buf := store buf SIZEOF_DNS_HEADER ((List.range dlen.toNat).map field.2.byte)
          let buf := store buf (SIZEOF_DNS_HEADER + dlen.toNat + 1) q.bytes
          .ok (querySize, some buf)
  | buf, _ => .ok (-1, buf)

/-! ## Responses -/

/-- The received packet, and the four bytes of `out_ipv4`. -/
structure Resp where
  buf : List UInt8
  out : List UInt8
deriving DecidableEq, Repr

abbrev P := Exec Resp Fault

def byteAt (i : Int) : P UInt8 := do
  let buf ← Exec.read Resp.buf
  Exec.require .outOfBounds (if 0 ≤ i then buf[i.toNat]? else none)

def load16At (i : Int) : P UInt16 := do
  let lo ← byteAt i
  let hi ← byteAt (i + 1)
  return load16 lo hi

/-- The length of the string that starts at `i`. -/
def strlen (i : Int) : P Nat := do
  let buf ← Exec.read Resp.buf
  Exec.require .outOfBounds (if 0 ≤ i then (buf.drop i.toNat).findIdx? (· == 0) else none)

/-- Compares what stands at `pos` with `s`, from the index `k` on for at most `n` bytes. -/
def strncmp (pos : Int) (s : Nat → UInt8) : Nat → Nat → P Int
  | 0, _ => return 0
  | n + 1, k => do
    let a ← byteAt (pos + k)
    if a ≠ s k then return a.toNat - (s k).toNat
    else if a = 0 then return 0
    else strncmp pos s n (k + 1)

/-- The bit field of `w` bits from bit `i` on of the byte at `pos`. -/
def bitsAt (pos : Int) (i w : Nat) : P (BitVec w) := do
  let b ← byteAt pos
  return b.toBitVec.extractLsb' i w

def rhRd : P (BitVec 1) := bitsAt 2 0 1
def rhOpcode : P (BitVec 4) := bitsAt 2 3 4
def rhQr : P (BitVec 1) := bitsAt 2 7 1
def rhRcode : P (BitVec 4) := bitsAt 3 0 4
def rhZ : P (BitVec 3) := bitsAt 3 4 3
def rhQdcount : P UInt16 := load16At 4
def rhAncount : P UInt16 := load16At 6

/-- `||` -/
def anyOf : List (P Bool) → P Bool
  | [] => return false
  | m :: ms => do
    let b ← m
    if b then return true else anyOf ms

def responseCheckHeader : P Int := do
  let rcode ← rhRcode
  let code := rcode.toNat
  let bad ← anyOf [
    do let qr ← rhQr; return qr ≠ 1,
    do let opcode ← rhOpcode; return opcode ≠ 0,
    do let rd ← rhRd; return rd ≠ 1,
    do let z ← rhZ; return z ≠ 0,
    do let qdcount ← rhQdcount; return qdcount ≠ htons 1,
    do let ancount ← rhAncount; return ancount = 0 ∧ code = 0,
    return code ≥ 6 ∧ code ≤ 15]
  if bad then return -10
  else if code ≥ 1 ∧ code ≤ 5 then return -(10 + code)
  else return 1

/-- `stack` is what `domain_buf` holds before it is filled. The name is compared as a string, for
as many bytes as the domain has characters; nothing depends on the type and the class. -/
def responseCheckQuestion (stack : Nat → UInt8) (querySize : Int) (domain : CString) : P Int := do
  let len := domain.bytes.length
  let field ← Exec.require .outOfBounds (domainField stack domain)
  let cmp ← strncmp SIZEOF_DNS_HEADER field.2.byte len 0
  if cmp ≠ 0 then return -23
  else
    let qtype ← load16At (querySize - SIZEOF_DNS_QUESTION)
    if qtype = 0 then
      let _ ← load16At (querySize - SIZEOF_DNS_QUESTION + 2)
      return 1
    else return 1

/-- `memcpy(out_ipv4, &buf[offset], 4)`. -/
def copyOut (offset : Int) : P Unit := do
  let a ← byteAt offset
  let b ← byteAt (offset + 1)
  let c ← byteAt (offset + 2)
  let d ← byteAt (offset + 3)
  Exec.modify fun s => { s with out := [a, b, c, d] ++ s.out.drop 4 }

/-- The type of an answer of class IN is looked at: an address, or a pointer to a name. -/
def isAddress (answer : Int) : P Bool := do
  let cls ← load16At (answer + 2)
  if cls = ntohs 1 then
    let type ← load16At answer
    return type = ntohs 1 ∨ type = ntohs 12
  else return false

/-- The walk over at most `count` records from `prev` on. -/
def fetchLoop (contentLen : Int) : Nat → Int → P Int
  | 0, _ => return -34
  | count + 1, prev => do
    if contentLen ≤ prev + 2 + SIZEOF_DNS_HEADER then return -31
    else
      let aname ← strlen prev
      if aname < 2 ∨ contentLen ≤ prev + aname + sizeofDnsRrData then return -32
      else
        let answer := prev + aname
        let rdlen ← load16At (answer + 8)
        if contentLen < prev + aname + sizeofDnsRrData + (ntohs rdlen).toNat then return -33
        else
          let found ← isAddress answer
          if found then
            copyOut (prev + aname + sizeofDnsRrData)
            return 1
          else fetchLoop contentLen count (prev + aname + sizeofDnsRrData + (ntohs rdlen).toNat)

def responseFetchRes (contentLen querySize : Int) : P Int := do
  let ancount ← rhAncount
  fetchLoop contentLen (ntohs ancount).toNat querySize

/-- The three checks are all made, and the first that fails gives the result. -/
def responseParse (stack : Nat → UInt8) (contentLen querySize : Int) (domain : CString) : P Int := do
  let retHeader ← responseCheckHeader
  let retQuestion ← responseCheckQuestion stack querySize domain
  let retRes ← responseFetchRes contentLen querySize
  if retHeader > 0 ∧ retQuestion > 0 ∧ retRes > 0 then return 1
  else if retHeader ≤ 0 then return retHeader
  else if retQuestion ≤ 0 then return retQuestion
  else return retRes

/-- The result, and the output buffer. -/
def mdnsResponseParse (stack : Nat → UInt8) (buf : Option (List UInt8)) (contentLen querySize : Int)
    (domain : Option CString) (out : Option (List UInt8)) : Except Fault (Int × Option (List UInt8)) :=
  match buf, domain, out with
  | some buf, some domain, some out =>
    if contentLen ≤ 0 ∨ querySize ≤ 0 then .ok (0, some out)
    else
      match responseParse stack contentLen querySize domain ⟨buf, out⟩ with
      | .ok (r, s) => .ok (r, some s.out)
      | .error e => .error e
  | _, _, out => .ok (0, out)

/-- The length of the content is not looked at. -/
def mdnsResponseFetchQid (buf : Option (List UInt8)) (_contentLen : Int) : Except Fault Int :=
  match buf with
  | none => .ok 0
  | some buf =>
    match load16At 0 ⟨buf, []⟩ with
    | .ok (id, _) => .ok id.toNat
    | .error e => .error e

end MNet.Dns
