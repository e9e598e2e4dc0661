import Mathlib.Data.List.TakeWhile
import MNet.Dns.Model
import MNet.Lib.Path

/-! # The resolver

`ffi-mdns.lua`: the tables of the lookups that are under way, and what a lookup and a received
packet do to them. The tables of callbacks are shared, so they are named by numbers, and so are
the callbacks. `ffi.copy` looks at no size: a domain that does not fit into `_domain` is a fault,
and so is a packet that does not fit into `_buf`. -/

namespace MNet.Dns
open MNet.Lib

/-- A Lua string. -/
abbrev Domain := List UInt8

abbrev TblId := Nat

abbrev Callback := Nat

/-- C sees a string up to its first NUL. -/
def cstring (domain : Domain) : CString where
  bytes := domain.takeWhile (· ≠ 0)
  noNul h := by simpa using List.mem_takeWhile_imp h

/-- `{ domain, query_size }` -/
structure Item where
  domain : Domain
  querySize : Int
deriving DecidableEq

/-- The module, with `_buf` and `_out_ipv4`. -/
structure Resolver where
  buf : List UInt8 := List.replicate DNS_BUF_SIZE 0
  outIpv4 : List UInt8 := List.replicate 4 0
  /-- The channels of the servers. -/
  svrTbl : List Nat := []
  qidTbl : Nat → Option Item := fun _ => none
  domainTbl : Domain → Option String := fun _ => none
  waitTbl : Domain → Option TblId := fun _ => none
  tables : TblId → List Callback := fun _ => []
  nextTbl : TblId := 0
  nextCallback : Callback := 0
  /-- What was sent to whom, newest first. -/
  sent : List (Nat × List UInt8) := []

/-! ## Lookups -/

/-- `_wait_tbl[domain]`, which is made when it is not there. -/
def Resolver.waiters (s : Resolver) (domain : Domain) : TblId × Resolver :=
  match s.waitTbl domain with
  | some tbl => (tbl, s)
  | none => (s.nextTbl, { s with
      waitTbl := Function.update s.waitTbl domain (some s.nextTbl)
      tables := Function.update s.tables s.nextTbl []
      nextTbl := s.nextTbl + 1 })

/-- `tbl[#tbl + 1] = callback` -/
def Resolver.addWaiter (s : Resolver) (domain : Domain) (callback : Callback) : Resolver :=
  let (tbl, s) := s.waiters domain
  { s with tables := Function.update s.tables tbl (s.tables tbl ++ [callback]) }

/-- The item is filed, and the query in `_buf` is sent to every server. -/
def Resolver.request (s : Resolver) (qid : Nat) (item : Item) : Resolver :=
  let data := s.buf.take item.querySize.toNat
  { s with
    qidTbl := Function.update s.qidTbl qid (some item)
    sent := (s.svrTbl.map fun chann => (chann, data)).reverse ++ s.sent }

/-- `_domain` after `_copy(_domain, domain)`, which copies a NUL behind the domain. -/
def copyDomain (domain : Domain) : Except Fault CString :=
  if domain.length + 1 ≤ QUERY_DOMAIN_LEN then .ok (cstring domain) else .error .outOfBounds

/-- The id is the random number. -/
def sendRequest (qid : Nat) (domain : Domain) (callback : Callback) (s : Resolver) :
    Except Fault (Bool × Resolver) := do
  let cdomain ← copyDomain domain
  let (querySize, buf) ← mdnsQueryBuild (some s.buf) (UInt16.ofNat qid) (some cdomain)
  let s := { s with buf := buf.getD [] }
  if querySize ≤ 0 then return (false, s)
  else return (true, (s.request qid ⟨domain, querySize⟩).addWaiter domain callback)

/-- What a lookup comes to: the address, `false`, or the coroutine yields. -/
inductive Reply where
  | ipv4 (addr : String)
  | failed
  | waits
deriving DecidableEq

/-- `queryHost` of a string. -/
def queryHost (qid : Nat) (domain : Domain) (s : Resolver) : Except Fault (Reply × Resolver) :=
  match s.domainTbl domain with
  | some addr => .ok (.ipv4 addr, s)
  | none => do
    let (sent, s) ← sendRequest qid domain s.nextCallback { s with nextCallback := s.nextCallback + 1 }
    return (if sent then .waits else .failed, s)

/-! ## Packets -/

/-- `_rpcResponse` while it runs callbacks, and what `_recvResponse` does after it. -/
structure Frame where
  qid : Nat
  domain : Domain
  data : Option String
  tbl : TblId
  /-- How many callbacks have been called. -/
  next : Nat := 0
deriving DecidableEq

/-- `%d.%d.%d.%d` -/
def formatIpv4 (out : List UInt8) : String := ".".intercalate (out.map fun b => toString b.toNat)

/-- The packet is in `_buf`, where it fits. -/
def Resolver.filled (s : Resolver) (pkgData : List UInt8) : Resolver := { s with buf := store s.buf 0 pkgData }

/-- What the packet says its id is. -/
def Resolver.fetchQid (s : Resolver) (pkgData : List UInt8) : Option Nat :=
  match mdnsResponseFetchQid (some (s.filled pkgData).buf) pkgData.length with
  | .ok qid => some qid.toNat
  | .error _ => none

/-- The parser may answer so. Nothing is known of what it finds behind the buffer. -/
def Resolver.Parsed (s : Resolver) (pkgData : List UInt8) (item : Item) (ret : Int) (out : List UInt8) : Prop :=
  ∃ stack, match mdnsResponseParse stack (some (s.filled pkgData).buf) pkgData.length item.querySize
      (some (cstring item.domain)) (some s.outIpv4) with
    | .ok (r, o) => ret = r ∧ some out = o
    | .error _ => True

/-- `_recvResponse` for an item of the table, up to the callbacks. If nobody waits there are none, and
the id is dropped at once. -/
def recvResponse (pkgData : List UInt8) (qid : Nat) (item : Item) (ret : Int) (out : List UInt8) (s : Resolver) :
    Option Frame × Resolver :=
  let s := { s.filled pkgData with outIpv4 := out }
  let data := if ret ≤ 0 then none else some (formatIpv4 (out.take 4))
  let s := if ret ≤ 0 then s else { s with domainTbl := Function.update s.domainTbl item.domain data }
  match s.waitTbl item.domain with
  | some tbl => (some { qid := qid, domain := item.domain, data := data, tbl := tbl }, s)
  | none => (none, { s with qidTbl := Function.update s.qidTbl qid none })

/-- The end of `_rpcResponse` and of `_recvResponse`. -/
def Resolver.finish (s : Resolver) (f : Frame) : Resolver :=
  { s with
    waitTbl := Function.update s.waitTbl f.domain none
    qidTbl := Function.update s.qidTbl f.qid none }

/-! ## Runs -/

/-- The packets that are being processed, the innermost first, and the callbacks called so far with
what they were given, newest first. -/
structure Machine where
  res : Resolver
  frames : List Frame := []
  invoked : List (Callback × Option String) := []

/-- The application runs: no packet is being processed, or a callback has been called. -/
def Machine.Running (m : Machine) : Prop := ∀ f ∈ m.frames.head?, 0 < f.next

inductive Input where
  | lookup (qid : Nat) (domain : Domain) (reply : Reply)
  | packet (pkgData : Option (List UInt8))
  | call (callback : Callback) (data : Option String)
  | done

/-- What happens next, unless there is a fault: a domain or a packet is written past its buffer. A callback may look up other domains, and receive
other packets, before it returns. The list of callbacks is looked at again for each of them. -/
inductive Next : Machine → Input → Machine → Prop
  | lookup {m : Machine} {qid : Nat} {domain : Domain} {reply : Reply} {s : Resolver} : m.Running → 1 ≤ qid →
    qid ≤ 65535 → queryHost qid domain m.res = .ok (reply, s) →
    Next m (.lookup qid domain reply) { m with res := s }
  | noPacket {m : Machine} : m.Running → Next m (.packet none) m
  | unknown {m : Machine} {pkgData : List UInt8} : m.Running → pkgData.length ≤ DNS_BUF_SIZE →
    (∀ qid ∈ m.res.fetchQid pkgData, m.res.qidTbl qid = none) →
    Next m (.packet (some pkgData)) { m with res := m.res.filled pkgData }
  | packet {m : Machine} {pkgData out : List UInt8} {qid : Nat} {item : Item} {ret : Int} : m.Running →
    pkgData.length ≤ DNS_BUF_SIZE → m.res.fetchQid pkgData = some qid → m.res.qidTbl qid = some item →
    m.res.Parsed pkgData item ret out →
    Next m (.packet (some pkgData)) { m with
      res := (recvResponse pkgData qid item ret out m.res).2
      frames := (recvResponse pkgData qid item ret out m.res).1.toList ++ m.frames }
  | call {m : Machine} {f : Frame} {fs : List Frame} {callback : Callback} : m.frames = f :: fs →
    (m.res.tables f.tbl)[f.next]? = some callback →
    Next m (.call callback f.data) { m with
      frames := { f with next := f.next + 1 } :: fs
      invoked := (callback, f.data) :: m.invoked }
  | done {m : Machine} {f : Frame} {fs : List Frame} : m.frames = f :: fs →
    (m.res.tables f.tbl)[f.next]? = none →
    Next m .done { m with res := m.res.finish f, frames := fs }

/-- After `init`. -/
def Machine.start (svrTbl : List Nat) : Machine := { res := { svrTbl := svrTbl } }

end MNet.Dns
