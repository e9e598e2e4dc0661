import MNet.Dns.Walk

/-! # The spelling of owners' names

RFC 1035 lets a message spell a name with or without pointers. Two messages that differ only in
the spelling of their answers' owners are compared. -/

namespace MNet.Dns
open MNet.Lib MNet.Lib.Exec MNet.Lib.Rfc1035

variable {stack : Nat → UInt8} {querySize : Int} {domain : CString} {msg msg' p : List UInt8}

/-- A response to the query `p` of `size` bytes: it has the query's number and question, and it
holds the answers that it announces, whose addresses have four bytes. -/
structure RespondsTo (p : List UInt8) (size : Nat) (msg : List UInt8) : Prop where
  qid : msg.take 2 = p.take 2
  header : ∃ h, headerOf msg = some h ∧ h.qr = 1 ∧ h.opcode = 0
  question : (msg.take size).drop SIZEOF_DNS_HEADER = (p.take size).drop SIZEOF_DNS_HEADER
  answers : ∃ rrs e, ownedRecordsAt msg (ancountOf msg) size = some (rrs, e) ∧
    ∀ rr ∈ rrs, rr.2.type = TYPE_A → rr.2.cls = CLASS_IN → rr.2.rdata.length = 4

/-- The same header and question, the same records of the same owners, and the same rest. -/
def Respelled (size : Nat) (msg msg' : List UInt8) : Prop :=
  msg'.take size = msg.take size ∧ ∃ rrs e e', ownedRecordsAt msg (ancountOf msg) size = some (rrs, e) ∧
    ownedRecordsAt msg' (ancountOf msg') size = some (rrs, e') ∧ msg'.drop e' = msg.drop e

theorem ancountOf_eq (h : 12 ≤ msg.length) : u16At msg 6 = some (ancountOf msg) := by
  obtain ⟨hd, hhd, han⟩ := headerOf_of_le h
  rw [han, ancountOf, hhd]
  rfl

/-- The walk over a legible message. -/
theorem responseFetchRes_legible {s : Resp} {size : Nat} (hlen : 12 ≤ s.buf.length)
    (h : Legible s.buf (ancountOf s.buf) size) :
    Returns (responseFetchRes s.buf.length size) s (outcome (answersAt s.buf size) s.out).1
      { s with out := (outcome (answersAt s.buf size) s.out).2 } := by
  obtain ⟨w, hw, hcount, _⟩ := load16At_reads (ancountOf_eq hlen)
  have hread : Returns rhAncount s w s := hw
  rw [responseFetchRes, hread.bind_iff, hcount]
  exact fetchLoop_legible h

/-- The checks of the header and of the question read nothing behind the question. -/
theorem checks_of_question (out : List UInt8) {size : Nat} (hd : domain.Named) (hlen : domain.bytes.length ≤ 254)
    (hsize : size = domain.bytes.length + 18) (hin : size ≤ msg.length) :
    ∃ rh rq, ∀ buf, buf.take size = msg.take size → Returns responseCheckHeader ⟨buf, out⟩ rh ⟨buf, out⟩ ∧
      Returns (responseCheckQuestion stack size domain) ⟨buf, out⟩ rq ⟨buf, out⟩ := by
  let s : Resp := ⟨msg.take size, out⟩
  have hs : s.buf.length = size := by
    show (msg.take size).length = size
    rw [List.length_take]
    omega
  obtain ⟨rh, hh⟩ := same_of_terminates (terminates_responseCheckHeader (s := s) (by omega)) within_responseCheckHeader
  have hinside : Terminates (responseCheckQuestion stack size domain) s :=
    (terminates_responseCheckQuestion hd hlen).mpr
      ⟨fun k hk _ => by omega, fun _ => ⟨by omega, by omega, fun _ _ => by omega⟩⟩
  obtain ⟨rq, hq⟩ := same_of_terminates hinside within_responseCheckQuestion
  refine ⟨rh, rq, fun buf hbuf => ?_⟩
  have hext : Extends s ⟨buf, out⟩ := ⟨(hbuf ▸ List.take_prefix size buf : msg.take size <+: buf), rfl⟩
  obtain ⟨t, ht, _⟩ := follows_responseCheckHeader s _ _ _ hext hh
  obtain ⟨u, hu, _⟩ := follows_responseCheckQuestion s _ _ _ hext hq
  obtain rfl := within_responseCheckHeader _ _ ht
  obtain rfl := within_responseCheckQuestion _ _ hu
  exact ⟨ht, hu⟩

/-- The spelling of the owners' names does not matter where both spellings are legible. -/
theorem spelling_irrelevant {b post post' out : List UInt8} {qid : UInt16}
    (hbuild : mdnsQueryBuild (some b) qid (some domain) = .ok (querySize, some p)) (hpos : 0 < querySize)
    (hresp : RespondsTo p querySize.toNat msg) (hsame : Respelled querySize.toNat msg msg')
    (hleg : Legible msg (ancountOf msg) querySize.toNat)
    (hleg' : Legible msg' (ancountOf msg') querySize.toNat) :
    mdnsResponseParse stack (some (msg' ++ post')) msg'.length querySize (some domain) (some out) =
      mdnsResponseParse stack (some (msg ++ post)) msg.length querySize (some domain) (some out) := by
  obtain ⟨_, hd, hlen, _, rfl, _⟩ := named_of_built hbuild hpos
  have hquestion := question_of_built hbuild hpos
  rw [Int.toNat_natCast] at *
  rw [← hresp.question, SIZEOF_DNS_HEADER] at hquestion
  have hlabels := length_labelsBytes_labels domain
  have hin : domain.bytes.length + 18 ≤ msg.length := by
    have := congrArg List.length hquestion
    simp only [List.length_drop, List.length_take, List.length_append, List.length_cons, List.length_nil] at this
    omega
  obtain ⟨htake, rrs, e, e', hrrs, hrrs', _⟩ := hsame
  have hin' : domain.bytes.length + 18 ≤ msg'.length := by
    have := congrArg List.length htake
    rw [List.length_take, List.length_take] at this
    omega
  obtain ⟨rh, rq, hchecks⟩ := checks_of_question out hd hlen rfl hin
  obtain ⟨hh, hq⟩ := hchecks msg rfl
  obtain ⟨hh', hq'⟩ := hchecks msg' htake
  have hres := responseFetchRes_legible (s := ⟨msg, out⟩) (by dsimp only; omega) hleg
  have hres' := responseFetchRes_legible (s := ⟨msg', out⟩) (by dsimp only; omega) hleg'
  have hanswers : answersAt msg (domain.bytes.length + 18) = rrs.map Prod.snd := recordsAt_of_owned hrrs
  have hanswers' : answersAt msg' (domain.bytes.length + 18) = rrs.map Prod.snd := recordsAt_of_owned hrrs'
  rw [hanswers] at hres
  rw [hanswers'] at hres'
  rw [mdnsResponseParse_of_content post hpos (by omega) (responseParse_reads hh hq hres),
    mdnsResponseParse_of_content post' hpos (by omega) (responseParse_reads hh' hq' hres')]

/-- A response to a query for `a.b`, from the owner's name on. -/
def abPacket (owner : List UInt8) : List UInt8 :=
  [7, 0, 0x81, 0x80, 0, 1, 0, 1, 0, 0, 0, 0] ++ [1, 97, 1, 98, 0, 0, 1, 0, 1] ++
    (owner ++ [0, 1, 0, 1, 0, 0, 0, 60, 0, 4, 1, 2, 3, 4])

/-- The name of the question, the label `a` before a pointer to `b`, and the name written out. -/
def pointed : List UInt8 := abPacket [0xc0, 0x0c]
def mixed : List UInt8 := abPacket [1, 97, 0xc0, 0x0e]
def spelled : List UInt8 := abPacket [1, 97, 1, 98, 0]

theorem respondsTo_pointed : RespondsTo abQuery 21 pointed where
  qid := by decide +kernel
  header := ⟨_, rfl, rfl, rfl⟩
  question := by decide +kernel
  answers := ⟨[([[97], [98]], { type := 1, cls := 1, ttl := 60, rdata := [1, 2, 3, 4] })], 37,
    by decide +kernel, by decide⟩

theorem spelling_irrelevant_ab :
    mdnsResponseParse (fun _ => 0) (some (mixed ++ [])) mixed.length 21 (some abDomain) (some [0, 0, 0, 0]) =
      mdnsResponseParse (fun _ => 0) (some (pointed ++ [])) pointed.length 21 (some abDomain) (some [0, 0, 0, 0]) := by
  have hsame : Respelled 21 pointed mixed := ⟨by decide +kernel, _, 37, 39, rfl, by decide +kernel, by decide +kernel⟩
  exact spelling_irrelevant abQuery_built (by decide) respondsTo_pointed hsame (by decide +kernel) (by decide +kernel)

/-- A name written out ends with a zero of its own, which the walk takes for the type's. -/
theorem not_spelling_irrelevant : mdnsQueryBuild (some emptyBuf) 7 (some abDomain) = .ok (21, some abQuery) ∧
    RespondsTo abQuery 21 pointed ∧ Respelled 21 pointed spelled ∧ spelled.length ≤ 1024 ∧
    mdnsResponseParse (fun _ => 0) (some pointed) pointed.length 21 (some abDomain) (some [0, 0, 0, 0]) =
      .ok (1, some [1, 2, 3, 4]) ∧
    mdnsResponseParse (fun _ => 0) (some spelled) spelled.length 21 (some abDomain) (some [0, 0, 0, 0]) =
      .ok (-33, some [0, 0, 0, 0]) :=
  ⟨abQuery_built, respondsTo_pointed,
    ⟨by decide +kernel, _, 37, 40, rfl, by decide +kernel, by decide +kernel⟩, by decide +kernel,
    by decide +kernel, by decide +kernel⟩

end MNet.Dns
