import Mathlib.Data.List.Basic

/-! # Messages of the domain name system

What RFC 1035 says of the octets of a message: numbers, domain names with their compression
pointers, the header and the resource records of a section. A message is the list of its
octets, a position an index into it. -/

namespace MNet.Lib.Rfc1035

abbrev Label := List UInt8

/-- A 16-bit number, high octet first. -/
def u16At (msg : List UInt8) (pos : Nat) : Option Nat :=
  match msg[pos]?, msg[pos + 1]? with
  | some hi, some lo => some (hi.toNat * 256 + lo.toNat)
  | _, _ => none

theorem u16At_append (pre post : List UInt8) (hi lo : UInt8) :
    u16At (pre ++ hi :: lo :: post) pre.length = some (hi.toNat * 256 + lo.toNat) := by
  simp [u16At]

/-! ## Names -/

/-- What stands at one place of a name: its end, a label, or the offset where it goes on. -/
inductive Piece where
  | root
  | label (l : Label)
  | pointer (offset : Nat)
deriving DecidableEq, Repr

/-- A piece, and the position behind it. -/
def pieceAt (msg : List UInt8) (pos : Nat) : Option (Piece × Nat) :=
  match msg[pos]? with
  | none => none
  | some b =>
    if b = 0 then some (.root, pos + 1)
    else if b.toNat < 64 then
      if pos + 1 + b.toNat ≤ msg.length then
        some (.label ((msg.drop (pos + 1)).take b.toNat), pos + 1 + b.toNat)
      else none
    else if 192 ≤ b.toNat then
      match msg[pos + 1]? with
      | some c => some (.pointer ((b.toNat - 192) * 256 + c.toNat), pos + 2)
      | none => none
    else none

/-- The labels of a name, and the position behind the name, for at most `fuel` pieces. -/
def nameAtFuel (msg : List UInt8) : Nat → Nat → Option (List Label × Nat)
  | 0, _ => none
  | fuel + 1, pos =>
    match pieceAt msg pos with
    | none => none
    | some (.root, e) => some ([], e)
    | some (.label l, e) => (nameAtFuel msg fuel e).map fun p => (l :: p.1, p.2)
    | some (.pointer offset, e) => (nameAtFuel msg fuel offset).map fun p => (p.1, e)

/-- A name whose pieces are all different has at most as many as there are octets. -/
def nameAt (msg : List UInt8) (pos : Nat) : Option (List Label × Nat) := nameAtFuel msg msg.length pos

/-- The octets of a label. -/
def labelBytes (l : Label) : List UInt8 := UInt8.ofNat l.length :: l

/-- A name written out, less the final zero. -/
def labelsBytes (ls : List Label) : List UInt8 := ls.flatMap labelBytes

/-- Between 1 and 63 octets. -/
def Fits (l : Label) : Prop := 0 < l.length ∧ l.length ≤ 63

instance (l : Label) : Decidable (Fits l) := by
  unfold Fits
  infer_instance

theorem toNat_length {l : Label} (hl : Fits l) : (UInt8.ofNat l.length).toNat = l.length := by
  rw [UInt8.toNat_ofNat']
  exact Nat.mod_eq_of_lt (Nat.lt_of_le_of_lt hl.2 (by decide))

theorem length_ne_zero {l : Label} (hl : Fits l) : UInt8.ofNat l.length ≠ 0 := by
  intro h
  have h := congrArg UInt8.toNat h
  rw [toNat_length hl] at h
  exact Nat.ne_of_gt hl.1 h

@[simp] theorem length_labelBytes (l : Label) : (labelBytes l).length = l.length + 1 := rfl

@[simp] theorem labelsBytes_cons (l : Label) (ls : List Label) :
    labelsBytes (l :: ls) = labelBytes l ++ labelsBytes ls := rfl

theorem length_le_labelsBytes (ls : List Label) : ls.length ≤ (labelsBytes ls).length := by
  induction ls with
  | nil => exact Nat.le_refl _
  | cons l ls ih => simp only [labelsBytes_cons, List.length_append, length_labelBytes, List.length_cons]; omega

theorem pieceAt_root (pre post : List UInt8) :
    pieceAt (pre ++ 0 :: post) pre.length = some (.root, pre.length + 1) := by
  simp [pieceAt]

theorem pieceAt_label {l : Label} (hl : Fits l) (pre post : List UInt8) :
    pieceAt (pre ++ (labelBytes l ++ post)) pre.length =
      some (.label l, (pre ++ labelBytes l).length) := by
  have hnat := toNat_length hl
  have hne := length_ne_zero hl
  have hat : (pre ++ (labelBytes l ++ post))[pre.length]? = some (UInt8.ofNat l.length) := by
    simp [labelBytes]
  have hlen : pre.length + 1 + l.length ≤ (pre ++ (labelBytes l ++ post)).length := by
    simp only [List.length_append, length_labelBytes]
    omega
  have hdrop : (pre ++ (labelBytes l ++ post)).drop (pre.length + 1) = l ++ post := by
    rw [← List.drop_drop]
    simp [labelBytes]
  have hlt : l.length < 64 := Nat.lt_succ_of_le hl.2
  simp only [pieceAt, hat]
  rw [if_neg hne, hnat, if_pos hlt, if_pos hlen, hdrop, List.take_left, List.length_append,
    length_labelBytes, Nat.add_assoc, Nat.add_comm 1]

theorem nameAtFuel_labelsBytes {ls : List Label} (hls : ∀ l ∈ ls, Fits l) (pre post : List UInt8)
    {fuel : Nat} (hfuel : ls.length < fuel) :
    nameAtFuel (pre ++ (labelsBytes ls ++ 0 :: post)) fuel pre.length =
      some (ls, (pre ++ labelsBytes ls).length + 1) := by
  induction ls generalizing pre fuel with
  | nil =>
    obtain ⟨fuel, rfl⟩ := Nat.exists_eq_add_one_of_ne_zero (Nat.ne_of_gt hfuel)
    simp [nameAtFuel, labelsBytes, pieceAt_root]
  | cons l ls ih =>
    obtain ⟨fuel, rfl⟩ := Nat.exists_eq_add_one_of_ne_zero (Nat.ne_of_gt (Nat.zero_lt_of_lt hfuel))
    have hpiece := pieceAt_label (hls l (by simp)) pre (labelsBytes ls ++ 0 :: post)
    have hrest := ih (fun l hl => hls l (List.mem_cons_of_mem _ hl)) (pre ++ labelBytes l)
      (Nat.lt_of_succ_lt_succ hfuel)
    rw [List.append_assoc] at hrest
    simp only [labelsBytes_cons, List.append_assoc, nameAtFuel, hpiece, hrest, Option.map_some]

/-- A name that was written out reads back. -/
theorem nameAt_labelsBytes {ls : List Label} (hls : ∀ l ∈ ls, Fits l) (pre post : List UInt8) :
    nameAt (pre ++ (labelsBytes ls ++ 0 :: post)) pre.length =
      some (ls, (pre ++ labelsBytes ls).length + 1) := by
  refine nameAtFuel_labelsBytes hls pre post ?_
  have hle := length_le_labelsBytes ls
  simp only [List.length_append, List.length_cons]
  omega

/-! ## Header -/

structure Header where
  id : Nat
  qr : Nat
  opcode : Nat
  aa : Nat
  tc : Nat
  rd : Nat
  ra : Nat
  z : Nat
  rcode : Nat
  qdcount : Nat
  ancount : Nat
  nscount : Nat
  arcount : Nat
deriving DecidableEq, Repr

def headerOf (msg : List UInt8) : Option Header :=
  match u16At msg 0, msg[2]?, msg[3]?, u16At msg 4, u16At msg 6, u16At msg 8, u16At msg 10 with
  | some id, some a, some b, some qd, some an, some ns, some ar => some
    { id := id, qr := a.toNat / 128, opcode := a.toNat / 8 % 16, aa := a.toNat / 4 % 2
      tc := a.toNat / 2 % 2, rd := a.toNat % 2, ra := b.toNat / 128, z := b.toNat / 16 % 8
      rcode := b.toNat % 16, qdcount := qd, ancount := an, nscount := ns, arcount := ar }
  | _, _, _, _, _, _, _ => none

theorem u16At_of_lt (msg : List UInt8) (pos : Nat) (h : pos + 1 < msg.length) : ∃ v, u16At msg pos = some v := by
  refine ⟨msg[pos].toNat * 256 + msg[pos + 1].toNat, ?_⟩
  simp only [u16At, List.getElem?_eq_getElem h, List.getElem?_eq_getElem (Nat.lt_of_succ_lt h)]

/-- Twelve octets are a header. -/
theorem headerOf_of_le {msg : List UInt8} (h : 12 ≤ msg.length) :
    ∃ hd, headerOf msg = some hd ∧ u16At msg 6 = some hd.ancount := by
  obtain ⟨id, hid⟩ := u16At_of_lt msg 0 (by omega)
  obtain ⟨qd, hqd⟩ := u16At_of_lt msg 4 (by omega)
  obtain ⟨an, han⟩ := u16At_of_lt msg 6 (by omega)
  obtain ⟨ns, hns⟩ := u16At_of_lt msg 8 (by omega)
  obtain ⟨ar, har⟩ := u16At_of_lt msg 10 (by omega)
  have h2 := List.getElem?_eq_getElem (l := msg) (i := 2) (by omega)
  have h3 := List.getElem?_eq_getElem (l := msg) (i := 3) (by omega)
  simp only [headerOf, hid, h2, h3, hqd, han, hns, har]
  exact ⟨_, rfl, rfl⟩

/-! ## Records -/

def TYPE_A : Nat := 1
def CLASS_IN : Nat := 1

/-- The position behind a name. What a pointer refers to stands elsewhere. -/
def nameEnd (msg : List UInt8) : Nat → Nat → Option Nat
  | 0, _ => none
  | fuel + 1, pos =>
    match pieceAt msg pos with
    | none => none
    | some (.root, e) => some e
    | some (.label _, e) => nameEnd msg fuel e
    | some (.pointer _, e) => some e

/-- A piece has an octet, and two unless it is the end of the name. -/
theorem pieceAt_cases {msg : List UInt8} {pos e : Nat} {p : Piece} (h : pieceAt msg pos = some (p, e)) :
    (p = .root ∧ msg[pos]? = some 0 ∧ e = pos + 1) ∨ pos + 2 ≤ e := by
  unfold pieceAt at h
  split at h
  · cases h
  rename_i b hb
  split at h
  · rename_i hzero
    cases h
    exact .inl ⟨rfl, hzero ▸ hb, rfl⟩
  · rename_i hne
    have hpos : 0 < b.toNat := Nat.pos_of_ne_zero fun h0 => hne (UInt8.toNat_inj.mp h0)
    split at h
    · split at h
      · cases h
        exact .inr (by omega)
      · cases h
    · split at h
      · split at h
        · cases h
          exact .inr (Nat.le_refl _)
        · cases h
      · cases h

theorem lt_nameEnd {msg : List UInt8} {fuel pos e : Nat} (h : nameEnd msg fuel pos = some e) : pos < e := by
  induction fuel generalizing pos with
  | zero => cases h
  | succ fuel ih =>
    unfold nameEnd at h
    split at h
    · cases h
    · rename_i hp
      cases h
      have := pieceAt_cases hp
      omega
    · rename_i hp
      have := pieceAt_cases hp
      have := ih h
      omega
    · rename_i hp
      cases h
      have := pieceAt_cases hp
      omega

/-- A name ends where its labels are said to end. -/
theorem nameEnd_of_nameAtFuel {msg : List UInt8} {fuel pos e : Nat} {ls : List Label}
    (h : nameAtFuel msg fuel pos = some (ls, e)) : nameEnd msg fuel pos = some e := by
  induction fuel generalizing pos ls with
  | zero => cases h
  | succ fuel ih =>
    unfold nameAtFuel at h
    unfold nameEnd
    split at h
    · cases h
    · cases h
      rfl
    · obtain ⟨⟨ls', e'⟩, hrest, hpair⟩ := Option.map_eq_some_iff.mp h
      cases hpair
      exact ih hrest
    · obtain ⟨_, _, hpair⟩ := Option.map_eq_some_iff.mp h
      cases hpair
      rfl

/-- A resource record, less its owner. -/
structure Record where
  type : Nat
  cls : Nat
  ttl : Nat
  rdata : List UInt8
deriving DecidableEq, Repr

/-- A record whose owner's name ends at `e`, and the position behind it. -/
def recordBody (msg : List UInt8) (e : Nat) : Option (Record × Nat) :=
  match u16At msg e, u16At msg (e + 2), u16At msg (e + 4), u16At msg (e + 6), u16At msg (e + 8) with
  | some type, some cls, some hi, some lo, some rdlength =>
    if e + 10 + rdlength ≤ msg.length then
      some ({ type := type, cls := cls, ttl := hi * 65536 + lo
              rdata := (msg.drop (e + 10)).take rdlength }, e + 10 + rdlength)
    else none
  | _, _, _, _, _ => none

/-- The two octets of a number. -/
def octets16 (n : Nat) : List UInt8 := [UInt8.ofNat (n / 256), UInt8.ofNat n]

theorem toNat_octets16 {n : Nat} (h : n < 65536) :
    (UInt8.ofNat (n / 256)).toNat * 256 + (UInt8.ofNat n).toNat = n := by
  rw [UInt8.toNat_ofNat', UInt8.toNat_ofNat']
  omega

/-- The octets of a record, less its owner. -/
def Record.bytes (rr : Record) : List UInt8 :=
  octets16 rr.type ++ octets16 rr.cls ++ octets16 (rr.ttl / 65536) ++ octets16 (rr.ttl % 65536) ++
    octets16 rr.rdata.length ++ rr.rdata

/-- The numbers of a record fit into their fields. -/
structure Record.InRange (rr : Record) : Prop where
  type : rr.type < 65536
  cls : rr.cls < 65536
  ttl : rr.ttl < 65536 * 65536
  rdlength : rr.rdata.length < 65536

theorem Record.length_bytes (rr : Record) : rr.bytes.length = 10 + rr.rdata.length := by
  simp only [Record.bytes, List.length_append]
  rfl

theorem u16At_append_right (pre msg : List UInt8) (k : Nat) :
    u16At (pre ++ msg) (pre.length + k) = u16At msg k := by
  simp [u16At, List.getElem?_append_right, Nat.add_assoc]

/-- A record that was written reads back. -/
theorem recordBody_bytes {rr : Record} (h : rr.InRange) (pre post : List UInt8) :
    recordBody (pre ++ (rr.bytes ++ post)) pre.length = some (rr, pre.length + 10 + rr.rdata.length) := by
  have hnum : ∀ k n, n < 65536 → (∃ front back, front.length = k ∧ rr.bytes ++ post = front ++ (octets16 n ++ back)) →
      u16At (pre ++ (rr.bytes ++ post)) (pre.length + k) = some n := by
    rintro k n hn ⟨front, back, rfl, hsplit⟩
    rw [u16At_append_right, hsplit, octets16, List.cons_append, List.singleton_append, u16At_append,
      toNat_octets16 hn]
  have htype := hnum 0 rr.type h.type ⟨[], _, rfl, by simp only [Record.bytes, List.append_assoc]; rfl⟩
  have hcls := hnum 2 rr.cls h.cls ⟨octets16 rr.type, _, rfl, by simp only [Record.bytes, List.append_assoc]; rfl⟩
  have hhi := hnum 4 (rr.ttl / 65536) (by have := h.ttl; omega)
    ⟨octets16 rr.type ++ octets16 rr.cls, _, rfl, by simp only [Record.bytes, List.append_assoc]; rfl⟩
  have hlo := hnum 6 (rr.ttl % 65536) (Nat.mod_lt _ (by decide))
    ⟨octets16 rr.type ++ octets16 rr.cls ++ octets16 (rr.ttl / 65536), _, rfl,
      by simp only [Record.bytes, List.append_assoc]; rfl⟩
  have hlen := hnum 8 rr.rdata.length h.rdlength
    ⟨octets16 rr.type ++ octets16 rr.cls ++ octets16 (rr.ttl / 65536) ++ octets16 (rr.ttl % 65536), _, rfl,
      by simp only [Record.bytes, List.append_assoc]; rfl⟩
  have hdata : ((pre ++ (rr.bytes ++ post)).drop (pre.length + 10)).take rr.rdata.length = rr.rdata := by
    rw [← List.drop_drop, List.drop_left]
    exact List.take_left
  have hin : pre.length + 10 + rr.rdata.length ≤ (pre ++ (rr.bytes ++ post)).length := by
    simp only [List.length_append, Record.length_bytes]
    omega
  rw [Nat.add_zero] at htype
  simp only [recordBody, htype, hcls, hhi, hlo, hlen, if_pos hin, hdata]
  rw [Nat.mul_comm, Nat.div_add_mod]

/-- A name that is a pointer. -/
theorem nameEnd_pointer {hi lo : UInt8} (h : 192 ≤ hi.toNat) (pre post : List UInt8) {fuel : Nat} :
    nameEnd (pre ++ hi :: lo :: post) (fuel + 1) pre.length = some (pre.length + 2) := by
  have hhi : (pre ++ hi :: lo :: post)[pre.length]? = some hi := by simp
  have hlo : (pre ++ hi :: lo :: post)[pre.length + 1]? = some lo := by simp
  have hne : hi ≠ 0 := by
    rintro rfl
    exact absurd h (by decide)
  have hno : ¬ hi.toNat < 64 := by omega
  have hpiece : pieceAt (pre ++ hi :: lo :: post) pre.length =
      some (.pointer ((hi.toNat - 192) * 256 + lo.toNat), pre.length + 2) := by
    simp only [pieceAt, hhi, hlo]
    rw [if_neg hne, if_neg hno, if_pos h]
  unfold nameEnd
  rw [hpiece]

def recordAt (msg : List UInt8) (pos : Nat) : Option (Record × Nat) :=
  (nameEnd msg msg.length pos).bind (recordBody msg)

/-- The records of a section, up to the first that is cut off or malformed. -/
def recordsAt (msg : List UInt8) : Nat → Nat → List Record
  | 0, _ => []
  | count + 1, pos =>
    match recordAt msg pos with
    | none => []
    | some (rr, e) => rr :: recordsAt msg count e

/-- The records of a section with their owners' names, and the position behind them. -/
def ownedRecordsAt (msg : List UInt8) : Nat → Nat → Option (List (List Label × Record) × Nat)
  | 0, pos => some ([], pos)
  | count + 1, pos =>
    match nameAt msg pos with
    | none => none
    | some (owner, e) =>
      match recordBody msg e with
      | none => none
      | some (rr, e') => (ownedRecordsAt msg count e').map fun p => ((owner, rr) :: p.1, p.2)

theorem recordsAt_of_owned {msg : List UInt8} {count pos e : Nat} {rrs : List (List Label × Record)}
    (h : ownedRecordsAt msg count pos = some (rrs, e)) : recordsAt msg count pos = rrs.map Prod.snd := by
  induction count generalizing pos rrs with
  | zero =>
    cases h
    rfl
  | succ count ih =>
    unfold ownedRecordsAt at h
    split at h
    · cases h
    · rename_i owner e₁ hname
      split at h
      · cases h
      · rename_i rr e₂ hbody
        obtain ⟨⟨rest, _⟩, hrest, hpair⟩ := Option.map_eq_some_iff.mp h
        cases hpair
        have hrec : recordAt msg pos = some (rr, e₂) := by
          rw [recordAt, nameEnd_of_nameAtFuel hname]
          exact hbody
        rw [recordsAt, hrec, List.map_cons, ← ih hrest]

/-- How many answers the header announces. -/
def ancountOf (msg : List UInt8) : Nat := ((headerOf msg).map Header.ancount).getD 0

/-- The answer section, when it starts at `pos`. -/
def answersAt (msg : List UInt8) (pos : Nat) : List Record := recordsAt msg (ancountOf msg) pos

end MNet.Lib.Rfc1035
