import AccessControl.Proofs.Descriptor.Header

/-!
# Security descriptors, read and written

A reader of descriptors only looks at the header and at the parts where the header says they are
(`decode_of_located`), so it does not matter what else a byte string holds. The writer puts every
part where its header says it is (`located_of_encode`). Together, a descriptor is read back from
what was written of it, if the entries of its lists survive the wire; and those of a descriptor that
is read always do (`wireSafe_of_decode`).
-/

namespace AccessControl.Descriptor

variable {d : Descriptor} {b w t : Bytes}

/-! ### Parts -/

section Parts

variable {α : Type} {encode : α → Except Error Bytes} {part : Option α} {offset start : Nat}

/-- The bytes of a part are at an offset; the offset zero stands for an absent part. -/
def PartAt (encode : α → Except Error Bytes) (b : Bytes) (offset : Nat) : Option α → Prop
  | none => offset = 0
  | some x => offset ≠ 0 ∧ ∃ front bytes rest, encode x = .ok bytes ∧ front.length = offset ∧
      b = front ++ (bytes ++ rest)

theorem PartAt.append (h : PartAt encode b offset part) (t : Bytes) :
    PartAt encode (b ++ t) offset part := by
  cases part with
  | none => exact h
  | some x =>
    obtain ⟨present, front, bytes, rest, hx, hfront, rfl⟩ := h
    refine ⟨present, front, bytes, rest ++ t, hx, hfront, ?_⟩
    simp only [List.append_assoc]

/-- A part is read where its bytes are, if its reader reads it back. -/
theorem decodePart_of_partAt {decode : Bytes → Except Error (α × Bytes)} {item : Item}
    (h : PartAt encode b offset part)
    (back : ∀ x ∈ part, ∀ bytes, encode x = .ok bytes →
      ∀ rest, decode (bytes ++ rest) = .ok (x, rest)) :
    decodePart decode item b offset = .ok part := by
  cases part with
  | none => exact if_pos h
  | some x =>
    obtain ⟨present, front, bytes, rest, hx, rfl, rfl⟩ := h
    rw [decodePart, if_neg present, cut_append, ok_bind]
    simp only [back x rfl bytes hx rest, ok_bind, pure_ok]

/-- Whatever part is read, its reader has read it at the offset. -/
theorem decode_drop_of_decodePart {decode : Bytes → Except Error (α × Bytes)} {item : Item}
    (h : decodePart decode item b offset = .ok part) :
    ∀ x ∈ part, offset ≠ 0 ∧ ∃ rest, decode (b.drop offset) = .ok (x, rest) := by
  intro x hx
  rw [decodePart] at h
  by_cases hoffset : offset = 0
  · rw [if_pos hoffset] at h
    cases h
    cases hx
  · rw [if_neg hoffset] at h
    simp only [bind_eq_ok, Prod.exists, cut_eq_ok_iff] at h
    obtain ⟨front, block, ⟨rfl, rfl⟩, y, rest, hy, h⟩ := h
    cases h
    cases hx
    rw [List.drop_left]
    exact ⟨hoffset, rest, hy⟩

theorem length_of_encodePart {len : α → Nat} {bytes : Bytes}
    (hlen : ∀ x bytes, encode x = .ok bytes → bytes.length = len x)
    (h : encodePart encode part = .ok bytes) : bytes.length = partLen len part := by
  cases part with
  | none =>
    cases h
    rfl
  | some x => exact hlen x bytes h

theorem length_of_sid (s : Sid) (bytes : Bytes)
    (h : (Except.ok s.encode : Except Error Bytes) = .ok bytes) : bytes.length = s.encodedLen := by
  cases h
  exact s.length_encode

/-- The offset that is written for a part. -/
def partOffset (part : Option α) (start : Nat) : Nat := if part.isSome then start else 0

theorem offsetField_eq_ok_iff {field : Bytes} : offsetField part start = .ok field ↔
    partOffset part start < 256 ^ 4 ∧ field = leBytes 4 (partOffset part start) := by
  cases part with
  | some x => exact sizeField_eq_ok_iff
  | none =>
    constructor
    · intro h
      cases h
      exact ⟨(by decide : 0 < 256 ^ 4), rfl⟩
    · rintro ⟨-, rfl⟩
      rfl

/-- The bytes of a part are at the offset that is written for it. -/
theorem partAt_partOffset {front bytes : Bytes} (hfront : front.length = start)
    (positive : 0 < start) (h : encodePart encode part = .ok bytes) (rest : Bytes) :
    PartAt encode (front ++ (bytes ++ rest)) (partOffset part start) part := by
  cases part with
  | none => rfl
  | some x => exact ⟨Nat.ne_of_gt positive, front, bytes, rest, h, hfront, rfl⟩

end Parts

/-! ### The whole -/

/-- The offsets that the writer puts into the header: the parts follow it one after another. -/
def offsets (d : Descriptor) : Offsets :=
  let group := headerLen + partLen Sid.encodedLen d.owner
  let sacl := group + partLen Sid.encodedLen d.group
  let dacl := sacl + partLen Acl.encodedLen d.sacl
  ⟨partOffset d.owner headerLen, partOffset d.group group, partOffset d.sacl sacl,
    partOffset d.dacl dacl⟩

/-- The offsets of the parts fit their fields. -/
def OffsetsFit (d : Descriptor) : Prop :=
  d.offsets.owner < 256 ^ 4 ∧ d.offsets.group < 256 ^ 4 ∧ d.offsets.sacl < 256 ^ 4 ∧
    d.offsets.dacl < 256 ^ 4

/-- Every part of a descriptor is where the offsets say, and the offsets fit their fields. -/
structure Located (d : Descriptor) (b : Bytes) (o : Offsets) : Prop where
  owner : PartAt (fun s : Sid => .ok s.encode) b o.owner d.owner
  group : PartAt (fun s : Sid => .ok s.encode) b o.group d.group
  sacl : PartAt Acl.encode b o.sacl d.sacl
  dacl : PartAt Acl.encode b o.dacl d.dacl
  owner_lt : o.owner < 256 ^ 4
  group_lt : o.group < 256 ^ 4
  sacl_lt : o.sacl < 256 ^ 4
  dacl_lt : o.dacl < 256 ^ 4

theorem Located.append {o : Offsets} (h : Located d b o) (t : Bytes) : Located d (b ++ t) o where
  owner := h.owner.append t
  group := h.group.append t
  sacl := h.sacl.append t
  dacl := h.dacl.append t
  owner_lt := h.owner_lt
  group_lt := h.group_lt
  sacl_lt := h.sacl_lt
  dacl_lt := h.dacl_lt

/-- Every entry of the lists survives the wire. -/
structure WireSafe (d : Descriptor) : Prop where
  sacl : ∀ l ∈ d.sacl, l.WireSafe
  dacl : ∀ l ∈ d.dacl, l.WireSafe

/-- A descriptor is read from every byte string that holds its parts where the header says, whatever
else it holds and whatever the header says about presence. -/
theorem decode_of_located {second : UInt8} {control : BitVec 16} {o : Offsets}
    (hb : b = header second control o ++ w) (self : control.getLsbD selfRelativeBit = true)
    (synced : syncedControl control d.sacl d.dacl = d.control) (located : Located d b o)
    (safe : d.WireSafe) : decode b = .ok d := by
  have sid : ∀ {part : Option Sid}, ∀ s ∈ part, ∀ bytes,
      (Except.ok s.encode : Except Error Bytes) = .ok bytes →
        ∀ rest, Sid.cutFront (bytes ++ rest) = .ok (s, rest) := by
    intro part s _ bytes hs rest
    cases hs
    exact Sid.cutFront_eq_ok_iff.2 rfl
  have owner : ∀ item, decodePart Sid.cutFront item b o.owner = .ok d.owner :=
    fun item => decodePart_of_partAt located.owner sid
  have group : ∀ item, decodePart Sid.cutFront item b o.group = .ok d.group :=
    fun item => decodePart_of_partAt located.group sid
  have sacl : ∀ item, decodePart Acl.cutFront item b o.sacl = .ok d.sacl :=
    fun item => decodePart_of_partAt located.sacl fun l hl bytes hbytes =>
      Acl.cutFront_of_encode hbytes (safe.sacl l hl)
  have dacl : ∀ item, decodePart Acl.cutFront item b o.dacl = .ok d.dacl :=
    fun item => decodePart_of_partAt located.dacl fun l hl bytes hbytes =>
      Acl.cutFront_of_encode hbytes (safe.dacl l hl)
  have made : make control d.owner d.group d.sacl d.dacl = d :=
    eq_of_parts ((control_make ..).trans synced) rfl rfl rfl rfl
  rw [decode_header hb
    ⟨located.owner_lt, located.group_lt, located.sacl_lt, located.dacl_lt⟩]
  simp only [self, Bool.true_eq_false, if_false, owner, group, sacl, dacl, ok_bind, pure_ok, made]

/-- What is written of a descriptor is its header and its parts in order. -/
theorem encode_eq_ok_iff : d.encode = .ok b ↔ d.OffsetsFit ∧
    ∃ owner group sacl dacl, encodePart (fun s : Sid => .ok s.encode) d.owner = .ok owner ∧
      encodePart (fun s : Sid => .ok s.encode) d.group = .ok group ∧
      encodePart Acl.encode d.sacl = .ok sacl ∧ encodePart Acl.encode d.dacl = .ok dacl ∧
      b = header 0 d.control d.offsets ++ (owner ++ (group ++ (sacl ++ dacl))) := by
  simp only [encode, bind_eq_ok, offsetField_eq_ok_iff, pure_ok, Except.ok.injEq, header,
    List.cons_append, List.append_assoc]
  constructor
  · rintro ⟨_, ⟨ownerLt, rfl⟩, _, ⟨groupLt, rfl⟩, _, ⟨saclLt, rfl⟩, _, ⟨daclLt, rfl⟩,
      owner, howner, group, hgroup, sacl, hsacl, dacl, hdacl, rfl⟩
    exact ⟨⟨ownerLt, groupLt, saclLt, daclLt⟩, owner, group, sacl, dacl, howner, hgroup, hsacl,
      hdacl, rfl⟩
  · rintro ⟨⟨ownerLt, groupLt, saclLt, daclLt⟩, owner, group, sacl, dacl, howner, hgroup, hsacl,
      hdacl, rfl⟩
    exact ⟨_, ⟨ownerLt, rfl⟩, _, ⟨groupLt, rfl⟩, _, ⟨saclLt, rfl⟩, _, ⟨daclLt, rfl⟩, owner, howner,
      group, hgroup, sacl, hsacl, dacl, hdacl, rfl⟩

/-- The writer puts every part where the header says. -/
theorem located_of_encode (h : d.encode = .ok b) :
    (∃ w, b = header 0 d.control d.offsets ++ w) ∧ Located d b d.offsets := by
  obtain ⟨⟨ownerLt, groupLt, saclLt, daclLt⟩, owner, group, sacl, dacl, howner, hgroup, hsacl,
    hdacl, rfl⟩ := encode_eq_ok_iff.1 h
  have ownerLen := length_of_encodePart length_of_sid howner
  have groupLen := length_of_encodePart length_of_sid hgroup
  have saclLen : sacl.length = partLen Acl.encodedLen d.sacl :=
    length_of_encodePart (fun l bytes hl => Acl.length_of_encode hl) hsacl
  have positive : 0 < headerLen := by decide
  have atOwner := length_header 0 d.control d.offsets
  refine ⟨⟨_, rfl⟩, ?_, ?_, ?_, ?_, ownerLt, groupLt, saclLt, daclLt⟩
  all_goals generalize header 0 d.control d.offsets = front at atOwner ⊢
  · exact partAt_partOffset atOwner positive howner _
  · have atGroup : (front ++ owner).length = headerLen + partLen Sid.encodedLen d.owner := by
      rw [List.length_append, atOwner, ownerLen]
    have h := partAt_partOffset atGroup (Nat.add_pos_left positive _) hgroup (sacl ++ dacl)
    rwa [List.append_assoc] at h
  · have atSacl : (front ++ (owner ++ group)).length =
        headerLen + partLen Sid.encodedLen d.owner + partLen Sid.encodedLen d.group := by
      rw [List.length_append, List.length_append, atOwner, ownerLen, groupLen, Nat.add_assoc]
    have h := partAt_partOffset atSacl (by omega) hsacl dacl
    rwa [List.append_assoc, List.append_assoc] at h
  · have atDacl : (front ++ (owner ++ (group ++ sacl))).length =
        headerLen + partLen Sid.encodedLen d.owner + partLen Sid.encodedLen d.group +
          partLen Acl.encodedLen d.sacl := by
      simp only [List.length_append, atOwner, ownerLen, groupLen, saclLen, Nat.add_assoc]
    have h := partAt_partOffset atDacl (by omega) hdacl []
    rwa [List.append_nil, List.append_assoc, List.append_assoc, List.append_assoc] at h

/-- A descriptor is read back from its bytes, whatever follows them, if the entries of its lists
survive the wire. -/
theorem decode_of_encode (h : d.encode = .ok b) (safe : d.WireSafe) (t : Bytes) :
    decode (b ++ t) = .ok d := by
  obtain ⟨⟨w, hb⟩, located⟩ := located_of_encode h
  refine decode_of_located (by rw [hb, List.append_assoc]) d.self_bit d.syncedControl_self ?_ safe
  exact located.append t

/-- The entries of a descriptor that is read survive the wire. -/
theorem wireSafe_of_decode (h : decode b = .ok d) : d.WireSafe := by
  obtain ⟨-, _, _, sacl, dacl, -, -, hsacl, hdacl, rfl⟩ := decode_eq_ok_iff.1 h
  constructor
  · intro l hl
    obtain ⟨-, rest, hread⟩ := decode_drop_of_decodePart hsacl l hl
    exact Acl.wireSafe_of_cutFront hread
  · intro l hl
    obtain ⟨-, rest, hread⟩ := decode_drop_of_decodePart hdacl l hl
    exact Acl.wireSafe_of_cutFront hread

/-- Writing gives a normal form: whatever the layout of the bytes was that a descriptor is read
from, it is read again from what is written of it. -/
theorem decode_encode_of_decode {b' : Bytes} (h : decode b = .ok d) (h' : d.encode = .ok b') :
    decode b' = .ok d := by
  have again := decode_of_encode h' (wireSafe_of_decode h) []
  rwa [List.append_nil] at again

/-- The owner shares its bytes with the group, the list is of revision three, is not marked as
present and goes on after its entry, and the entry has five bytes. -/
theorem decode_encode_of_decode_shared :
    let everyone := WellKnown.everyone.toSid
    let entry : Ace := ⟨⟨0x20⟩, 0, .unknown [0xAA, 0, 0, 0], ⟨rfl, trivial, ⟨1, rfl⟩⟩⟩
    let d := make 0x8000 (some everyone) (some everyone) none (some ⟨[entry]⟩)
    let source : Bytes :=
      [0x01, 0x55, 0x00, 0x80, 34, 0, 0, 0, 34, 0, 0, 0, 0, 0, 0, 0, 20, 0, 0, 0] ++
      [0x03, 0x55, 14, 0, 0x01, 0, 0x55, 0x55, 0x20, 0x00, 5, 0, 0xAA, 0x55] ++
      [0x01, 0x01, 0, 0, 0, 0, 0, 0x01, 0, 0, 0, 0]
    let b : Bytes :=
      [0x01, 0x00, 0x04, 0x80, 20, 0, 0, 0, 32, 0, 0, 0, 0, 0, 0, 0, 44, 0, 0, 0] ++
      [0x01, 0x01, 0, 0, 0, 0, 0, 0x01, 0, 0, 0, 0] ++
      [0x01, 0x01, 0, 0, 0, 0, 0, 0x01, 0, 0, 0, 0] ++
      [0x02, 0x00, 16, 0, 0x01, 0, 0, 0, 0x20, 0x00, 8, 0, 0xAA, 0, 0, 0]
    decode source = .ok d ∧ d.encode = .ok b ∧ decode b = .ok d := by
  intro everyone entry d source b
  have read : decode source = .ok d := by
    simp only [source, d, entry, everyone]
    rfl
  have written : d.encode = .ok b := by
    simp only [b, d, entry, everyone]
    rfl
  exact ⟨read, written, decode_encode_of_decode read written⟩

end AccessControl.Descriptor
