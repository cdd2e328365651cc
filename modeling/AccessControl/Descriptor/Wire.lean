import AccessControl.Acl.Wire
import AccessControl.Descriptor

/-!
# Security descriptors as bytes

The self-relative form is a header of twenty bytes with the control word and the offsets of owner,
group, SACL and DACL, zero for a part that is absent. The writer puts the parts in that order
right after the header; a reader follows the offsets wherever they point, and ignores what the
control word says about presence.
-/

namespace AccessControl.Descriptor

/-- The number of bytes of the header of a descriptor. -/
def headerLen : Nat := 20

/-- The revision of the format, the only one there is. -/
def revision : UInt8 := 1

/-- The number of bytes of a part, zero for an absent one. -/
def partLen {α : Type} (len : α → Nat) (part : Option α) : Nat := (part.map len).getD 0

/-- The number of bytes of a descriptor. -/
def encodedLen (d : Descriptor) : Nat :=
  headerLen + partLen Sid.encodedLen d.owner + partLen Sid.encodedLen d.group +
    partLen Acl.encodedLen d.sacl + partLen Acl.encodedLen d.dacl

/-- The field for the offset of a part: where it starts, or zero for an absent one. -/
def offsetField {α : Type} (part : Option α) (start : Nat) : Except Error Bytes :=
  if part.isSome then sizeField 4 .descriptorOffset start else .ok (leBytes 4 0)

/-- The bytes of a part, none for an absent one. -/
def encodePart {α : Type} (encode : α → Except Error Bytes) (part : Option α) :
    Except Error Bytes :=
  match part with
  | some x => encode x
  | none => .ok []

/-- The bytes of a descriptor. -/
def encode (d : Descriptor) : Except Error Bytes := do
  let groupStart := headerLen + partLen Sid.encodedLen d.owner
  let saclStart := groupStart + partLen Sid.encodedLen d.group
  let daclStart := saclStart + partLen Acl.encodedLen d.sacl
  let ownerField ← offsetField d.owner headerLen
  let groupField ← offsetField d.group groupStart
  let saclField ← offsetField d.sacl saclStart
  let daclField ← offsetField d.dacl daclStart
  let owner ← encodePart (fun s => .ok s.encode) d.owner
  let group ← encodePart (fun s => .ok s.encode) d.group
  let sacl ← encodePart Acl.encode d.sacl
  let dacl ← encodePart Acl.encode d.dacl
  return revision :: 0 :: leBytes 2 d.control.toNat ++ ownerField ++ groupField ++ saclField ++
    daclField ++ owner ++ group ++ sacl ++ dacl

/-- The part at an offset, where zero stands for an absent one. -/
def decodePart {α : Type} (decode : Bytes → Except Error (α × Bytes)) (item : Item) (whole : Bytes)
    (offset : Nat) : Except Error (Option α) :=
  if offset = 0 then .ok none
  else do
    let (_, block) ← cut (.short item offset) offset whole
    return some (← decode block).1

/-- The descriptor that a byte string holds. -/
def decode (b : Bytes) : Except Error Descriptor := do
  if b.length < 4 then throw .missingControl
  let short := Error.shortRecord .descriptorHeader headerLen b
  let (rev, r) ← cutNat short 1 b
  if rev ≠ revision.toNat then throw (.invalidRevision .descriptor (.ofNat rev))
  let (_, r) ← cutNat short 1 r
  let (word, r) ← cutNat short 2 r
  let control := BitVec.ofNat 16 word
  if control.getLsbD selfRelativeBit = false then throw .notSelfRelative
  let (ownerOffset, r) ← cutNat short 4 r
  let (groupOffset, r) ← cutNat short 4 r
  let (saclOffset, r) ← cutNat short 4 r
  let (daclOffset, _) ← cutNat short 4 r
  let owner ← decodePart Sid.cutFront .ownerSid b ownerOffset
  let group ← decodePart Sid.cutFront .groupSid b groupOffset
  let sacl ← decodePart Acl.cutFront .sacl b saclOffset
  let dacl ← decodePart Acl.cutFront .dacl b daclOffset
  return make control owner group sacl dacl

end AccessControl.Descriptor
