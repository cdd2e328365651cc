import AccessControl.Ace
import AccessControl.Claim.Wire
import AccessControl.Condition.Wire

/-!
# Entries as bytes

An entry is its type, its flags, its size in two bytes, and its payload, filled up with zero bytes
to a multiple of four; the size covers all of that. A reader takes any size, gives the payload
just the bytes that the size covers, and puts the entry into normal form.
-/

namespace AccessControl

namespace AppData

/-- The number of bytes of application data. -/
def encodedLen : AppData → Nat
  | .none => 0
  | .condition c => c.encodedLen
  | .attribute a => a.encodedLen
  | .raw bytes => bytes.length

/-- The bytes of application data. -/
def encode : AppData → Except Error Bytes
  | .none => .ok []
  | .condition c => c.encode
  | .attribute a => a.encode
  | .raw bytes => .ok bytes

/-- The application data of a kind that a byte string is; zeros are padding. -/
def decode (kind : DataKind) (b : Bytes) : Except Error AppData :=
  if allZero b then .ok .none
  else
    match kind with
    | .condition => do return .condition (← Condition.decode b)
    | .attribute => do return .attribute (← ClaimAttribute.decode b)
    | .raw | .none => .ok (.raw b)

end AppData

namespace BasicBody

/-- The number of bytes of a body. -/
def encodedLen (b : BasicBody) : Nat := 4 + b.sid.encodedLen

/-- The bytes of a body. -/
def encode (b : BasicBody) : Bytes := leBytes 4 b.mask.toNat ++ b.sid.encode

/-- The body at the start of a byte string, and the rest. -/
def cutFront (b : Bytes) : Except Error (BasicBody × Bytes) := do
  let short := Error.shortRecord .aceBody (4 + Sid.leastLen) b
  let (mask, b) ← cutNat short 4 b
  let (sid, b) ← Sid.cutField short b
  return (⟨.ofNat 32 mask, sid⟩, b)

end BasicBody

namespace ObjectBody

/-- The number of bytes of an object type, if there is one. -/
def typeLen (g : Option Guid) : Nat :=
  match g with
  | some _ => Guid.size
  | none => 0

/-- The bytes of an object type, if there is one. -/
def encodeType (g : Option Guid) : Bytes :=
  match g with
  | some g => g.bytes
  | none => []

/-- The number of bytes of a body. -/
def encodedLen (o : ObjectBody) : Nat :=
  4 + 4 + typeLen o.objectType + typeLen o.inheritedType + o.sid.encodedLen

/-- The bytes of a body; the presence bits follow the object types. -/
def encode (o : ObjectBody) : Bytes :=
  leBytes 4 o.mask.toNat ++ leBytes 4 o.syncedFlags.toNat ++ encodeType o.objectType ++
    encodeType o.inheritedType ++ o.sid.encode

/-- An object type, if a flag says that there is one, and the rest. -/
def cutType (short : Bytes → Error) (present : Bool) (b : Bytes) :
    Except Error (Option Guid × Bytes) :=
  if present then do
    let (g, b) ← Guid.cutField short b
    return (some g, b)
  else .ok (none, b)

/-- The body at the start of a byte string, and the rest. -/
def cutFront (b : Bytes) : Except Error (ObjectBody × Bytes) := do
  let short := Error.shortRecord .objectAceBody (8 + Sid.leastLen) b
  let (mask, b) ← cutNat short 4 b
  let (word, b) ← cutNat short 4 b
  let flags := BitVec.ofNat 32 word
  let (objectType, b) ← cutType short (flags.getLsbD 0) b
  let (inheritedType, b) ← cutType short (flags.getLsbD 1) b
  let (sid, b) ← Sid.cutField short b
  return (⟨.ofNat 32 mask, flags, objectType, inheritedType, sid⟩, b)

end ObjectBody

namespace Payload

/-- The number of bytes of a payload. -/
def encodedLen : Payload → Nat
  | .basic b => b.encodedLen
  | .object o => o.encodedLen
  | .objectWithData o d => o.encodedLen + d.encodedLen
  | .basicWithData b d => b.encodedLen + d.encodedLen
  | .unknown body => body.length

/-- The bytes of a payload. -/
def encode : Payload → Except Error Bytes
  | .basic b => .ok b.encode
  | .object o => .ok o.encode
  | .objectWithData o d => do return o.encode ++ (← d.encode)
  | .basicWithData b d => do return b.encode ++ (← d.encode)
  | .unknown body => .ok body

/-- The payload of a shape that a byte string is. What follows the body is application data where
the shape has any, and is ignored otherwise. -/
def decode (shape : Option AceShape) (kind : DataKind) (b : Bytes) : Except Error Payload :=
  match shape with
  | some .basic => do
    let (body, _) ← BasicBody.cutFront b
    return .basic body
  | some .object => do
    let (body, _) ← ObjectBody.cutFront b
    return .object body
  | some .objectWithData => do
    let (body, rest) ← ObjectBody.cutFront b
    return .objectWithData body (← AppData.decode kind rest)
  | some .basicWithData => do
    let (body, rest) ← BasicBody.cutFront b
    return .basicWithData body (← AppData.decode kind rest)
  | none => .ok (.unknown b)

end Payload

namespace Ace

/-- The number of bytes of the header of an entry. -/
def headerLen : Nat := 4

/-- The number of bytes of an entry. -/
def size (a : Ace) : Nat := align4 (headerLen + a.payload.encodedLen)

/-- The bytes of an entry. -/
def encode (a : Ace) : Except Error Bytes := do
  let size ← sizeField 2 .ace a.size
  return padded (a.type.code :: leBytes 1 a.flags.toNat ++ size ++ (← a.payload.encode))

/-- The entry at the start of a byte string, and the rest. -/
def cutFront (b : Bytes) : Except Error (Ace × Bytes) := do
  let short := Error.shortRecord .aceHeader headerLen b
  let (code, r) ← cutNat short 1 b
  let (flags, r) ← cutNat short 1 r
  let (size, r) ← cutNat short 2 r
  if size < headerLen then throw (.invalidSize .ace size)
  let (body, rest) ← cut (fun _ => .truncatedAce size b.length) (size - headerLen) r
  let type : AceType := ⟨.ofNat code⟩
  let payload ← Payload.decode type.shape? type.dataKind body
  return (← make type (.ofNat 8 flags) payload, rest)

/-- The entry at the start of a byte string, whatever follows it. -/
def decode (b : Bytes) : Except Error Ace := do return (← cutFront b).1

end Ace
end AccessControl
