import AccessControl.Claim
import AccessControl.Sid.Wire
import AccessControl.Utf16

/-!
# Claim attributes as bytes

A header of twenty bytes gives the offset of the name, the type, the flags, the number of values
and the offset of the first value; the other values follow it without gaps. Numbers take eight
bytes, a string ends with a zero unit, SIDs and octet strings are preceded by their length in
bytes, and fully qualified binary names by their length in units. The writer puts the name right
after the header and the values right after the name; a reader follows the offsets wherever they
point.
-/

namespace AccessControl

namespace ClaimValue

/-- The number of bytes of a value. -/
def encodedLen : ClaimValue → Nat
  | .int64 _ | .uint64 _ | .boolean _ => 8
  | .string text => Utf16.encodedLen text + 2
  | .fqbn name => 4 + Utf16.encodedLen name
  | .sid s => 4 + s.encodedLen
  | .octetString bytes => 4 + bytes.length

/-- The bytes of a value. -/
def encode : ClaimValue → Except Error Bytes
  | .int64 value => .ok (leBytes 8 value.toUInt64.toNat)
  | .uint64 value => .ok (leBytes 8 value.toNat)
  | .boolean value => .ok (leBytes 8 value.toNat)
  | .string text => .ok (Utf16.encodeTerminated text)
  | .fqbn name => do
    return (← sizeField 4 .claimFqbn (Utf16.units name).length) ++ Utf16.encode name
  | .sid s => do return (← sizeField 4 .claimSid s.encodedLen) ++ s.encode
  | .octetString bytes => do return (← sizeField 4 .claimOctetString bytes.length) ++ bytes

/-- The value of a type at the start of a byte string, and the rest. -/
def cutFront (type : ClaimType) (b : Bytes) : Except Error (ClaimValue × Bytes) :=
  match type with
  | .int64 => do
    let (value, rest) ← cutNat (.short .claimValue 8) 8 b
    return (.int64 (UInt64.ofNat value).toInt64, rest)
  | .uint64 => do
    let (value, rest) ← cutNat (.short .claimValue 8) 8 b
    return (.uint64 (.ofNat value), rest)
  | .boolean => do
    let (value, rest) ← cutNat (.short .claimValue 8) 8 b
    return (.boolean (value != 0), rest)
  | .string => do
    let (text, rest) ← Utf16.decodeTerminated b
    return (.string text, rest)
  | .fqbn => do
    let (units, rest) ← cutNat (.short .claimFqbn 4) 4 b
    let (name, rest) ← cut (.short .claimFqbn (2 * units)) (2 * units) rest
    return (.fqbn (← Utf16.decode name), rest)
  | .sid => do
    let (bytes, rest) ← cutPrefixed .claimSid b
    return (.sid (← Sid.decode bytes), rest)
  | .octetString => do
    let (bytes, rest) ← cutPrefixed .claimOctetString b
    return (.octetString bytes, rest)

/-- The number of bytes of values one after another. -/
def encodedLenAll : List ClaimValue → Nat
  | [] => 0
  | v :: vs => v.encodedLen + encodedLenAll vs

/-- The bytes of values one after another. -/
def encodeAll : List ClaimValue → Except Error Bytes
  | [] => .ok []
  | v :: vs => do return (← v.encode) ++ (← encodeAll vs)

/-- So many values of a type at the start of a byte string, and the rest. -/
def cutMany (type : ClaimType) : Nat → Bytes → Except Error (List ClaimValue × Bytes)
  | 0, b => .ok ([], b)
  | n + 1, b => do
    let (v, b) ← cutFront type b
    let (vs, b) ← cutMany type n b
    return (v :: vs, b)

end ClaimValue

namespace ClaimAttribute

/-- The number of bytes of the header. -/
def headerLen : Nat := 20

/-- Where the writer puts the first value. -/
def valuesOffset (a : ClaimAttribute) : Nat := headerLen + (Utf16.encodedLen a.name + 2)

/-- The number of bytes of an attribute. -/
def encodedLen (a : ClaimAttribute) : Nat :=
  a.valuesOffset + ClaimValue.encodedLenAll a.values

/-- The bytes of an attribute. -/
def encode (a : ClaimAttribute) : Except Error Bytes := do
  let count ← sizeField 4 .claimValueCount a.values.length
  let offset ← sizeField 4 .claimValuesOffset a.valuesOffset
  let values ← ClaimValue.encodeAll a.values
  return leBytes 4 headerLen ++ leBytes 2 a.type.code.toNat ++ leBytes 2 0 ++
    leBytes 4 a.flags.toNat ++ count ++ offset ++ Utf16.encodeTerminated a.name ++ values

/-- The attribute at the start of a byte string. After the header, a reader goes on as far as the
last value reaches beyond the header, so the rest does not start inside it. -/
def cutFront (b : Bytes) : Except Error (ClaimAttribute × Bytes) := do
  let short := Error.shortRecord .claimAttribute headerLen b
  let (nameOffset, r) ← cutNat short 4 b
  let (code, r) ← cutNat short 2 r
  let (_, r) ← cutNat short 2 r
  let (flags, r) ← cutNat short 4 r
  let (count, r) ← cutNat short 4 r
  let (valuesOffset, _) ← cutNat short 4 r
  match ClaimType.ofCode? (.ofNat code) with
  | none => throw (.unknownClaimType (.ofNat code))
  | some type =>
    let (_, atName) ← cut (.short .claimName nameOffset) nameOffset b
    let (name, _) ← Utf16.decodeTerminated atName
    let (_, atValues) ← cut (.short .claimValues valuesOffset) valuesOffset b
    let (values, afterValues) ← ClaimValue.cutMany type count atValues
    let beyond := b.length - afterValues.length - headerLen
    let (_, rest) ← cut (.short .claimAttribute beyond) beyond (b.drop headerLen)
    return (← make name type (.ofNat 32 flags) values, rest)

/-- The attribute at the start of a byte string, whatever follows it. -/
def decode (b : Bytes) : Except Error ClaimAttribute := do return (← cutFront b).1

end ClaimAttribute
end AccessControl
