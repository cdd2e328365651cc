import AccessControl.Bitset
import AccessControl.Descriptor.Wire

/-!
# Writing into a buffer

A writer appends to a buffer that holds what other writers have written before. Sizes, offsets and
lengths come first in the format, so they are not taken from the buffer but predicted from the
value; where a record is filled up, the buffer is resized to the predicted length, whatever is in
it. Each writer is given the buffer and returns it with its own bytes added.
-/

namespace AccessControl

/-- The buffer at another length: cut off, or filled up with zero bytes. -/
def resized (n : Nat) (out : Bytes) : Bytes := out.take n ++ List.replicate (n - out.length) 0

namespace Bitset

variable {n : Nat}

/-- The number of bytes of a word. -/
def encodedLen (_ : Bitset n) : Nat := n / 8

/-- Adds a word: as many bytes as it takes of a register of four. -/
def appendTo (s : Bitset n) (out : Bytes) : Except Error Bytes :=
  .ok (out ++ (leBytes 4 s.toNat).take (n / 8))

end Bitset

/-- Adds a SID. -/
def Sid.appendTo (s : Sid) (out : Bytes) : Except Error Bytes := .ok (out ++ s.encode)

/-! ### Claim attributes -/

namespace ClaimValue

/-- Adds a value. -/
def appendTo (v : ClaimValue) (out : Bytes) : Except Error Bytes :=
  match v with
  | .int64 value => .ok (out ++ leBytes 8 value.toUInt64.toNat)
  | .uint64 value => .ok (out ++ leBytes 8 value.toNat)
  | .boolean value => .ok (out ++ leBytes 8 value.toNat)
  | .string text => .ok (out ++ Utf16.encode text ++ leBytes 2 0)
  | .fqbn name => do
    let size ← sizeField 4 .claimFqbn (Utf16.units name).length
    return out ++ size ++ Utf16.encode name
  | .sid s => do s.appendTo (out ++ (← sizeField 4 .claimSid s.encodedLen))
  | .octetString bytes => do
    return out ++ (← sizeField 4 .claimOctetString bytes.length) ++ bytes

/-- Adds values one after another. -/
def appendAll : List ClaimValue → Bytes → Except Error Bytes
  | [], out => .ok out
  | v :: vs, out => do appendAll vs (← v.appendTo out)

end ClaimValue

/-- Adds an attribute. -/
def ClaimAttribute.appendTo (a : ClaimAttribute) (out : Bytes) : Except Error Bytes := do
  let count ← sizeField 4 .claimValueCount a.values.length
  let offset ← sizeField 4 .claimValuesOffset a.valuesOffset
  let header := leBytes 4 headerLen ++ leBytes 2 a.type.code.toNat ++ leBytes 2 0 ++
    leBytes 4 a.flags.toNat ++ count ++ offset
  ClaimValue.appendAll a.values (out ++ header ++ Utf16.encode a.name ++ leBytes 2 0)

/-! ### Conditions -/

namespace Condition

namespace Node

mutual
/-- Adds the tokens of a tree: operands first, then the operator. The length of a composite is in
front of its elements. -/
def appendTo : Node → Bytes → Except Error Bytes
  | .integer i, out =>
    .ok (out ++ [i.width.code] ++ leBytes 8 i.value.toUInt64.toNat ++ [i.sign.code] ++
      [i.base.code])
  | .text k s, out => do
    let size ← sizeField 4 .expressionString (Utf16.encodedLen s)
    return out ++ [k.code] ++ size ++ Utf16.encode s
  | .octets b, out => do
    return out ++ [octetsCode] ++ (← sizeField 4 .expressionOctetString b.length) ++ b
  | .sid s, out => do
    s.appendTo (out ++ [sidCode] ++ (← sizeField 4 .expressionSid s.encodedLen))
  | .composite es, out => do
    let size ← sizeField 4 .expressionComposite (encodedLenAll es)
    appendAll es (out ++ [compositeCode] ++ size)
  | .membership op a, out => do return (← appendTo a out) ++ [op.code]
  | .comparison op l r, out => do return (← appendTo r (← appendTo l out)) ++ [op.code]
  | .unary op a, out => do return (← appendTo a out) ++ [op.code]
  | .logical op l r, out => do return (← appendTo r (← appendTo l out)) ++ [op.code]
/-- Adds the tokens of trees one after another. -/
def appendAll : List Node → Bytes → Except Error Bytes
  | [], out => .ok out
  | e :: es, out => do appendAll es (← appendTo e out)
end

end Node

/-- Adds the signature and the tokens of a condition, before they are filled up. -/
def appendTokens (c : Condition) (out : Bytes) : Except Error Bytes :=
  c.node.appendTo (out ++ signature)

/-- Adds a condition. -/
def appendTo (c : Condition) (out : Bytes) : Except Error Bytes := do
  return resized (out.length + c.encodedLen) (← c.appendTokens out)

end Condition

/-! ### Entries and lists -/

/-- Adds application data. -/
def AppData.appendTo (d : AppData) (out : Bytes) : Except Error Bytes :=
  match d with
  | .none => .ok out
  | .condition c => c.appendTo out
  | .attribute a => a.appendTo out
  | .raw bytes => .ok (out ++ bytes)

/-- Adds a payload. -/
def Payload.appendTo (p : Payload) (out : Bytes) : Except Error Bytes :=
  match p with
  | .basic b => .ok (out ++ b.encode)
  | .object o => .ok (out ++ o.encode)
  | .objectWithData o d => d.appendTo (out ++ o.encode)
  | .basicWithData b d => d.appendTo (out ++ b.encode)
  | .unknown body => .ok (out ++ body)

namespace Ace

/-- Adds the header and the payload of an entry, before they are filled up. -/
def appendParts (a : Ace) (out : Bytes) : Except Error Bytes := do
  let size ← sizeField 2 .ace a.size
  a.payload.appendTo (out ++ (a.type.code :: leBytes 1 a.flags.toNat ++ size))

/-- Adds an entry. -/
def appendTo (a : Ace) (out : Bytes) : Except Error Bytes := do
  return resized (out.length + a.size) (← a.appendParts out)

end Ace

namespace Acl

/-- Adds entries one after another. -/
def appendEntries : List Ace → Bytes → Except Error Bytes
  | [], out => .ok out
  | a :: as, out => do appendEntries as (← a.appendTo out)

/-- Adds a list. -/
def appendTo (l : Acl) (out : Bytes) : Except Error Bytes := do
  let size ← sizeField 2 .acl l.encodedLen
  let count ← sizeField 2 .aclEntryCount l.entries.length
  appendEntries l.entries (out ++ (l.revision :: 0 :: size ++ count ++ leBytes 2 0))

end Acl

/-! ### Descriptors -/

namespace Descriptor

/-- Adds a part, if there is one. -/
def appendPart {α : Type} (appendTo : α → Bytes → Except Error Bytes) (part : Option α)
    (out : Bytes) : Except Error Bytes :=
  match part with
  | some x => appendTo x out
  | none => .ok out

/-- Adds a descriptor. -/
def appendTo (d : Descriptor) (out : Bytes) : Except Error Bytes := do
  let groupStart := headerLen + partLen Sid.encodedLen d.owner
  let saclStart := groupStart + partLen Sid.encodedLen d.group
  let daclStart := saclStart + partLen Acl.encodedLen d.sacl
  let ownerField ← offsetField d.owner headerLen
  let groupField ← offsetField d.group groupStart
  let saclField ← offsetField d.sacl saclStart
  let daclField ← offsetField d.dacl daclStart
  let out := out ++ (revision :: 0 :: leBytes 2 d.control.toNat ++ ownerField ++ groupField ++
    saclField ++ daclField)
  let out ← appendPart Sid.appendTo d.owner out
  let out ← appendPart Sid.appendTo d.group out
  let out ← appendPart Acl.appendTo d.sacl out
  appendPart Acl.appendTo d.dacl out

end Descriptor
end AccessControl
