import AccessControl.Descriptor.Wire
import AccessControl.Guid
import AccessControl.Interchange.Document
import AccessControl.Sid.Text

/-!
# Values in other data formats

Every value has two forms for use inside other data: a readable one, which is a document, and a
compact one, which is bytes. Identifiers are texts in documents and their wire form in compact
data; bit words are numbers; composite values are their wire form in both, a sequence of numbers
in a document. Reading goes through the same decoders as everywhere, so it accepts no value that
the wire format does not have.
-/

namespace AccessControl

/-! ### Identifiers -/

/-- How identifiers of a type are written and read. -/
structure IdentifierForm (α : Type) where
  expected : Expected
  text : α → String
  ofText? : String → Option α
  bytes : α → Bytes
  ofBytes? : Bytes → Option α

namespace IdentifierForm

variable {α : Type}

/-- The readable form of an identifier. -/
def toDocument (f : IdentifierForm α) (x : α) : Document := .text (f.text x)

/-- The identifier that a document stands for. -/
def ofDocument (f : IdentifierForm α) (d : Document) : Except Refusal α :=
  match d with
  | .text content =>
    match f.ofText? content with
    | some x => .ok x
    | none => .error (.wrongValue d f.expected)
  | _ => .error (.wrongKind d f.expected)

/-- The compact form of an identifier. -/
def toCompact (f : IdentifierForm α) (x : α) : Bytes := f.bytes x

/-- The identifier that compact data stand for. -/
def ofCompact (f : IdentifierForm α) (b : Bytes) : Except Refusal α :=
  match f.ofBytes? b with
  | some x => .ok x
  | none => .error (.wrongBytes f.expected)

end IdentifierForm

/-- SIDs in other data. -/
def Sid.form : IdentifierForm Sid where
  expected := .sid
  text := Sid.text
  ofText? t := (Sid.parse t).toOption
  bytes := Sid.encode
  ofBytes? b := (Sid.decode b).toOption

/-- GUIDs in other data. -/
def Guid.form : IdentifierForm Guid where
  expected := .guid
  text := Guid.text
  ofText? t := (Guid.parse t).toOption
  bytes := Guid.bytes
  ofBytes? := Guid.ofBytes?

/-! ### Bit words -/

namespace Bitset

/-- The word of a number, if it still is that number once the bits beyond the width are gone. -/
def ofWord (n value : Nat) : Except Refusal (Bitset n) :=
  let s := ofNat n value
  if s.toNat = value then .ok s else .error (.wrongValue (.integer value) .fittingWord)

/-- The readable form of a word. -/
def toDocument {n : Nat} (s : Bitset n) : Document := .integer s.toNat

/-- The word that a document stands for. -/
def ofDocument (n : Nat) (d : Document) : Except Refusal (Bitset n) :=
  match d with
  | .integer value =>
    if 0 ≤ value ∧ value < 0x100000000 then ofWord n value.toNat else .error (.wrongValue d .word)
  | _ => .error (.wrongKind d .word)

/-- The compact form of a word: four bytes, whatever its width. -/
def toCompact {n : Nat} (s : Bitset n) : Bytes := leBytes 4 s.toNat

/-- The word that compact data stand for. -/
def ofCompact (n : Nat) (b : Bytes) : Except Refusal (Bitset n) :=
  match cutNat (.short .flags 4) 4 b with
  | .ok (value, _) => ofWord n value
  | .error cause => .error (.undecodable cause)

end Bitset

/-! ### Composite values -/

/-- How values of a type are encoded and decoded. -/
structure WireForm (α : Type) where
  expected : Expected
  encode : α → Except Error Bytes
  decode : Bytes → Except Error α

/-- The byte that a document stands for. -/
def Document.toByte (d : Document) : Except Refusal UInt8 :=
  match d with
  | .integer value =>
    if 0 ≤ value ∧ value < 256 then .ok (.ofNat value.toNat) else .error (.wrongValue d .byte)
  | _ => .error (.wrongKind d .byte)

/-- The bytes that documents stand for; the first that is no byte is reported. -/
def Document.toBytes : List Document → Except Refusal Bytes
  | [] => .ok []
  | d :: ds => do return (← d.toByte) :: (← toBytes ds)

namespace WireForm

variable {α : Type}

/-- The readable form of a value. -/
def toDocument (f : WireForm α) (x : α) : Except Error Document := do
  return .sequence ((← f.encode x).map fun byte => .integer byte.toNat)

/-- The value that bytes stand for. -/
def ofCompact (f : WireForm α) (b : Bytes) : Except Refusal α :=
  match f.decode b with
  | .ok x => .ok x
  | .error cause => .error (.undecodable cause)

/-- The value that a document stands for. -/
def ofDocument (f : WireForm α) (d : Document) : Except Refusal α :=
  match d with
  | .sequence items => do f.ofCompact (← Document.toBytes items)
  | _ => .error (.wrongKind d f.expected)

/-- The compact form of a value. -/
def toCompact (f : WireForm α) (x : α) : Except Error Bytes := f.encode x

end WireForm

/-- Conditions in other data. -/
def Condition.form : WireForm Condition := ⟨.condition, Condition.encode, Condition.decode⟩

/-- Claim attributes in other data. -/
def ClaimAttribute.form : WireForm ClaimAttribute :=
  ⟨.claim, ClaimAttribute.encode, ClaimAttribute.decode⟩

/-- Entries in other data. -/
def Ace.form : WireForm Ace := ⟨.ace, Ace.encode, Ace.decode⟩

/-- Access control lists in other data. -/
def Acl.form : WireForm Acl := ⟨.acl, Acl.encode, Acl.decode⟩

/-- Descriptors in other data. -/
def Descriptor.form : WireForm Descriptor :=
  ⟨.descriptor, Descriptor.encode, Descriptor.decode⟩

end AccessControl
