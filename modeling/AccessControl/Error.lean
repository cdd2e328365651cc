import AccessControl.Claim.Kind
import AccessControl.Condition.Operator
import AccessControl.Numeral

/-!
# Why a value is refused

`Error` lists the causes for which a value cannot be built, encoded or decoded, and
`Error.message` gives each of them its text. `Item` names the part of the wire format that a
cause is about.
-/

namespace AccessControl

/-- A part of the wire format, or of an entry under construction. -/
inductive Item where
  | sid | flags
  | claimAttribute | claimName | claimValues | claimValue | claimSid | claimOctetString | claimFqbn
  | claimValueCount | claimValuesOffset
  | expressionInteger | expressionString | expressionOctetString | expressionSid
  | expressionComposite
  | aceHeader | ace | aceBody | objectAceBody | aceSid | aceMask
  | aclHeader | acl | aclEntryCount
  | descriptorHeader | descriptor | descriptorOffset | ownerSid | groupSid | sacl | dacl
  deriving DecidableEq, Repr

/-- The words for an item. -/
def Item.label : Item → String
  | .sid => "SID"
  | .flags => "flags"
  | .claimAttribute => "claim attribute"
  | .claimName => "claim name"
  | .claimValues => "claim values"
  | .claimValue => "claim value"
  | .claimSid => "claim SID"
  | .claimOctetString => "claim octet string"
  | .claimFqbn => "claim FQBN"
  | .claimValueCount => "claim value count"
  | .claimValuesOffset => "claim values offset"
  | .expressionInteger => "expression integer"
  | .expressionString => "expression string"
  | .expressionOctetString => "expression octet string"
  | .expressionSid => "expression SID"
  | .expressionComposite => "expression composite"
  | .aceHeader => "ACE header"
  | .ace => "ACE"
  | .aceBody => "ACE body"
  | .objectAceBody => "object ACE body"
  | .aceSid => "ACE SID"
  | .aceMask => "ACE access mask"
  | .aclHeader => "ACL header"
  | .acl => "ACL"
  | .aclEntryCount => "ACL entry count"
  | .descriptorHeader => "security descriptor header"
  | .descriptor => "security descriptor"
  | .descriptorOffset => "security descriptor offset"
  | .ownerSid => "owner SID"
  | .groupSid => "group SID"
  | .sacl => "SACL"
  | .dacl => "DACL"

/-- What is wrong with the token form of a condition as a whole. -/
inductive Condition.Fault where
  | noSignature | empty | notSingle | missingOperand | operatorInComposite
  | compositeTooDeep | tooDeep | badSign | badBase
  deriving DecidableEq, Repr

/-- The words for a fault. -/
def Condition.Fault.label : Condition.Fault → String
  | .noSignature => "missing artx signature"
  | .empty => "empty expression"
  | .notSingle => "expression does not reduce to a single node"
  | .missingOperand => "operator is missing an operand"
  | .operatorInComposite => "operator token inside a composite"
  | .compositeTooDeep => "composite nested too deeply"
  | .tooDeep => "expression nested too deeply"
  | .badSign => "invalid integer sign"
  | .badBase => "invalid integer base"

/-- The causes for which a value cannot be built, encoded or decoded. -/
inductive Error where
  /-- A text or byte string is not a SID. -/
  | malformedSid
  /-- A text or byte string is not a GUID. -/
  | malformedGuid
  /-- A name is not a bit of the table, or the table is not for the word. -/
  | invalidMeaning (table name : String)
  /-- The bytes end before the item does. -/
  | truncated (item : Item) (needed available : Nat)
  /-- An entry declares more bytes than there are. -/
  | truncatedAce (declared available : Nat)
  /-- A size is too small or too large for its field. -/
  | invalidSize (item : Item) (size : Nat)
  /-- The item has a revision other than the supported ones. -/
  | invalidRevision (item : Item) (revision : UInt8)
  /-- A claim value is not of the declared type. -/
  | claimTypeMismatch (expected found : ClaimType)
  /-- No claim type has this code. -/
  | unknownClaimType (code : UInt16)
  /-- A resource attribute needs exactly one value. -/
  | tooManyValues (count : Nat)
  /-- A text is not UTF-16, or has no terminator where it needs one. -/
  | invalidUtf16
  /-- An operator does not take an operand of this kind. -/
  | operandRefused (operator : Condition.Operator) (operand : Condition.NodeKind)
  /-- The token form of a condition is wrong as a whole. -/
  | malformedCondition (fault : Condition.Fault)
  /-- No token starts with this byte. -/
  | unknownToken (code : UInt8)
  /-- The payload does not belong to the entry's type. -/
  | payloadShape (code : UInt8)
  /-- A descriptor ends before its control word. -/
  | missingControl
  /-- A descriptor is in another form than the self-relative one. -/
  | notSelfRelative
  /-- A record of fixed layout is malformed. -/
  | malformedRecord (item : Item)
  /-- A mandatory part was not supplied. -/
  | missingPart (item : Item)
  deriving DecidableEq, Repr

namespace Error

/-- The text of a cause. -/
def message : Error → String
  | malformedSid => "malformed security identifier"
  | malformedGuid => "malformed GUID"
  | invalidMeaning table name => s!"`{name}` is not a bit of the `{table}` meaning table"
  | truncated item needed available =>
    s!"truncated {item.label}: needed {needed} bytes, {available} available"
  | truncatedAce declared available =>
    s!"ACE declares {declared} bytes but only {available} remain"
  | invalidSize item size => s!"invalid {item.label} size {size}"
  | invalidRevision item revision => s!"unsupported {item.label} revision {revision.toNat}"
  | claimTypeMismatch expected found =>
    s!"claim value type mismatch: expected {expected.name}, found {found.name}"
  | unknownClaimType _ => "claim value type mismatch: expected claim value type, found unknown"
  | tooManyValues count => s!"resource attribute must carry exactly one value, found {count}"
  | invalidUtf16 => "invalid UTF-16 string"
  | operandRefused operator operand =>
    s!"operator `{operator.keyword}` does not accept a {operand.label} operand"
  | malformedCondition fault => s!"malformed conditional expression: {fault.label}"
  | unknownToken code =>
    "unknown conditional expression token 0x" ++ String.ofList (Numeral.hexByte code)
  | payloadShape code =>
    "payload shape does not match ACE type 0x" ++ String.ofList (Numeral.hexByte code)
  | missingControl => "security descriptor is too short to hold its control field"
  | notSelfRelative => "security descriptor is not in self-relative form"
  | malformedRecord item => s!"malformed {item.label}"
  | missingPart item => s!"{item.label} is missing before encoding"

/-- The failure of a read that needs `n` bytes of an item where only `rest` is left. -/
def short (item : Item) (n : Nat) (rest : Bytes) : Error := .truncated item n rest.length

/-- The failure of a record of at least `least` bytes that starts at `start` and ends early. -/
def shortRecord (item : Item) (least : Nat) (start : Bytes) (_rest : Bytes) : Error :=
  .truncated item (max least (start.length + 1)) start.length

end Error

/-- A text that is not of the form of its kind of identifier. -/
inductive FormatError where | sid | guid
  deriving DecidableEq, Repr

/-- The text of a cause. -/
def FormatError.message : FormatError → String
  | .sid => "Invalid format for Sid"
  | .guid => "Invalid format for Guid"

end AccessControl
