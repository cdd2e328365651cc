/-!
# Operators and literals of conditions

The vocabulary of a conditional expression: how an integer literal was written, what a text
names, and the operators in their four families. Each member has the byte that stands for it in
the token form, and each operator the keyword of the text form. `ofCode?` reads a byte back.
-/

namespace AccessControl.Condition

/-- The width an integer literal was declared with. -/
inductive IntWidth where | int8 | int16 | int32 | int64
  deriving DecidableEq, Repr

/-- The sign an integer literal was written with. -/
inductive IntSign where | plus | minus | none
  deriving DecidableEq, Repr

/-- The base an integer literal was written in. -/
inductive IntBase where | octal | decimal | hexadecimal
  deriving DecidableEq, Repr

/-- What a text stands for: itself, or an attribute of one of four name spaces. -/
inductive TextKind where | literal | localName | user | resource | device
  deriving DecidableEq, Repr

/-- Operators that test group membership of SIDs. -/
inductive MembershipOp where
  | memberOf | deviceMemberOf | memberOfAny | deviceMemberOfAny
  | notMemberOf | notDeviceMemberOf | notMemberOfAny | notDeviceMemberOfAny
  deriving DecidableEq, Repr

/-- Operators that compare an attribute with a value. -/
inductive ComparisonOp where
  | equal | notEqual | less | lessEqual | greater | greaterEqual
  | contains | anyOf | notContains | notAnyOf
  deriving DecidableEq, Repr

/-- Operators with one logical operand. -/
inductive UnaryOp where | present | absent | negation
  deriving DecidableEq, Repr

/-- Operators with two logical operands. -/
inductive LogicalOp where | conjunction | disjunction
  deriving DecidableEq, Repr

/-- What kind of node an operand is, as far as operand rules report it. -/
inductive NodeKind where
  | integer | text (kind : TextKind) | octets | sid | composite | relational | logical
  deriving DecidableEq, Repr

/-- An operator that refused an operand; a composite counts, as it takes literals only. -/
inductive Operator where
  | composite | membership (op : MembershipOp) | comparison (op : ComparisonOp)
  | unary (op : UnaryOp)
  deriving DecidableEq, Repr

/-! ### Codes -/

/-- The byte of a width. -/
def IntWidth.code : IntWidth → UInt8
  | .int8 => 0x01 | .int16 => 0x02 | .int32 => 0x03 | .int64 => 0x04

/-- The width that a byte stands for. -/
def IntWidth.ofCode? : UInt8 → Option IntWidth
  | 0x01 => some .int8 | 0x02 => some .int16 | 0x03 => some .int32 | 0x04 => some .int64
  | _ => Option.none

/-- The number of bits of the width. -/
def IntWidth.bits : IntWidth → Nat
  | .int8 => 8 | .int16 => 16 | .int32 => 32 | .int64 => 64

/-- The byte of a sign. -/
def IntSign.code : IntSign → UInt8
  | .plus => 0x01 | .minus => 0x02 | .none => 0x03

/-- The sign that a byte stands for. -/
def IntSign.ofCode? : UInt8 → Option IntSign
  | 0x01 => some .plus | 0x02 => some .minus | 0x03 => some .none
  | _ => Option.none

/-- The byte of a base. -/
def IntBase.code : IntBase → UInt8
  | .octal => 0x01 | .decimal => 0x02 | .hexadecimal => 0x03

/-- The base that a byte stands for. -/
def IntBase.ofCode? : UInt8 → Option IntBase
  | 0x01 => some .octal | 0x02 => some .decimal | 0x03 => some .hexadecimal
  | _ => none

/-- The byte of a kind of text. -/
def TextKind.code : TextKind → UInt8
  | .literal => 0x10 | .localName => 0xf8 | .user => 0xf9 | .resource => 0xfa | .device => 0xfb

/-- The kind of text that a byte stands for. -/
def TextKind.ofCode? : UInt8 → Option TextKind
  | 0x10 => some .literal | 0xf8 => some .localName | 0xf9 => some .user
  | 0xfa => some .resource | 0xfb => some .device
  | _ => none

/-- The byte of a membership operator. -/
def MembershipOp.code : MembershipOp → UInt8
  | .memberOf => 0x89 | .deviceMemberOf => 0x8a
  | .memberOfAny => 0x8b | .deviceMemberOfAny => 0x8c
  | .notMemberOf => 0x90 | .notDeviceMemberOf => 0x91
  | .notMemberOfAny => 0x92 | .notDeviceMemberOfAny => 0x93

/-- The membership operator that a byte stands for. -/
def MembershipOp.ofCode? : UInt8 → Option MembershipOp
  | 0x89 => some .memberOf | 0x8a => some .deviceMemberOf
  | 0x8b => some .memberOfAny | 0x8c => some .deviceMemberOfAny
  | 0x90 => some .notMemberOf | 0x91 => some .notDeviceMemberOf
  | 0x92 => some .notMemberOfAny | 0x93 => some .notDeviceMemberOfAny
  | _ => none

/-- The byte of a comparison operator. -/
def ComparisonOp.code : ComparisonOp → UInt8
  | .equal => 0x80 | .notEqual => 0x81 | .less => 0x82 | .lessEqual => 0x83
  | .greater => 0x84 | .greaterEqual => 0x85 | .contains => 0x86 | .anyOf => 0x88
  | .notContains => 0x8e | .notAnyOf => 0x8f

/-- The comparison operator that a byte stands for. -/
def ComparisonOp.ofCode? : UInt8 → Option ComparisonOp
  | 0x80 => some .equal | 0x81 => some .notEqual | 0x82 => some .less | 0x83 => some .lessEqual
  | 0x84 => some .greater | 0x85 => some .greaterEqual | 0x86 => some .contains
  | 0x88 => some .anyOf | 0x8e => some .notContains | 0x8f => some .notAnyOf
  | _ => none

/-- The byte of an operator on one operand. -/
def UnaryOp.code : UnaryOp → UInt8
  | .present => 0x87 | .absent => 0x8d | .negation => 0xa2

/-- The operator on one operand that a byte stands for. -/
def UnaryOp.ofCode? : UInt8 → Option UnaryOp
  | 0x87 => some .present | 0x8d => some .absent | 0xa2 => some .negation
  | _ => none

/-- The byte of a logical operator. -/
def LogicalOp.code : LogicalOp → UInt8
  | .conjunction => 0xa0 | .disjunction => 0xa1

/-- The logical operator that a byte stands for. -/
def LogicalOp.ofCode? : UInt8 → Option LogicalOp
  | 0xa0 => some .conjunction | 0xa1 => some .disjunction
  | _ => none

/-! ### Keywords -/

/-- The keyword of a membership operator. -/
def MembershipOp.keyword : MembershipOp → String
  | .memberOf => "Member_of" | .deviceMemberOf => "Device_Member_of"
  | .memberOfAny => "Member_of_Any" | .deviceMemberOfAny => "Device_Member_of_Any"
  | .notMemberOf => "Not_Member_of" | .notDeviceMemberOf => "Not_Device_Member_of"
  | .notMemberOfAny => "Not_Member_of_Any" | .notDeviceMemberOfAny => "Not_Device_Member_of_Any"

/-- The keyword of a comparison operator. -/
def ComparisonOp.keyword : ComparisonOp → String
  | .equal => "==" | .notEqual => "!=" | .less => "<" | .lessEqual => "<="
  | .greater => ">" | .greaterEqual => ">=" | .contains => "Contains" | .anyOf => "Any_of"
  | .notContains => "Not_Contains" | .notAnyOf => "Not_Any_of"

/-- The keyword of an operator on one operand. -/
def UnaryOp.keyword : UnaryOp → String
  | .present => "Exists" | .absent => "Not_Exists" | .negation => "!"

/-- The keyword of a logical operator. -/
def LogicalOp.keyword : LogicalOp → String
  | .conjunction => "&&" | .disjunction => "||"

/-- The keyword of an operator; for a composite, the word that messages use. -/
def Operator.keyword : Operator → String
  | .composite => "composite"
  | .membership op => op.keyword
  | .comparison op => op.keyword
  | .unary op => op.keyword

/-! ### Classes -/

/-- Whether the text names an attribute. -/
def TextKind.isAttribute : TextKind → Bool
  | .literal => false
  | _ => true

/-- Whether `Exists` may ask for an attribute of this name space. -/
def TextKind.isQueryable : TextKind → Bool
  | .localName | .resource => true
  | _ => false

/-- Whether the operator compares by size; such an operator takes single values only. -/
def ComparisonOp.isOrdering : ComparisonOp → Bool
  | .less | .lessEqual | .greater | .greaterEqual => true
  | _ => false

/-- The words for a kind of text. -/
def TextKind.label : TextKind → String
  | .literal => "string literal" | .localName => "local attribute" | .user => "user attribute"
  | .resource => "resource attribute" | .device => "device attribute"

/-- The words for a kind of node. -/
def NodeKind.label : NodeKind → String
  | .integer => "integer" | .text kind => kind.label | .octets => "octet string" | .sid => "SID"
  | .composite => "composite" | .relational => "relational expression"
  | .logical => "logical expression"

end AccessControl.Condition
