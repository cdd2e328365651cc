/-!
# Types of claim values

A claim attribute declares one type for all of its values; on the wire the type is a 16-bit code.
-/

namespace AccessControl

/-- The type of the values of a claim attribute. -/
inductive ClaimType where | int64 | uint64 | string | fqbn | sid | boolean | octetString
  deriving DecidableEq, Repr

namespace ClaimType

/-- The code of the type in the header of an attribute. -/
def code : ClaimType → UInt16
  | .int64 => 1 | .uint64 => 2 | .string => 3 | .fqbn => 4 | .sid => 5 | .boolean => 6
  | .octetString => 0x10

/-- The type that a code stands for. -/
def ofCode? : UInt16 → Option ClaimType
  | 1 => some .int64 | 2 => some .uint64 | 3 => some .string | 4 => some .fqbn | 5 => some .sid
  | 6 => some .boolean | 0x10 => some .octetString
  | _ => none

/-- The name of the type. -/
def name : ClaimType → String
  | .int64 => "Int64" | .uint64 => "Uint64" | .string => "String" | .fqbn => "Fqbn"
  | .sid => "Sid" | .boolean => "Boolean" | .octetString => "OctetString"

theorem ofCode?_code (t : ClaimType) : ofCode? t.code = some t := by cases t <;> rfl

end ClaimType
end AccessControl
