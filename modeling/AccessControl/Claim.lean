import AccessControl.Sid

/-!
# Claim attributes

A claim attribute is a name, flags, and a list of values that all have the type it declares; that
they do is part of the type. Text values and the name are arbitrary texts here; which of them
survive the wire is a matter of the format.
-/

namespace AccessControl

/-- A value of a claim attribute. -/
inductive ClaimValue where
  | int64 (value : Int64)
  | uint64 (value : UInt64)
  | string (text : String)
  /-- A fully qualified binary name; its version is not kept, as it is always one. -/
  | fqbn (name : String)
  | sid (sid : Sid)
  | boolean (value : Bool)
  | octetString (bytes : Bytes)
  deriving DecidableEq

namespace ClaimValue

/-- The type of a value. -/
def type : ClaimValue → ClaimType
  | .int64 _ => .int64
  | .uint64 _ => .uint64
  | .string _ => .string
  | .fqbn _ => .fqbn
  | .sid _ => .sid
  | .boolean _ => .boolean
  | .octetString _ => .octetString

/-- The version of every fully qualified binary name. -/
def fqbnVersion : Nat := 1

end ClaimValue

/-- A named list of values of one type. -/
structure ClaimAttribute where
  name : String
  type : ClaimType
  flags : BitVec 32
  values : List ClaimValue
  typed : ∀ v ∈ values, v.type = type
  deriving DecidableEq

namespace ClaimAttribute

/-- The attribute of some values; the first value of another type is reported. -/
def make (name : String) (type : ClaimType) (flags : BitVec 32) (values : List ClaimValue) :
    Except Error ClaimAttribute :=
  match h : values.find? fun v => v.type ≠ type with
  | some v => .error (.claimTypeMismatch type v.type)
  | none => .ok ⟨name, type, flags, values, by simpa using h⟩

theorem make_self (a : ClaimAttribute) : make a.name a.type a.flags a.values = .ok a := by
  have h : (a.values.find? fun v => v.type ≠ a.type) = none := by simpa using a.typed
  unfold make
  split
  next heq => rw [h] at heq; cases heq
  next => rfl

end ClaimAttribute
end AccessControl
