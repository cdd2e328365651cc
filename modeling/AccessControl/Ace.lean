import AccessControl.Ace.Payload
import AccessControl.Sid.WellKnown

/-!
# Access control entries

An entry has a type, eight flags, and a payload that is valid for its type. `Ace.make` normalizes
any payload of the right shape; the other constructors are for common entries.
-/

namespace AccessControl

/-- An access control entry. -/
structure Ace where
  type : AceType
  flags : BitVec 8
  payload : Payload
  valid : payload.Valid type
  deriving DecidableEq

namespace Ace

/-- The entry with the normal form of a payload. -/
def make (type : AceType) (flags : BitVec 8) (payload : Payload) : Except Error Ace :=
  if hs : payload.shape? = type.shape? then
    if hf : payload.normalized.data.Fits type.dataKind then
      .ok
        { type, flags
          payload := payload.normalized
          valid := ⟨payload.shape?_normalized.trans hs, hf, payload.normalized_isNormal⟩ }
    else .error (payload.normalized.data.refusal type)
  else .error (.payloadShape type.code)

/-- An entry without flags that grants rights to a SID. -/
def allowed (sid : Sid) (mask : BitVec 32) : Ace where
  type := AceKind.accessAllowed.type
  flags := 0
  payload := .basic ⟨mask, sid⟩
  valid := ⟨rfl, trivial, trivial⟩

/-- An entry without flags that denies rights to a SID. -/
def denied (sid : Sid) (mask : BitVec 32) : Ace where
  type := AceKind.accessDenied.type
  flags := 0
  payload := .basic ⟨mask, sid⟩
  valid := ⟨rfl, trivial, trivial⟩

/-- The label of an integrity level. -/
def mandatoryLabel (level : Sid) (policy : BitVec 32) : Ace where
  type := AceKind.systemMandatoryLabel.type
  flags := 0
  payload := .basic ⟨policy, level⟩
  valid := ⟨rfl, trivial, trivial⟩

/-- An entry without flags that grants rights to a SID under a condition. -/
def allowedIf (sid : Sid) (mask : BitVec 32) (condition : Condition) : Ace where
  type := AceKind.accessAllowedCallback.type
  flags := 0
  payload := .basicWithData ⟨mask, sid⟩ (.condition condition)
  valid := ⟨rfl, trivial, trivial⟩

/-- An entry that gives an attribute to the object; the attribute must have one value. -/
def resourceAttribute (claim : ClaimAttribute) : Except Error Ace :=
  make AceKind.systemResourceAttribute.type 0
    (.basicWithData ⟨0, WellKnown.everyone.toSid⟩ (.attribute claim))

/-- The entry with other flags. -/
def withFlags (a : Ace) (flags : BitVec 8) : Ace := { a with flags }

/-- Whether the entry was inherited from a parent object. -/
def isInherited (a : Ace) : Bool := a.flags.getLsbD 4

/-- The rights of the entry. -/
def mask? (a : Ace) : Option (BitVec 32) := a.payload.mask?

/-- The SID that the entry is about. -/
def sid? (a : Ace) : Option Sid := a.payload.sid?

end Ace
end AccessControl
