import AccessControl.Ace

/-!
# Building entries from parts

A draft of an entry collects parts in any order; building it chooses the payload by the type and
reports what is missing or does not belong to the type.
-/

namespace AccessControl

/-- The parts of an entry to be. -/
structure AceDraft where
  type : AceType
  flags : BitVec 8
  mask : Option (BitVec 32)
  sid : Option Sid
  objectFlags : BitVec 32
  objectType : Option Guid
  inheritedType : Option Guid
  data : AppData

namespace AceDraft

/-- A draft of a type without any other part. -/
def ofType (type : AceType) : AceDraft := ⟨type, 0, none, none, 0, none, none, .none⟩

/-- The payload of a shape made of the parts. -/
def payload (d : AceDraft) (shape : AceShape) (sid : Sid) (mask : BitVec 32) : Payload :=
  let object : ObjectBody := ⟨mask, d.objectFlags, d.objectType, d.inheritedType, sid⟩
  match shape with
  | .basic => .basic ⟨mask, sid⟩
  | .object => .object object
  | .objectWithData => .objectWithData object d.data
  | .basicWithData => .basicWithData ⟨mask, sid⟩ d.data

/-- The entry of the parts. -/
def build (d : AceDraft) : Except Error Ace :=
  match d.type.shape?, d.sid, d.mask with
  | none, _, _ => .error (.payloadShape d.type.code)
  | some _, none, _ => .error (.missingPart .aceSid)
  | some _, some _, none => .error (.missingPart .aceMask)
  | some shape, some sid, some mask =>
    if !shape.hasData && !d.data.isNone then .error (.payloadShape d.type.code)
    else Ace.make d.type d.flags (d.payload shape sid mask)

end AceDraft
end AccessControl
