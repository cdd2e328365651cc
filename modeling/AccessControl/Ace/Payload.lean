import AccessControl.Ace.Type
import AccessControl.Bits
import AccessControl.Claim
import AccessControl.Condition
import AccessControl.Guid

/-!
# Payloads of entries

The payload of an entry is a body, rights for a SID and possibly object types, and in some shapes
application data. Payloads have a normal form, which is what a reader gets back from the padded
envelope of an entry: the presence bits of object flags agree with the object types, raw bytes
have a length that is a multiple of four, and raw data of nothing but zeros is no data.
-/

namespace AccessControl

/-- Application data of an entry. -/
inductive AppData where
  | none
  | condition (c : Condition)
  | attribute (a : ClaimAttribute)
  /-- Bytes that are not looked into. -/
  | raw (bytes : Bytes)
  deriving DecidableEq

namespace AppData

/-- Whether there is no data. -/
def isNone : AppData → Bool
  | .none => true
  | _ => false

/-- Whether an entry that holds data of a kind may have this data. A resource attribute has one
value. -/
def Fits : AppData → DataKind → Prop
  | .none, _ => True
  | .condition _, .condition => True
  | .attribute a, .attribute => a.values.length = 1
  | .raw _, .raw => True
  | _, _ => False

instance : ∀ (d : AppData) (k : DataKind), Decidable (d.Fits k) := by
  intro d k
  cases d <;> cases k <;> simp only [Fits] <;> infer_instance

/-- Why an entry of a type does not take the data, where it does not. -/
def refusal (type : AceType) : AppData → Error
  | .attribute a =>
    if type.dataKind = .attribute then .tooManyValues a.values.length else .payloadShape type.code
  | _ => .payloadShape type.code

/-- The data as it is read back. -/
def normalized : AppData → AppData
  | .raw bytes => if allZero bytes then .none else .raw (padded bytes)
  | data => data

/-- The data is read back as it is. -/
def IsNormal : AppData → Prop
  | .raw bytes => allZero bytes = false ∧ 4 ∣ bytes.length
  | _ => True

theorem normalized_isNormal (d : AppData) : d.normalized.IsNormal := by
  cases d with
  | raw bytes =>
    by_cases h : allZero bytes = true
    · simp [normalized, h, IsNormal]
    · have hp : allZero (padded bytes) = false := by
        rw [Bool.not_eq_true] at h
        simp only [allZero, padded, List.all_append] at h ⊢
        rw [h, Bool.false_and]
      simpa [normalized, h, IsNormal, hp] using four_dvd_align4 bytes.length
  | _ => trivial

end AppData

/-- Rights for a SID. -/
structure BasicBody where
  mask : BitVec 32
  sid : Sid
  deriving DecidableEq

/-- Rights for a SID on objects of a type, or inherited by objects of a type. -/
structure ObjectBody where
  mask : BitVec 32
  flags : BitVec 32
  objectType : Option Guid
  inheritedType : Option Guid
  sid : Sid
  deriving DecidableEq

namespace ObjectBody

/-- The flags with the two presence bits taken from the object types. -/
def syncedFlags (o : ObjectBody) : BitVec 32 :=
  putBit (putBit o.flags 0 o.objectType.isSome) 1 o.inheritedType.isSome

/-- The body with synced flags. -/
def normalized (o : ObjectBody) : ObjectBody := { o with flags := o.syncedFlags }

/-- A body without other flags than the presence bits. -/
def make (mask : BitVec 32) (objectType inheritedType : Option Guid) (sid : Sid) : ObjectBody :=
  normalized ⟨mask, 0, objectType, inheritedType, sid⟩

/-- The presence bits agree with the object types. -/
def IsNormal (o : ObjectBody) : Prop :=
  o.flags.getLsbD 0 = o.objectType.isSome ∧ o.flags.getLsbD 1 = o.inheritedType.isSome

theorem normalized_isNormal (o : ObjectBody) : o.normalized.IsNormal := by
  constructor <;> simp only [normalized, syncedFlags, getLsbD_putBit] <;> rfl

end ObjectBody

/-- The payload of an entry. -/
inductive Payload where
  | basic (body : BasicBody)
  | object (body : ObjectBody)
  | objectWithData (body : ObjectBody) (data : AppData)
  | basicWithData (body : BasicBody) (data : AppData)
  /-- The body of an entry of an unassigned type. -/
  | unknown (body : Bytes)
  deriving DecidableEq

namespace Payload

/-- The shape of a payload, if it is known. -/
def shape? : Payload → Option AceShape
  | .basic _ => some .basic
  | .object _ => some .object
  | .objectWithData _ _ => some .objectWithData
  | .basicWithData _ _ => some .basicWithData
  | .unknown _ => none

/-- The rights. -/
def mask? : Payload → Option (BitVec 32)
  | .basic b | .basicWithData b _ => some b.mask
  | .object o | .objectWithData o _ => some o.mask
  | .unknown _ => none

/-- The SID that the rights are for. -/
def sid? : Payload → Option Sid
  | .basic b | .basicWithData b _ => some b.sid
  | .object o | .objectWithData o _ => some o.sid
  | .unknown _ => none

/-- The object part. -/
def object? : Payload → Option ObjectBody
  | .object o | .objectWithData o _ => some o
  | _ => none

/-- The application data, where the shape has any. -/
def data? : Payload → Option AppData
  | .objectWithData _ d | .basicWithData _ d => some d
  | _ => none

/-- The application data; a shape without any has none. -/
def data (p : Payload) : AppData := p.data?.getD .none

/-- The payload as it is read back. -/
def normalized : Payload → Payload
  | .basic b => .basic b
  | .object o => .object o.normalized
  | .objectWithData o d => .objectWithData o.normalized d.normalized
  | .basicWithData b d => .basicWithData b d.normalized
  | .unknown body => .unknown (padded body)

/-- The payload is read back as it is. -/
def IsNormal : Payload → Prop
  | .basic _ => True
  | .object o => o.IsNormal
  | .objectWithData o d => o.IsNormal ∧ d.IsNormal
  | .basicWithData _ d => d.IsNormal
  | .unknown body => 4 ∣ body.length

theorem shape?_normalized (p : Payload) : p.normalized.shape? = p.shape? := by cases p <;> rfl

theorem normalized_isNormal (p : Payload) : p.normalized.IsNormal := by
  cases p with
  | basic => trivial
  | object o => exact o.normalized_isNormal
  | objectWithData o d => exact ⟨o.normalized_isNormal, d.normalized_isNormal⟩
  | basicWithData _ d => exact d.normalized_isNormal
  | unknown body => simpa [normalized, IsNormal] using four_dvd_align4 _

/-- The payload is in normal form, and its shape and data belong to a type. -/
structure Valid (type : AceType) (p : Payload) : Prop where
  shape : p.shape? = type.shape?
  fits : p.data.Fits type.dataKind
  normal : p.IsNormal

end Payload
end AccessControl
