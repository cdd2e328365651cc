/-!
# Types of entries

The type of an access control entry is a byte. Twenty-one values are assigned; each of them says
what shape the body of the entry has and what kind of data may follow its SID. Entries of other
types are carried along without looking into them.
-/

namespace AccessControl

/-- The shape of the body of an entry. -/
inductive AceShape where | basic | object | objectWithData | basicWithData
  deriving DecidableEq, Repr

namespace AceShape

/-- Whether the body has room for object types. -/
def isObject : AceShape → Bool
  | .object | .objectWithData => true
  | _ => false

/-- Whether the body ends with application data. -/
def hasData : AceShape → Bool
  | .objectWithData | .basicWithData => true
  | _ => false

end AceShape

/-- The kind of application data of an entry; raw data is not looked into. -/
inductive DataKind where | none | condition | attribute | raw
  deriving DecidableEq, Repr

/-- The assigned types of entries. -/
inductive AceKind where
  | accessAllowed | accessDenied | systemAudit | systemAlarm
  | accessAllowedObject | accessDeniedObject | systemAuditObject | systemAlarmObject
  | accessAllowedCallback | accessDeniedCallback
  | accessAllowedCallbackObject | accessDeniedCallbackObject
  | systemAuditCallback | systemAlarmCallback
  | systemAuditCallbackObject | systemAlarmCallbackObject
  | systemMandatoryLabel | systemResourceAttribute | systemScopedPolicyId
  | systemProcessTrustLabel | systemAccessFilter
  deriving DecidableEq, Repr

namespace AceKind

/-- The byte of a kind. -/
def code : AceKind → UInt8
  | .accessAllowed => 0x00 | .accessDenied => 0x01 | .systemAudit => 0x02 | .systemAlarm => 0x03
  | .accessAllowedObject => 0x05 | .accessDeniedObject => 0x06
  | .systemAuditObject => 0x07 | .systemAlarmObject => 0x08
  | .accessAllowedCallback => 0x09 | .accessDeniedCallback => 0x0a
  | .accessAllowedCallbackObject => 0x0b | .accessDeniedCallbackObject => 0x0c
  | .systemAuditCallback => 0x0d | .systemAlarmCallback => 0x0e
  | .systemAuditCallbackObject => 0x0f | .systemAlarmCallbackObject => 0x10
  | .systemMandatoryLabel => 0x11 | .systemResourceAttribute => 0x12
  | .systemScopedPolicyId => 0x13 | .systemProcessTrustLabel => 0x14
  | .systemAccessFilter => 0x15

/-- The kind that a byte is assigned to. -/
def ofCode? : UInt8 → Option AceKind
  | 0x00 => some .accessAllowed | 0x01 => some .accessDenied
  | 0x02 => some .systemAudit | 0x03 => some .systemAlarm
  | 0x05 => some .accessAllowedObject | 0x06 => some .accessDeniedObject
  | 0x07 => some .systemAuditObject | 0x08 => some .systemAlarmObject
  | 0x09 => some .accessAllowedCallback | 0x0a => some .accessDeniedCallback
  | 0x0b => some .accessAllowedCallbackObject | 0x0c => some .accessDeniedCallbackObject
  | 0x0d => some .systemAuditCallback | 0x0e => some .systemAlarmCallback
  | 0x0f => some .systemAuditCallbackObject | 0x10 => some .systemAlarmCallbackObject
  | 0x11 => some .systemMandatoryLabel | 0x12 => some .systemResourceAttribute
  | 0x13 => some .systemScopedPolicyId | 0x14 => some .systemProcessTrustLabel
  | 0x15 => some .systemAccessFilter
  | _ => none

/-- The shape of the body of entries of a kind. -/
def shape : AceKind → AceShape
  | .accessAllowed | .accessDenied | .systemAudit | .systemAlarm
  | .systemMandatoryLabel | .systemScopedPolicyId | .systemProcessTrustLabel => .basic
  | .accessAllowedObject | .accessDeniedObject | .systemAlarmObject => .object
  | .systemAuditObject | .accessAllowedCallbackObject | .accessDeniedCallbackObject
  | .systemAuditCallbackObject | .systemAlarmCallbackObject => .objectWithData
  | .accessAllowedCallback | .accessDeniedCallback | .systemAuditCallback | .systemAlarmCallback
  | .systemResourceAttribute | .systemAccessFilter => .basicWithData

/-- The kind of application data of entries of a kind. -/
def dataKind : AceKind → DataKind
  | .accessAllowedCallback | .accessDeniedCallback | .accessAllowedCallbackObject
  | .accessDeniedCallbackObject | .systemAuditCallback | .systemAuditCallbackObject => .condition
  | .systemResourceAttribute => .attribute
  | .systemAuditObject | .systemAlarmCallback | .systemAlarmCallbackObject
  | .systemAccessFilter => .raw
  | _ => .none

/-- The name of a kind. -/
def name : AceKind → String
  | .accessAllowed => "ACCESS_ALLOWED"
  | .accessDenied => "ACCESS_DENIED"
  | .systemAudit => "SYSTEM_AUDIT"
  | .systemAlarm => "SYSTEM_ALARM"
  | .accessAllowedObject => "ACCESS_ALLOWED_OBJECT"
  | .accessDeniedObject => "ACCESS_DENIED_OBJECT"
  | .systemAuditObject => "SYSTEM_AUDIT_OBJECT"
  | .systemAlarmObject => "SYSTEM_ALARM_OBJECT"
  | .accessAllowedCallback => "ACCESS_ALLOWED_CALLBACK"
  | .accessDeniedCallback => "ACCESS_DENIED_CALLBACK"
  | .accessAllowedCallbackObject => "ACCESS_ALLOWED_CALLBACK_OBJECT"
  | .accessDeniedCallbackObject => "ACCESS_DENIED_CALLBACK_OBJECT"
  | .systemAuditCallback => "SYSTEM_AUDIT_CALLBACK"
  | .systemAlarmCallback => "SYSTEM_ALARM_CALLBACK"
  | .systemAuditCallbackObject => "SYSTEM_AUDIT_CALLBACK_OBJECT"
  | .systemAlarmCallbackObject => "SYSTEM_ALARM_CALLBACK_OBJECT"
  | .systemMandatoryLabel => "SYSTEM_MANDATORY_LABEL"
  | .systemResourceAttribute => "SYSTEM_RESOURCE_ATTRIBUTE"
  | .systemScopedPolicyId => "SYSTEM_SCOPED_POLICY_ID"
  | .systemProcessTrustLabel => "SYSTEM_PROCESS_TRUST_LABEL"
  | .systemAccessFilter => "SYSTEM_ACCESS_FILTER"

/-- Whether entries of the kind grant access. -/
def isAllow : AceKind → Bool
  | .accessAllowed | .accessAllowedObject | .accessAllowedCallback
  | .accessAllowedCallbackObject => true
  | _ => false

/-- Whether entries of the kind deny access. -/
def isDeny : AceKind → Bool
  | .accessDenied | .accessDeniedObject | .accessDeniedCallback
  | .accessDeniedCallbackObject => true
  | _ => false

theorem ofCode?_code (k : AceKind) : ofCode? k.code = some k := by cases k <;> rfl

end AceKind
end AccessControl
