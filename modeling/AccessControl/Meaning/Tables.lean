import AccessControl.Meaning

/-!
# Tables of the security model

Names for the bits of access masks, by kind of object, and of the flag words. The upper half of
every access mask has the same standard and generic rights.
-/

namespace AccessControl.Meaning

/-- The rights that every kind of object has. -/
def standardRights : List (String × Nat) :=
  [("DELETE", 16), ("READ_CONTROL", 17), ("WRITE_DAC", 18), ("WRITE_OWNER", 19),
    ("SYNCHRONIZE", 20), ("ACCESS_SYSTEM_SECURITY", 24), ("MAXIMUM_ALLOWED", 25),
    ("GENERIC_ALL", 28), ("GENERIC_EXECUTE", 29), ("GENERIC_WRITE", 30), ("GENERIC_READ", 31)]

/-- The rights of a kind of object: its own, then the standard ones. -/
def rightsTable (name : String) (own : List (String × Nat)) : Meaning :=
  ⟨name, 32, own ++ standardRights⟩

/-- Rights of any object. -/
def genericRights : Meaning := rightsTable "generic" []

/-- Rights of a file. -/
def fileRights : Meaning :=
  rightsTable "file"
    [("FILE_READ_DATA", 0), ("FILE_WRITE_DATA", 1), ("FILE_APPEND_DATA", 2), ("FILE_READ_EA", 3),
     ("FILE_WRITE_EA", 4), ("FILE_EXECUTE", 5), ("FILE_READ_ATTRIBUTES", 7),
     ("FILE_WRITE_ATTRIBUTES", 8)]

/-- Rights of a directory. -/
def directoryRights : Meaning :=
  rightsTable "directory"
    [("FILE_LIST_DIRECTORY", 0), ("FILE_ADD_FILE", 1), ("FILE_ADD_SUBDIRECTORY", 2),
     ("FILE_READ_EA", 3), ("FILE_WRITE_EA", 4), ("FILE_TRAVERSE", 5), ("FILE_DELETE_CHILD", 6),
     ("FILE_READ_ATTRIBUTES", 7), ("FILE_WRITE_ATTRIBUTES", 8)]

/-- Rights of a process. -/
def processRights : Meaning :=
  rightsTable "process"
    [("PROCESS_TERMINATE", 0), ("PROCESS_CREATE_THREAD", 1), ("PROCESS_SET_SESSIONID", 2),
     ("PROCESS_VM_OPERATION", 3), ("PROCESS_VM_READ", 4), ("PROCESS_VM_WRITE", 5),
     ("PROCESS_DUP_HANDLE", 6), ("PROCESS_CREATE_PROCESS", 7), ("PROCESS_SET_QUOTA", 8),
     ("PROCESS_SET_INFORMATION", 9), ("PROCESS_QUERY_INFORMATION", 10),
     ("PROCESS_SUSPEND_RESUME", 11), ("PROCESS_QUERY_LIMITED_INFORMATION", 12),
     ("PROCESS_SET_LIMITED_INFORMATION", 13)]

/-- Rights of an access token. -/
def tokenRights : Meaning :=
  rightsTable "token"
    [("TOKEN_ASSIGN_PRIMARY", 0), ("TOKEN_DUPLICATE", 1), ("TOKEN_IMPERSONATE", 2),
     ("TOKEN_QUERY", 3), ("TOKEN_QUERY_SOURCE", 4), ("TOKEN_ADJUST_PRIVILEGES", 5),
     ("TOKEN_ADJUST_GROUPS", 6), ("TOKEN_ADJUST_DEFAULT", 7), ("TOKEN_ADJUST_SESSIONID", 8)]

/-- Rights of a registry key. -/
def registryRights : Meaning :=
  rightsTable "registry"
    [("KEY_QUERY_VALUE", 0), ("KEY_SET_VALUE", 1), ("KEY_CREATE_SUB_KEY", 2),
     ("KEY_ENUMERATE_SUB_KEYS", 3), ("KEY_NOTIFY", 4), ("KEY_CREATE_LINK", 5),
     ("KEY_WOW64_64KEY", 8), ("KEY_WOW64_32KEY", 9)]

/-- The mask of a mandatory label. -/
def mandatoryLabel : Meaning where
  name := "mandatory-label"
  width := 32
  entries :=
    [("SYSTEM_MANDATORY_LABEL_NO_WRITE_UP", 0), ("SYSTEM_MANDATORY_LABEL_NO_READ_UP", 1),
     ("SYSTEM_MANDATORY_LABEL_NO_EXECUTE_UP", 2)]

/-- The flags of an entry. -/
def aceFlags : Meaning where
  name := "ace-flags"
  width := 8
  entries :=
    [("OBJECT_INHERIT_ACE", 0), ("CONTAINER_INHERIT_ACE", 1), ("NO_PROPAGATE_INHERIT_ACE", 2),
     ("INHERIT_ONLY_ACE", 3), ("INHERITED_ACE", 4), ("CRITICAL_ACE_FLAG", 5),
     ("SUCCESSFUL_ACCESS_ACE_FLAG", 6), ("FAILED_ACCESS_ACE_FLAG", 7)]

/-- The flags of an object entry. -/
def objectFlags : Meaning where
  name := "object-ace-flags"
  width := 32
  entries :=
    [("ACE_OBJECT_TYPE_PRESENT", 0), ("ACE_INHERITED_OBJECT_TYPE_PRESENT", 1)]

/-- The control word of a descriptor. -/
def control : Meaning where
  name := "control"
  width := 16
  entries :=
    [("SE_OWNER_DEFAULTED", 0), ("SE_GROUP_DEFAULTED", 1), ("SE_DACL_PRESENT", 2),
     ("SE_DACL_DEFAULTED", 3), ("SE_SACL_PRESENT", 4), ("SE_SACL_DEFAULTED", 5),
     ("SE_DACL_TRUSTED", 6), ("SE_SERVER_SECURITY", 7), ("SE_DACL_AUTO_INHERIT_REQ", 8),
     ("SE_SACL_AUTO_INHERIT_REQ", 9), ("SE_DACL_AUTO_INHERITED", 10),
     ("SE_SACL_AUTO_INHERITED", 11), ("SE_DACL_PROTECTED", 12), ("SE_SACL_PROTECTED", 13),
     ("SE_RM_CONTROL_VALID", 14), ("SE_SELF_RELATIVE", 15)]

/-- The flags of a claim attribute. -/
def claimFlags : Meaning where
  name := "claim-flags"
  width := 32
  entries :=
    [("CLAIM_SECURITY_ATTRIBUTE_NON_INHERITABLE", 0),
     ("CLAIM_SECURITY_ATTRIBUTE_VALUE_CASE_SENSITIVE", 1),
     ("CLAIM_SECURITY_ATTRIBUTE_USE_FOR_DENY_ONLY", 2),
     ("CLAIM_SECURITY_ATTRIBUTE_DISABLED_BY_DEFAULT", 3),
     ("CLAIM_SECURITY_ATTRIBUTE_DISABLED", 4), ("CLAIM_SECURITY_ATTRIBUTE_MANDATORY", 5)]

end AccessControl.Meaning
