import AccessControl.Error
import AccessControl.Text.Quoted

/-!
# Documents

A document is a value of a readable data format: null, a truth value, a number, a text, a sequence
or a map. A `Refusal` says why a document or a byte string is not taken for a value, and what was
expected in its place.
-/

namespace AccessControl

/-- A value of a readable data format. -/
inductive Document where
  | null
  | boolean (value : Bool)
  | integer (value : Int)
  /-- A number that is not an integer, by its numeral. -/
  | real (numeral : String)
  | text (content : String)
  | sequence (items : List Document)
  | map (fields : List (String × Document))
  deriving Inhabited

/-- What kind of document it is, with its content where that is short. -/
def Document.description : Document → String
  | .null => "null"
  | .boolean value => s!"boolean `{value}`"
  | .integer value => s!"integer `{value}`"
  | .real numeral => s!"floating point `{numeral}`"
  | .text content => "string " ++ Text.quoted content
  | .sequence _ => "sequence"
  | .map _ => "map"

/-- What a reader expects. -/
inductive Expected where
  | sid | guid | word | fittingWord | byte | condition | claim | ace | acl | descriptor
  deriving DecidableEq, Repr

/-- The words for an expectation. -/
def Expected.label : Expected → String
  | .sid => "a Windows SID as a string (e.g., \"S-1-...\") or as raw binary"
  | .guid => "a GUID as a string or as 16 raw bytes"
  | .word => "u32"
  | .fittingWord => "a value that fits the bitset width"
  | .byte => "u8"
  | .condition => "an encoded conditional expression"
  | .claim => "an encoded claim security attribute"
  | .ace => "an encoded access control entry"
  | .acl => "an encoded access control list"
  | .descriptor => "a self-relative security descriptor"

/-- Why a document or a byte string is not taken for a value. -/
inductive Refusal where
  /-- A document of another kind. -/
  | wrongKind (found : Document) (expected : Expected)
  /-- A document of the right kind that stands for no value. -/
  | wrongValue (found : Document) (expected : Expected)
  /-- Bytes that stand for no value. -/
  | wrongBytes (expected : Expected)
  /-- Bytes that do not decode. -/
  | undecodable (cause : Error)

/-- The text of a refusal. -/
def Refusal.message : Refusal → String
  | .wrongKind found expected =>
    s!"invalid type: {found.description}, expected {expected.label}"
  | .wrongValue found expected =>
    s!"invalid value: {found.description}, expected {expected.label}"
  | .wrongBytes expected => s!"invalid value: byte array, expected {expected.label}"
  | .undecodable cause => cause.message

end AccessControl
