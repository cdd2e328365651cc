import AccessControl.Ace.Kind
import AccessControl.Numeral

/-!
# Type bytes of entries

What the assigned kinds say, for any type byte: an unassigned byte has no shape and no kind of
data, and stands neither for granting nor for denying.
-/

namespace AccessControl

/-- The type byte of an entry. -/
structure AceType where
  code : UInt8
  deriving DecidableEq, Repr

/-- The type byte of an assigned kind. -/
def AceKind.type (k : AceKind) : AceType := ⟨k.code⟩

namespace AceType

/-- The kind that the byte is assigned to. -/
def kind? (t : AceType) : Option AceKind := AceKind.ofCode? t.code

/-- Whether the byte is assigned. -/
def isKnown (t : AceType) : Bool := t.kind?.isSome

/-- The shape of the body of the entry, if it is known. -/
def shape? (t : AceType) : Option AceShape := t.kind?.map AceKind.shape

/-- The kind of application data of the entry. -/
def dataKind (t : AceType) : DataKind := (t.kind?.map AceKind.dataKind).getD .none

/-- Whether the entry grants access. -/
def isAllow (t : AceType) : Bool := t.kind?.any AceKind.isAllow

/-- Whether the entry denies access. -/
def isDeny (t : AceType) : Bool := t.kind?.any AceKind.isDeny

/-- Whether the body of the entry has room for object types. -/
def isObject (t : AceType) : Bool := t.shape?.any AceShape.isObject

/-- The name of the type; an unassigned byte is written in hexadecimal. -/
def text (t : AceType) : String :=
  match t.kind? with
  | some k => k.name
  | none => "0x" ++ String.ofList (Numeral.hexByte t.code)

/-- The type marked as one. -/
def debugText (t : AceType) : String := "AceType(" ++ t.text ++ ")"

end AceType
end AccessControl
