import AccessControl.Bytes.Field
import AccessControl.Text.Fields

/-!
# Globally unique identifiers

A GUID is sixteen bytes. As text it is five groups of hexadecimal digits; the first three groups
are numbers whose bytes travel low byte first, so that text order and wire order differ by a
permutation, which is its own inverse. A reader takes digits of either case and one pair of
braces around the whole.
-/

namespace AccessControl

/-- A GUID, by its bytes in wire order. -/
structure Guid where
  bytes : Bytes
  length_bytes : bytes.length = 16
  deriving DecidableEq

namespace Guid

/-- The number of bytes of a GUID. -/
def size : Nat := 16

/-- Wire order from text order, and text order from wire order. -/
def swapGroups : Bytes → Bytes
  | b0 :: b1 :: b2 :: b3 :: b4 :: b5 :: b6 :: b7 :: rest =>
    b3 :: b2 :: b1 :: b0 :: b5 :: b4 :: b7 :: b6 :: rest
  | b => b

theorem length_swapGroups (b : Bytes) : (swapGroups b).length = b.length := by
  unfold swapGroups
  split <;> simp

theorem swapGroups_swapGroups : ∀ b : Bytes, swapGroups (swapGroups b) = b
  | _ :: _ :: _ :: _ :: _ :: _ :: _ :: _ :: _ => rfl
  | [] | [_] | [_, _] | [_, _, _] | [_, _, _, _] | [_, _, _, _, _] | [_, _, _, _, _, _]
  | [_, _, _, _, _, _, _] => rfl

/-- The GUID of sixteen bytes in wire order. -/
def ofBytes? (b : Bytes) : Option Guid := if h : b.length = 16 then some ⟨b, h⟩ else none

/-- The GUID that a byte string is. -/
def decode (b : Bytes) : Except Error Guid :=
  match ofBytes? b with
  | some g => .ok g
  | none => .error .malformedGuid

/-- A GUID as a field of a record, and the rest. -/
def cutField (short : Bytes → Error) (b : Bytes) : Except Error (Guid × Bytes) :=
  match ofBytes? (b.take size) with
  | some g => .ok (g, b.drop size)
  | none => .error (short b)

/-- GUIDs are ordered by their bytes in wire order. -/
instance : Ord Guid := ⟨fun a b => compare a.bytes b.bytes⟩

/-! ### Text -/

/-- The number of digits of each group. -/
def groupLengths : List Nat := [8, 4, 4, 4, 12]

/-- Cuts a text into parts of the given lengths. -/
def splitLengths : List Nat → List Char → List (List Char)
  | [], _ => []
  | n :: ns, cs => cs.take n :: splitLengths ns (cs.drop n)

/-- The text of a GUID, as characters. -/
def chars (g : Guid) : List Char :=
  Text.joined '-' (splitLengths groupLengths (Numeral.hexBytes (swapGroups g.bytes)))

/-- The text of a GUID. -/
def text (g : Guid) : String := String.ofList g.chars

instance : ToString Guid := ⟨text⟩

/-- The text of a GUID marked as one. -/
def debugText (g : Guid) : String := "Guid(" ++ g.text ++ ")"

/-- The text between braces; a text without both braces is left as it is. -/
def unbraced (cs : List Char) : List Char :=
  match cs with
  | '\x7b' :: inner => if inner.getLast? = some '\x7d' then inner.dropLast else cs
  | _ => cs

/-- The GUID that a text stands for. -/
def ofChars? (cs : List Char) : Option Guid := do
  let groups := Text.fields '-' (unbraced cs)
  guard (groups.map List.length = groupLengths)
  ofBytes? (swapGroups (← Numeral.bytes? groups.flatten))

/-- The GUID that a text stands for, with the failure of texts that are not of its form. -/
def ofText (t : String) : Except FormatError Guid :=
  match ofChars? t.toList with
  | some g => .ok g
  | none => .error .guid

/-- The GUID that a text stands for, with the failure that goes with other malformed values. -/
def parse (t : String) : Except Error Guid :=
  match ofChars? t.toList with
  | some g => .ok g
  | none => .error .malformedGuid

end Guid
end AccessControl
