import AccessControl.Sid
import AccessControl.Text.Case
import AccessControl.Text.Fields

/-!
# SIDs as text

The text of a SID is `S-1-`, the authority, and each sub-authority after a dash. An authority is
written in decimal where 32 bits hold it and otherwise in upper-case hexadecimal after `0x`. A
reader takes `s` in either case, an authority in either base, and numbers with leading zeros or a
plus sign.
-/

namespace AccessControl

/-- The text of an authority, as characters. -/
def Authority.chars (a : Authority) : List Char :=
  if a.toNat < UInt32.size then Numeral.decimal a.toNat else '0' :: 'x' :: Numeral.upperHex a.toNat

/-- The authority that a text stands for: a number below 2^48, in hexadecimal after `0x`. -/
def Authority.ofChars? : List Char → Option Authority
  | '0' :: 'x' :: ds | '0' :: 'X' :: ds => (Numeral.read? 16 0x1000000000000 ds).map .ofNat
  | ds => (Numeral.read? 10 0x1000000000000 ds).map .ofNat

/-- The parts of a SID text, with any revision. -/
structure SidParts where
  revision : UInt8
  authority : Authority
  subAuthorities : List UInt32
  length_le : subAuthorities.length ≤ Sid.maxCount
  deriving DecidableEq

namespace SidParts

/-- The parts that a text stands for. -/
def ofChars? (cs : List Char) : Option SidParts :=
  match Text.fields '-' cs with
  | head :: revision :: authority :: subs => do
    guard (Text.sameLetters head ['s'])
    let revision ← Numeral.read? 10 UInt8.size revision
    let authority ← Authority.ofChars? authority
    let subs ← subs.mapM fun ds => (Numeral.read? 10 UInt32.size ds).map UInt32.ofNat
    if h : subs.length ≤ 15 then some ⟨.ofNat revision, authority, subs, h⟩ else none
  | _ => none

/-- The parts that a text stands for. -/
def ofText (t : String) : Except FormatError SidParts :=
  match ofChars? t.toList with
  | some parts => .ok parts
  | none => .error .sid

end SidParts

namespace Sid

/-- The text of a SID, as characters. -/
def chars (s : Sid) : List Char :=
  ['S', '-'] ++ Numeral.decimal s.revision.toNat ++ '-' :: s.authority.chars ++
    s.subAuthorities.flatMap fun n => '-' :: Numeral.decimal n.toNat

/-- The text of a SID. -/
def text (s : Sid) : String := String.ofList s.chars

instance : ToString Sid := ⟨text⟩

/-- The text of a SID marked as one. -/
def debugText (s : Sid) : String := "Sid(" ++ s.text ++ ")"

/-- The name of the principal, or the text of the SID where no name is known. -/
def displayName (names : Sid → Option String) (s : Sid) : String := (names s).getD s.text

/-- The SID that a text stands for; only the one revision is accepted. -/
def ofChars? (cs : List Char) : Option Sid := do
  let parts ← SidParts.ofChars? cs
  if h : parts.revision = onlyRevision then
    some ⟨parts.revision, parts.authority, parts.subAuthorities, h, parts.length_le⟩
  else none

/-- The SID that a text stands for. -/
def parse (t : String) : Except Error Sid :=
  match ofChars? t.toList with
  | some s => .ok s
  | none => .error .malformedSid

end Sid

/-- The text of a SID of fixed length. -/
def FixedSid.text {n : Nat} (c : FixedSid n) : String := c.toSid.text

end AccessControl
