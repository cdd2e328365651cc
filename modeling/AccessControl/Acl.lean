import AccessControl.Ace

/-!
# Access control lists

An access control list is a list of entries, tried in order. Entries that deny are added in front
of the first entry that grants access, entries that grant at the end, so that no new denial comes
after a grant.
-/

namespace AccessControl

/-- An access control list. -/
structure Acl where
  entries : List Ace
  deriving DecidableEq

namespace Acl

/-- The list without entries. -/
def empty : Acl := ⟨[]⟩

/-- The list with an entry at its end. -/
def push (l : Acl) (a : Ace) : Acl := ⟨l.entries ++ [a]⟩

/-- The list with an entry in front of the first one that grants access, or at its end. -/
def insertBeforeAllow (l : Acl) (a : Ace) : Acl :=
  let grants (e : Ace) : Bool := e.type.isAllow
  ⟨l.entries.takeWhile (!grants ·) ++ a :: l.entries.dropWhile (!grants ·)⟩

/-- The list with a grant of rights to a SID. -/
def addAllowed (l : Acl) (sid : Sid) (mask : BitVec 32) : Acl := l.push (.allowed sid mask)

/-- The list with a denial of rights to a SID. -/
def addDenied (l : Acl) (sid : Sid) (mask : BitVec 32) : Acl :=
  l.insertBeforeAllow (.denied sid mask)

/-- The list without entries of unassigned types. -/
def knownOnly (l : Acl) : Acl := ⟨l.entries.filter fun a => a.type.isKnown⟩

/-- The revision that the entries ask for: object entries came with a later one. -/
def revision (l : Acl) : UInt8 := if l.entries.any fun a => a.type.isObject then 4 else 2

end Acl
end AccessControl
