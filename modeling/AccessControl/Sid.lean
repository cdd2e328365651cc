import AccessControl.Bytes.Field

/-!
# Security identifiers

A SID is a revision, an identifier authority of six bytes, most significant first, and at most
fifteen 32-bit sub-authorities, the last of which is the relative identifier. There is one revision,
and the bounds are part of the types. SIDs are ordered by authority, then by sub-authorities from
the left.

A SID whose length is part of its type can be longer. The constructor for these asks for a proof of
the bound, but they can also be put together without it, and then what does not fit is lost
where they become SIDs.
-/

namespace AccessControl

/-- An identifier authority: six bytes, most significant first. -/
structure Authority where
  bytes : Bytes
  length_bytes : bytes.length = 6
  deriving DecidableEq

namespace Authority

/-- The authority as a number below 2^48. -/
def toNat (a : Authority) : Nat := leNat a.bytes.reverse

/-- The authority of the low 48 bits of a number. -/
def ofNat (n : Nat) : Authority where
  bytes := (leBytes 6 n).reverse
  length_bytes := by simp

/-- The authority of six bytes. -/
def ofBytes? (b : Bytes) : Option Authority := if h : b.length = 6 then some ⟨b, h⟩ else none

end Authority

/-- A security identifier. -/
structure Sid where
  revision : UInt8
  authority : Authority
  subAuthorities : List UInt32
  revision_eq : revision = 1
  length_le : subAuthorities.length ≤ 15
  deriving DecidableEq

namespace Sid

/-- The largest number of sub-authorities. -/
def maxCount : Nat := 15

/-- The revision of the format, the only one there is. -/
def onlyRevision : UInt8 := 1

/-- The SID of an authority and of the first fifteen of the sub-authorities. -/
def ofParts (authority : Authority) (subs : List UInt32) : Sid where
  revision := onlyRevision
  authority
  subAuthorities := subs.take maxCount
  revision_eq := rfl
  length_le := List.length_take_le maxCount subs

/-- The SID of an authority and all of the sub-authorities, if they are not too many. -/
def make (authority : Authority) (subs : List UInt32) : Except Error Sid :=
  if h : subs.length ≤ 15 then .ok ⟨onlyRevision, authority, subs, rfl, h⟩ else .error .malformedSid

/-- The number of sub-authorities. -/
def count (s : Sid) : Nat := s.subAuthorities.length

/-- The relative identifier. -/
def rid? (s : Sid) : Option UInt32 := s.subAuthorities.getLast?

/-- The SID with one more sub-authority, if there is room. -/
def withRid (s : Sid) (rid : UInt32) : Except Error Sid :=
  make s.authority (s.subAuthorities ++ [rid])

/-! ### Order -/

/-- Revisions would decide first, if there were more than one. Then authorities do, and then
sub-authorities from the left, a shorter list coming first. -/
protected def compare (a b : Sid) : Ordering :=
  (compare a.revision b.revision).then
    ((compare a.authority.bytes b.authority.bytes).then
      (compare a.subAuthorities b.subAuthorities))

instance : Ord Sid := ⟨Sid.compare⟩

instance : LT Sid := ⟨fun a b => compare a b = .lt⟩

instance : LE Sid := ⟨fun a b => compare a b ≠ .gt⟩

end Sid

/-! ### SIDs of a fixed length -/

/-- A SID whose number of sub-authorities is part of its type. Nothing bounds the number here. -/
structure FixedSid (n : Nat) where
  authority : Authority
  subAuthorities : Vector UInt32 n
  deriving DecidableEq

namespace FixedSid

/-- The SID of an authority and of as many sub-authorities as a SID has room for. -/
def make {n : Nat} (authority : Authority) (subAuthorities : Vector UInt32 n)
    (_ : n ≤ Sid.maxCount := by decide) : FixedSid n := ⟨authority, subAuthorities⟩

/-- The SID with the same parts, but for the sub-authorities behind the fifteenth. -/
def toSid {n : Nat} (c : FixedSid n) : Sid := .ofParts c.authority c.subAuthorities.toList

/-- Whether a SID has the same parts. -/
def matchesSid {n : Nat} (c : FixedSid n) (s : Sid) : Bool :=
  s.authority == c.authority && s.subAuthorities == c.subAuthorities.toList

end FixedSid

/-- Whether a SID of fixed length has the same parts. -/
def Sid.matchesFixed {n : Nat} (s : Sid) (c : FixedSid n) : Bool := c.matchesSid s

end AccessControl
