import AccessControl.Sid

/-!
# SIDs as bytes

A SID takes eight bytes and four for each sub-authority: the revision, the number of
sub-authorities, the authority, and the sub-authorities, low byte first.
-/

namespace AccessControl.Sid

/-- The bytes of sub-authorities. -/
def encodeSubs (subs : List UInt32) : Bytes := subs.flatMap fun n => leBytes 4 n.toNat

/-- The bytes of a SID. -/
def encode (s : Sid) : Bytes :=
  onlyRevision :: UInt8.ofNat s.count :: s.authority.bytes ++ encodeSubs s.subAuthorities

/-- The number of bytes of a SID. -/
def encodedLen (s : Sid) : Nat := 8 + 4 * s.count

/-- The least number of bytes of a SID. -/
def leastLen : Nat := 8

/-- The authority in the first six bytes, and the rest. -/
def cutAuthority (short : Bytes → Error) (b : Bytes) : Except Error (Authority × Bytes) :=
  match Authority.ofBytes? (b.take 6) with
  | some a => .ok (a, b.drop 6)
  | none => .error (short b)

/-- So many sub-authorities, and the rest. -/
def cutSubs (short : Bytes → Error) : Nat → Bytes → Except Error (List UInt32 × Bytes)
  | 0, b => .ok ([], b)
  | n + 1, b => do
    let (sub, b) ← cutNat short 4 b
    let (subs, b) ← cutSubs short n b
    return (.ofNat sub :: subs, b)

/-- A SID as a field of a record, and the rest. -/
def cutField (short : Bytes → Error) (b : Bytes) : Except Error (Sid × Bytes) := do
  let (rev, b) ← cutNat short 1 b
  if rev ≠ onlyRevision.toNat then throw .malformedSid
  let (count, b) ← cutNat short 1 b
  if maxCount < count then throw .malformedSid
  let (authority, b) ← cutAuthority short b
  let (subs, b) ← cutSubs short count b
  return (.ofParts authority subs, b)

/-- The SID at the start of a byte string, and the rest. -/
def cutFront (b : Bytes) : Except Error (Sid × Bytes) := cutField (.shortRecord .sid leastLen b) b

/-- The SID that a byte string is, with nothing left over. -/
def decode (b : Bytes) : Except Error Sid := do
  let (s, rest) ← cutFront b
  if rest ≠ [] then throw .malformedSid
  return s

end AccessControl.Sid
