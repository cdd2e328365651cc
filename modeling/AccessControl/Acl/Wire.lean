import AccessControl.Ace.Wire
import AccessControl.Acl

/-!
# Access control lists as bytes

A list is a header of eight bytes, with its revision, its size and the number of its entries,
followed by the entries. A reader looks at no byte beyond the size, and reads as many entries as
the header says; what follows them within the size is ignored.
-/

namespace AccessControl.Acl

/-- The number of bytes of the header of a list. -/
def headerLen : Nat := 8

/-- The least revision that a reader accepts. -/
def leastRevision : Nat := 2

/-- The greatest revision that a reader accepts. -/
def greatestRevision : Nat := 4

/-- The number of bytes of entries one after another. -/
def entriesLen : List Ace → Nat
  | [] => 0
  | a :: as => a.size + entriesLen as

/-- The number of bytes of a list. -/
def encodedLen (l : Acl) : Nat := headerLen + entriesLen l.entries

/-- The bytes of entries one after another. -/
def encodeEntries : List Ace → Except Error Bytes
  | [] => .ok []
  | a :: as => do return (← a.encode) ++ (← encodeEntries as)

/-- The bytes of a list. -/
def encode (l : Acl) : Except Error Bytes := do
  let size ← sizeField 2 .acl l.encodedLen
  let count ← sizeField 2 .aclEntryCount l.entries.length
  let entries ← encodeEntries l.entries
  return l.revision :: 0 :: size ++ count ++ leBytes 2 0 ++ entries

/-- So many entries at the start of a byte string, whatever follows them. -/
def decodeEntries : Nat → Bytes → Except Error (List Ace)
  | 0, _ => .ok []
  | n + 1, b => do
    let (a, b) ← Ace.cutFront b
    return a :: (← decodeEntries n b)

/-- The list at the start of a byte string, and the rest. -/
def cutFront (b : Bytes) : Except Error (Acl × Bytes) := do
  let short := Error.shortRecord .aclHeader headerLen b
  let (revision, r) ← cutNat short 1 b
  if revision < leastRevision ∨ greatestRevision < revision then
    throw (.invalidRevision .acl (.ofNat revision))
  let (_, r) ← cutNat short 1 r
  let (size, r) ← cutNat short 2 r
  if size < headerLen then throw (.invalidSize .acl size)
  let (count, r) ← cutNat short 2 r
  let (_, r) ← cutNat short 2 r
  let (body, rest) ← cut (.short .acl (size - headerLen)) (size - headerLen) r
  return (⟨← decodeEntries count body⟩, rest)

/-- The list at the start of a byte string, whatever follows it. -/
def decode (b : Bytes) : Except Error Acl := do return (← cutFront b).1

end AccessControl.Acl
