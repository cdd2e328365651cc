import AccessControl.Proofs.Ace.Size
import AccessControl.Proofs.Acl.Wire

/-!
# Sizes of lists

A list is written exactly when its size can be counted in two bytes (`Acl.exists_encode`,
`Acl.encode_of_large`). One that is read has its entries one after another, where the sizes that
they declare put them. What each of them may grow to when it is written again adds up to a bound for
the list (`Acl.encodedLen_le_sizeBound`), which is a fixed multiple of the bytes that it was read
from at most.
-/

namespace AccessControl.Acl

variable {l : Acl} {as : List Ace} {b t : Bytes} {n : Nat}

/-! ### Writing -/

theorem length_le_entriesLen (as : List Ace) : as.length ≤ entriesLen as := by
  induction as with
  | nil => exact Nat.le_refl 0
  | cons a as ih =>
    have header : 4 ≤ a.size := a.headerLen_le_size
    rw [List.length_cons, entriesLen]
    omega

theorem exists_encodeEntries (h : entriesLen as < 256 ^ 2) : ∃ x, encodeEntries as = .ok x := by
  induction as with
  | nil => exact ⟨[], rfl⟩
  | cons a as ih =>
    rw [entriesLen] at h
    obtain ⟨y, hy⟩ := Ace.exists_encode (a := a) (by omega)
    obtain ⟨z, hz⟩ := ih (by omega)
    refine ⟨y ++ z, ?_⟩
    simp only [encodeEntries, hy, hz, ok_bind, pure_ok]

theorem exists_encode (h : l.encodedLen < 256 ^ 2) : ∃ b, l.encode = .ok b := by
  have entries : entriesLen l.entries ≤ l.encodedLen := Nat.le_add_left ..
  have count := length_le_entriesLen l.entries
  obtain ⟨x, hx⟩ := exists_encodeEntries (Nat.lt_of_le_of_lt entries h)
  exact ⟨_, encode_eq_ok_iff.2 ⟨h, by omega, x, hx, rfl⟩⟩

/-- A list that is too large is refused for its size, before any of its entries. -/
theorem encode_of_large (h : 256 ^ 2 ≤ l.encodedLen) :
    l.encode = .error (.invalidSize .acl l.encodedLen) := by
  rw [encode, sizeField_of_le h, error_bind]

/-! ### Entries that are read -/

/-- The size that so many entries at the start of a byte string have at most when they are written
again. -/
def entriesBound : Nat → Bytes → Nat
  | 0, _ => 0
  | n + 1, b => Ace.sizeBound b + entriesBound n (b.drop (Ace.declaredSize b))

theorem entriesLen_le_entriesBound (h : decodeEntries n b = .ok as) :
    entriesLen as ≤ entriesBound n b := by
  induction n generalizing b as with
  | zero =>
    cases h
    exact Nat.le_refl 0
  | succ n ih =>
    simp only [decodeEntries, bind_eq_ok, Prod.exists] at h
    obtain ⟨a, r, ha, as', has, h⟩ := h
    cases h
    obtain ⟨-, rfl⟩ := Ace.drop_of_cutFront ha
    exact Nat.add_le_add (Ace.size_le_of_cutFront ha) (ih has)

/-- Entries that are read declare no more bytes than there are, so they cannot grow beyond a fixed
multiple of those. -/
theorem entriesBound_le (h : decodeEntries n b = .ok as) : entriesBound n b ≤ 12 * b.length := by
  induction n generalizing b as with
  | zero => exact Nat.zero_le _
  | succ n ih =>
    simp only [decodeEntries, bind_eq_ok, Prod.exists] at h
    obtain ⟨a, r, ha, as', has, -⟩ := h
    obtain ⟨fits, rfl⟩ := Ace.drop_of_cutFront ha
    have first := Ace.sizeBound_le b
    have others := ih has
    rw [List.length_drop] at others
    rw [entriesBound]
    omega

/-! ### Lists that are read -/

/-- The number of entries in the header of a list. -/
def entryCount (b : Bytes) : Nat := numberAt b 4 2

/-- The bytes that a list has for its entries. -/
def entryBytes (b : Bytes) : Bytes := (b.drop headerLen).take (numberAt b 2 2 - headerLen)

/-- The size that the list at the start of a byte string has at most when it is written again. -/
def sizeBound (b : Bytes) : Nat := headerLen + entriesBound (entryCount b) (entryBytes b)

/-- The entries of a list are read from the bytes that it has for them. -/
theorem decodeEntries_of_cutFront (h : cutFront b = .ok (l, t)) :
    decodeEntries (entryCount b) (entryBytes b) = .ok l.entries := by
  obtain ⟨revision, second, count, pad, body, -, fits, counts, -, entries, hb⟩ :=
    cutFront_eq_ok_iff.1 h
  have declared : numberAt b 2 2 = headerLen + body.length := by
    rw [hb]
    exact numberAt_append [revision, second] fits _
  have counted : entryCount b = count := by
    rw [hb]
    exact numberAt_append (revision :: second :: leBytes 2 _) counts _
  have bytes : entryBytes b = body := by
    rw [entryBytes, declared, hb, Nat.add_sub_cancel_left]
    exact List.take_left
  rw [counted, bytes]
  exact entries

theorem encodedLen_le_sizeBound (h : cutFront b = .ok (l, t)) : l.encodedLen ≤ sizeBound b :=
  Nat.add_le_add_left (entriesLen_le_entriesBound (decodeEntries_of_cutFront h)) headerLen

/-- Whatever list is read, it is far from exhausting the offsets of a descriptor. -/
theorem sizeBound_lt_of_cutFront (h : cutFront b = .ok (l, t)) : sizeBound b < 256 ^ 3 := by
  have entries := entriesBound_le (decodeEntries_of_cutFront h)
  have bytes : (entryBytes b).length ≤ numberAt b 2 2 - headerLen := List.length_take_le ..
  have := numberAt_lt b 2 2
  unfold sizeBound headerLen
  omega

end AccessControl.Acl
