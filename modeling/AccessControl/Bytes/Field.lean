import AccessControl.Error

/-!
# Fields of the wire format

Reading takes a field off the front of a byte string and returns it with the rest. Each reader is
given `short`, the failure in case the bytes that remain do not hold the field; it is a function
of those bytes because a record and a lone field report the shortage differently. Writing a size
fails where the number does not fit its field.
-/

namespace AccessControl

/-- The first `n` bytes and the rest. -/
def cut (short : Bytes → Error) (n : Nat) (b : Bytes) : Except Error (Bytes × Bytes) :=
  let field := b.take n
  if field.length = n then .ok (field, b.drop n) else .error (short b)

/-- The number in the first `n` bytes, and the rest. -/
def cutNat (short : Bytes → Error) (n : Nat) (b : Bytes) : Except Error (Nat × Bytes) := do
  let (field, rest) ← cut short n b
  return (leNat field, rest)

/-- A part that is preceded by its length in four bytes, and the rest. -/
def cutPrefixed (item : Item) (b : Bytes) : Except Error (Bytes × Bytes) := do
  let (n, rest) ← cutNat (.short item 4) 4 b
  cut (.short item n) n rest

/-- A size as a field of `width` bytes, if it fits. -/
def sizeField (width : Nat) (item : Item) (size : Nat) : Except Error Bytes :=
  if size < Nat.pow 256 width then .ok (leBytes width size) else .error (.invalidSize item size)

/-! ### Reading back what was written -/

theorem cut_eq (short : Bytes → Error) (n : Nat) (b : Bytes) :
    cut short n b = if n ≤ b.length then .ok (b.take n, b.drop n) else .error (short b) := by
  have h : min n b.length = n ↔ n ≤ b.length := by omega
  simp only [cut, List.length_take, h]

theorem cut_append (short : Bytes → Error) (a t : Bytes) :
    cut short a.length (a ++ t) = .ok (a, t) := by
  simp [cut_eq]

theorem cut_eq_ok_iff {short : Bytes → Error} {n : Nat} {b a t : Bytes} :
    cut short n b = .ok (a, t) ↔ b = a ++ t ∧ a.length = n := by
  rw [cut_eq]
  constructor
  · intro h
    split at h
    next hn =>
      cases h
      simp [hn]
    next => cases h
  · rintro ⟨rfl, rfl⟩
    simp

end AccessControl
