import AccessControl.Error

/-!
# Text as UTF-16

Text travels as UTF-16 code units, each as two bytes, low byte first. A character outside the
basic plane is a pair of surrogates. Some texts end with a zero unit; the end is the first zero
unit at an even place, not the first two zero bytes. `decode_encode` says that a text is read back
from its bytes.
-/

namespace AccessControl.Utf16

/-- The code units of a character. -/
def unitsOf (c : Char) : List UInt16 :=
  let n := c.toNat
  if n < 0x10000 then [UInt16.ofNat n]
  else
    [UInt16.ofNat (0xD800 + (n - 0x10000) / 0x400), UInt16.ofNat (0xDC00 + (n - 0x10000) % 0x400)]

/-- Whether a unit is the first half of a pair. -/
def isHigh (u : UInt16) : Bool := 0xD800 ≤ u && u < 0xDC00

/-- Whether a unit is the second half of a pair. -/
def isLow (u : UInt16) : Bool := 0xDC00 ≤ u && u < 0xE000

/-- The character of a pair. -/
def ofPair (high low : UInt16) : Char :=
  Char.ofNat (0x10000 + (high.toNat - 0xD800) * 0x400 + (low.toNat - 0xDC00))

/-- The characters of code units, unless a surrogate stands alone. -/
def chars? : List UInt16 → Option (List Char)
  | [] => some []
  | [u] => if isHigh u || isLow u then none else some [Char.ofNat u.toNat]
  | u :: v :: us =>
    if isHigh u then
      if isLow v then (chars? us).map (ofPair u v :: ·) else none
    else if isLow u then none
    else (chars? (v :: us)).map (Char.ofNat u.toNat :: ·)

/-- The code units of a text. -/
def units (s : String) : List UInt16 := s.toList.flatMap unitsOf

/-- The bytes of code units. -/
def bytesOf (us : List UInt16) : Bytes := us.flatMap fun u => leBytes 2 u.toNat

/-- The code units of bytes, unless a byte is left over. -/
def units? : Bytes → Option (List UInt16)
  | [] => some []
  | [_] => none
  | low :: high :: b => (units? b).map (UInt16.ofNat (leNat [low, high]) :: ·)

/-- The bytes of a text. -/
def encode (s : String) : Bytes := bytesOf (units s)

/-- The number of bytes of a text. -/
def encodedLen (s : String) : Nat := 2 * (units s).length

/-- The text of bytes, all of them. -/
def decode (b : Bytes) : Except Error String :=
  match (units? b).bind chars? with
  | some cs => .ok (String.ofList cs)
  | none => .error .invalidUtf16

/-! ### Terminated text -/

/-- The bytes of a text and of the zero unit that ends it. -/
def encodeTerminated (s : String) : Bytes := encode s ++ [0, 0]

/-- The bytes in front of the first zero unit, and those after it. -/
def cutTerminated? : Bytes → Option (Bytes × Bytes)
  | low :: high :: b =>
    if low = 0 ∧ high = 0 then some ([], b)
    else (cutTerminated? b).map fun (text, rest) => (low :: high :: text, rest)
  | _ => none

/-- The text in front of the first zero unit, and the bytes after that unit. -/
def decodeTerminated (b : Bytes) : Except Error (String × Bytes) :=
  match cutTerminated? b with
  | some (text, rest) => do return (← decode text, rest)
  | none => .error .invalidUtf16

/-! ### Reading back what was written -/

theorem length_bytesOf (us : List UInt16) : (bytesOf us).length = 2 * us.length := by
  induction us with
  | nil => rfl
  | cons u us ih =>
    have : (bytesOf (u :: us)).length = 2 + (bytesOf us).length := by simp [bytesOf]
    rw [this, ih, List.length_cons]
    omega

@[simp] theorem length_encode (s : String) : (encode s).length = encodedLen s :=
  length_bytesOf (units s)

theorem isHigh_eq (u : UInt16) : isHigh u = decide (0xD800 ≤ u.toNat ∧ u.toNat < 0xDC00) := by
  simp [isHigh, UInt16.le_iff_toNat_le, UInt16.lt_iff_toNat_lt]

theorem isLow_eq (u : UInt16) : isLow u = decide (0xDC00 ≤ u.toNat ∧ u.toNat < 0xE000) := by
  simp [isLow, UInt16.le_iff_toNat_le, UInt16.lt_iff_toNat_lt]

theorem chars?_cons {u : UInt16} (h : u.toNat < 0xD800 ∨ 0xE000 ≤ u.toNat) (us : List UInt16) :
    chars? (u :: us) = (chars? us).map (Char.ofNat u.toNat :: ·) := by
  have high : isHigh u = false := by rw [isHigh_eq]; simp; omega
  have low : isLow u = false := by rw [isLow_eq]; simp; omega
  cases us <;> simp [chars?, high, low]

/-- The units of a character are read back as it, whatever follows. -/
theorem chars?_unitsOf_append (c : Char) (us : List UInt16) :
    chars? (unitsOf c ++ us) = (chars? us).map (c :: ·) := by
  have hc : Char.ofNat c.toNat = c := Char.ofNat_toNat c
  have valid : c.toNat < 0xD800 ∨ 0xDFFF < c.toNat ∧ c.toNat < 0x110000 := c.valid
  by_cases h : c.toNat < 0x10000
  · have hn : (UInt16.ofNat c.toNat).toNat = c.toNat := by
      rw [UInt16.toNat_ofNat']; omega
    have := chars?_cons (u := UInt16.ofNat c.toNat) (by omega) us
    simpa [unitsOf, h, hn, hc] using this
  · generalize hhi : UInt16.ofNat (0xD800 + (c.toNat - 0x10000) / 0x400) = hi
    generalize hlo : UInt16.ofNat (0xDC00 + (c.toNat - 0x10000) % 0x400) = lo
    have nhi : hi.toNat = 0xD800 + (c.toNat - 0x10000) / 0x400 := by
      rw [← hhi, UInt16.toNat_ofNat']; omega
    have nlo : lo.toNat = 0xDC00 + (c.toNat - 0x10000) % 0x400 := by
      rw [← hlo, UInt16.toNat_ofNat']; omega
    have high : isHigh hi = true := by rw [isHigh_eq]; simp; omega
    have low : isLow lo = true := by rw [isLow_eq]; simp; omega
    have pair : ofPair hi lo = c := by
      have n : 0x10000 + (hi.toNat - 0xD800) * 0x400 + (lo.toNat - 0xDC00) = c.toNat := by omega
      rw [ofPair, n, hc]
    simp [unitsOf, h, hhi, hlo, chars?, high, low, pair]

theorem chars?_units (cs : List Char) : chars? (cs.flatMap unitsOf) = some cs := by
  induction cs with
  | nil => rfl
  | cons c cs ih => rw [List.flatMap_cons, chars?_unitsOf_append, ih]; rfl

theorem units?_bytesOf (us : List UInt16) : units? (bytesOf us) = some us := by
  induction us with
  | nil => rfl
  | cons u us ih =>
    have hu : u.toNat < Nat.pow 256 2 := u.toNat_lt
    have h : UInt16.ofNat (leNat (leBytes 2 u.toNat)) = u := by
      rw [leNat_leBytes, Nat.mod_eq_of_lt hu, UInt16.ofNat_toNat]
    have cons : bytesOf (u :: us) = leBytes 2 u.toNat ++ bytesOf us := rfl
    rw [cons]
    simp only [leBytes] at h ⊢
    rw [List.cons_append, List.cons_append, List.nil_append, units?, h, ih]
    rfl

/-- A text is read back from its bytes. -/
theorem decode_encode (s : String) : decode (encode s) = .ok s := by
  simp [decode, encode, units?_bytesOf, units, chars?_units]

end AccessControl.Utf16
