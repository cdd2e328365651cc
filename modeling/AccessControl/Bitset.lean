import AccessControl.Bits
import AccessControl.Bytes.Field
import AccessControl.Meaning

/-!
# Bit words

A bit word of `n` bits can have a meaning table, which gives names to its bits. Words are equal
when their bits are; the table is only for reading and writing names.
-/

namespace AccessControl

/-- A word of `n` bits with an optional table of their names. -/
@[ext]
structure Bitset (n : Nat) where
  bits : BitVec n
  table : Option Meaning
  fits : ∀ m ∈ table, m.Fits n

namespace Bitset

variable {n : Nat}

/-- The word of the low `n` bits of a number, without a table. -/
def ofNat (n value : Nat) : Bitset n := ⟨.ofNat n value, none, by simp⟩

/-- The bits as a number. -/
def toNat (s : Bitset n) : Nat := s.bits.toNat

/-- Words are equal when their bits are. -/
instance : BEq (Bitset n) := ⟨fun s t => s.bits == t.bits⟩

/-- The word with a table that fits it. -/
def withMeaning (s : Bitset n) (m : Meaning) : Except Error (Bitset n) :=
  if h : m.Fits n then .ok ⟨s.bits, some m, by simpa using h⟩
  else
    match m.entries.find? fun e => n ≤ e.2 with
    | some e => .error (.invalidMeaning m.name e.1)
    | none => .error (.invalidMeaning m.name s!"<{n}-bit word>")

theorem withMeaning_of_fits (s : Bitset n) {m : Meaning} (h : m.Fits n) :
    s.withMeaning m = .ok ⟨s.bits, some m, by simpa using h⟩ := dif_pos h

/-! ### Single bits -/

/-- Whether a bit is set; there is none at `n` or above. -/
def get (s : Bitset n) (i : Nat) : Bool := s.bits.getLsbD i

/-- The word with a bit set or cleared, unless there is no such bit. -/
def set? (s : Bitset n) (i : Nat) (value : Bool) : Option (Bitset n) :=
  if i < n then some { s with bits := putBit s.bits i value } else none

/-- The bit that a name stands for in the word's table. -/
def indexOf? (s : Bitset n) (name : String) : Option Nat := s.table.bind fun m => m.indexOf? name

/-- Whether the bit of a name is set. -/
def getNamed (s : Bitset n) (name : String) : Bool :=
  match s.indexOf? name with
  | some i => s.get i
  | none => false

/-- The word with the bit of a name set or cleared, unless there is no such name. -/
def setNamed? (s : Bitset n) (name : String) (value : Bool) : Option (Bitset n) :=
  (s.indexOf? name).bind fun i => s.set? i value

/-- Whether all bits of a mask are set. -/
def contains (s : Bitset n) (mask : Nat) : Bool := s.toNat &&& mask == mask

/-- Sets the bits of names one after another. -/
def setAll (m : Meaning) : Bitset n → List String → Except Error (Bitset n)
  | s, [] => .ok s
  | s, name :: names =>
    match s.setNamed? name true with
    | some s => setAll m s names
    | none => .error (.invalidMeaning m.name name)

/-- The word of the bits of some names. -/
def ofNames (n : Nat) (m : Meaning) (names : List String) : Except Error (Bitset n) := do
  setAll m (← (ofNat n 0).withMeaning m) names

/-! ### Text -/

/-- The names of the set bits in table order. -/
def names (s : Bitset n) : List String :=
  match s.table with
  | some m => m.entries.filterMap fun e => if s.get e.2 then some e.1 else none
  | none => []

/-- The bits that remain when those that some names stand for are cleared. -/
def clearNamed (s : Bitset n) : List String → BitVec n
  | [] => s.bits
  | name :: names =>
    match s.indexOf? name with
    | some i => putBit (s.clearNamed names) i false
    | none => s.clearNamed names

/-- The names of the set bits, then the other set bits in hexadecimal; zero is written out. -/
def text (s : Bitset n) : String :=
  let unnamed := s.clearNamed s.names
  let number := "0x" ++ String.ofList (Numeral.hex unnamed.toNat)
  " | ".intercalate (s.names ++ if unnamed ≠ 0 ∨ s.names = [] then [number] else [])

/-- The bits as digits of their width, with the name of the table. -/
def debugText (s : Bitset n) : String :=
  let table := match s.table with
    | some m => ", " ++ m.name
    | none => ""
  s!"Bitset<{n}>(0x" ++ String.ofList (Numeral.paddedHex (n / 4) s.toNat) ++ table ++ ")"

/-! ### Bytes -/

/-- The bytes of a word. -/
def encode (s : Bitset n) : Bytes := leBytes (n / 8) s.toNat

/-- The word in the first bytes of a byte string. -/
def decode (n : Nat) (b : Bytes) : Except Error (Bitset n) := do
  let (value, _) ← cutNat (.short .flags (n / 8)) (n / 8) b
  return ofNat n value

end Bitset
end AccessControl
