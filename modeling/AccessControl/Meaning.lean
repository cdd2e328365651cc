import AccessControl.Text.Case

/-!
# Meaning tables

A meaning table names bits of a word: entries of a name and a bit index, for words of one width.
Names are looked up without regard to the case of ASCII letters, and the first entry that
matches counts, in both directions.
-/

namespace AccessControl

/-- Names for bits of a word. -/
structure Meaning where
  name : String
  width : Nat
  entries : List (String × Nat)
  deriving DecidableEq, Repr

namespace Meaning

/-- Whether two names are equal up to the case of ASCII letters. -/
def sameName (a b : String) : Bool := Text.sameLetters a.toList b.toList

/-- The bit that a name stands for. -/
def indexOf? (m : Meaning) (name : String) : Option Nat :=
  (m.entries.find? fun e => sameName e.1 name).map (·.2)

/-- The name of a bit. -/
def nameOf? (m : Meaning) (index : Nat) : Option String :=
  (m.entries.find? fun e => e.2 == index).map (·.1)

/-- Whether two entries differ both in name and in bit. -/
def apart (a b : String × Nat) : Bool := !sameName a.1 b.1 && a.2 != b.2

/-- Whether each two entries differ both in name and in bit. -/
def isInjective (m : Meaning) : Bool := go m.entries
where
  go : List (String × Nat) → Bool
    | [] => true
    | e :: es => es.all (apart e) && go es

/-- Whether the table describes words of `n` bits. -/
def Fits (m : Meaning) (n : Nat) : Prop := m.width = n ∧ ∀ e ∈ m.entries, e.2 < n

instance (m : Meaning) (n : Nat) : Decidable (m.Fits n) := inferInstanceAs (Decidable (_ ∧ _))

end Meaning
end AccessControl
