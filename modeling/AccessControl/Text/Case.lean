/-!
# The case of letters

Names are compared without regard to the case of ASCII letters; other letters have no case here.
-/

namespace AccessControl.Text

/-- Whether two texts are equal up to the case of ASCII letters. -/
def sameLetters (s t : List Char) : Bool := s.map Char.toLower == t.map Char.toLower

theorem sameLetters_iff {s t : List Char} :
    sameLetters s t = true ↔ s.map Char.toLower = t.map Char.toLower := beq_iff_eq

end AccessControl.Text
