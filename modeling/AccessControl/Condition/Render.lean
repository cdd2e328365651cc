import AccessControl.Condition
import AccessControl.Sid.Text

/-!
# Conditions as text

Operators are written with their keywords between or in front of their operands, and every
application of an operator stands in parentheses. Attributes carry their name space, SIDs are
marked, and integers keep the base and an explicit plus sign.
-/

namespace AccessControl.Condition

/-- The text of an integer literal: a sign where it shows, then the magnitude in its base. -/
def IntLiteral.chars (i : IntLiteral) : List Char :=
  let magnitude := i.value.toInt.natAbs
  let sign := if i.value < 0 then ['-'] else if i.sign = .plus then ['+'] else []
  sign ++ match i.base with
    | .octal => '0' :: Numeral.octal magnitude
    | .decimal => Numeral.decimal magnitude
    | .hexadecimal => '0' :: 'x' :: Numeral.hex magnitude

/-- What stands in front of the name of an attribute. -/
def TextKind.marker : TextKind → List Char
  | .literal | .localName => []
  | .user => "@User.".toList
  | .resource => "@Resource.".toList
  | .device => "@Device.".toList

/-- The text of a string literal, in quotes and as it is, or of an attribute. -/
def TextKind.chars (kind : TextKind) (content : String) : List Char :=
  match kind with
  | .literal => '"' :: content.toList ++ ['"']
  | _ => kind.marker ++ content.toList

/-- A text in parentheses. -/
def inParens (cs : List Char) : List Char := '(' :: cs ++ [')']

/-- A text in braces. -/
def inBraces (cs : List Char) : List Char := '\x7b' :: cs ++ ['\x7d']

/-- Operands around an operator. -/
def between (l : List Char) (keyword : String) (r : List Char) : List Char :=
  inParens (l ++ ' ' :: keyword.toList ++ ' ' :: r)

namespace Node

mutual
/-- The text of a tree, as characters. -/
def chars : Node → List Char
  | .integer i => i.chars
  | .text k s => k.chars s
  | .octets b => '#' :: Numeral.hexBytes b
  | .sid s => "SID".toList ++ inParens s.chars
  | .composite es => inBraces (charsAll es)
  | .membership op a =>
    let groups := if a.isSid then inBraces (chars a) else chars a
    inParens (op.keyword.toList ++ ' ' :: groups)
  | .comparison op l r => between (chars l) op.keyword (chars r)
  | .unary .negation a => inParens ('!' :: chars a)
  | .unary op a => inParens (op.keyword.toList ++ ' ' :: chars a)
  | .logical op l r => between (chars l) op.keyword (chars r)
/-- The texts of trees, separated by commas. -/
def charsAll : List Node → List Char
  | [] => []
  | [e] => chars e
  | e :: f :: es => chars e ++ ',' :: ' ' :: charsAll (f :: es)
end

/-- The text of a tree. -/
def toText (n : Node) : String := String.ofList n.chars

end Node

/-- The text of a condition: that of its tree, in parentheses of its own if the tree has none. -/
def toText (c : Condition) : String :=
  String.ofList (if c.node.isLiteral || c.node.isAttribute then inParens c.node.chars
    else c.node.chars)

end AccessControl.Condition
