import AccessControl.Condition
import AccessControl.Sid.Wire
import AccessControl.Utf16

/-!
# Conditions as tokens

A condition travels as a signature and the tokens of its tree in postfix order, filled up with
zero bytes. A token starts with the byte of its literal or operator; the body of a composite is
the tokens of its elements, preceded by their length. A reader keeps a stack, skips zero bytes in
front of every token, and refuses composites and operators that are nested too deeply.
-/

namespace AccessControl.Condition

/-- The signature that a condition starts with. -/
def signature : Bytes := [0x61, 0x72, 0x74, 0x78]

/-- The byte that may stand in front of every token. -/
def paddingCode : UInt8 := 0x00

/-- The byte of an octet string. -/
def octetsCode : UInt8 := 0x18

/-- The byte of a composite. -/
def compositeCode : UInt8 := 0x50

/-- The byte of a SID. -/
def sidCode : UInt8 := 0x51

/-- The deepest nesting of composites that a reader accepts. -/
def maxNesting : Nat := 32

/-- The greatest height that a reader accepts. -/
def maxHeight : Nat := 256

/-! ### Writing -/

namespace Node

mutual
/-- The number of bytes of the tokens of a tree. -/
def encodedLen : Node → Nat
  | .integer _ => 1 + 8 + 1 + 1
  | .text _ s => 1 + 4 + Utf16.encodedLen s
  | .octets b => 1 + 4 + b.length
  | .sid s => 1 + 4 + s.encodedLen
  | .composite es => 1 + 4 + encodedLenAll es
  | .membership _ a | .unary _ a => encodedLen a + 1
  | .comparison _ l r | .logical _ l r => encodedLen l + encodedLen r + 1
/-- The number of bytes of the tokens of trees one after another. -/
def encodedLenAll : List Node → Nat
  | [] => 0
  | e :: es => encodedLen e + encodedLenAll es
end

mutual
/-- The tokens of a tree: operands first, then the operator. -/
def encode : Node → Except Error Bytes
  | .integer i =>
    .ok (i.width.code :: leBytes 8 i.value.toUInt64.toNat ++ [i.sign.code, i.base.code])
  | .text k s => do
    return k.code :: (← sizeField 4 .expressionString (Utf16.encodedLen s)) ++ Utf16.encode s
  | .octets b => do return octetsCode :: (← sizeField 4 .expressionOctetString b.length) ++ b
  | .sid s => do return sidCode :: (← sizeField 4 .expressionSid s.encodedLen) ++ s.encode
  | .composite es => do
    let size ← sizeField 4 .expressionComposite (encodedLenAll es)
    return compositeCode :: size ++ (← encodeAll es)
  | .membership op a => do return (← encode a) ++ [op.code]
  | .comparison op l r => do return (← encode l) ++ (← encode r) ++ [op.code]
  | .unary op a => do return (← encode a) ++ [op.code]
  | .logical op l r => do return (← encode l) ++ (← encode r) ++ [op.code]
/-- The tokens of trees one after another. -/
def encodeAll : List Node → Except Error Bytes
  | [] => .ok []
  | e :: es => do return (← encode e) ++ (← encodeAll es)
end

end Node

/-- The number of bytes of a condition. -/
def encodedLen (c : Condition) : Nat := align4 (signature.length + c.node.encodedLen)

/-- The bytes of a condition. -/
def encode (c : Condition) : Except Error Bytes := do
  return padded (signature ++ (← c.node.encode))

/-! ### Reading literals -/

/-- The value, sign and base of an integer literal, and the rest. -/
def cutInteger (width : IntWidth) (b : Bytes) : Except Error (Condition × Bytes) := do
  let (value, b) ← cutNat (.short .expressionInteger 8) 8 b
  let (signCode, b) ← cutNat (.short .expressionInteger 1) 1 b
  let some sign := IntSign.ofCode? (.ofNat signCode) | throw (.malformedCondition .badSign)
  let (baseCode, b) ← cutNat (.short .expressionInteger 1) 1 b
  let some base := IntBase.ofCode? (.ofNat baseCode) | throw (.malformedCondition .badBase)
  return (integer ⟨(UInt64.ofNat value).toInt64, width, sign, base⟩, b)

/-- The text of a literal or attribute, and the rest. -/
def cutText (kind : TextKind) (b : Bytes) : Except Error (Condition × Bytes) := do
  let (content, b) ← cutPrefixed .expressionString b
  return (text kind (← Utf16.decode content), b)

/-- An octet string, and the rest. -/
def cutOctets (b : Bytes) : Except Error (Condition × Bytes) := do
  let (bytes, b) ← cutPrefixed .expressionOctetString b
  return (octets bytes, b)

/-- A SID, and the rest. -/
def cutSid (b : Bytes) : Except Error (Condition × Bytes) := do
  let (bytes, b) ← cutPrefixed .expressionSid b
  return (sid (← Sid.decode bytes), b)

/-- The literal or attribute that a code announces, read from the bytes after the code; none for
any other code. Composites are read by the reader given. -/
def literal? (composite : Bytes → Except Error (Condition × Bytes)) (code : UInt8) (b : Bytes) :
    Option (Except Error (Condition × Bytes)) :=
  match IntWidth.ofCode? code, TextKind.ofCode? code with
  | some width, _ => some (cutInteger width b)
  | none, some kind => some (cutText kind b)
  | none, none =>
    if code = octetsCode then some (cutOctets b)
    else if code = sidCode then some (cutSid b)
    else if code = compositeCode then some (composite b)
    else none

/-- The literals that a byte string is made of. The first argument bounds the number of tokens;
as each token takes at least one byte, the number of bytes is enough. -/
def elements (composite : Bytes → Except Error (Condition × Bytes)) :
    Nat → Bytes → Except Error (List Condition)
  | _, [] => .ok []
  | 0, _ :: _ => .ok []
  | n + 1, code :: b =>
    if code = paddingCode then elements composite n b
    else
      match literal? composite code b with
      | some read => do
        let (e, b) ← read
        return e :: (← elements composite n b)
      | none => .error (.malformedCondition .operatorInComposite)

/-- A composite in which so many more composites may be nested, itself included, and the rest. -/
def cutComposite : Nat → Bytes → Except Error (Condition × Bytes)
  | 0, _ => .error (.malformedCondition .compositeTooDeep)
  | depth + 1, b => do
    let (body, b) ← cutPrefixed .expressionComposite b
    let es ← elements (cutComposite depth) body.length body
    return (← composite es, b)

/-! ### Reading operators -/

/-- The stack, top first, after an operator took its operands from it. -/
def reduce (code : UInt8) (stack : List Condition) : Except Error (Condition × List Condition) :=
  match MembershipOp.ofCode? code, ComparisonOp.ofCode? code, UnaryOp.ofCode? code,
    LogicalOp.ofCode? code with
  | some op, _, _, _ => do
    let a :: stack := stack | throw (.malformedCondition .missingOperand)
    return (← membership op a, stack)
  | _, some op, _, _ => do
    let r :: l :: stack := stack | throw (.malformedCondition .missingOperand)
    return (← comparison op l r, stack)
  | _, _, some op, _ => do
    let a :: stack := stack | throw (.malformedCondition .missingOperand)
    return (← unary op a, stack)
  | _, _, _, some op => do
    let r :: l :: stack := stack | throw (.malformedCondition .missingOperand)
    return (logical op l r, stack)
  | none, none, none, none => .error (.unknownToken code)

/-- The stack, top first, after all tokens of a byte string. The first argument bounds the number
of tokens; the number of bytes is enough. -/
def run : Nat → Bytes → List Condition → Except Error (List Condition)
  | _, [], stack => .ok stack
  | 0, _ :: _, stack => .ok stack
  | n + 1, code :: b, stack =>
    if code = paddingCode then run n b stack
    else
      match literal? (cutComposite maxNesting) code b with
      | some read => do
        let (c, b) ← read
        run n b (c :: stack)
      | none => do
        let (c, stack) ← reduce code stack
        if maxHeight < c.node.height then throw (.malformedCondition .tooDeep)
        run n b (c :: stack)

/-- The condition that a byte string is. -/
def decode (b : Bytes) : Except Error Condition := do
  if b.take signature.length ≠ signature then throw (.malformedCondition .noSignature)
  let tokens := b.drop signature.length
  match ← run tokens.length tokens [] with
  | [] => throw (.malformedCondition .empty)
  | [c] => return c
  | _ => throw (.malformedCondition .notSingle)

end AccessControl.Condition
