import AccessControl.Condition.Node
import AccessControl.Error

/-!
# Conditions

A condition is a lawful expression tree. Leaves are conditions of their own; every operator has a
constructor that checks its operands and reports the first one that it does not take.
-/

namespace AccessControl

/-- A lawful expression tree. -/
structure Condition where
  node : Condition.Node
  lawful : node.Lawful
  deriving DecidableEq

namespace Condition

/-- The condition that is an integer literal. -/
def integer (i : IntLiteral) : Condition := ⟨.integer i, .integer i⟩

/-- The condition that is a string literal or an attribute. -/
def text (kind : TextKind) (content : String) : Condition :=
  ⟨.text kind content, .text kind content⟩

/-- The condition that is an octet string. -/
def octets (bytes : Bytes) : Condition := ⟨.octets bytes, .octets bytes⟩

/-- The condition that is a SID. -/
def sid (s : Sid) : Condition := ⟨.sid s, .sid s⟩

/-- A composite, whose elements are literals. -/
def composite (elements : List Condition) : Except Error Condition :=
  match h : elements.find? fun e => !e.node.isLiteral with
  | some bad => .error (.operandRefused .composite bad.node.kind)
  | none => .ok ⟨.composite (elements.map Condition.node), .composite
      (by
        intro e he
        obtain ⟨c, hc, rfl⟩ := List.mem_map.1 he
        simpa using List.find?_eq_none.1 h c hc)
      (by
        intro e he
        obtain ⟨c, _, rfl⟩ := List.mem_map.1 he
        exact c.lawful)⟩

/-- A test for membership in groups. -/
def membership (op : MembershipOp) (a : Condition) : Except Error Condition :=
  if h : a.node.isGroups then .ok ⟨.membership op a.node, .membership h a.lawful⟩
  else .error (.operandRefused (.membership op) a.node.kind)

/-- A comparison of an attribute with a value. -/
def comparison (op : ComparisonOp) (l r : Condition) : Except Error Condition :=
  if hl : l.node.isAttribute then
    if hr : op.takes r.node then
      .ok ⟨.comparison op l.node r.node, .comparison hl hr l.lawful r.lawful⟩
    else .error (.operandRefused (.comparison op) r.node.kind)
  else .error (.operandRefused (.comparison op) l.node.kind)

/-- An operator on one operand. -/
def unary (op : UnaryOp) (a : Condition) : Except Error Condition :=
  if h : op.takes a.node then .ok ⟨.unary op a.node, .unary h a.lawful⟩
  else .error (.operandRefused (.unary op) a.node.kind)

/-- The negation of a condition. -/
def negation (a : Condition) : Condition := ⟨.unary .negation a.node, .unary rfl a.lawful⟩

/-- A conjunction or disjunction of two conditions. -/
def logical (op : LogicalOp) (l r : Condition) : Condition :=
  ⟨.logical op l.node r.node, .logical l.lawful r.lawful⟩

end Condition
end AccessControl
