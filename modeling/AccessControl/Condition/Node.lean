import AccessControl.Condition.Operator
import AccessControl.Sid

/-!
# Expression trees

The trees of conditions: literals and attributes at the leaves, operators above them, and
composites, which are lists of literals. `Node.Lawful` states the operand rules: a tree is lawful
when each of its operators takes the operands it has. Two measures bound what a reader accepts,
the height in operators and the nesting of composites.
-/

namespace AccessControl.Condition

/-- An integer literal and how it was written. -/
structure IntLiteral where
  value : Int64
  width : IntWidth
  sign : IntSign
  base : IntBase
  deriving DecidableEq

/-- An expression tree. -/
inductive Node where
  | integer (literal : IntLiteral)
  /-- A string literal or the name of an attribute. -/
  | text (kind : TextKind) (content : String)
  | octets (bytes : Bytes)
  | sid (sid : Sid)
  | composite (elements : List Node)
  | membership (op : MembershipOp) (operand : Node)
  | comparison (op : ComparisonOp) (lhs rhs : Node)
  | unary (op : UnaryOp) (operand : Node)
  | logical (op : LogicalOp) (lhs rhs : Node)

namespace Node

/-! ### Equality -/

mutual
/-- Whether two trees are equal. -/
def same : Node → Node → Bool
  | .integer i, .integer j => i == j
  | .text k s, .text l t => k == l && s == t
  | .octets b, .octets c => b == c
  | .sid s, .sid t => s == t
  | .composite es, .composite fs => sameAll es fs
  | .membership o a, .membership p b => o == p && same a b
  | .comparison o a b, .comparison p c d => o == p && (same a c && same b d)
  | .unary o a, .unary p b => o == p && same a b
  | .logical o a b, .logical p c d => o == p && (same a c && same b d)
  | _, _ => false
/-- Whether two lists of trees are equal. -/
def sameAll : List Node → List Node → Bool
  | [], [] => true
  | e :: es, f :: fs => same e f && sameAll es fs
  | _, _ => false
end

mutual
theorem same_iff : ∀ a b : Node, same a b = true ↔ a = b
  | .integer _, b => by cases b <;> simp [same]
  | .text _ _, b => by cases b <;> simp [same]
  | .octets _, b => by cases b <;> simp [same]
  | .sid _, b => by cases b <;> simp [same]
  | .composite es, b => by cases b <;> simp [same, sameAll_iff es]
  | .membership _ a, b => by cases b <;> simp [same, same_iff a]
  | .comparison _ l r, b => by cases b <;> simp [same, same_iff l, same_iff r]
  | .unary _ a, b => by cases b <;> simp [same, same_iff a]
  | .logical _ l r, b => by cases b <;> simp [same, same_iff l, same_iff r]
theorem sameAll_iff : ∀ es fs : List Node, sameAll es fs = true ↔ es = fs
  | [], fs => by cases fs <;> simp [sameAll]
  | e :: es, fs => by cases fs <;> simp [sameAll, same_iff e, sameAll_iff es]
end

instance : DecidableEq Node := fun a b => decidable_of_iff _ (same_iff a b)

/-! ### Operand rules -/

/-- The kind of a node. -/
def kind : Node → NodeKind
  | .integer _ => .integer
  | .text k _ => .text k
  | .octets _ => .octets
  | .sid _ => .sid
  | .composite _ => .composite
  | .membership _ _ | .comparison _ _ _ => .relational
  | .unary _ _ | .logical _ _ _ => .logical

/-- Whether a composite may hold the node. -/
def isLiteral : Node → Bool
  | .integer _ | .octets _ | .sid _ | .composite _ => true
  | .text k _ => !k.isAttribute
  | _ => false

/-- Whether the node names an attribute. -/
def isAttribute : Node → Bool
  | .text k _ => k.isAttribute
  | _ => false

/-- Whether the node is a SID. -/
def isSid : Node → Bool
  | .sid _ => true
  | _ => false

/-- Whether the node names groups: a SID, or a composite of nothing but SIDs. -/
def isGroups : Node → Bool
  | .sid _ => true
  | .composite es => es.all isSid
  | _ => false

end Node

/-- Whether the operator takes a node on its right: a single value, or a composite where it does
not compare by size. -/
def ComparisonOp.takes (op : ComparisonOp) : Node → Bool
  | .integer _ | .text _ _ | .octets _ | .sid _ => true
  | .composite _ => !op.isOrdering
  | _ => false

/-- Whether the operator takes a node: `!` takes any, the others an attribute they can query. -/
def UnaryOp.takes : UnaryOp → Node → Bool
  | .negation, _ => true
  | _, .text k _ => k.isQueryable
  | _, _ => false

/-- Every operator of the tree takes the operands it has. -/
inductive Node.Lawful : Node → Prop
  | integer (i : IntLiteral) : Lawful (.integer i)
  | text (k : TextKind) (s : String) : Lawful (.text k s)
  | octets (b : Bytes) : Lawful (.octets b)
  | sid (s : Sid) : Lawful (.sid s)
  | composite {es : List Node} (literal : ∀ e ∈ es, e.isLiteral = true)
      (lawful : ∀ e ∈ es, Lawful e) : Lawful (.composite es)
  | membership {op : MembershipOp} {a : Node} (groups : a.isGroups = true) (operand : Lawful a) :
      Lawful (.membership op a)
  | comparison {op : ComparisonOp} {l r : Node} (attr : l.isAttribute = true)
      (value : op.takes r = true) (lhs : Lawful l) (rhs : Lawful r) : Lawful (.comparison op l r)
  | unary {op : UnaryOp} {a : Node} (takes : op.takes a = true) (operand : Lawful a) :
      Lawful (.unary op a)
  | logical {op : LogicalOp} {l r : Node} (lhs : Lawful l) (rhs : Lawful r) :
      Lawful (.logical op l r)

/-! ### Measures -/

namespace Node

/-- The number of nodes on the longest way from the root down to a literal. -/
def height : Node → Nat
  | .membership _ a | .unary _ a => a.height + 1
  | .comparison _ l r | .logical _ l r => max l.height r.height + 1
  | _ => 1

mutual
/-- The number of composites inside each other at the deepest place. -/
def nesting : Node → Nat
  | .composite es => nestingAll es + 1
  | .membership _ a | .unary _ a => nesting a
  | .comparison _ l r | .logical _ l r => max (nesting l) (nesting r)
  | _ => 0
/-- The deepest nesting in a list of trees. -/
def nestingAll : List Node → Nat
  | [] => 0
  | e :: es => max (nesting e) (nestingAll es)
end

mutual
/-- The nodes of the tree, operands before their operator. -/
def postorder : Node → List Node
  | .composite es => postorderAll es ++ [.composite es]
  | .membership op a => postorder a ++ [.membership op a]
  | .comparison op l r => postorder l ++ postorder r ++ [.comparison op l r]
  | .unary op a => postorder a ++ [.unary op a]
  | .logical op l r => postorder l ++ postorder r ++ [.logical op l r]
  | leaf => [leaf]
/-- The nodes of trees one after another. -/
def postorderAll : List Node → List Node
  | [] => []
  | e :: es => postorder e ++ postorderAll es
end

end Node
end AccessControl.Condition
