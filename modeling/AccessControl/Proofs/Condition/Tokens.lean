import AccessControl.Condition.Wire
import AccessControl.Proofs.Sid.Wire

/-!
# The grammar of tokens

`Token`, `Body` and `Emits` say what a tree looks like as bytes, without saying how it is read: the
tokens of a tree in postfix order, with zero bytes in front of any of them. The writer puts in no
zero bytes (`emits_of_encode`), and there is no tree of fewer than 2^32 bytes that it does not write
(`exists_encode`). Every token starts with a code, from which its member of the vocabulary is read
back and which is never the padding byte.
-/

namespace AccessControl.Condition

/-! ### Codes -/

theorem IntWidth.ofCode?_eq_some {c : UInt8} {w : IntWidth} : ofCode? c = some w ↔ w.code = c := by
  constructor
  · intro h
    unfold ofCode? at h
    split at h <;> cases h <;> rfl
  · rintro rfl
    cases w <;> rfl

theorem IntSign.ofCode?_eq_some {c : UInt8} {s : IntSign} : ofCode? c = some s ↔ s.code = c := by
  constructor
  · intro h
    unfold ofCode? at h
    split at h <;> cases h <;> rfl
  · rintro rfl
    cases s <;> rfl

theorem IntBase.ofCode?_eq_some {c : UInt8} {s : IntBase} : ofCode? c = some s ↔ s.code = c := by
  constructor
  · intro h
    unfold ofCode? at h
    split at h <;> cases h <;> rfl
  · rintro rfl
    cases s <;> rfl

theorem TextKind.ofCode?_eq_some {c : UInt8} {k : TextKind} : ofCode? c = some k ↔ k.code = c := by
  constructor
  · intro h
    unfold ofCode? at h
    split at h <;> cases h <;> rfl
  · rintro rfl
    cases k <;> rfl

theorem MembershipOp.ofCode?_eq_some {c : UInt8} {op : MembershipOp} :
    ofCode? c = some op ↔ op.code = c := by
  constructor
  · intro h
    unfold ofCode? at h
    split at h <;> cases h <;> rfl
  · rintro rfl
    cases op <;> rfl

theorem ComparisonOp.ofCode?_eq_some {c : UInt8} {op : ComparisonOp} :
    ofCode? c = some op ↔ op.code = c := by
  constructor
  · intro h
    unfold ofCode? at h
    split at h <;> cases h <;> rfl
  · rintro rfl
    cases op <;> rfl

theorem UnaryOp.ofCode?_eq_some {c : UInt8} {op : UnaryOp} : ofCode? c = some op ↔ op.code = c := by
  constructor
  · intro h
    unfold ofCode? at h
    split at h <;> cases h <;> rfl
  · rintro rfl
    cases op <;> rfl

theorem LogicalOp.ofCode?_eq_some {c : UInt8} {op : LogicalOp} :
    ofCode? c = some op ↔ op.code = c := by
  constructor
  · intro h
    unfold ofCode? at h
    split at h <;> cases h <;> rfl
  · rintro rfl
    cases op <;> rfl

/-! ### The grammar -/

mutual
/-- The token of a literal or an attribute: its code and the bytes after the code. -/
inductive Token : Node → UInt8 → Bytes → Prop
  | integer (i : IntLiteral) :
      Token (.integer i) i.width.code
        (leBytes 8 i.value.toUInt64.toNat ++ [i.sign.code, i.base.code])
  | text (k : TextKind) (s : String) (fits : Utf16.encodedLen s < 256 ^ 4) :
      Token (.text k s) k.code (leBytes 4 (Utf16.encodedLen s) ++ Utf16.encode s)
  | octets (b : Bytes) (fits : b.length < 256 ^ 4) :
      Token (.octets b) octetsCode (leBytes 4 b.length ++ b)
  | sid (s : Sid) : Token (.sid s) sidCode (leBytes 4 s.encodedLen ++ s.encode)
  | composite {es : List Node} {body : Bytes} (elements : Body es body)
      (fits : body.length < 256 ^ 4) :
      Token (.composite es) compositeCode (leBytes 4 body.length ++ body)
/-- The body of a composite: the tokens of its elements, with zero bytes in front of each of them
and at the end. -/
inductive Body : List Node → Bytes → Prop
  | nil (p : Nat) : Body [] (zeros p)
  | cons (p : Nat) {e : Node} {es : List Node} {code : UInt8} {r b : Bytes}
      (head : Token e code r) (tail : Body es b) : Body (e :: es) (zeros p ++ code :: (r ++ b))
end

/-- The tokens of a tree in postfix order, with zero bytes in front of each of them. -/
inductive Emits : Node → Bytes → Prop
  | token (p : Nat) {n : Node} {code : UInt8} {r : Bytes} (head : Token n code r) :
      Emits n (zeros p ++ code :: r)
  | membership (p : Nat) {op : MembershipOp} {a : Node} {x : Bytes} (operand : Emits a x) :
      Emits (.membership op a) (x ++ (zeros p ++ [op.code]))
  | comparison (p : Nat) {op : ComparisonOp} {l r : Node} {x y : Bytes} (lhs : Emits l x)
      (rhs : Emits r y) : Emits (.comparison op l r) (x ++ (y ++ (zeros p ++ [op.code])))
  | unary (p : Nat) {op : UnaryOp} {a : Node} {x : Bytes} (operand : Emits a x) :
      Emits (.unary op a) (x ++ (zeros p ++ [op.code]))
  | logical (p : Nat) {op : LogicalOp} {l r : Node} {x y : Bytes} (lhs : Emits l x)
      (rhs : Emits r y) : Emits (.logical op l r) (x ++ (y ++ (zeros p ++ [op.code])))

theorem Body.pad {es : List Node} {b : Bytes} (h : Body es b) : Body es (0 :: b) := by
  cases h with
  | nil p => exact .nil (p + 1)
  | cons p head tail => exact .cons (p + 1) head tail

theorem Token.code_ne_padding {n : Node} {code : UInt8} {r : Bytes} (h : Token n code r) :
    code ≠ paddingCode := by
  cases h with
  | integer i => cases i.width <;> decide
  | text k s fits => cases k <;> decide
  | octets b fits => decide
  | sid s => decide
  | composite elements fits => decide

mutual
/-- A token takes at least as many bytes as the writer's, which have no zero bytes between them. -/
theorem Token.encodedLen_le : ∀ {n : Node} {code : UInt8} {r : Bytes}, Token n code r →
    n.encodedLen ≤ r.length + 1
  | _, _, _, .integer i => by simp [Node.encodedLen]
  | _, _, _, .text k s _ => by
    simp only [Node.encodedLen, List.length_append, length_leBytes, Utf16.length_encode]
    omega
  | _, _, _, .octets b _ => by
    simp only [Node.encodedLen, List.length_append, length_leBytes]
    omega
  | _, _, _, .sid s => by
    simp only [Node.encodedLen, List.length_append, length_leBytes, Sid.length_encode]
    omega
  | _, _, _, .composite elements _ => by
    have := elements.encodedLenAll_le
    simp only [Node.encodedLen, List.length_append, length_leBytes]
    omega
theorem Body.encodedLenAll_le : ∀ {es : List Node} {b : Bytes}, Body es b →
    Node.encodedLenAll es ≤ b.length
  | _, _, .nil p => by simp [Node.encodedLenAll]
  | _, _, .cons p head tail => by
    have := head.encodedLen_le
    have := tail.encodedLenAll_le
    simp only [Node.encodedLenAll, List.length_append, List.length_cons]
    omega
end

theorem Emits.encodedLen_le {n : Node} {x : Bytes} (h : Emits n x) : n.encodedLen ≤ x.length := by
  induction h with
  | token p head =>
    have := head.encodedLen_le
    simp only [List.length_append, List.length_cons]
    omega
  | membership p operand ih | unary p operand ih =>
    simp only [Node.encodedLen, List.length_append, List.length_singleton]
    omega
  | comparison p lhs rhs ihl ihr | logical p lhs rhs ihl ihr =>
    simp only [Node.encodedLen, List.length_append, List.length_singleton]
    omega

/-! ### The writer -/

namespace Node

mutual
theorem length_of_encode : ∀ (n : Node) {b : Bytes}, n.encode = .ok b → b.length = n.encodedLen
  | .integer i, b, h => by
    rw [encode] at h
    cases h
    simp [encodedLen]
  | .text k s, b, h => by
    simp only [encode, bind_eq_ok, sizeField_eq_ok_iff] at h
    obtain ⟨_, ⟨-, rfl⟩, h⟩ := h
    cases h
    simp only [encodedLen, List.cons_append, List.length_cons, List.length_append, length_leBytes,
      Utf16.length_encode]
    omega
  | .octets o, b, h => by
    simp only [encode, bind_eq_ok, sizeField_eq_ok_iff] at h
    obtain ⟨_, ⟨-, rfl⟩, h⟩ := h
    cases h
    simp only [encodedLen, List.cons_append, List.length_cons, List.length_append, length_leBytes]
    omega
  | .sid s, b, h => by
    simp only [encode, bind_eq_ok, sizeField_eq_ok_iff] at h
    obtain ⟨_, ⟨-, rfl⟩, h⟩ := h
    cases h
    simp only [encodedLen, List.cons_append, List.length_cons, List.length_append, length_leBytes,
      Sid.length_encode]
    omega
  | .composite es, b, h => by
    simp only [encode, bind_eq_ok, sizeField_eq_ok_iff] at h
    obtain ⟨_, ⟨-, rfl⟩, x, hx, h⟩ := h
    cases h
    simp only [encodedLen, List.cons_append, List.length_cons, List.length_append, length_leBytes,
      length_of_encodeAll es hx]
    omega
  | .membership op a, b, h | .unary op a, b, h => by
    simp only [encode, bind_eq_ok] at h
    obtain ⟨x, hx, h⟩ := h
    cases h
    simp [encodedLen, length_of_encode a hx]
  | .comparison op l r, b, h | .logical op l r, b, h => by
    simp only [encode, bind_eq_ok] at h
    obtain ⟨x, hx, y, hy, h⟩ := h
    cases h
    simp only [encodedLen, List.length_append, List.length_singleton, length_of_encode l hx,
      length_of_encode r hy]
theorem length_of_encodeAll :
    ∀ (es : List Node) {b : Bytes}, encodeAll es = .ok b → b.length = encodedLenAll es
  | [], b, h => by
    rw [encodeAll] at h
    cases h
    rfl
  | e :: es, b, h => by
    simp only [encodeAll, bind_eq_ok] at h
    obtain ⟨x, hx, y, hy, h⟩ := h
    cases h
    simp [encodedLenAll, length_of_encode e hx, length_of_encodeAll es hy]
end

mutual
/-- A tree is written if its bytes can be counted in four, as no length in it is greater. -/
theorem exists_encode : ∀ n : Node, n.encodedLen < 256 ^ 4 → ∃ b, n.encode = .ok b
  | .integer i, _ => ⟨_, by rw [encode]⟩
  | .text k s, h => by
    rw [encodedLen] at h
    have fits : Utf16.encodedLen s < 256 ^ 4 := by omega
    exact ⟨_, by rw [encode, sizeField_of_lt fits]; rfl⟩
  | .octets o, h => by
    rw [encodedLen] at h
    have fits : o.length < 256 ^ 4 := by omega
    exact ⟨_, by rw [encode, sizeField_of_lt fits]; rfl⟩
  | .sid s, h => by
    rw [encodedLen] at h
    have fits : s.encodedLen < 256 ^ 4 := by omega
    exact ⟨_, by rw [encode, sizeField_of_lt fits]; rfl⟩
  | .composite es, h => by
    rw [encodedLen] at h
    have fits : encodedLenAll es < 256 ^ 4 := by omega
    obtain ⟨x, hx⟩ := exists_encodeAll es fits
    exact ⟨_, by rw [encode, sizeField_of_lt fits, hx]; rfl⟩
  | .membership op a, h | .unary op a, h => by
    rw [encodedLen] at h
    obtain ⟨x, hx⟩ := exists_encode a (by omega)
    exact ⟨_, by rw [encode, hx]; rfl⟩
  | .comparison op l r, h | .logical op l r, h => by
    rw [encodedLen] at h
    obtain ⟨x, hx⟩ := exists_encode l (by omega)
    obtain ⟨y, hy⟩ := exists_encode r (by omega)
    exact ⟨_, by rw [encode, hx, hy]; rfl⟩
theorem exists_encodeAll : ∀ es : List Node, encodedLenAll es < 256 ^ 4 → ∃ b, encodeAll es = .ok b
  | [], _ => ⟨_, by rw [encodeAll]⟩
  | e :: es, h => by
    rw [encodedLenAll] at h
    obtain ⟨x, hx⟩ := exists_encode e (by omega)
    obtain ⟨y, hy⟩ := exists_encodeAll es (by omega)
    exact ⟨_, by rw [encodeAll, hx, hy]; rfl⟩
end

end Node

theorem body_of_encodeAll : ∀ {es : List Node} {b : Bytes},
    (∀ e ∈ es, ∀ x, e.encode = .ok x → ∃ code r, x = code :: r ∧ Token e code r) →
    Node.encodeAll es = .ok b → Body es b
  | [], b, _, hb => by
    rw [Node.encodeAll] at hb
    cases hb
    exact .nil 0
  | e :: es, b, h, hb => by
    simp only [Node.encodeAll, bind_eq_ok] at hb
    obtain ⟨x, hx, y, hy, hb⟩ := hb
    cases hb
    obtain ⟨code, r, rfl, head⟩ := h e (List.mem_cons_self ..) x hx
    exact .cons 0 head (body_of_encodeAll (fun e' he' => h e' (List.mem_cons_of_mem e he')) hy)

/-- The bytes of a literal or an attribute are its token. -/
theorem token_of_encode {n : Node} (lawful : n.Lawful)
    (leaf : n.isLiteral = true ∨ n.isAttribute = true) {b : Bytes} (hb : n.encode = .ok b) :
    ∃ code r, b = code :: r ∧ Token n code r := by
  induction lawful generalizing b with
  | integer i =>
    rw [Node.encode] at hb
    cases hb
    exact ⟨_, _, rfl, .integer i⟩
  | text k s =>
    simp only [Node.encode, bind_eq_ok, sizeField_eq_ok_iff] at hb
    obtain ⟨_, ⟨fits, rfl⟩, hb⟩ := hb
    cases hb
    exact ⟨_, _, rfl, .text k s fits⟩
  | octets o =>
    simp only [Node.encode, bind_eq_ok, sizeField_eq_ok_iff] at hb
    obtain ⟨_, ⟨fits, rfl⟩, hb⟩ := hb
    cases hb
    exact ⟨_, _, rfl, .octets o fits⟩
  | sid s =>
    simp only [Node.encode, bind_eq_ok, sizeField_eq_ok_iff] at hb
    obtain ⟨_, ⟨-, rfl⟩, hb⟩ := hb
    cases hb
    exact ⟨_, _, rfl, .sid s⟩
  | @composite es literal lawful ih =>
    simp only [Node.encode, bind_eq_ok, sizeField_eq_ok_iff] at hb
    obtain ⟨_, ⟨fits, rfl⟩, x, hx, hb⟩ := hb
    cases hb
    have elements : Body es x := body_of_encodeAll
      (fun e he y hy => ih e he (.inl (literal e he)) hy) hx
    rw [← Node.length_of_encodeAll es hx] at fits ⊢
    exact ⟨_, _, rfl, .composite elements fits⟩
  | membership | comparison | unary | logical =>
    simp [Node.isLiteral, Node.isAttribute] at leaf

theorem emits_of_encode_leaf {n : Node} (lawful : n.Lawful)
    (leaf : n.isLiteral = true ∨ n.isAttribute = true) {b : Bytes} (hb : n.encode = .ok b) :
    Emits n b := by
  obtain ⟨code, r, rfl, head⟩ := token_of_encode lawful leaf hb
  exact .token 0 head

/-- The bytes of a tree are its tokens. -/
theorem emits_of_encode {n : Node} (lawful : n.Lawful) {b : Bytes} (hb : n.encode = .ok b) :
    Emits n b := by
  induction lawful generalizing b with
  | integer i => exact emits_of_encode_leaf (.integer i) (.inl rfl) hb
  | text k s =>
    have either : (Node.text k s).isLiteral = true ∨ (Node.text k s).isAttribute = true := by
      cases k <;> simp [Node.isLiteral, Node.isAttribute, TextKind.isAttribute]
    exact emits_of_encode_leaf (.text k s) either hb
  | octets o => exact emits_of_encode_leaf (.octets o) (.inl rfl) hb
  | sid s => exact emits_of_encode_leaf (.sid s) (.inl rfl) hb
  | composite literal lawful => exact emits_of_encode_leaf (.composite literal lawful) (.inl rfl) hb
  | membership groups operand ih =>
    simp only [Node.encode, bind_eq_ok] at hb
    obtain ⟨x, hx, hb⟩ := hb
    cases hb
    exact .membership 0 (ih hx)
  | unary takes operand ih =>
    simp only [Node.encode, bind_eq_ok] at hb
    obtain ⟨x, hx, hb⟩ := hb
    cases hb
    exact .unary 0 (ih hx)
  | comparison attr value lhs rhs ihl ihr =>
    simp only [Node.encode, bind_eq_ok] at hb
    obtain ⟨x, hx, y, hy, hb⟩ := hb
    cases hb
    rw [List.append_assoc]
    exact .comparison 0 (ihl hx) (ihr hy)
  | logical lhs rhs ihl ihr =>
    simp only [Node.encode, bind_eq_ok] at hb
    obtain ⟨x, hx, y, hy, hb⟩ := hb
    cases hb
    rw [List.append_assoc]
    exact .logical 0 (ihl hx) (ihr hy)

end AccessControl.Condition
