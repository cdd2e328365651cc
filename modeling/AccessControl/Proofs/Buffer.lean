import AccessControl.Buffer
import AccessControl.Proofs.Bitset.Updates
import AccessControl.Proofs.Descriptor.Writing

/-!
# What writers add to a buffer

Writing into a buffer adds the bytes of the value behind what is there, and nothing else: every
writer is held against the bytes of its value (`appendTo_eq`), by induction where it goes through a
list or a tree. As many bytes are added as were predicted from the value, which is what makes the
sizes, the offsets and the lengths in front of composites right, and leaves nothing for the resizing
to cut off (`predictions_are_exact`).
-/

namespace AccessControl

variable {α : Type} {b x out : Bytes}

/-! ### Resizing -/

/-- At the next multiple of four, the buffer has zero bytes added and none cut off. -/
theorem resized_append (out x : Bytes) :
    resized (out.length + align4 x.length) (out ++ x) = out ++ padded x := by
  have room := le_align4 x.length
  have whole : (out ++ x).take (out.length + align4 x.length) = out ++ x :=
    List.take_of_length_le (by rw [List.length_append]; omega)
  have missing : out.length + align4 x.length - (out ++ x).length = align4 x.length - x.length := by
    rw [List.length_append]
    omega
  rw [resized, whole, missing, List.append_assoc]
  rfl

section Record

variable {append : Bytes → Except Error Bytes} {record : Except Error Bytes} {size : Nat}

/-- A record that is added to the buffer and then filled up to its predicted size adds what it is
when it is filled up on its own. -/
theorem resized_record_eq (adds : ∀ out, append out = do return out ++ (← record))
    (predicts : ∀ x, record = .ok x → align4 x.length = size) (out : Bytes) :
    (do return resized (out.length + size) (← append out)) =
      (do return out ++ padded (← record) : Except Error Bytes) := by
  rw [adds]
  cases written : record with
  | error e => rfl
  | ok x => simp only [ok_bind, pure_ok, ← predicts x written, resized_append]

/-- Filling up a record leaves all bytes that were written and adds at most three. -/
theorem exists_resized_record (adds : ∀ out, append out = do return out ++ (← record))
    (predicts : ∀ x, record = .ok x → align4 x.length = size) (h : append out = .ok b) :
    ∃ p < 4, resized (out.length + size) b = b ++ zeros p := by
  rw [adds] at h
  obtain ⟨x, written, h⟩ := bind_eq_ok.1 h
  cases h
  have bound := align4_lt x.length
  refine ⟨align4 x.length - x.length, by omega, ?_⟩
  rw [← predicts x written, resized_append, padded_eq, List.append_assoc]

end Record

/-! ### Claim attributes -/

namespace ClaimValue

theorem appendTo_eq (v : ClaimValue) (out : Bytes) :
    v.appendTo out = do return out ++ (← v.encode) := by
  cases v with
  | string text => exact congrArg Except.ok (List.append_assoc ..)
  | int64 | uint64 | boolean => rfl
  | fqbn | sid | octetString => simp [appendTo, encode, Sid.appendTo]

theorem appendAll_eq (vs : List ClaimValue) (out : Bytes) :
    appendAll vs out = do return out ++ (← encodeAll vs) := by
  induction vs generalizing out with
  | nil => simp [appendAll, encodeAll]
  | cons v vs ih => simp [appendAll, encodeAll, appendTo_eq, ih]

end ClaimValue

theorem ClaimAttribute.appendTo_eq (a : ClaimAttribute) (out : Bytes) :
    a.appendTo out = do return out ++ (← a.encode) := by
  have zero : leBytes 2 0 = [0, 0] := rfl
  simp [appendTo, encode, ClaimValue.appendAll_eq, Utf16.encodeTerminated, zero]

/-! ### Conditions -/

namespace Condition

namespace Node

mutual
theorem appendTo_eq : ∀ (n : Node) (out : Bytes),
    n.appendTo out = do return out ++ (← n.encode)
  | .integer _, out => by simp [appendTo, encode]
  | .text _ _, out | .octets _, out => by simp [appendTo, encode]
  | .sid _, out => by simp [appendTo, encode, Sid.appendTo]
  | .composite es, out => by simp [appendTo, encode, appendAll_eq es]
  | .membership _ a, out | .unary _ a, out => by simp [appendTo, encode, appendTo_eq a]
  | .comparison _ l r, out | .logical _ l r, out => by
    simp [appendTo, encode, appendTo_eq l, appendTo_eq r]
theorem appendAll_eq : ∀ (es : List Node) (out : Bytes),
    appendAll es out = do return out ++ (← encodeAll es)
  | [], out => by simp [appendAll, encodeAll]
  | e :: es, out => by simp [appendAll, encodeAll, appendTo_eq e, appendAll_eq es]
end

/-- The elements stand in a byte string as a composite, and the length in front of them is the
number of their bytes. -/
def CompositeIn (es : List Node) (b : Bytes) : Prop :=
  ∃ body, encodeAll es = .ok body ∧ body.length < 256 ^ 4 ∧
    compositeCode :: leBytes 4 body.length ++ body <:+: b

theorem CompositeIn.mono {es : List Node} (h : CompositeIn es x) (sub : x <:+: b) :
    CompositeIn es b := by
  obtain ⟨body, written, fits, part⟩ := h
  exact ⟨body, written, fits, part.trans sub⟩

mutual
/-- A composite is written with the number of the bytes of its elements, however deep it stands. -/
theorem compositeIn_of_encode : ∀ (n : Node) {es : List Node} {b : Bytes},
    n.encode = .ok b → .composite es ∈ n.postorder → CompositeIn es b
  | .integer _, es, b, _, mem | .text _ _, es, b, _, mem | .octets _, es, b, _, mem
  | .sid _, es, b, _, mem => by simp [postorder] at mem
  | .composite fs, es, b, h, mem => by
    simp only [encode, bind_eq_ok, sizeField_eq_ok_iff] at h
    obtain ⟨_, ⟨fits, rfl⟩, body, hbody, h⟩ := h
    cases h
    rw [← length_of_encodeAll fs hbody] at fits ⊢
    simp only [postorder, List.mem_append, List.mem_singleton] at mem
    rcases mem with inner | same
    · exact (compositeIn_of_encodeAll fs hbody inner).mono (List.suffix_append ..).isInfix
    · injection same with same
      exact ⟨body, same ▸ hbody, fits, List.infix_rfl⟩
  | .membership _ a, es, b, h, mem | .unary _ a, es, b, h, mem => by
    obtain ⟨y, hy, h⟩ := bind_eq_ok.1 (by simpa only [encode] using h)
    cases h
    have inner : .composite es ∈ a.postorder := by simpa [postorder] using mem
    exact (compositeIn_of_encode a hy inner).mono (List.prefix_append ..).isInfix
  | .comparison op l r, es, b, h, mem | .logical op l r, es, b, h, mem => by
    simp only [encode, bind_eq_ok] at h
    obtain ⟨y, hy, z, hz, h⟩ := h
    cases h
    have inner : .composite es ∈ l.postorder ∨ .composite es ∈ r.postorder := by
      simpa [postorder] using mem
    rcases inner with left | right
    · exact (compositeIn_of_encode l hy left).mono ⟨[], z ++ [op.code], by simp⟩
    · exact (compositeIn_of_encode r hz right).mono ⟨y, [op.code], rfl⟩
theorem compositeIn_of_encodeAll : ∀ (ns : List Node) {es : List Node} {b : Bytes},
    encodeAll ns = .ok b → .composite es ∈ postorderAll ns → CompositeIn es b
  | [], es, b, _, mem => by simp [postorderAll] at mem
  | n :: ns, es, b, h, mem => by
    simp only [encodeAll, bind_eq_ok] at h
    obtain ⟨y, hy, z, hz, h⟩ := h
    cases h
    simp only [postorderAll, List.mem_append] at mem
    rcases mem with first | later
    · exact (compositeIn_of_encode n hy first).mono (List.prefix_append ..).isInfix
    · exact (compositeIn_of_encodeAll ns hz later).mono (List.suffix_append ..).isInfix
end

end Node

/-- The signature and the tokens of a condition, before they are filled up. -/
def tokens (c : Condition) : Except Error Bytes := do return signature ++ (← c.node.encode)

theorem appendTokens_eq (c : Condition) (out : Bytes) :
    c.appendTokens out = do return out ++ (← c.tokens) := by
  simp [appendTokens, tokens, Node.appendTo_eq]

theorem align4_length_of_tokens (c : Condition) (h : c.tokens = .ok x) :
    align4 x.length = c.encodedLen := by
  obtain ⟨t, ht, h⟩ := bind_eq_ok.1 h
  cases h
  rw [List.length_append, Node.length_of_encode c.node ht, encodedLen]

theorem appendTo_eq (c : Condition) (out : Bytes) :
    c.appendTo out = do return out ++ (← c.encode) := by
  have filled := resized_record_eq c.appendTokens_eq (fun x => c.align4_length_of_tokens) out
  rw [appendTo, filled]
  simp [encode, tokens]

end Condition

/-! ### Entries and lists -/

theorem AppData.appendTo_eq (d : AppData) (out : Bytes) :
    d.appendTo out = do return out ++ (← d.encode) := by
  cases d with
  | none => simp [appendTo, encode]
  | condition c => exact c.appendTo_eq out
  | «attribute» a => exact a.appendTo_eq out
  | raw bytes => rfl

theorem Payload.appendTo_eq (p : Payload) (out : Bytes) :
    p.appendTo out = do return out ++ (← p.encode) := by
  cases p with
  | basic | object | unknown => rfl
  | objectWithData | basicWithData => simp [appendTo, encode, AppData.appendTo_eq]

namespace Ace

/-- The header and the payload of an entry, before they are filled up. -/
def parts (a : Ace) : Except Error Bytes := do
  let size ← sizeField 2 .ace a.size
  return a.type.code :: leBytes 1 a.flags.toNat ++ size ++ (← a.payload.encode)

theorem appendParts_eq (a : Ace) (out : Bytes) :
    a.appendParts out = do return out ++ (← a.parts) := by
  simp [appendParts, parts, Payload.appendTo_eq]

theorem align4_length_of_parts (a : Ace) (h : a.parts = .ok x) : align4 x.length = a.size := by
  simp only [parts, bind_eq_ok, sizeField_eq_ok_iff] at h
  obtain ⟨_, ⟨-, rfl⟩, p, hp, h⟩ := h
  cases h
  simp only [List.length_append, List.length_cons, length_leBytes, Payload.length_of_encode hp,
    size, headerLen]

theorem appendTo_eq (a : Ace) (out : Bytes) :
    a.appendTo out = do return out ++ (← a.encode) := by
  have filled := resized_record_eq a.appendParts_eq (fun x => a.align4_length_of_parts) out
  rw [appendTo, filled]
  simp [encode, parts]

end Ace

namespace Acl

theorem appendEntries_eq (as : List Ace) (out : Bytes) :
    appendEntries as out = do return out ++ (← encodeEntries as) := by
  induction as generalizing out with
  | nil => simp [appendEntries, encodeEntries]
  | cons a as ih => simp [appendEntries, encodeEntries, Ace.appendTo_eq, ih]

theorem appendTo_eq (l : Acl) (out : Bytes) :
    l.appendTo out = do return out ++ (← l.encode) := by
  simp [appendTo, encode, appendEntries_eq]

end Acl

/-! ### Descriptors -/

namespace Descriptor

theorem appendPart_eq {append : α → Bytes → Except Error Bytes} {encode : α → Except Error Bytes}
    (adds : ∀ x out, append x out = do return out ++ (← encode x)) (part : Option α)
    (out : Bytes) : appendPart append part out = do return out ++ (← encodePart encode part) := by
  cases part with
  | none => simp [appendPart, encodePart]
  | some x => exact adds x out

theorem appendTo_eq (d : Descriptor) (out : Bytes) :
    d.appendTo out = do return out ++ (← d.encode) := by
  have sid (s : Sid) (out : Bytes) :
      s.appendTo out = do return out ++ (← (.ok s.encode : Except Error Bytes)) := rfl
  simp [appendTo, encode, appendPart_eq Acl.appendTo_eq, appendPart_eq sid]

end Descriptor

/-! ### Predicted lengths -/

/-- What a writer adds to a buffer, whatever is in it, are the bytes of the value, and they are as
many as were predicted. -/
def Appends (encode : α → Except Error Bytes) (len : α → Nat)
    (appendTo : α → Bytes → Except Error Bytes) : Prop :=
  ∀ x out out', appendTo x out = .ok out' ↔
    ∃ b, encode x = .ok b ∧ b.length = len x ∧ out' = out ++ b

theorem appends {encode : α → Except Error Bytes} {len : α → Nat}
    {appendTo : α → Bytes → Except Error Bytes}
    (adds : ∀ x out, appendTo x out = do return out ++ (← encode x))
    (predicts : ∀ x b, encode x = .ok b → b.length = len x) : Appends encode len appendTo := by
  intro x out out'
  simp only [adds, bind_eq_ok, pure_ok, Except.ok.injEq, eq_comm (a := out')]
  constructor
  · rintro ⟨b, written, same⟩
    exact ⟨b, written, predicts x b written, same⟩
  · rintro ⟨b, written, -, same⟩
    exact ⟨b, written, same⟩

/-- A word of one of the three widths is as long as the part of the register that is taken for
it. -/
theorem Bitset.appends {n : Nat} (hn : n = 8 ∨ n = 16 ∨ n = 32) :
    Appends (fun s : Bitset n => .ok s.encode) encodedLen appendTo := by
  have narrow : n ≤ 32 := by omega
  refine AccessControl.appends (fun s out => ?_) fun s b written => ?_
  · rw [appendTo, encode_eq narrow, toNat_kept narrow]
    rfl
  · cases written
    exact length_leBytes ..

/-- Every writer adds exactly the bytes of its value, which are as many as were predicted. Filling
up a condition or an entry to the predicted length adds at most three zero bytes and cuts none off,
and every composite of a tree has the length of the bytes of its elements in front of them. -/
theorem predictions_are_exact :
    (∀ n, n = 8 ∨ n = 16 ∨ n = 32 →
      Appends (fun s : Bitset n => .ok s.encode) Bitset.encodedLen Bitset.appendTo) ∧
    Appends (fun s => .ok s.encode) Sid.encodedLen Sid.appendTo ∧
    Appends ClaimAttribute.encode ClaimAttribute.encodedLen ClaimAttribute.appendTo ∧
    Appends Condition.Node.encode Condition.Node.encodedLen Condition.Node.appendTo ∧
    Appends Condition.encode Condition.encodedLen Condition.appendTo ∧
    Appends Ace.encode Ace.size Ace.appendTo ∧
    Appends Acl.encode Acl.encodedLen Acl.appendTo ∧
    Appends Descriptor.encode Descriptor.encodedLen Descriptor.appendTo ∧
    (∀ (c : Condition) out b, c.appendTokens out = .ok b →
      ∃ p < 4, resized (out.length + c.encodedLen) b = b ++ zeros p) ∧
    (∀ (a : Ace) out b, a.appendParts out = .ok b →
      ∃ p < 4, resized (out.length + a.size) b = b ++ zeros p) ∧
    ∀ (n : Condition.Node) out out', n.appendTo out = .ok out' →
      ∃ b, out' = out ++ b ∧
        ∀ es, .composite es ∈ n.postorder → Condition.Node.CompositeIn es b := by
  refine ⟨fun n hn => Bitset.appends hn, appends (fun s out => rfl) Descriptor.length_of_sid,
    appends ClaimAttribute.appendTo_eq fun a b => ClaimAttribute.length_of_encode,
    appends Condition.Node.appendTo_eq fun n b => n.length_of_encode,
    appends Condition.appendTo_eq fun c b => Condition.length_of_encode,
    appends Ace.appendTo_eq fun a b => Ace.length_of_encode,
    appends Acl.appendTo_eq fun l b => Acl.length_of_encode,
    appends Descriptor.appendTo_eq fun d b => Descriptor.length_of_encode,
    fun c out b => exists_resized_record c.appendTokens_eq fun x => c.align4_length_of_tokens,
    fun a out b => exists_resized_record a.appendParts_eq fun x => a.align4_length_of_parts, ?_⟩
  intro n out out' h
  rw [Condition.Node.appendTo_eq] at h
  obtain ⟨b, written, h⟩ := bind_eq_ok.1 h
  cases h
  exact ⟨b, rfl, fun es => n.compositeIn_of_encode written⟩

/-- A composite in a composite, a condition of eleven bytes and a control word, all of them written
behind a byte that is there already. -/
theorem predictions_are_exact_nested :
    let n : Condition.Node := .composite [.composite [.octets [0x07]], .octets []]
    let body : Bytes := [0x50, 0x06, 0x00, 0x00, 0x00, 0x18, 0x01, 0x00, 0x00, 0x00, 0x07, 0x18,
      0x00, 0x00, 0x00, 0x00]
    let c := Condition.negation (Condition.octets [0x07])
    let tokens : Bytes := [0xFF, 0x61, 0x72, 0x74, 0x78, 0x18, 0x01, 0x00, 0x00, 0x00, 0x07, 0xA2]
    (n.appendTo [0xFF] = .ok (0xFF :: 0x50 :: leBytes 4 16 ++ body) ∧ n.encodedLen = 21 ∧
      Condition.Node.CompositeIn [.octets [0x07]] (0x50 :: leBytes 4 16 ++ body)) ∧
    (c.appendTokens [0xFF] = .ok tokens ∧
      ∃ p < 4, resized (1 + c.encodedLen) tokens = tokens ++ zeros p) ∧
    (Bitset.ofNat 16 0x8004).appendTo [0xFF] = .ok [0xFF, 0x04, 0x80] := by
  intro n body c tokens
  obtain ⟨words, -, -, -, -, -, -, -, filled, -, composites⟩ := predictions_are_exact
  have added : n.appendTo [0xFF] = .ok (0xFF :: 0x50 :: leBytes 4 16 ++ body) := rfl
  have tokensAdded : c.appendTokens [0xFF] = .ok tokens := rfl
  obtain ⟨b, same, all⟩ := composites n _ _ added
  have bytes : 0x50 :: leBytes 4 16 ++ body = b := List.cons.inj same |>.2
  have inner : .composite [.octets [0x07]] ∈ n.postorder := by decide
  exact ⟨⟨added, rfl, bytes ▸ all _ inner⟩, ⟨tokensAdded, filled c _ _ tokensAdded⟩,
    (words 16 (.inr (.inl rfl)) _ _ _).2 ⟨[0x04, 0x80], rfl, rfl, rfl⟩⟩

end AccessControl
