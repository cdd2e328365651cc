import AccessControl.Proofs.Condition.Tokens
import AccessControl.Proofs.Text.Utf16

/-!
# Reading literals

The reader of literals accepts exactly the tokens of the grammar whose composites are not nested
more deeply than it allows. `literal?_token` says what it gives for a token, and what it refuses it
with; `token_of_literal?` says that it takes nothing else.
-/

namespace AccessControl.Condition

theorem eq_of_node_eq {c d : Condition} (h : c.node = d.node) : c = d := by
  cases c
  cases d
  cases h
  rfl

/-! ### Leaves -/

section Leaves

variable {b t : Bytes} {c : Condition}

theorem cutInteger_eq_ok_iff {w : IntWidth} :
    cutInteger w b = .ok (c, t) ↔ ∃ i : IntLiteral, i.width = w ∧ c = integer i ∧
      b = leBytes 8 i.value.toUInt64.toNat ++ [i.sign.code, i.base.code] ++ t := by
  simp only [cutInteger, bind_eq_ok, Prod.exists, cutNat_eq_ok_iff]
  constructor
  · rintro ⟨v, _, ⟨hv, rfl⟩, signCode, r, ⟨hsign, rfl⟩, h⟩
    split at h
    · next sign hs =>
      obtain ⟨⟨baseCode, r'⟩, hbase, hrest⟩ := bind_eq_ok.1 h
      obtain ⟨-, rfl⟩ := cutNat_eq_ok_iff.1 hbase
      split at hrest
      · next base hb =>
        cases hrest
        refine ⟨⟨(UInt64.ofNat v).toInt64, w, sign, base⟩, rfl, rfl, ?_⟩
        have value : (UInt64.ofNat v).toNat = v := by
          rw [UInt64.toNat_ofNat']
          exact Nat.mod_eq_of_lt hv
        simp only [UInt64.toUInt64_toInt64, value, leBytes_one, IntSign.ofCode?_eq_some.1 hs,
          IntBase.ofCode?_eq_some.1 hb]
        simp only [List.append_assoc, List.cons_append, List.nil_append]
      · cases hrest
    · cases h
  · rintro ⟨i, rfl, rfl, rfl⟩
    refine ⟨i.value.toUInt64.toNat, i.sign.code :: i.base.code :: t,
      ⟨i.value.toUInt64.toNat_lt, by simp⟩, i.sign.code.toNat, i.base.code :: t,
      ⟨i.sign.code.toNat_lt, by simp [leBytes_one]⟩, ?_⟩
    have sign : IntSign.ofCode? i.sign.code = some i.sign := IntSign.ofCode?_eq_some.2 rfl
    have base : IntBase.ofCode? i.base.code = some i.base := IntBase.ofCode?_eq_some.2 rfl
    simp only [UInt8.ofNat_toNat, UInt64.ofNat_toNat, Int64.toInt64_toUInt64, sign, base,
      cutNat_one_cons, ok_bind, pure_ok]

theorem cutText_eq_ok_iff {k : TextKind} :
    cutText k b = .ok (c, t) ↔ ∃ s : String, c = text k s ∧ Utf16.encodedLen s < 256 ^ 4 ∧
      b = leBytes 4 (Utf16.encodedLen s) ++ Utf16.encode s ++ t := by
  simp only [cutText, bind_eq_ok, Prod.exists, cutPrefixed_eq_ok_iff, Utf16.decode_eq_ok_iff]
  constructor
  · rintro ⟨_, _, ⟨fits, rfl⟩, s, rfl, h⟩
    cases h
    rw [Utf16.length_encode] at fits ⊢
    exact ⟨s, rfl, fits, rfl⟩
  · rintro ⟨s, rfl, fits, rfl⟩
    rw [← Utf16.length_encode] at fits ⊢
    exact ⟨_, t, ⟨fits, rfl⟩, s, rfl, rfl⟩

theorem cutOctets_eq_ok_iff :
    cutOctets b = .ok (c, t) ↔ ∃ o : Bytes, c = octets o ∧ o.length < 256 ^ 4 ∧
      b = leBytes 4 o.length ++ o ++ t := by
  simp only [cutOctets, bind_eq_ok, Prod.exists, cutPrefixed_eq_ok_iff]
  constructor
  · rintro ⟨o, _, ⟨fits, rfl⟩, h⟩
    cases h
    exact ⟨o, rfl, fits, rfl⟩
  · rintro ⟨o, rfl, fits, rfl⟩
    exact ⟨o, t, ⟨fits, rfl⟩, rfl⟩

theorem cutSid_eq_ok_iff :
    cutSid b = .ok (c, t) ↔
      ∃ s : Sid, c = sid s ∧ b = leBytes 4 s.encodedLen ++ s.encode ++ t := by
  simp only [cutSid, bind_eq_ok, Prod.exists, cutPrefixed_eq_ok_iff, Sid.decode_eq_ok_iff]
  constructor
  · rintro ⟨_, _, ⟨-, rfl⟩, s, rfl, h⟩
    cases h
    rw [Sid.length_encode]
    exact ⟨s, rfl, rfl⟩
  · rintro ⟨s, rfl, rfl⟩
    have fits := s.encodedLen_le
    rw [← Sid.length_encode] at fits ⊢
    exact ⟨_, t, ⟨by omega, rfl⟩, s, rfl, rfl⟩

end Leaves

/-- A composite is built exactly from literals. -/
theorem composite_eq_ok_iff {cs : List Condition} {c : Condition} :
    composite cs = .ok c ↔
      (∀ e ∈ cs, e.node.isLiteral = true) ∧ c.node = .composite (cs.map Condition.node) := by
  unfold composite
  split
  · next bad h =>
    have hbad : bad.node.isLiteral = false := by simpa using List.find?_some h
    have hmem : bad ∈ cs := List.mem_of_find?_eq_some h
    constructor
    · intro h
      cases h
    · rintro ⟨literal, -⟩
      rw [literal bad hmem] at hbad
      cases hbad
  · next h =>
    constructor
    · intro h'
      cases h'
      exact ⟨fun e he => by simpa using List.find?_eq_none.1 h e he, rfl⟩
    · rintro ⟨-, hc⟩
      exact congrArg Except.ok (eq_of_node_eq hc.symm)

/-! ### Dispatch on the code -/

section Dispatch

variable {nested : Bytes → Except Error (Condition × Bytes)} {b : Bytes}

theorem literal?_integer (w : IntWidth) : literal? nested w.code b = some (cutInteger w b) := by
  cases w <;> rfl

theorem literal?_text (k : TextKind) : literal? nested k.code b = some (cutText k b) := by
  cases k <;> rfl

theorem literal?_octets : literal? nested octetsCode b = some (cutOctets b) := rfl

theorem literal?_sid : literal? nested sidCode b = some (cutSid b) := rfl

theorem literal?_composite : literal? nested compositeCode b = some (nested b) := rfl

/-- What a code can announce. -/
theorem literal?_cases {code : UInt8} {read : Except Error (Condition × Bytes)}
    (h : literal? nested code b = some read) :
    (∃ w : IntWidth, code = w.code ∧ read = cutInteger w b) ∨
    (∃ k : TextKind, code = k.code ∧ read = cutText k b) ∨
    (code = octetsCode ∧ read = cutOctets b) ∨
    (code = sidCode ∧ read = cutSid b) ∨
    (code = compositeCode ∧ read = nested b) := by
  unfold literal? at h
  split at h
  · next w hw =>
    exact .inl ⟨w, (IntWidth.ofCode?_eq_some.1 hw).symm, (Option.some.inj h).symm⟩
  · next k hw hk =>
    exact .inr (.inl ⟨k, (TextKind.ofCode?_eq_some.1 hk).symm, (Option.some.inj h).symm⟩)
  · split at h
    · next hc => exact .inr (.inr (.inl ⟨hc, (Option.some.inj h).symm⟩))
    · split at h
      · next hc => exact .inr (.inr (.inr (.inl ⟨hc, (Option.some.inj h).symm⟩)))
      · split at h
        · next hc => exact .inr (.inr (.inr (.inr ⟨hc, (Option.some.inj h).symm⟩)))
        · cases h

end Dispatch

/-! ### Every token is read -/

/-- What a reader gives for a token: its tree, unless composites are nested too deeply in it. -/
def outcome (depth : Nat) (c : Condition) (t : Bytes) : Except Error (Condition × Bytes) :=
  if c.node.nesting ≤ depth then .ok (c, t) else .error (.malformedCondition .compositeTooDeep)

theorem elements_zeros (nested : Bytes → Except Error (Condition × Bytes)) {b : Bytes} :
    ∀ {p n : Nat}, (zeros p ++ b).length ≤ n →
      ∃ m, b.length ≤ m ∧ elements nested n (zeros p ++ b) = elements nested m b
  | 0, n, hn => ⟨n, by simpa using hn, by rw [zeros_zero, List.nil_append]⟩
  | p + 1, 0, hn => by simp [zeros_succ] at hn
  | p + 1, n + 1, hn => by
    have hn' : (zeros p ++ b).length ≤ n := by simpa [zeros_succ] using hn
    obtain ⟨m, hm, h⟩ := elements_zeros nested hn'
    refine ⟨m, hm, ?_⟩
    rw [zeros_succ, List.cons_append, elements, if_pos (by rfl), h]

/-- A body is read as its elements if each of their tokens is. -/
theorem elements_body (depth : Nat) : ∀ {cs : List Condition} {b : Bytes} {n : Nat},
    (∀ c ∈ cs, ∀ code r t, Token c.node code r →
      literal? (cutComposite depth) code (r ++ t) = some (outcome depth c t)) →
    Body (cs.map Condition.node) b → b.length ≤ n →
    elements (cutComposite depth) n b =
      if Node.nestingAll (cs.map Condition.node) ≤ depth then .ok cs
      else .error (.malformedCondition .compositeTooDeep)
  | [], _, n, _, .nil p, hn => by
    obtain ⟨m, -, h⟩ := elements_zeros (cutComposite depth) (p := p) (b := []) (n := n)
      (by simpa using hn)
    rw [List.append_nil] at h
    cases m <;> simp [h, elements, Node.nestingAll]
  | c :: cs, _, n, hcs, @Body.cons p _ _ code r b head tail, hn => by
    obtain ⟨m, hm, h⟩ := elements_zeros (cutComposite depth) hn
    rw [h]
    cases m with
    | zero => simp at hm
    | succ m =>
      have hm' : b.length ≤ m := by
        simp only [List.length_cons, List.length_append] at hm
        omega
      have ih := elements_body depth (fun c' hc' => hcs c' (List.mem_cons_of_mem c hc')) tail hm'
      rw [elements, if_neg head.code_ne_padding, hcs c (List.mem_cons_self ..) code r b head]
      simp only [outcome, List.map_cons, Node.nestingAll, Nat.max_le]
      by_cases hc : c.node.nesting ≤ depth
      · simp only [hc, if_true, ok_bind, ih, true_and]
        split <;> rfl
      · simp only [hc, if_false, error_bind, false_and]

theorem exists_map_node {es : List Node} (lawful : ∀ e ∈ es, e.Lawful) :
    ∃ cs : List Condition, cs.map Condition.node = es := by
  induction es with
  | nil => exact ⟨[], rfl⟩
  | cons e es ih =>
    obtain ⟨cs, rfl⟩ := ih fun e' he' => lawful e' (List.mem_cons_of_mem e he')
    exact ⟨⟨e, lawful e (List.mem_cons_self ..)⟩ :: cs, rfl⟩

/-- A token is read as its tree, whatever follows it. -/
theorem literal?_token {n : Node} (lawful : n.Lawful) {code : UInt8} {r : Bytes}
    (h : Token n code r) (depth : Nat) (t : Bytes) :
    literal? (cutComposite depth) code (r ++ t) = some (outcome depth ⟨n, lawful⟩ t) := by
  induction lawful generalizing code r depth t with
  | integer i =>
    cases h
    rw [literal?_integer, cutInteger_eq_ok_iff.2 ⟨i, rfl, rfl, rfl⟩]
    rfl
  | text k s =>
    cases h with
    | text _ _ fits =>
      rw [literal?_text, cutText_eq_ok_iff.2 ⟨s, rfl, fits, rfl⟩]
      rfl
  | octets o =>
    cases h with
    | octets _ fits =>
      rw [literal?_octets, cutOctets_eq_ok_iff.2 ⟨o, rfl, fits, rfl⟩]
      rfl
  | sid s =>
    cases h
    rw [literal?_sid, cutSid_eq_ok_iff.2 ⟨s, rfl, rfl⟩]
    rfl
  | composite literal lawful ih =>
    cases h with
    | @composite _ body elements fits =>
      obtain ⟨cs, rfl⟩ := exists_map_node lawful
      rw [literal?_composite]
      cases depth with
      | zero => simp [cutComposite, outcome, Node.nesting]
      | succ depth =>
        have inner := elements_body depth (fun c hc code r t head =>
          ih c.node (List.mem_map_of_mem hc) head depth t) elements (Nat.le_refl body.length)
        have built := composite_eq_ok_iff.2 ⟨fun e he => literal e.node (List.mem_map_of_mem he),
          (rfl : (Condition.mk _ (.composite literal lawful)).node = _)⟩
        rw [cutComposite, cutPrefixed_append fits]
        simp only [ok_bind, inner, outcome, Node.nesting, Nat.add_le_add_iff_right]
        by_cases hd : Node.nestingAll (cs.map Condition.node) ≤ depth
        · simp only [hd, if_true, ok_bind, built, pure_ok]
        · simp only [hd, if_false, error_bind]
  | membership | comparison | unary | logical => cases h

/-! ### Nothing else is read -/

/-- A reader of the bytes after a code takes only tokens with that code, of trees that nest at most
`depth` composites. -/
def ReadsTokens (depth : Nat) (code : UInt8)
    (read : Bytes → Except Error (Condition × Bytes)) : Prop :=
  ∀ {b t : Bytes} {c : Condition}, read b = .ok (c, t) →
    ∃ r, b = r ++ t ∧ Token c.node code r ∧ c.node.nesting ≤ depth

theorem literal?_readsTokens {depth : Nat} {nested : Bytes → Except Error (Condition × Bytes)}
    (hn : ReadsTokens depth compositeCode nested) {code : UInt8} {b t : Bytes} {c : Condition}
    (h : literal? nested code b = some (.ok (c, t))) :
    ∃ r, b = r ++ t ∧ Token c.node code r ∧ c.node.nesting ≤ depth := by
  rcases literal?_cases h with
    ⟨w, rfl, read⟩ | ⟨k, rfl, read⟩ | ⟨rfl, read⟩ | ⟨rfl, read⟩ | ⟨rfl, read⟩
  · obtain ⟨i, rfl, rfl, rfl⟩ := cutInteger_eq_ok_iff.1 read.symm
    exact ⟨_, rfl, .integer i, Nat.zero_le depth⟩
  · obtain ⟨s, rfl, fits, rfl⟩ := cutText_eq_ok_iff.1 read.symm
    exact ⟨_, rfl, .text k s fits, Nat.zero_le depth⟩
  · obtain ⟨o, rfl, fits, rfl⟩ := cutOctets_eq_ok_iff.1 read.symm
    exact ⟨_, rfl, .octets o fits, Nat.zero_le depth⟩
  · obtain ⟨s, rfl, rfl⟩ := cutSid_eq_ok_iff.1 read.symm
    exact ⟨_, rfl, .sid s, Nat.zero_le depth⟩
  · exact hn read.symm

theorem body_of_elements {depth : Nat} {nested : Bytes → Except Error (Condition × Bytes)}
    (hn : ReadsTokens depth compositeCode nested) {n : Nat} {b : Bytes} {cs : List Condition}
    (hb : b.length ≤ n) (h : elements nested n b = .ok cs) :
    Body (cs.map Condition.node) b ∧ Node.nestingAll (cs.map Condition.node) ≤ depth := by
  induction n generalizing b cs with
  | zero =>
    obtain rfl := List.length_eq_zero_iff.1 (Nat.le_zero.1 hb)
    cases h
    exact ⟨.nil 0, Nat.zero_le depth⟩
  | succ n ih =>
    cases b with
    | nil =>
      cases h
      exact ⟨.nil 0, Nat.zero_le depth⟩
    | cons code b =>
      have hb' : b.length ≤ n := Nat.le_of_succ_le_succ hb
      rw [elements] at h
      by_cases hc : code = paddingCode
      · rw [if_pos hc] at h
        obtain ⟨body, bound⟩ := ih hb' h
        rw [hc]
        exact ⟨body.pad, bound⟩
      · rw [if_neg hc] at h
        split at h
        · next read hread =>
          simp only [bind_eq_ok, Prod.exists] at h
          obtain ⟨c, t, rfl, cs, htail, h⟩ := h
          cases h
          obtain ⟨r, rfl, head, bound⟩ := literal?_readsTokens hn hread
          have ht : t.length ≤ n := by
            rw [List.length_append] at hb'
            omega
          obtain ⟨tail, bounds⟩ := ih ht htail
          exact ⟨.cons 0 head tail, Nat.max_le.2 ⟨bound, bounds⟩⟩
        · cases h

theorem cutComposite_readsTokens :
    ∀ depth, ReadsTokens depth compositeCode (cutComposite depth)
  | 0, _, _, _, h => by cases h
  | depth + 1, b, t, c, h => by
    simp only [cutComposite, bind_eq_ok, Prod.exists, cutPrefixed_eq_ok_iff] at h
    obtain ⟨body, _, ⟨fits, rfl⟩, cs, helements, c', hc, h⟩ := h
    cases h
    obtain ⟨elements, bound⟩ :=
      body_of_elements (cutComposite_readsTokens depth) (Nat.le_refl body.length) helements
    obtain ⟨-, hnode⟩ := composite_eq_ok_iff.1 hc
    rw [hnode]
    exact ⟨_, rfl, .composite elements fits, Nat.succ_le_succ bound⟩

/-- What is read as a literal is a token, of a tree that does not nest too deeply. -/
theorem token_of_literal? {depth : Nat} {code : UInt8} {b t : Bytes} {c : Condition}
    (h : literal? (cutComposite depth) code b = some (.ok (c, t))) :
    ∃ r, b = r ++ t ∧ Token c.node code r ∧ c.node.nesting ≤ depth :=
  literal?_readsTokens (cutComposite_readsTokens depth) h

end AccessControl.Condition
