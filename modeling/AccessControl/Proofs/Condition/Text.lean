import AccessControl.Proofs.Condition.Words
import AccessControl.Proofs.Sid.Canonical
import AccessControl.Sid.WellKnown

/-!
# Conditions told from their texts

The text of a tree is that of a phrase (`Node.chars_phrase`), and the phrase tells the tree as far
as a text can show it: without the widths of integers, without signs that are not written, and with
braces around a single group or not (`Node.shown`). Where attributes have names and no quoted text
has a quote, two trees have the same text exactly when they show the same
(`Node.toText_eq_iff_shown_eq`).
-/

namespace AccessControl.Condition

/-- The phrase with braces around a single group. -/
def Phrase.asGroup : Phrase → Phrase
  | .marked cs => .braces [.marked cs]
  | p => p

namespace Node

/-! ### What a text shows -/

/-- The tree with a single group as the composite of it. -/
def asGroup : Node → Node
  | .sid s => .composite [.sid s]
  | n => n

mutual
/-- The tree as far as its text shows it. -/
def shown : Node → Node
  | .integer i => .integer i.shown
  | .text k s => .text k s
  | .octets b => .octets b
  | .sid s => .sid s
  | .composite es => .composite (shownAll es)
  | .membership op a => .membership op (shown a).asGroup
  | .comparison op l r => .comparison op (shown l) (shown r)
  | .unary op a => .unary op (shown a)
  | .logical op l r => .logical op (shown l) (shown r)
/-- The trees as far as their texts show them. -/
def shownAll : List Node → List Node
  | [] => []
  | e :: es => shown e :: shownAll es
end

mutual
/-- Attributes have names, and no text in quotes has a quote. -/
def Plain : Node → Prop
  | .text k s => k.Plain s
  | .integer _ | .octets _ | .sid _ => True
  | .composite es => PlainAll es
  | .membership _ a | .unary _ a => Plain a
  | .comparison _ l r | .logical _ l r => Plain l ∧ Plain r
/-- All of the trees are plain. -/
def PlainAll : List Node → Prop
  | [] => True
  | e :: es => Plain e ∧ PlainAll es
end

mutual
/-- The phrase that a tree is written as. -/
def phrase : Node → Phrase
  | .integer i => .word i.chars
  | .text .literal s => .quoted s.toList
  | .text k s => .word (k.chars s)
  | .octets b => .word ('#' :: Numeral.hexBytes b)
  | .sid s => .marked s.chars
  | .composite es => .braces (phraseAll es)
  | .membership op a => .parens [.word op.keyword.toList, (phrase a).asGroup]
  | .comparison op l r => .parens [phrase l, .word op.keyword.toList, phrase r]
  | .unary .negation a => .negated (phrase a)
  | .unary op a => .parens [.word op.keyword.toList, phrase a]
  | .logical op l r => .parens [phrase l, .word op.keyword.toList, phrase r]
/-- The phrases that trees are written as. -/
def phraseAll : List Node → List Phrase
  | [] => []
  | e :: es => phrase e :: phraseAll es
end

/-! ### Texts of phrases -/

variable {x y a b : Node}

theorem asGroup_phrase (h : a.isSid = false) : a.phrase.asGroup = a.phrase := by
  cases a with
  | sid s => cases h
  | text k s => cases k <;> rfl
  | unary op a => cases op <;> rfl
  | _ => rfl

theorem exists_eq_sid (h : a.isSid = true) : ∃ s, a = .sid s := by
  cases a with
  | sid s => exact ⟨s, rfl⟩
  | _ => cases h

mutual
/-- A tree is written as its phrase. -/
theorem chars_phrase : ∀ n : Node, n.phrase.chars = n.chars
  | .integer i => rfl
  | .text k s => by cases k <;> rfl
  | .octets b => rfl
  | .sid s => rfl
  | .composite es => by rw [phrase, Phrase.chars, row_phraseAll es, chars]
  | .membership op a => by
    have operand := chars_phrase a
    cases group : a.isSid with
    | true =>
      obtain ⟨s, rfl⟩ := exists_eq_sid group
      simp [phrase, chars, Phrase.asGroup, Phrase.chars, Phrase.row, Phrase.more, isSid]
    | false =>
      simp [phrase, chars, asGroup_phrase group, Phrase.chars, Phrase.row, Phrase.more, group,
        operand]
  | .comparison op l r => by
    simp [phrase, chars, Phrase.chars, Phrase.row, Phrase.more, between, chars_phrase l,
      chars_phrase r]
  | .unary op a => by
    cases op <;>
      simp [phrase, chars, Phrase.chars, Phrase.row, Phrase.more, chars_phrase a]
  | .logical op l r => by
    simp [phrase, chars, Phrase.chars, Phrase.row, Phrase.more, between, chars_phrase l,
      chars_phrase r]
theorem row_phraseAll : ∀ es : List Node, Phrase.row [',', ' '] (phraseAll es) = charsAll es
  | [] => rfl
  | [e] => by simp [phraseAll, Phrase.row, Phrase.more, charsAll, chars_phrase e]
  | e :: f :: es => by
    have rest := row_phraseAll (f :: es)
    simp only [phraseAll, Phrase.row] at rest
    simp [phraseAll, Phrase.row, Phrase.more, charsAll, chars_phrase e, ← rest]
end

/-! ### Sound phrases -/

theorem ne_bang_of_wordKind {cs : List Char} (h : wordKind cs ≠ .symbol) :
    cs.head? ≠ some '!' := by
  intro bang
  obtain ⟨ds, rfl⟩ := List.head?_eq_some_iff.1 bang
  exact h rfl

/-- No tree is written with `!` in front. -/
theorem head_phrase (h : x.Plain) : x.phrase.chars.head? ≠ some '!' := by
  cases x with
  | integer i =>
    refine ne_bang_of_wordKind ?_
    rw [phrase, Phrase.chars, wordKind_integer]
    nofun
  | text k s =>
    cases k with
    | literal => simp [phrase, Phrase.chars]
    | localName | user | resource | device =>
      refine ne_bang_of_wordKind ?_
      rw [phrase, Phrase.chars, wordKind_attribute rfl h]
      · nofun
      · nofun
  | octets b => simp [phrase, Phrase.chars]
  | sid s => simp [phrase, Phrase.chars]
  | composite es => simp [phrase, Phrase.chars, inBraces]
  | membership op a => simp [phrase, Phrase.chars, inParens]
  | comparison op l r => simp [phrase, Phrase.chars, inParens]
  | unary op a => cases op <;> simp [phrase, Phrase.chars, inParens]
  | logical op l r => simp [phrase, Phrase.chars, inParens]

theorem sound_asGroup {p : Phrase} (h : p.Sound) : p.asGroup.Sound := by
  cases h with
  | marked free => exact .braces (by simpa using .marked free)
  | word h => exact .word h
  | quoted free => exact .quoted free
  | braces items => exact .braces items
  | parens items first => exact .parens items first
  | negated item => exact .negated item

/-- An operator behind its first operand or its keyword. -/
theorem sound_parens {p : Phrase} {ps : List Phrase} (hp : p.Sound) (hps : ∀ q ∈ ps, q.Sound)
    (first : p.chars.head? ≠ some '!') : (Phrase.parens (p :: ps)).Sound := by
  refine .parens (List.forall_mem_cons.2 ⟨hp, hps⟩) ?_
  obtain ⟨c, cs, text, -⟩ := Phrase.exists_chars_eq_cons hp
  rw [Phrase.row, text]
  rwa [text] at first

theorem sound_keyword {o : String} {p : Phrase} (word : Phrase.IsWord o.toList)
    (letter : wordKind o.toList ≠ .symbol) (hp : p.Sound) :
    (Phrase.parens [.word o.toList, p]).Sound :=
  sound_parens (.word word) (by simpa using hp) (ne_bang_of_wordKind letter)

theorem sound_between {o : String} {p q : Phrase} (word : Phrase.IsWord o.toList) (hp : p.Sound)
    (first : p.chars.head? ≠ some '!') (hq : q.Sound) :
    (Phrase.parens [p, .word o.toList, q]).Sound :=
  sound_parens hp (by simpa using ⟨.word word, hq⟩) first

mutual
/-- A plain tree is written as a sound phrase. -/
theorem sound_phrase : ∀ {n : Node}, n.Plain → n.phrase.Sound
  | .integer i, _ => .word i.isWord_chars
  | .text k s, h => by
    cases k with
    | literal => exact .quoted h
    | localName | user | resource | device => exact .word (TextKind.isWord_chars rfl h)
  | .octets b, _ => .word (isWord_octets b)
  | .sid s, _ => .marked s.paren_not_mem_chars
  | .composite es, h => .braces (sound_phraseAll h)
  | .membership op a, h =>
    sound_keyword op.isWord_keyword (by cases op <;> nofun) (sound_asGroup (sound_phrase h))
  | .comparison op l r, h =>
    sound_between op.isWord_keyword (sound_phrase h.1) (head_phrase h.1) (sound_phrase h.2)
  | .unary op a, h => by
    have operand : a.phrase.Sound := sound_phrase h
    cases op with
    | negation => exact .negated operand
    | present | absent => exact sound_keyword (UnaryOp.isWord_keyword _) nofun operand
  | .logical op l r, h =>
    sound_between op.isWord_keyword (sound_phrase h.1) (head_phrase h.1) (sound_phrase h.2)
theorem sound_phraseAll : ∀ {es : List Node}, PlainAll es → ∀ p ∈ phraseAll es, p.Sound
  | [], _ => nofun
  | _ :: _, h => List.forall_mem_cons.2 ⟨sound_phrase h.1, sound_phraseAll h.2⟩
end

/-! ### Trees of a phrase -/

section Inversion

variable {cs : List Char} {p q : Phrase} {ps : List Phrase}

/-- The leaf that is written as a word of a kind. -/
def Writes (x : Node) (cs : List Char) : WordKind → Prop
  | .integer => ∃ i, x = .integer i ∧ i.chars = cs
  | .octets => ∃ b, x = .octets b ∧ '#' :: Numeral.hexBytes b = cs
  | .attribute => ∃ k s, x = .text k s ∧ k.isAttribute = true ∧ IsName s ∧ k.chars s = cs
  | .symbol => False

theorem writes_of_phrase_word (h : x.Plain) (same : x.phrase = .word cs) :
    x.Writes cs (wordKind cs) := by
  cases x with
  | integer i =>
    obtain rfl : i.chars = cs := Phrase.word.inj same
    rw [wordKind_integer]
    exact ⟨i, rfl, rfl⟩
  | octets b =>
    obtain rfl : '#' :: Numeral.hexBytes b = cs := Phrase.word.inj same
    exact ⟨b, rfl, rfl⟩
  | text k s =>
    cases k with
    | literal => cases same
    | localName | user | resource | device =>
      obtain rfl := Phrase.word.inj same
      rw [wordKind_attribute rfl h]
      exact ⟨_, s, rfl, rfl, h, rfl⟩
  | unary op a => cases op <;> cases same
  | _ => cases same

theorem eq_of_phrase_quoted {s : String} (same : x.phrase = .quoted s.toList) :
    x = .text .literal s := by
  cases x with
  | text k t =>
    cases k with
    | literal => rw [String.toList_inj.1 (Phrase.quoted.inj same)]
    | localName | user | resource | device => cases same
  | unary op _ => cases op <;> cases same
  | _ => cases same

theorem eq_of_phrase_marked {s : Sid} (same : x.phrase = .marked s.chars) : x = .sid s := by
  cases x with
  | sid t => rw [Sid.chars_inj.1 (Phrase.marked.inj same)]
  | text k _ => cases k <;> cases same
  | unary op _ => cases op <;> cases same
  | _ => cases same

theorem exists_of_phrase_braces (same : x.phrase = .braces ps) :
    ∃ es, x = .composite es ∧ phraseAll es = ps := by
  cases x with
  | composite es => exact ⟨es, rfl, Phrase.braces.inj same⟩
  | text k _ => cases k <;> cases same
  | unary op _ => cases op <;> cases same
  | _ => cases same

theorem exists_of_phrase_negated (same : x.phrase = .negated p) :
    ∃ a, x = .unary .negation a ∧ a.phrase = p := by
  cases x with
  | unary op a =>
    cases op with
    | negation => exact ⟨a, rfl, Phrase.negated.inj same⟩
    | present | absent => cases same
  | text k _ => cases k <;> cases same
  | _ => cases same

/-- A keyword in front of an operand. -/
theorem exists_of_phrase_pair {o : String} (same : x.phrase = .parens [.word o.toList, p]) :
    (∃ op a, x = .membership op a ∧ op.keyword = o ∧ a.phrase.asGroup = p) ∨
      ∃ op a, x = .unary op a ∧ op.keyword = o ∧ a.phrase = p := by
  cases x with
  | membership op a =>
    obtain ⟨keyword, operand⟩ : op.keyword = o ∧ a.phrase.asGroup = p := by
      simpa [phrase, String.toList_inj] using same
    exact .inl ⟨op, a, rfl, keyword, operand⟩
  | unary op a =>
    cases op with
    | negation => cases same
    | present | absent =>
      obtain ⟨keyword, operand⟩ := by simpa [phrase, String.toList_inj] using same
      exact .inr ⟨_, a, rfl, keyword, operand⟩
  | comparison | logical => simp [phrase] at same
  | text k _ => cases k <;> cases same
  | _ => cases same

/-- A keyword between two operands. -/
theorem exists_of_phrase_triple {o : String} (same : x.phrase = .parens [p, .word o.toList, q]) :
    (∃ op l r, x = .comparison op l r ∧ op.keyword = o ∧ l.phrase = p ∧ r.phrase = q) ∨
      ∃ op l r, x = .logical op l r ∧ op.keyword = o ∧ l.phrase = p ∧ r.phrase = q := by
  cases x with
  | comparison op l r =>
    obtain ⟨lhs, keyword, rhs⟩ : l.phrase = p ∧ op.keyword = o ∧ r.phrase = q := by
      simpa [phrase, String.toList_inj] using same
    exact .inl ⟨op, l, r, rfl, keyword, lhs, rhs⟩
  | logical op l r =>
    obtain ⟨lhs, keyword, rhs⟩ : l.phrase = p ∧ op.keyword = o ∧ r.phrase = q := by
      simpa [phrase, String.toList_inj] using same
    exact .inr ⟨op, l, r, rfl, keyword, lhs, rhs⟩
  | membership => simp [phrase] at same
  | unary op _ => cases op <;> simp [phrase] at same
  | text k _ => cases k <;> cases same
  | _ => cases same

end Inversion

/-! ### Trees told from phrases -/

/-- Leaves that are written as one word show the same. -/
theorem shown_eq_of_phrase_word {cs : List Char} (hx : x.Plain) (hy : y.Plain)
    (same : x.phrase = .word cs) (same' : y.phrase = .word cs) : x.shown = y.shown := by
  have first := writes_of_phrase_word hx same
  have second := writes_of_phrase_word hy same'
  cases kind : wordKind cs with
  | integer =>
    rw [kind] at first second
    obtain ⟨i, rfl, rfl⟩ := first
    obtain ⟨j, rfl, text⟩ := second
    rw [shown, shown, IntLiteral.chars_inj.1 text]
  | octets =>
    rw [kind] at first second
    obtain ⟨b, rfl, rfl⟩ := first
    obtain ⟨c, rfl, text⟩ := second
    rw [hexBytes_inj.1 (List.cons.inj text).2]
  | «attribute» =>
    rw [kind] at first second
    obtain ⟨k, s, rfl, hk, hs, rfl⟩ := first
    obtain ⟨l, t, rfl, hl, ht, text⟩ := second
    obtain ⟨rfl, rfl⟩ := TextKind.chars_inj hl hk ht hs text
    rfl
  | symbol =>
    rw [kind] at first
    exact first.elim

/-- A single group is written like the composite of it, and like nothing else. -/
theorem shown_of_phrase_group {s : Sid} (same : a.phrase.asGroup = .braces [.marked s.chars]) :
    a.shown.asGroup = .composite [.sid s] := by
  cases group : a.isSid with
  | true =>
    obtain ⟨t, rfl⟩ := exists_eq_sid group
    have text : t.chars = s.chars :=
      Phrase.marked.inj (List.cons.inj (Phrase.braces.inj same)).1
    rw [Sid.chars_inj.1 text]
    rfl
  | false =>
    rw [asGroup_phrase group] at same
    obtain ⟨es, rfl, items⟩ := exists_of_phrase_braces same
    cases es with
    | nil => cases items
    | cons e es =>
      obtain ⟨first, rest⟩ := List.cons.inj items
      rw [eq_of_phrase_marked first]
      cases es with
      | nil => rfl
      | cons f es => cases rest

/-- Operands that are told from their phrases are told with braces around single groups. -/
theorem asGroup_shown_eq (told : a.phrase = b.phrase → a.shown = b.shown)
    (same : a.phrase.asGroup = b.phrase.asGroup) : a.shown.asGroup = b.shown.asGroup := by
  cases ha : a.isSid with
  | true =>
    obtain ⟨s, rfl⟩ := exists_eq_sid ha
    exact (shown_of_phrase_group same.symm).symm
  | false =>
    cases hb : b.isSid with
    | true =>
      obtain ⟨s, rfl⟩ := exists_eq_sid hb
      exact shown_of_phrase_group same
    | false =>
      rw [asGroup_phrase ha, asGroup_phrase hb] at same
      rw [told same]

mutual
/-- The phrase of a plain tree tells what its text shows. By recursion on the first tree: its phrase
says what the second can be, and keywords tell operators with as many operands apart. -/
theorem shown_eq_of_phrase : ∀ {x y : Node}, x.Plain → y.Plain → x.phrase = y.phrase →
    x.shown = y.shown
  | .integer _, _, hx, hy, same => shown_eq_of_phrase_word hx hy rfl same.symm
  | .octets _, _, hx, hy, same => shown_eq_of_phrase_word hx hy rfl same.symm
  | .sid s, y, _, _, same => by rw [eq_of_phrase_marked same.symm]
  | .text k s, y, hx, hy, same => by
    cases k with
    | literal => rw [eq_of_phrase_quoted same.symm]
    | localName | user | resource | device => exact shown_eq_of_phrase_word hx hy rfl same.symm
  | .composite es, y, hx, hy, same => by
    obtain ⟨fs, rfl, items⟩ := exists_of_phrase_braces same.symm
    rw [shown, shown, shownAll_eq_of_phraseAll hx hy items.symm]
  | .membership op a, y, hx, hy, same => by
    rcases exists_of_phrase_pair same.symm with ⟨op', b, rfl, keyword, operand⟩ |
      ⟨op', b, rfl, keyword, -⟩
    · rw [shown, shown, MembershipOp.keyword_inj.1 keyword,
        asGroup_shown_eq (shown_eq_of_phrase (x := a) (y := b) hx hy) operand.symm]
    · exact absurd keyword.symm (op.keyword_ne_unary op')
  | .comparison op l r, y, hx, hy, same => by
    rcases exists_of_phrase_triple same.symm with ⟨op', l', r', rfl, keyword, lhs, rhs⟩ |
      ⟨op', l', r', rfl, keyword, -, -⟩
    · rw [shown, shown, ComparisonOp.keyword_inj.1 keyword,
        shown_eq_of_phrase hx.1 hy.1 lhs.symm, shown_eq_of_phrase hx.2 hy.2 rhs.symm]
    · exact absurd keyword.symm (op.keyword_ne_logical op')
  | .logical op l r, y, hx, hy, same => by
    rcases exists_of_phrase_triple same.symm with ⟨op', l', r', rfl, keyword, -, -⟩ |
      ⟨op', l', r', rfl, keyword, lhs, rhs⟩
    · exact absurd keyword (op'.keyword_ne_logical op)
    · rw [shown, shown, LogicalOp.keyword_inj.1 keyword,
        shown_eq_of_phrase hx.1 hy.1 lhs.symm, shown_eq_of_phrase hx.2 hy.2 rhs.symm]
  | .unary op a, y, hx, hy, same => by
    cases op with
    | negation =>
      obtain ⟨b, rfl, operand⟩ := exists_of_phrase_negated same.symm
      rw [shown, shown, shown_eq_of_phrase (x := a) (y := b) hx hy operand.symm]
    | present | absent =>
      rcases exists_of_phrase_pair same.symm with ⟨op', b, rfl, keyword, -⟩ |
        ⟨op', b, rfl, keyword, operand⟩
      · exact absurd keyword (op'.keyword_ne_unary _)
      · rw [shown, shown, UnaryOp.keyword_inj.1 keyword,
          shown_eq_of_phrase (x := a) (y := b) hx hy operand.symm]
theorem shownAll_eq_of_phraseAll : ∀ {es fs : List Node}, PlainAll es → PlainAll fs →
    phraseAll es = phraseAll fs → shownAll es = shownAll fs
  | [], [], _, _, _ => rfl
  | [], _ :: _, _, _, same => by cases same
  | _ :: _, [], _, _, same => by cases same
  | e :: es, f :: fs, hes, hfs, same => by
    obtain ⟨first, rest⟩ := List.cons.inj same
    rw [shownAll, shownAll, shown_eq_of_phrase hes.1 hfs.1 first,
      shownAll_eq_of_phraseAll hes.2 hfs.2 rest]
end

/-! ### Texts -/

theorem asGroup_phrase_asGroup (a : Node) : a.asGroup.phrase.asGroup = a.phrase.asGroup := by
  cases group : a.isSid with
  | true =>
    obtain ⟨s, rfl⟩ := exists_eq_sid group
    rfl
  | false =>
    cases a with
    | sid => cases group
    | _ => rfl

mutual
/-- What a text does not show does not change how a tree is written. -/
theorem phrase_shown : ∀ n : Node, n.shown.phrase = n.phrase
  | .integer i => by rw [shown, phrase, phrase, IntLiteral.chars_shown]
  | .text _ _ | .octets _ | .sid _ => rfl
  | .composite es => by rw [shown, phrase, phrase, phraseAll_shownAll es]
  | .membership op a => by
    rw [shown, phrase, phrase, asGroup_phrase_asGroup, phrase_shown a]
  | .comparison op l r => by rw [shown, phrase, phrase, phrase_shown l, phrase_shown r]
  | .unary op a => by
    have operand := phrase_shown a
    cases op <;> simp only [shown, phrase, operand]
  | .logical op l r => by rw [shown, phrase, phrase, phrase_shown l, phrase_shown r]
theorem phraseAll_shownAll : ∀ es : List Node, phraseAll (shownAll es) = phraseAll es
  | [] => rfl
  | e :: es => by rw [shownAll, phraseAll, phraseAll, phrase_shown e, phraseAll_shownAll es]
end

/-- Plain trees, lawful or not, have the same text exactly when they are the same as far as a text
shows them: but for the widths of integers, signs that are not written, and braces around a single
group. -/
theorem toText_eq_iff_shown_eq (hx : x.Plain) (hy : y.Plain) :
    x.toText = y.toText ↔ x.shown = y.shown := by
  rw [toText, toText, String.ofList_inj, ← chars_phrase x, ← chars_phrase y,
    Phrase.chars_inj (sound_phrase hx) (sound_phrase hy)]
  refine ⟨shown_eq_of_phrase hx hy, fun same => ?_⟩
  rw [← phrase_shown x, same, phrase_shown]

/-- A group is written with braces around it or not, and a negative value with one sign. Keywords as
names of attributes mislead no reader, and neither do numbers of another base. -/
theorem toText_eq_iff_shown_eq_keywords :
    let everyone := WellKnown.everyone.toSid
    let age (width : IntWidth) (sign : IntSign) (base : IntBase) (value : Int64) : Node :=
      .comparison .less (.text .user "Age") (.integer ⟨value, width, sign, base⟩)
    let x : Node := .logical .conjunction (age .int8 .minus .octal (-8))
      (.unary .negation (.membership .memberOf (.sid everyone)))
    let y : Node := .logical .conjunction (age .int64 .plus .octal (-8))
      (.unary .negation (.membership .memberOf (.composite [.sid everyone])))
    let z : Node := .logical .conjunction (age .int8 .minus .decimal (-10))
      (.unary .negation (.membership .memberOf (.sid everyone)))
    let contains : Node :=
      .comparison .contains (.text .localName "Exists") (.text .localName "Exists")
    let exist : Node := .unary .present (.text .localName "Contains")
    x.Plain ∧ y.Plain ∧ z.Plain ∧ contains.Plain ∧ exist.Plain ∧ x ≠ y ∧ x.toText = y.toText ∧
      x.toText ≠ z.toText ∧ contains.toText ≠ exist.toText := by
  intro everyone age x y z contains exist
  have age' : IsName "Age" := by decide
  have exists' : IsName "Exists" := by decide
  have contains' : IsName "Contains" := by decide
  have hx : x.Plain := ⟨⟨age', trivial⟩, trivial⟩
  have hy : y.Plain := ⟨⟨age', trivial⟩, trivial, trivial⟩
  have hz : z.Plain := ⟨⟨age', trivial⟩, trivial⟩
  have hcontains : contains.Plain := ⟨exists', exists'⟩
  have hexist : exist.Plain := contains'
  refine ⟨hx, hy, hz, hcontains, hexist, by decide, (toText_eq_iff_shown_eq hx hy).2 rfl,
    fun same => ?_, fun same => ?_⟩
  · exact absurd ((toText_eq_iff_shown_eq hx hz).1 same) (by decide)
  · exact absurd ((toText_eq_iff_shown_eq hcontains hexist).1 same) (by decide)

end Node
end AccessControl.Condition
