import AccessControl.Proofs.Condition.Phrase
import AccessControl.Proofs.Text.Canonical
import AccessControl.Proofs.Text.Hex

/-!
# The words of conditions

Integer literals, byte strings, attributes and keywords are written as words. The first character
tells the kind (`wordKind`), and within a kind the word tells the rest: of an integer its value, its
base and its sign as far as it shows, of an attribute its name space and its name.
-/

namespace AccessControl.Condition

open Numeral Phrase

variable {c : Char} {cs : List Char}

theorem isStop_digitChar : ∀ d < 16, isStop (Nat.digitChar d) = false := by decide

/-! ### Numerals -/

/-- The numeral of a magnitude in a base, with the mark of the base. -/
def IntBase.numeral (b : IntBase) (m : Nat) : List Char :=
  match b with
  | .octal => '0' :: Numeral.octal m
  | .decimal => Numeral.decimal m
  | .hexadecimal => '0' :: 'x' :: Numeral.hex m

namespace IntBase

variable {b b' : IntBase} {m m' : Nat}

theorem decimal_ne_zero_cons (h : cs ≠ []) : Numeral.decimal m ≠ '0' :: cs := by
  intro same
  have canonical : IsCanonical 10 (Numeral.decimal m) m := isCanonical_decimal_iff.2 rfl
  obtain ⟨-, front, -⟩ := canonical
  have single := front (by rw [same]; rfl)
  rw [same] at single
  exact h (List.cons.inj single).2

theorem octal_ne_x_cons : Numeral.octal m ≠ 'x' :: cs := by
  intro same
  have numeral : IsNumeral 8 (Numeral.octal m) m := isNumeral_toDigits (by decide) m
  exact numeral.not_mem (by decide) rfl (by rw [same]; exact List.mem_cons_self)

/-- A numeral tells its base and its magnitude. -/
theorem numeral_inj : b.numeral m = b'.numeral m' ↔ b = b' ∧ m = m' := by
  constructor
  · intro same
    -- a decimal numeral has no zero in front of it, and the mark of a hexadecimal one is no digit
    cases b <;> cases b'
    case octal.octal =>
      exact ⟨rfl, (toDigits_inj (by decide) (by decide)).1 (List.cons.inj same).2⟩
    case decimal.decimal => exact ⟨rfl, (toDigits_inj (by decide) (by decide)).1 same⟩
    case hexadecimal.hexadecimal =>
      exact ⟨rfl, (toDigits_inj (by decide) (by decide)).1 (List.cons.inj (List.cons.inj same).2).2⟩
    case octal.decimal => exact absurd same.symm (decimal_ne_zero_cons Nat.toDigits_ne_nil)
    case decimal.octal => exact absurd same (decimal_ne_zero_cons Nat.toDigits_ne_nil)
    case octal.hexadecimal => exact absurd (List.cons.inj same).2 octal_ne_x_cons
    case hexadecimal.octal => exact absurd (List.cons.inj same).2.symm octal_ne_x_cons
    case decimal.hexadecimal => exact absurd same (decimal_ne_zero_cons (List.cons_ne_nil _ _))
    case hexadecimal.decimal =>
      exact absurd same.symm (decimal_ne_zero_cons (List.cons_ne_nil _ _))
  · rintro ⟨rfl, rfl⟩
    rfl

theorem exists_numeral_eq_cons (b : IntBase) (m : Nat) :
    ∃ d cs, d < 10 ∧ b.numeral m = Nat.digitChar d :: cs := by
  cases b with
  | octal | hexadecimal => exact ⟨0, _, by decide, rfl⟩
  | decimal =>
    obtain ⟨c, cs, text⟩ := List.exists_cons_of_ne_nil (Nat.toDigits_ne_nil (n := m) (b := 10))
    have mem : c ∈ Nat.toDigits 10 m := by
      rw [text]
      exact List.mem_cons_self
    obtain ⟨d, hd, rfl⟩ := exists_digitChar_of_mem (by decide) mem
    exact ⟨d, cs, hd, text⟩

theorem isStop_of_mem_numeral (h : c ∈ b.numeral m) : isStop c = false := by
  have digits {base : Nat} (hb : 1 < base) (hb' : base ≤ 16) (hc : c ∈ Nat.toDigits base m) :
      isStop c = false := by
    obtain ⟨d, hd, rfl⟩ := exists_digitChar_of_mem hb hc
    exact isStop_digitChar d (Nat.lt_of_lt_of_le hd hb')
  cases b with
  | octal =>
    rcases List.mem_cons.1 h with rfl | h
    · rfl
    · exact digits (by decide) (by decide) h
  | decimal => exact digits (by decide) (by decide) h
  | hexadecimal =>
    rcases List.mem_cons.1 h with rfl | h
    · rfl
    · rcases List.mem_cons.1 h with rfl | h
      · rfl
      · exact digits (by decide) (by decide) h

end IntBase

/-! ### Integers -/

namespace IntLiteral

variable {i j : IntLiteral}

/-- The literal as far as its text shows it: no width, and a plus sign only in front of a value that
is not negative. -/
def shown (i : IntLiteral) : IntLiteral where
  value := i.value
  width := .int64
  sign := if i.sign = .plus ∧ 0 ≤ i.value then .plus else .none
  base := i.base

/-- The sign as it is written. -/
def signChars (i : IntLiteral) : List Char :=
  if i.value < 0 then ['-'] else if i.sign = .plus then ['+'] else []

theorem chars_eq (i : IntLiteral) :
    i.chars = i.signChars ++ i.base.numeral i.value.toInt.natAbs := by
  cases i
  rfl

theorem signChars_eq_minus_iff : i.signChars = ['-'] ↔ i.value.toInt < 0 := by
  have negative : i.value < 0 ↔ i.value.toInt < 0 := Int64.lt_iff_toInt_lt
  rw [signChars, ← negative]
  split_ifs with h h' <;> simp [h]

theorem signChars_eq_plus_iff : i.signChars = ['+'] ↔ i.sign = .plus ∧ 0 ≤ i.value := by
  rw [signChars, ← Int64.not_lt]
  by_cases negative : i.value < 0
  · simp [negative]
  · by_cases plus : i.sign = .plus <;> simp [negative, plus]

theorem isDigit_of_mem_signChars (h : c ∈ i.signChars) : c.isDigit = false := by
  rw [signChars] at h
  split_ifs at h
  · rw [List.mem_singleton.1 h]
    rfl
  · rw [List.mem_singleton.1 h]
    rfl
  · cases h

theorem chars_shown (i : IntLiteral) : i.shown.chars = i.chars := by
  have sign : i.shown.signChars = i.signChars := by
    by_cases negative : i.value < 0
    · simp [signChars, shown, negative]
    · by_cases plus : i.sign = .plus <;> simp [signChars, shown, negative, plus, Int64.not_lt.1]
  rw [chars_eq, chars_eq, sign]
  rfl

/-- A text tells the value, the base and the sign as far as it shows. -/
theorem chars_inj : i.chars = j.chars ↔ i.shown = j.shown := by
  refine ⟨fun same => ?_, fun same => by rw [← chars_shown i, same, chars_shown]⟩
  have first (l : IntLiteral) :
      ∀ c ∈ (l.base.numeral l.value.toInt.natAbs).head?, c.isDigit = true := by
    obtain ⟨d, cs, hd, text⟩ := l.base.exists_numeral_eq_cons l.value.toInt.natAbs
    simp [text, Nat.isDigit_digitChar, hd]
  rw [chars_eq, chars_eq] at same
  -- the first digit parts the sign from the number
  obtain ⟨sign, number⟩ := append_inj_of_stop (fun _ => isDigit_of_mem_signChars)
    (fun _ => isDigit_of_mem_signChars) (first i) (first j) same
  obtain ⟨base, magnitude⟩ := IntBase.numeral_inj.1 number
  have negative : i.value.toInt < 0 ↔ j.value.toInt < 0 := by
    rw [← signChars_eq_minus_iff, sign, signChars_eq_minus_iff]
  have plus : i.sign = .plus ∧ 0 ≤ i.value ↔ j.sign = .plus ∧ 0 ≤ j.value := by
    rw [← signChars_eq_plus_iff, sign, signChars_eq_plus_iff]
  have value : i.value = j.value := Int64.toInt_inj.1 (by omega)
  rw [value] at plus
  simp only [shown, plus, base, value]

theorem isWord_chars (i : IntLiteral) : IsWord i.chars := by
  obtain ⟨d, cs, -, text⟩ := i.base.exists_numeral_eq_cons i.value.toInt.natAbs
  rw [chars_eq]
  refine ⟨by simp [text], fun c hc => ?_⟩
  rcases List.mem_append.1 hc with sign | number
  · rw [signChars] at sign
    split_ifs at sign <;> simp_all [isStop, ends]
  · exact IntBase.isStop_of_mem_numeral number

end IntLiteral

/-! ### Byte strings -/

theorem hexBytes_inj {b b' : Bytes} : hexBytes b = hexBytes b' ↔ b = b' := by
  refine ⟨fun same => ?_, congrArg _⟩
  have read := bytes?_hexBytes b
  rw [same, bytes?_hexBytes] at read
  exact (Option.some.inj read).symm

theorem isWord_octets (b : Bytes) : IsWord ('#' :: hexBytes b) := by
  refine ⟨List.cons_ne_nil _ _, List.forall_mem_cons.2 ⟨rfl, fun c hc => ?_⟩⟩
  rw [hexBytes_eq] at hc
  obtain ⟨d, hd, rfl⟩ := List.mem_map.1 hc
  exact isStop_digitChar d (nibbles_lt hd)

/-! ### Attributes -/

/-- A text that can name an attribute: a letter, then letters, digits and underscores. -/
def IsName (s : String) : Prop :=
  s.toList.head?.any Char.isAlpha = true ∧ ∀ c ∈ s.toList, c.isAlphanum = true ∨ c = '_'

instance (s : String) : Decidable (IsName s) :=
  decidable_of_iff ((s.toList.head?.any Char.isAlpha &&
    s.toList.all fun c => c.isAlphanum || c == '_') = true) (by simp [IsName])

theorem IsName.exists_eq_cons {s : String} (h : IsName s) :
    ∃ c cs, s.toList = c :: cs ∧ c.isAlpha = true := by
  obtain ⟨c, head, letter⟩ := (Option.any_eq_true _ _).1 h.1
  obtain ⟨cs, text⟩ := List.head?_eq_some_iff.1 head
  exact ⟨c, cs, text, letter⟩

namespace TextKind

variable {k l : TextKind} {s t : String}

/-- The text does not get in the way of reading it back: a name where an attribute is named, and no
quotes within quotes. -/
def Plain (k : TextKind) (s : String) : Prop :=
  match k with
  | .literal => '"' ∉ s.toList
  | _ => IsName s

theorem isStop_of_nameChar (h : c.isAlphanum = true ∨ c = '_') : isStop c = false := by
  by_contra stop
  have mem := isStop_iff.1 (Bool.eq_true_of_not_eq_false stop)
  simp only [ends, List.mem_cons, List.not_mem_nil, or_false] at mem
  rcases mem with rfl | rfl | rfl | rfl | rfl | rfl | rfl <;> simp at h

theorem marker_eq (k : TextKind) : k.marker =
    match k with
    | .literal | .localName => []
    | .user => ['@', 'U', 's', 'e', 'r', '.']
    | .resource => ['@', 'R', 'e', 's', 'o', 'u', 'r', 'c', 'e', '.']
    | .device => ['@', 'D', 'e', 'v', 'i', 'c', 'e', '.'] := by
  cases k <;> rfl

theorem chars_eq_of_isAttribute (h : k.isAttribute = true) (s : String) :
    k.chars s = k.marker ++ s.toList := by
  cases k with
  | literal => cases h
  | _ => rfl

theorem isWord_chars (h : k.isAttribute = true) (name : IsName s) : IsWord (k.chars s) := by
  obtain ⟨c, cs, text, -⟩ := name.exists_eq_cons
  rw [chars_eq_of_isAttribute h]
  refine ⟨by simp [text], fun d hd => ?_⟩
  rcases List.mem_append.1 hd with mark | inside
  · have free : k.marker.all (!isStop ·) = true := by cases k <;> rfl
    simpa using List.all_eq_true.1 free d mark
  · exact isStop_of_nameChar (name.2 d inside)

/-- No name starts like the mark of a name space. -/
theorem ne_at_cons (name : IsName s) : s.toList ≠ '@' :: cs := by
  intro same
  obtain ⟨c, _, text, letter⟩ := name.exists_eq_cons
  rw [same] at text
  obtain ⟨rfl, -⟩ := List.cons.inj text
  cases letter

/-- An attribute tells its name space and its name. -/
theorem chars_inj (hk : k.isAttribute = true) (hl : l.isAttribute = true) (hs : IsName s)
    (ht : IsName t) (same : k.chars s = l.chars t) : k = l ∧ s = t := by
  rw [chars_eq_of_isAttribute hk, chars_eq_of_isAttribute hl] at same
  have kinds : k = l := by
    rw [marker_eq, marker_eq] at same
    cases k with
    | literal => cases hk
    | localName =>
      cases l with
      | literal => cases hl
      | localName => rfl
      | user | resource | device => exact absurd same (ne_at_cons hs)
    | user | resource | device =>
      cases l with
      | literal => cases hl
      | localName => exact absurd same.symm (ne_at_cons ht)
      | user | resource | device => first | rfl | simp at same
  subst kinds
  exact ⟨rfl, String.toList_inj.1 (List.append_cancel_left same)⟩

end TextKind

/-! ### Kinds of words -/

/-- What a word can stand for. -/
inductive WordKind where | integer | octets | attribute | symbol

/-- What a word stands for, by its first character. -/
def wordKind : List Char → WordKind
  | [] => .symbol
  | c :: _ =>
    if c.isAlpha ∨ c = '@' then .attribute
    else if c.isDigit ∨ c = '-' ∨ c = '+' then .integer
    else if c = '#' then .octets
    else .symbol

theorem wordKind_digitChar (cs : List Char) :
    ∀ d < 10, wordKind (Nat.digitChar d :: cs) = .integer := by
  intro d hd
  interval_cases d <;> rfl

theorem wordKind_integer (i : IntLiteral) : wordKind i.chars = .integer := by
  obtain ⟨d, cs, hd, text⟩ := i.base.exists_numeral_eq_cons i.value.toInt.natAbs
  rw [IntLiteral.chars_eq, text, IntLiteral.signChars]
  split_ifs
  · rfl
  · rfl
  · exact wordKind_digitChar cs d hd

theorem wordKind_attribute {k : TextKind} {s : String} (h : k.isAttribute = true)
    (name : IsName s) : wordKind (k.chars s) = .attribute := by
  rw [TextKind.chars_eq_of_isAttribute h, TextKind.marker_eq]
  cases k with
  | literal => cases h
  | user | resource | device => rfl
  | localName =>
    obtain ⟨c, cs, text, letter⟩ := name.exists_eq_cons
    rw [text]
    exact if_pos (.inl letter)

/-! ### Keywords -/

theorem isWord_of_all (h : (!cs.isEmpty && cs.all (!isStop ·)) = true) : IsWord cs := by
  simpa [IsWord] using h

theorem MembershipOp.isWord_keyword (o : MembershipOp) : IsWord o.keyword.toList :=
  isWord_of_all (by cases o <;> rfl)

theorem ComparisonOp.isWord_keyword (o : ComparisonOp) : IsWord o.keyword.toList :=
  isWord_of_all (by cases o <;> rfl)

theorem UnaryOp.isWord_keyword (o : UnaryOp) : IsWord o.keyword.toList :=
  isWord_of_all (by cases o <;> rfl)

theorem LogicalOp.isWord_keyword (o : LogicalOp) : IsWord o.keyword.toList :=
  isWord_of_all (by cases o <;> rfl)

theorem MembershipOp.keyword_inj {o p : MembershipOp} : o.keyword = p.keyword ↔ o = p := by
  cases o <;> cases p <;> simp [keyword]

theorem ComparisonOp.keyword_inj {o p : ComparisonOp} : o.keyword = p.keyword ↔ o = p := by
  cases o <;> cases p <;> simp [keyword]

theorem UnaryOp.keyword_inj {o p : UnaryOp} : o.keyword = p.keyword ↔ o = p := by
  cases o <;> cases p <;> simp [keyword]

theorem LogicalOp.keyword_inj {o p : LogicalOp} : o.keyword = p.keyword ↔ o = p := by
  cases o <;> cases p <;> simp [keyword]

theorem MembershipOp.keyword_ne_unary (o : MembershipOp) (p : UnaryOp) :
    o.keyword ≠ p.keyword := by
  cases o <;> cases p <;> simp [keyword, UnaryOp.keyword]

theorem ComparisonOp.keyword_ne_logical (o : ComparisonOp) (p : LogicalOp) :
    o.keyword ≠ p.keyword := by
  cases o <;> cases p <;> simp [keyword, LogicalOp.keyword]

end AccessControl.Condition
