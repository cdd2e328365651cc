import AccessControl.Condition.Render

/-!
# Phrases

The text of a condition is made of phrases: words, which stop at separators, texts in quotes, marked
texts, phrases between braces or parentheses, and phrases after `!`. A phrase that a separator
follows, or nothing, can be told from the text, and so can where it ends (`Phrase.tells`).
-/

namespace AccessControl.Condition

/-- What the text of a condition is made of. -/
inductive Phrase where
  | word (cs : List Char)
  | quoted (cs : List Char)
  | marked (cs : List Char)
  | braces (items : List Phrase)
  | parens (items : List Phrase)
  | negated (item : Phrase)

namespace Phrase

mutual
/-- The text of a phrase. -/
def chars : Phrase → List Char
  | .word cs => cs
  | .quoted cs => '"' :: cs ++ ['"']
  | .marked cs => "SID".toList ++ inParens cs
  | .braces ps => inBraces (row [',', ' '] ps)
  | .parens ps => inParens (row [' '] ps)
  | .negated p => inParens ('!' :: chars p)
/-- Phrases with a separator between each two. -/
def row (sep : List Char) : List Phrase → List Char
  | [] => []
  | p :: ps => chars p ++ more sep ps
/-- Phrases with a separator before each. -/
def more (sep : List Char) : List Phrase → List Char
  | [] => []
  | p :: ps => sep ++ (chars p ++ more sep ps)
end

/-- The characters that can follow a phrase. -/
def ends : List Char := [' ', ',', ')', '\x7d']

/-- Whether no word has the character. -/
def isStop (c : Char) : Bool := c ∈ '(' :: '\x7b' :: '"' :: ends

/-- A text that is one word. -/
def IsWord (cs : List Char) : Prop := cs ≠ [] ∧ ∀ c ∈ cs, isStop c = false

/-- A phrase can be followed by the text. -/
def Ends (cs : List Char) : Prop := ∀ c ∈ cs.head?, c ∈ ends

/-- Words have no stops, quotes and marks end where they should, and only a negation starts with
`!`. -/
inductive Sound : Phrase → Prop
  | word {cs : List Char} (h : IsWord cs) : Sound (.word cs)
  | quoted {cs : List Char} (free : '"' ∉ cs) : Sound (.quoted cs)
  | marked {cs : List Char} (free : ')' ∉ cs) : Sound (.marked cs)
  | braces {ps : List Phrase} (items : ∀ p ∈ ps, Sound p) : Sound (.braces ps)
  | parens {ps : List Phrase} (items : ∀ p ∈ ps, Sound p)
      (first : (row [' '] ps).head? ≠ some '!') : Sound (.parens ps)
  | negated {p : Phrase} (item : Sound p) : Sound (.negated p)

variable {p q : Phrase} {ps qs : List Phrase} {u v r s : List Char} {a c close : Char}

/-! ### Stops -/

theorem isStop_iff : isStop c = true ↔ c ∈ '(' :: '\x7b' :: '"' :: ends := decide_eq_true_iff

theorem isStop_of_mem_ends (h : c ∈ ends) : isStop c = true :=
  isStop_iff.2 (List.mem_cons_of_mem _ (List.mem_cons_of_mem _ (List.mem_cons_of_mem _ h)))

theorem ends_cons : Ends (c :: r) ↔ c ∈ ends := by simp [Ends]

theorem takeWhile_append_stop {stop : Char → Bool} (hu : ∀ c ∈ u, stop c = false)
    (hr : ∀ c ∈ r.head?, stop c = true) : (u ++ r).takeWhile (!stop ·) = u := by
  have none : r.takeWhile (!stop ·) = [] := by
    cases r with
    | nil => rfl
    | cons c r => exact List.takeWhile_cons_of_neg (by simp [hr c rfl])
  rw [List.takeWhile_append_of_pos fun c hc => by simp [hu c hc], none, List.append_nil]

/-- Where the first stop is can be seen from the text. -/
theorem append_inj_of_stop {stop : Char → Bool} (hu : ∀ c ∈ u, stop c = false)
    (hv : ∀ c ∈ v, stop c = false) (hr : ∀ c ∈ r.head?, stop c = true)
    (hs : ∀ c ∈ s.head?, stop c = true) (h : u ++ r = v ++ s) : u = v ∧ r = s := by
  have same : u = v := by rw [← takeWhile_append_stop hu hr, h, takeWhile_append_stop hv hs]
  subst same
  exact ⟨rfl, List.append_cancel_left h⟩

/-- A text up to a character that it does not have. -/
theorem append_cons_inj (hu : a ∉ u) (hv : a ∉ v) (h : u ++ a :: r = v ++ a :: s) :
    u = v ∧ r = s := by
  have free {w : List Char} (hw : a ∉ w) : ∀ c ∈ w, (c == a) = false := fun c hc =>
    beq_eq_false_iff_ne.2 fun e => hw (e ▸ hc)
  obtain ⟨same, rest⟩ := append_inj_of_stop (free hu) (free hv) (by simp) (by simp) h
  exact ⟨same, (List.cons.inj rest).2⟩

/-! ### How phrases start -/

/-- The kinds of phrases that two characters tell apart. -/
inductive Lead where | word | quote | brace | paren | negation

/-- What a text starts with. -/
def lead : List Char → Lead
  | '"' :: _ => .quote
  | '\x7b' :: _ => .brace
  | '(' :: '!' :: _ => .negation
  | '(' :: _ => .paren
  | _ => .word

/-- What the text of a phrase starts with. -/
def form : Phrase → Lead
  | .word _ | .marked _ => .word
  | .quoted _ => .quote
  | .braces _ => .brace
  | .parens _ => .paren
  | .negated _ => .negation

theorem lead_of_not_stop (h : isStop c = false) (r : List Char) : lead (c :: r) = .word := by
  unfold lead
  split <;> simp_all [isStop]

theorem lead_paren (h : r.head? ≠ some '!') : lead ('(' :: r) = .paren := by
  unfold lead
  split <;> simp_all

theorem lead_chars (h : Sound p) (r : List Char) : lead (p.chars ++ r) = p.form := by
  cases h with
  | word h =>
    obtain ⟨c, cs, rfl⟩ := List.exists_cons_of_ne_nil h.1
    exact lead_of_not_stop (h.2 c List.mem_cons_self) _
  | quoted | marked | braces | negated => rfl
  | @parens ps items first =>
    refine lead_paren (r := row [' '] ps ++ [')'] ++ r) ?_
    cases content : row [' '] ps with
    | nil => simp
    | cons c cs => rwa [content] at first

/-- No phrase is empty, and none starts with what can follow one. -/
theorem exists_chars_eq_cons (h : Sound p) : ∃ c cs, p.chars = c :: cs ∧ c ∉ ends := by
  cases h with
  | word h =>
    obtain ⟨c, cs, rfl⟩ := List.exists_cons_of_ne_nil h.1
    refine ⟨c, cs, rfl, fun stop => ?_⟩
    have stopped := isStop_of_mem_ends stop
    rw [h.2 c List.mem_cons_self] at stopped
    cases stopped
  | quoted => exact ⟨'"', _, rfl, by decide⟩
  | marked => exact ⟨'S', _, rfl, by decide⟩
  | braces => exact ⟨'\x7b', _, rfl, by decide⟩
  | parens | negated => exact ⟨'(', _, rfl, by decide⟩

/-! ### Telling phrases from texts -/

/-- The phrase can be told from its text and what follows. -/
def Tells (p : Phrase) : Prop :=
  ∀ {q : Phrase} {r s : List Char}, Sound q → Ends r → Ends s →
    p.chars ++ r = q.chars ++ s → p = q ∧ r = s

/-- The separator and the closing character of phrases in a row. -/
def Row (sep : List Char) (close : Char) : Prop :=
  close ∈ ends ∧ ∃ a b, sep = a :: b ∧ a ∈ ends ∧ a ≠ close

theorem row_braces : Row [',', ' '] '\x7d' := ⟨by decide, ',', [' '], rfl, by decide, by decide⟩

theorem row_parens : Row [' '] ')' := ⟨by decide, ' ', [], rfl, by decide, by decide⟩

section Rows

variable {sep : List Char}

theorem ends_more (h : Row sep close) (ps : List Phrase) (r : List Char) :
    Ends (more sep ps ++ close :: r) := by
  obtain ⟨closes, a, b, rfl, separates, -⟩ := h
  cases ps with
  | nil => exact ends_cons.2 closes
  | cons p ps => exact ends_cons.2 separates

/-- Phrases after separators are told one after another. -/
theorem more_inj (h : Row sep close) (tells : ∀ p ∈ ps, Tells p) (sound : ∀ q ∈ qs, Sound q)
    (same : more sep ps ++ close :: r = more sep qs ++ close :: s) : ps = qs ∧ r = s := by
  obtain ⟨-, a, b, rfl, -, apart⟩ := id h
  induction ps generalizing qs with
  | nil =>
    cases qs with
    | nil => exact ⟨rfl, (List.cons.inj same).2⟩
    | cons q qs => exact absurd (List.cons.inj same).1.symm apart
  | cons p ps ih =>
    cases qs with
    | nil => exact absurd (List.cons.inj same).1 apart
    | cons q qs =>
      obtain ⟨tell, later⟩ := List.forall_mem_cons.1 tells
      obtain ⟨hq, others⟩ := List.forall_mem_cons.1 sound
      simp only [more, List.append_assoc, List.append_cancel_left_eq] at same
      obtain ⟨rfl, rest⟩ := tell hq (ends_more h ps r) (ends_more h qs s) same
      obtain ⟨rfl, rfl⟩ := ih later others rest
      exact ⟨rfl, rfl⟩

theorem close_ne_chars (h : Row sep close) (hp : Sound p) : close :: r ≠ p.chars ++ s := by
  obtain ⟨c, cs, text, free⟩ := exists_chars_eq_cons hp
  intro same
  rw [text] at same
  exact free ((List.cons.inj same).1 ▸ h.1)

theorem row_inj (h : Row sep close) (tells : ∀ p ∈ ps, Sound p ∧ Tells p)
    (sound : ∀ q ∈ qs, Sound q)
    (same : row sep ps ++ close :: r = row sep qs ++ close :: s) : ps = qs ∧ r = s := by
  cases ps with
  | nil =>
    cases qs with
    | nil => exact ⟨rfl, (List.cons.inj same).2⟩
    | cons q qs =>
      rw [row, row, List.append_assoc] at same
      exact absurd same (close_ne_chars h (sound q List.mem_cons_self))
  | cons p ps =>
    obtain ⟨⟨hp, tell⟩, later⟩ := List.forall_mem_cons.1 tells
    cases qs with
    | nil =>
      rw [row, row, List.append_assoc] at same
      exact absurd same.symm (close_ne_chars h hp)
    | cons q qs =>
      obtain ⟨hq, others⟩ := List.forall_mem_cons.1 sound
      rw [row, row, List.append_assoc, List.append_assoc] at same
      obtain ⟨rfl, rest⟩ := tell hq (ends_more h ps r) (ends_more h qs s) same
      obtain ⟨rfl, rfl⟩ := more_inj h (fun p hp => (later p hp).2) others rest
      exact ⟨rfl, rfl⟩

end Rows

theorem stops_of_ends (h : Ends r) : ∀ c ∈ r.head?, isStop c = true := fun c hc =>
  isStop_of_mem_ends (h c hc)

/-- A word is told from a mark by what follows it. -/
theorem word_ne_marked {cs ds : List Char} (h : IsWord cs) (hr : Ends r) :
    cs ++ r ≠ (Phrase.marked ds).chars ++ s := by
  intro same
  -- both words end at their first stop, and only the mark has a parenthesis there
  have mark : cs ++ r = ['S', 'I', 'D'] ++ '(' :: (ds ++ [')'] ++ s) := same
  obtain ⟨-, rest⟩ := append_inj_of_stop h.2 (by simp [isStop, ends]) (stops_of_ends hr)
    (by simp [isStop]) mark
  rw [rest, ends_cons] at hr
  exact absurd hr (by decide)

theorem form_eq (hp : Sound p) (hq : Sound q) (same : p.chars ++ r = q.chars ++ s) :
    p.form = q.form := by rw [← lead_chars hp r, same, lead_chars hq]

/-- A sound phrase is told from its text, by what it starts with and then part by part. -/
theorem tells (hp : Sound p) : Tells p := by
  -- `form` leaves the phrases of one kind for `q`, but words and marks start alike
  induction hp with
  | @word cs h =>
    intro q r s hq hr hs same
    have form := form_eq (.word h) hq same
    cases hq with
    | @word ds h' =>
      obtain ⟨rfl, rest⟩ := append_inj_of_stop h.2 h'.2 (stops_of_ends hr) (stops_of_ends hs) same
      exact ⟨rfl, rest⟩
    | marked => exact absurd same (word_ne_marked h hr)
    | _ => cases form
  | @marked cs free =>
    intro q r s hq hr hs same
    have form := form_eq (.marked free) hq same
    cases hq with
    | word h' => exact absurd same.symm (word_ne_marked h' hs)
    | @marked ds free' =>
      have inner : cs ++ ')' :: r = ds ++ ')' :: s := by simpa [chars, inParens] using same
      obtain ⟨rfl, rest⟩ := append_cons_inj free free' inner
      exact ⟨rfl, rest⟩
    | _ => cases form
  | @quoted cs free =>
    intro q r s hq hr hs same
    have form := form_eq (.quoted free) hq same
    cases hq with
    | @quoted ds free' =>
      have inner : cs ++ '"' :: r = ds ++ '"' :: s := by simpa [chars] using same
      obtain ⟨rfl, rest⟩ := append_cons_inj free free' inner
      exact ⟨rfl, rest⟩
    | _ => cases form
  | @braces ps items ih =>
    intro q r s hq hr hs same
    have form := form_eq (.braces items) hq same
    cases hq with
    | @braces qs items' =>
      have inner : row [',', ' '] ps ++ '\x7d' :: r = row [',', ' '] qs ++ '\x7d' :: s := by
        simpa [chars, inBraces] using same
      obtain ⟨rfl, rest⟩ := row_inj row_braces (fun p hp => ⟨items p hp, ih p hp⟩) items' inner
      exact ⟨rfl, rest⟩
    | _ => cases form
  | @parens ps items first ih =>
    intro q r s hq hr hs same
    have form := form_eq (.parens items first) hq same
    cases hq with
    | @parens qs items' _ =>
      have inner : row [' '] ps ++ ')' :: r = row [' '] qs ++ ')' :: s := by
        simpa [chars, inParens] using same
      obtain ⟨rfl, rest⟩ := row_inj row_parens (fun p hp => ⟨items p hp, ih p hp⟩) items' inner
      exact ⟨rfl, rest⟩
    | _ => cases form
  | @negated p item ih =>
    intro q r s hq hr hs same
    have form := form_eq (.negated item) hq same
    cases hq with
    | @negated q item' =>
      have inner : p.chars ++ ')' :: r = q.chars ++ ')' :: s := by
        simpa [chars, inParens] using same
      obtain ⟨rfl, rest⟩ := ih item' (ends_cons.2 (by decide)) (ends_cons.2 (by decide)) inner
      exact ⟨rfl, (List.cons.inj rest).2⟩
    | _ => cases form

/-- No two sound phrases have the same text. -/
theorem chars_inj (hp : Sound p) (hq : Sound q) : p.chars = q.chars ↔ p = q := by
  refine ⟨fun same => ?_, congrArg chars⟩
  have none : Ends [] := by simp [Ends]
  exact (tells hp hq none none (congrArg (· ++ []) same)).1

end Phrase
end AccessControl.Condition
