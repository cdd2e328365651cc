import AccessControl.Numeral
import Mathlib.Data.Nat.Digits.Defs
import Mathlib.Data.List.Forall2
import Mathlib.Tactic.IntervalCases

/-!
# Numbers in running text

What a reader of numbers accepts, said without the reader: `IsNumeral` is a text of digits and its
value, `IsSigned` the same with at most one plus sign in front. `read?_eq_some_iff` is the reader's
exact domain, and `isNumeral_iff` says that a plus sign is all by which the two differ.
-/

namespace AccessControl.Numeral

variable {base n d : Nat} {c : Char} {cs : List Char}

/-- A digit of a base and its value, the letters of either case standing for ten and up. -/
def IsDigit (base : Nat) (c : Char) (d : Nat) : Prop :=
  d < base ∧ (c = Nat.digitChar d ∨ c = (Nat.digitChar d).toUpper)

/-- A text of at least one digit, the most significant first, and its value. -/
def IsNumeral (base : Nat) (cs : List Char) (n : Nat) : Prop :=
  ∃ ds, ds ≠ [] ∧ List.Forall₂ (IsDigit base) cs ds ∧ Nat.ofDigits base ds.reverse = n

/-- A numeral, with or without one plus sign in front. -/
def IsSigned (base : Nat) (cs : List Char) (n : Nat) : Prop :=
  ∃ ds, (cs = ds ∨ cs = '+' :: ds) ∧ IsNumeral base ds n

/-! ### Digits -/

theorem digit?_digitChar (hb : base ≤ 16) (hd : d < base) :
    digit? base (Nat.digitChar d) = some d ∧ digit? base (Nat.digitChar d).toUpper = some d := by
  have hd' : d < 16 := Nat.lt_of_lt_of_le hd hb
  interval_cases d <;> exact ⟨if_pos (decide_eq_true hd), if_pos (decide_eq_true hd)⟩

/-- A character between two others is given by its distance from the first. -/
theorem eq_ofNat_of_between {lo hi : Char} (h : lo ≤ c ∧ c ≤ hi) :
    c.toNat - lo.toNat ≤ hi.toNat - lo.toNat ∧
      c = Char.ofNat (lo.toNat + (c.toNat - lo.toNat)) := by
  have hlo : lo.toNat ≤ c.toNat := h.1
  have hhi : c.toNat ≤ hi.toNat := h.2
  refine ⟨by omega, ?_⟩
  rw [Nat.add_sub_cancel' hlo, Char.ofNat_toNat]

/-- A character is read as a digit exactly when it is one. -/
theorem digit?_eq_some_iff (hb : base ≤ 16) : digit? base c = some d ↔ IsDigit base c d := by
  have decimal : ∀ k ≤ 9, Char.ofNat ('0'.toNat + k) = Nat.digitChar k := by decide
  have small : ∀ k ≤ 5, Char.ofNat ('a'.toNat + k) = Nat.digitChar (k + 10) := by decide
  have capital : ∀ k ≤ 5, Char.ofNat ('A'.toNat + k) = (Nat.digitChar (k + 10)).toUpper := by decide
  constructor
  · intro h
    obtain ⟨value, below⟩ := Option.filter_eq_some_iff.1 h
    have hd : d < base := of_decide_eq_true below
    split_ifs at value with digit lower upper
    · obtain rfl := Option.some.inj value
      obtain ⟨le, hc⟩ := eq_ofNat_of_between digit
      exact ⟨hd, .inl (hc.trans (decimal _ le))⟩
    · obtain rfl := Option.some.inj value
      obtain ⟨-, hc⟩ := eq_ofNat_of_between lower
      exact ⟨hd, .inl (hc.trans (small _ (by omega)))⟩
    · obtain rfl := Option.some.inj value
      obtain ⟨-, hc⟩ := eq_ofNat_of_between upper
      exact ⟨hd, .inr (hc.trans (capital _ (by omega)))⟩
  · rintro ⟨hd, rfl | rfl⟩
    · exact (digit?_digitChar hb hd).1
    · exact (digit?_digitChar hb hd).2

/-! ### Numerals -/

/-- One more digit moves a number up by one place. -/
theorem place_cons (acc d : Nat) (ds : List Nat) :
    acc * base ^ (d :: ds).length + Nat.ofDigits base (d :: ds).reverse =
      (acc * base + d) * base ^ ds.length + Nat.ofDigits base ds.reverse := by
  rw [List.reverse_cons, Nat.ofDigits_append, Nat.ofDigits_singleton, List.length_reverse,
    List.length_cons]
  ring

/-- Digits are read from the left, each of them moving those before it up by one place. -/
theorem readDigits?_eq_some_iff (hb : base ≤ 16) {acc : Nat} :
    readDigits? base acc cs = some n ↔
      ∃ ds, List.Forall₂ (IsDigit base) cs ds ∧
        acc * base ^ ds.length + Nat.ofDigits base ds.reverse = n := by
  induction cs generalizing acc with
  | nil => simp [readDigits?]
  | cons c cs ih =>
    simp only [readDigits?, Option.bind_eq_bind, Option.bind_eq_some_iff, digit?_eq_some_iff hb, ih]
    constructor
    · rintro ⟨d, hd, ds, hds, value⟩
      exact ⟨d :: ds, .cons hd hds, (place_cons acc d ds).trans value⟩
    · rintro ⟨_, _ | ⟨hd, hds⟩, value⟩
      exact ⟨_, hd, _, hds, (place_cons acc _ _).symm.trans value⟩

/-- The digits of a numeral are read as its value. -/
theorem readDigits?_zero_eq_some_iff (hb : base ≤ 16) :
    readDigits? base 0 (c :: cs) = some n ↔ IsNumeral base (c :: cs) n := by
  rw [readDigits?_eq_some_iff hb]
  constructor
  · rintro ⟨_, _ | ⟨hd, hds⟩, value⟩
    refine ⟨_, List.cons_ne_nil _ _, .cons hd hds, ?_⟩
    rw [← value, Nat.zero_mul, Nat.zero_add]
  · rintro ⟨ds, -, digits, rfl⟩
    exact ⟨ds, digits, by rw [Nat.zero_mul, Nat.zero_add]⟩

/-- A numeral has one value. -/
theorem IsNumeral.value_unique {n' : Nat} (hb : base ≤ 16) (h : IsNumeral base cs n)
    (h' : IsNumeral base cs n') : n = n' := by
  cases cs with
  | nil =>
    obtain ⟨_, nonempty, ⟨⟩, -⟩ := h
    exact absurd rfl nonempty
  | cons c cs =>
    rw [← readDigits?_zero_eq_some_iff hb] at h h'
    exact Option.some.inj (h.symm.trans h')

/-- A character that is no digit stands in no numeral. -/
theorem IsNumeral.not_mem (h : IsNumeral base cs n) (hb : base ≤ 16) (hc : digit? base c = none) :
    c ∉ cs := by
  obtain ⟨ds, -, digits, -⟩ := h
  induction digits with
  | nil => exact List.not_mem_nil
  | cons hd _ ih =>
    rw [List.mem_cons, not_or]
    refine ⟨?_, ih⟩
    rintro rfl
    rw [(digit?_eq_some_iff hb).2 hd] at hc
    cases hc

theorem eq_dropPlus_or (cs : List Char) : cs = dropPlus cs ∨ cs = '+' :: dropPlus cs := by
  unfold dropPlus
  split
  · exact .inr rfl
  · exact .inl rfl

theorem dropPlus_eq_self (h : '+' ∉ cs) : dropPlus cs = cs :=
  ((eq_dropPlus_or cs).resolve_right fun e => h (e ▸ List.mem_cons_self)).symm

theorem isSigned_iff (hb : base ≤ 16) : IsSigned base cs n ↔ IsNumeral base (dropPlus cs) n := by
  constructor
  · rintro ⟨ds, rfl | rfl, h⟩
    · rwa [dropPlus_eq_self (h.not_mem hb rfl)]
    · exact h
  · intro h
    exact ⟨dropPlus cs, eq_dropPlus_or cs, h⟩

/-- The reader takes a numeral below its limit, a plus sign in front or not, and nothing else. -/
theorem read?_eq_some_iff (hb : base ≤ 16) {limit : Nat} :
    read? base limit cs = some n ↔ IsSigned base cs n ∧ n < limit := by
  rw [isSigned_iff hb, read?]
  cases dropPlus cs with
  | nil =>
    constructor
    · intro h
      cases h
    · rintro ⟨⟨_, nonempty, ⟨⟩, -⟩, -⟩
      exact absurd rfl nonempty
  | cons c ds =>
    simp only [Option.filter_eq_some_iff, readDigits?_zero_eq_some_iff hb, decide_eq_true_eq]

/-- A numeral is what the reader takes and no plus sign stands in. -/
theorem isNumeral_iff (hb : base ≤ 16) : IsNumeral base cs n ↔ '+' ∉ cs ∧ IsSigned base cs n := by
  constructor
  · intro h
    exact ⟨h.not_mem hb rfl, cs, .inl rfl, h⟩
  · rintro ⟨plus, ds, rfl | rfl, h⟩
    · exact h
    · exact absurd List.mem_cons_self plus

/-- No separator of numbers stands in one. -/
theorem IsSigned.not_mem (h : IsSigned base cs n) (hb : base ≤ 16) (hc : digit? base c = none)
    (plus : c ≠ '+') : c ∉ cs := by
  obtain ⟨ds, rfl | rfl, numeral⟩ := h
  · exact numeral.not_mem hb hc
  · simp [plus, numeral.not_mem hb hc]

/-- Read into a type of all numbers below the limit, a text stands for the element of its value. -/
theorem map_read?_eq_some_iff {α : Type} (hb : base ≤ 16) {limit : Nat} {ofNat : Nat → α}
    {toNat : α → Nat} (toNat_lt : ∀ a, toNat a < limit) (ofNat_toNat : ∀ a, ofNat (toNat a) = a)
    (toNat_ofNat : ∀ n, n < limit → toNat (ofNat n) = n) {a : α} :
    (read? base limit cs).map ofNat = some a ↔ IsSigned base cs (toNat a) := by
  simp only [Option.map_eq_some_iff, read?_eq_some_iff hb]
  constructor
  · rintro ⟨n, ⟨signed, hn⟩, rfl⟩
    rwa [toNat_ofNat n hn]
  · intro signed
    exact ⟨toNat a, ⟨signed, toNat_lt a⟩, ofNat_toNat a⟩

end AccessControl.Numeral
