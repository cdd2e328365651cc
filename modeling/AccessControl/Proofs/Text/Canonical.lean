import AccessControl.Proofs.Text.Numeral
import Mathlib.Data.Nat.Digits.Lemmas

/-!
# Canonical numerals

Of the numerals of a number one has no zeros in front and no small letters. It is the one that is
written (`isCanonical_iff`), in decimal as in hexadecimal.
-/

namespace AccessControl.Numeral

variable {base n d : Nat} {c : Char} {cs : List Char}

/-- A numeral without zeros in front, zero itself being one digit, and in capital letters. -/
def IsCanonical (base : Nat) (cs : List Char) (n : Nat) : Prop :=
  IsNumeral base cs n ∧ (cs.head? = some '0' → cs = ['0']) ∧ ∀ c ∈ cs, c.toUpper = c

/-- The digits of a number, the most significant first, without zeros in front. -/
structure Shortest (base : Nat) (ds : List Nat) (n : Nat) : Prop where
  nonempty : ds ≠ []
  below : ∀ d ∈ ds, d < base
  front : ds.head? = some 0 → ds = [0]
  value : Nat.ofDigits base ds.reverse = n

theorem exists_shortest (hb : 1 < base) (n : Nat) : ∃ ds, Shortest base ds n := by
  cases Nat.eq_zero_or_pos n with
  | inl zero =>
    subst zero
    exact ⟨[0], List.cons_ne_nil _ _, by simp; omega, fun _ => rfl, by simp⟩
  | inr pos =>
    have hne : Nat.digits base n ≠ [] := Nat.digits_ne_nil_iff_ne_zero.2 pos.ne'
    have top : (Nat.digits base n).getLast hne ≠ 0 := Nat.getLast_digit_ne_zero base pos.ne'
    refine ⟨(Nat.digits base n).reverse, by rwa [ne_eq, List.reverse_eq_nil_iff], ?_, ?_, ?_⟩
    · intro d hd
      exact Nat.digits_lt_base hb (List.mem_reverse.1 hd)
    · intro zero
      rw [List.head?_reverse, List.getLast?_eq_some_getLast hne] at zero
      exact absurd (Option.some.inj zero) top
    · rw [List.reverse_reverse, Nat.ofDigits_digits]

/-- The digits that follow a positive number carry its numeral on. -/
theorem toDigits_append_map (hb : 1 < base) {acc : Nat} (pos : 0 < acc) {ds : List Nat}
    (below : ∀ d ∈ ds, d < base) :
    Nat.toDigits base acc ++ ds.map Nat.digitChar =
      Nat.toDigits base (acc * base ^ ds.length + Nat.ofDigits base ds.reverse) := by
  induction ds generalizing acc with
  | nil => simp
  | cons d ds ih =>
    simp only [List.mem_cons, forall_eq_or_imp] at below
    obtain ⟨hd, below⟩ := below
    have next :
        Nat.toDigits base acc ++ [Nat.digitChar d] = Nat.toDigits base (acc * base + d) := by
      rw [← Nat.toDigits_of_lt_base hd, Nat.toDigits_append_toDigits hb pos hd, Nat.mul_comm]
    have pos' : 0 < acc * base + d :=
      Nat.add_pos_left (Nat.mul_pos pos (Nat.lt_trans Nat.one_pos hb)) d
    rw [place_cons, ← ih pos' below, ← next, List.append_assoc]
    rfl

theorem Shortest.map_digitChar {ds : List Nat} (h : Shortest base ds n) (hb : 1 < base) :
    ds.map Nat.digitChar = Nat.toDigits base n := by
  obtain ⟨nonempty, below, front, rfl⟩ := h
  cases ds with
  | nil => exact absurd rfl nonempty
  | cons d ds =>
    simp only [List.mem_cons, forall_eq_or_imp] at below
    cases Nat.eq_zero_or_pos d with
    | inl zero =>
      subst zero
      obtain ⟨-, rfl⟩ := List.cons.inj (front rfl)
      simp
    | inr pos =>
      have value : Nat.ofDigits base (d :: ds).reverse =
          d * base ^ ds.length + Nat.ofDigits base ds.reverse := by
        have place := @place_cons base 0 d ds
        rwa [Nat.zero_mul, Nat.zero_mul, Nat.zero_add, Nat.zero_add] at place
      rw [value, ← toDigits_append_map hb pos below.2, Nat.toDigits_of_lt_base below.1]
      rfl

/-- A number is written as a numeral of it. -/
theorem isNumeral_toDigits (hb : 1 < base) (n : Nat) : IsNumeral base (Nat.toDigits base n) n := by
  obtain ⟨ds, h⟩ := exists_shortest hb n
  rw [← h.map_digitChar hb]
  refine ⟨ds, h.nonempty, ?_, h.value⟩
  rw [List.forall₂_map_left_iff, List.forall₂_same]
  exact fun d hd => ⟨h.below d hd, .inl rfl⟩

theorem toDigits_inj (hb : 1 < base) (hb' : base ≤ 16) {m : Nat} :
    Nat.toDigits base m = Nat.toDigits base n ↔ m = n := by
  refine ⟨fun same => ?_, congrArg _⟩
  have numeral := isNumeral_toDigits hb m
  rw [same] at numeral
  exact numeral.value_unique hb' (isNumeral_toDigits hb n)

theorem exists_digitChar_of_mem (hb : 1 < base) (hc : c ∈ Nat.toDigits base n) :
    ∃ d < base, c = Nat.digitChar d := by
  obtain ⟨ds, h⟩ := exists_shortest hb n
  rw [← h.map_digitChar hb] at hc
  obtain ⟨d, hd, rfl⟩ := List.mem_map.1 hc
  exact ⟨d, h.below d hd, rfl⟩

theorem toUpper_digitChar (hd : d < 16) :
    (Nat.digitChar d).toUpper.toUpper = (Nat.digitChar d).toUpper ∧
      ((Nat.digitChar d).toUpper = '0' → d = 0) := by
  interval_cases d <;> decide

theorem isDigit_capital_iff (hb : base ≤ 16) :
    IsDigit base c d ∧ c.toUpper = c ↔ d < base ∧ c = (Nat.digitChar d).toUpper := by
  constructor
  · rintro ⟨⟨hd, rfl | rfl⟩, capital⟩
    · exact ⟨hd, capital.symm⟩
    · exact ⟨hd, rfl⟩
  · rintro ⟨hd, rfl⟩
    exact ⟨⟨hd, .inr rfl⟩, (toUpper_digitChar (Nat.lt_of_lt_of_le hd hb)).1⟩

/-- Capital digits are given by their values. -/
theorem forall₂_isDigit_capital_iff (hb : base ≤ 16) {ds : List Nat} :
    List.Forall₂ (IsDigit base) cs ds ∧ (∀ c ∈ cs, c.toUpper = c) ↔
      (∀ d ∈ ds, d < base) ∧ cs = ds.map fun d => (Nat.digitChar d).toUpper := by
  induction ds generalizing cs with
  | nil => simp +contextual
  | cons d ds ih =>
    cases cs with
    | nil => simp
    | cons c cs =>
      simp only [List.forall₂_cons, List.mem_cons, forall_eq_or_imp, List.map_cons, List.cons.injEq]
      rw [and_and_and_comm, ih, isDigit_capital_iff hb, and_and_and_comm]

/-- The canonical numerals are the shortest digits in capital letters. -/
theorem isCanonical_iff_shortest (hb : base ≤ 16) : IsCanonical base cs n ↔
    ∃ ds, Shortest base ds n ∧ cs = ds.map fun d => (Nat.digitChar d).toUpper := by
  constructor
  · rintro ⟨⟨ds, nonempty, digits, value⟩, front, capital⟩
    obtain ⟨below, rfl⟩ := (forall₂_isDigit_capital_iff hb).1 ⟨digits, capital⟩
    refine ⟨ds, ⟨nonempty, below, fun zero => ?_, value⟩, rfl⟩
    have single := front (by rw [List.head?_map, zero]; rfl)
    obtain ⟨d, rfl, -⟩ := List.map_eq_singleton_iff.1 single
    rw [Option.some.inj zero]
  · rintro ⟨ds, ⟨nonempty, below, front, value⟩, rfl⟩
    obtain ⟨digits, capital⟩ := (forall₂_isDigit_capital_iff hb).2 ⟨below, rfl⟩
    refine ⟨⟨ds, nonempty, digits, value⟩, fun zero => ?_, capital⟩
    rw [List.head?_map, Option.map_eq_some_iff] at zero
    obtain ⟨d, head, hd⟩ := zero
    have small : d < 16 := Nat.lt_of_lt_of_le (below d (List.mem_of_head? head)) hb
    rw [(toUpper_digitChar small).2 hd] at head
    rw [front head]
    rfl

/-- A number has one canonical numeral. -/
theorem isCanonical_iff (hb : 1 < base) (hb' : base ≤ 16) :
    IsCanonical base cs n ↔ cs = (Nat.toDigits base n).map Char.toUpper := by
  rw [isCanonical_iff_shortest hb']
  constructor
  · rintro ⟨ds, h, rfl⟩
    rw [← h.map_digitChar hb, List.map_map]
    rfl
  · rintro rfl
    obtain ⟨ds, h⟩ := exists_shortest hb n
    refine ⟨ds, h, ?_⟩
    rw [← h.map_digitChar hb, List.map_map]
    rfl

theorem isCanonical_decimal_iff : IsCanonical 10 cs n ↔ cs = decimal n := by
  obtain ⟨ds, h⟩ := exists_shortest (show 1 < 10 by decide) n
  have capital : ∀ d ∈ ds, (Nat.digitChar d).toUpper = Nat.digitChar d := by
    intro d hd
    have small : d < 10 := h.below d hd
    interval_cases d <;> rfl
  rw [isCanonical_iff (by decide) (by decide), decimal, ← h.map_digitChar (by decide), List.map_map]
  exact Eq.congr_right (List.map_congr_left capital)

theorem isCanonical_upperHex_iff : IsCanonical 16 cs n ↔ cs = upperHex n :=
  isCanonical_iff (by decide) (by decide)

end AccessControl.Numeral
