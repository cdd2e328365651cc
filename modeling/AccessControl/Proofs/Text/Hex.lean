import AccessControl.Proofs.Text.Numeral

/-!
# Bytes in hexadecimal

Two digits are read as a byte. A text of digits in either case is read as the bytes that are, high
byte first, the number it stands for (`bytes?_eq_some_iff`), and these are written as the same text
in small letters (`map_toLower_of_bytes?`).
-/

namespace AccessControl

theorem leNat_append (b t : Bytes) : leNat (b ++ t) = leNat b + 256 ^ b.length * leNat t := by
  induction b with
  | nil => simp [leNat]
  | cons x b ih =>
    rw [List.cons_append, leNat, leNat, ih, List.length_cons]
    ring

namespace Numeral

variable {c hi lo : Char} {cs rest : List Char} {b t : Bytes} {x : UInt8} {d n : Nat}

/-- A hexadecimal digit in either case. -/
def IsHexDigit (c : Char) : Prop := ∃ d, IsDigit 16 c d

theorem digits_lt {base : Nat} {ds : List Nat} (h : List.Forall₂ (IsDigit base) cs ds) :
    ∀ d ∈ ds, d < base := by
  induction h with
  | nil => simp
  | cons hd _ ih => exact List.forall_mem_cons.2 ⟨hd.1, ih⟩

theorem not_isHexDigit (h : digit? 16 c = none) : ¬IsHexDigit c := by
  rintro ⟨d, hd⟩
  rw [(digit?_eq_some_iff (Nat.le_refl 16)).2 hd] at h
  cases h

theorem toLower_of_isDigit (h : IsDigit 16 c d) : c.toLower = Nat.digitChar d := by
  obtain ⟨hd, rfl | rfl⟩ := h
  · interval_cases d <;> rfl
  · interval_cases d <;> rfl

/-- The digits of bytes, two for each. -/
def nibbles (b : Bytes) : List Nat := b.flatMap fun x => [x.toNat / 16, x.toNat % 16]

theorem nibbles_cons (x : UInt8) (b : Bytes) :
    nibbles (x :: b) = x.toNat / 16 :: x.toNat % 16 :: nibbles b := rfl

theorem nibbles_append (b t : Bytes) : nibbles (b ++ t) = nibbles b ++ nibbles t :=
  List.flatMap_append

theorem length_nibbles (b : Bytes) : (nibbles b).length = 2 * b.length := by
  induction b with
  | nil => rfl
  | cons x b ih =>
    rw [nibbles_cons, List.length_cons, List.length_cons, ih, List.length_cons]
    omega

theorem nibbles_lt (h : d ∈ nibbles b) : d < 16 := by
  obtain ⟨x, -, hd⟩ := List.mem_flatMap.1 h
  have := x.toNat_lt
  simp only [List.mem_cons, List.not_mem_nil, or_false] at hd
  omega

/-- The digits of bytes stand for the same number as the bytes, the high ones first. -/
theorem ofDigits_nibbles (b : Bytes) : Nat.ofDigits 16 (nibbles b).reverse = leNat b.reverse := by
  induction b with
  | nil => rfl
  | cons x b ih =>
    have byte : Nat.ofDigits 16 [x.toNat % 16, x.toNat / 16] = leNat [x] := by
      simp only [Nat.ofDigits_cons, Nat.ofDigits_nil, leNat]
      omega
    have digits : (nibbles (x :: b)).reverse =
        (nibbles b).reverse ++ [x.toNat % 16, x.toNat / 16] := by
      simp only [nibbles_cons, List.reverse_cons, List.append_assoc, List.cons_append,
        List.nil_append]
    have places : 16 ^ (2 * b.length) = 256 ^ b.length := pow_mul 16 2 b.length
    rw [digits, Nat.ofDigits_append, ih, byte, List.length_reverse, length_nibbles, places,
      List.reverse_cons, leNat_append, List.length_reverse]

/-- Two digits are read as a byte exactly when they are the digits of it. -/
theorem byte?_eq_some_iff : byte? hi lo = some x ↔
    IsDigit 16 hi (x.toNat / 16) ∧ IsDigit 16 lo (x.toNat % 16) := by
  simp only [byte?, Option.bind_eq_bind, Option.bind_eq_some_iff,
    digit?_eq_some_iff (Nat.le_refl 16)]
  constructor
  · rintro ⟨h, hh, l, hl, ⟨⟩⟩
    have high : h < 16 := hh.1
    have low : l < 16 := hl.1
    have value : (UInt8.ofNat (16 * h + l)).toNat = 16 * h + l := by
      rw [UInt8.toNat_ofNat']
      omega
    have quotient : (16 * h + l) / 16 = h := by omega
    have remainder : (16 * h + l) % 16 = l := by omega
    rw [value, quotient, remainder]
    exact ⟨hh, hl⟩
  · rintro ⟨hh, hl⟩
    refine ⟨_, hh, _, hl, ?_⟩
    rw [Nat.div_add_mod, UInt8.ofNat_toNat]
    rfl

/-- Bytes are read exactly from their digits. -/
theorem bytes?_eq_some_iff_nibbles :
    bytes? cs = some b ↔ List.Forall₂ (IsDigit 16) cs (nibbles b) := by
  induction b generalizing cs with
  | nil =>
    match cs with
    | [] => simp [bytes?, nibbles]
    | [c] => simp [bytes?, nibbles]
    | hi :: lo :: cs => simp [bytes?, nibbles, Option.bind_eq_some_iff]
  | cons x b ih =>
    match cs with
    | [] => simp [bytes?, nibbles_cons]
    | [c] => simp [bytes?, nibbles_cons]
    | hi :: lo :: cs =>
      simp only [bytes?, nibbles_cons, List.forall₂_cons, ← ih, Option.bind_eq_bind,
        Option.bind_eq_some_iff, byte?_eq_some_iff, ← and_assoc]
      constructor
      · rintro ⟨y, ⟨high, low⟩, t, rest, ⟨⟩⟩
        exact ⟨⟨high, low⟩, rest⟩
      · rintro ⟨byte, rest⟩
        exact ⟨x, byte, b, rest, rfl⟩

/-- Bytes are read from digits only. -/
theorem isHexDigit_of_bytes? (h : bytes? cs = some b) : ∀ c ∈ cs, IsHexDigit c := by
  rw [bytes?_eq_some_iff_nibbles] at h
  generalize nibbles b = ds at h
  induction h with
  | nil => simp
  | cons hd _ ih => exact List.forall_mem_cons.2 ⟨⟨_, hd⟩, ih⟩

/-- A text is read as bytes exactly when it has two digits for each of them and is, high byte first,
the numeral of their number. -/
theorem bytes?_eq_some_iff (nonempty : b ≠ []) :
    bytes? cs = some b ↔ cs.length = 2 * b.length ∧ IsNumeral 16 cs (leNat b.reverse) := by
  rw [bytes?_eq_some_iff_nibbles]
  constructor
  · intro digits
    have length : cs.length = 2 * b.length := digits.length_eq.trans (length_nibbles b)
    refine ⟨length, nibbles b, ?_, digits, ofDigits_nibbles b⟩
    rw [← List.length_pos_iff_ne_nil, length_nibbles]
    have := List.length_pos_iff_ne_nil.2 nonempty
    omega
  · rintro ⟨length, ds, -, digits, value⟩
    have same : ds.reverse = (nibbles b).reverse := by
      refine Nat.ofDigits_inj_of_len_eq (by decide : 1 < 16) ?_ ?_ ?_ ?_
      · rw [List.length_reverse, List.length_reverse, length_nibbles, ← length, digits.length_eq]
      · exact fun d hd => digits_lt digits d (List.mem_reverse.1 hd)
      · exact fun d hd => nibbles_lt (List.mem_reverse.1 hd)
      · rw [value, ofDigits_nibbles]
    rwa [← List.reverse_inj.1 same]

/-- Digits in pairs are read. -/
theorem exists_bytes? (hex : ∀ c ∈ cs, IsHexDigit c) (length : cs.length = 2 * n) :
    ∃ b, b.length = n ∧ bytes? cs = some b := by
  induction n generalizing cs with
  | zero => exact ⟨[], rfl, by rw [List.length_eq_zero_iff.1 length]; rfl⟩
  | succ n ih =>
    match cs with
    | hi :: lo :: cs =>
      simp only [List.forall_mem_cons] at hex
      obtain ⟨⟨h, high⟩, ⟨l, low⟩, hex⟩ := hex
      obtain ⟨b, count, rest⟩ := ih hex (by simp only [List.length_cons] at length; omega)
      refine ⟨UInt8.ofNat (16 * h + l) :: b, congrArg (· + 1) count, ?_⟩
      simp only [bytes?, byte?, (digit?_eq_some_iff (Nat.le_refl 16)).2 high,
        (digit?_eq_some_iff (Nat.le_refl 16)).2 low, rest, Option.bind_eq_bind, Option.bind_some]
      rfl

/-- Texts of whole bytes are read one after the other. -/
theorem bytes?_append_eq_some_iff (length : cs.length = 2 * b.length) :
    bytes? (cs ++ rest) = some (b ++ t) ↔ bytes? cs = some b ∧ bytes? rest = some t := by
  simp only [bytes?_eq_some_iff_nibbles, nibbles_append]
  constructor
  · intro digits
    have front := List.forall₂_take_append _ _ _ digits
    have back := List.forall₂_drop_append _ _ _ digits
    rw [length_nibbles, ← length] at front back
    rw [List.take_left] at front
    rw [List.drop_left] at back
    exact ⟨front, back⟩
  · rintro ⟨front, back⟩
    exact List.rel_append front back

/-- Groups of whole bytes are read in one run exactly when each is the numeral of its own bytes. -/
theorem bytes?_flatten_eq_some_iff {groups : List (List Char)} {parts : List Bytes}
    (lengths : groups.map List.length = parts.map fun p => 2 * p.length) (nonempty : [] ∉ parts) :
    bytes? groups.flatten = some parts.flatten ↔
      List.Forall₂ (fun ds p => IsNumeral 16 ds (leNat p.reverse)) groups parts := by
  induction parts generalizing groups with
  | nil =>
    obtain rfl := List.map_eq_nil_iff.1 lengths
    simp [bytes?]
  | cons p parts ih =>
    obtain ⟨ds, groups, rfl, length, lengths⟩ := List.map_eq_cons_iff.1 lengths
    obtain ⟨first, nonempty⟩ := not_or.1 (mt List.mem_cons.2 nonempty)
    rw [List.flatten_cons, List.flatten_cons, bytes?_append_eq_some_iff length, ih lengths nonempty,
      bytes?_eq_some_iff (Ne.symm first), List.forall₂_cons, and_iff_right length]

theorem hexBytes_eq (b : Bytes) : hexBytes b = (nibbles b).map Nat.digitChar := by
  rw [nibbles, List.map_flatMap]
  rfl

theorem length_hexBytes (b : Bytes) : (hexBytes b).length = 2 * b.length := by
  rw [hexBytes_eq, List.length_map, length_nibbles]

theorem bytes?_hexBytes (b : Bytes) : bytes? (hexBytes b) = some b := by
  rw [bytes?_eq_some_iff_nibbles, hexBytes_eq, List.forall₂_map_left_iff, List.forall₂_same]
  exact fun d hd => ⟨nibbles_lt hd, .inl rfl⟩

/-- Bytes are written as the text that they are read from, in small letters. -/
theorem map_toLower_of_bytes? (h : bytes? cs = some b) : cs.map Char.toLower = hexBytes b := by
  rw [hexBytes_eq, ← List.forall₂_eq_eq_eq, List.forall₂_map_left_iff, List.forall₂_map_right_iff]
  exact (bytes?_eq_some_iff_nibbles.1 h).imp fun _ _ => toLower_of_isDigit

end Numeral

end AccessControl
