import AccessControl.Guid
import AccessControl.Proofs.Bytes.Fields
import AccessControl.Proofs.Text.Hex
import Mathlib.Data.List.SplitLengths

/-!
# The text of a GUID

The grammar of the text is stated without the reader. `IsGrouped` is its form, five groups of
hexadecimal digits; `Spelled` says besides which GUID it stands for, the groups being the numerals
of five numbers. The reader takes these texts and no others (`ofChars?_eq_some_iff`). Among the
texts of one GUID the writer chooses the one in small letters without braces (`Spelled.chars_eq`).
-/

namespace AccessControl

open Numeral

namespace Guid

variable {g : Guid} {cs inner : List Char} {b : Bytes}

/-! ### The grammar -/

/-- A text, or the same with one pair of braces around it. -/
def Enclosed (inner cs : List Char) : Prop := cs = inner ∨ cs = '\x7b' :: (inner ++ ['\x7d'])

/-- Five groups of 8, 4, 4, 4 and 12 hexadecimal digits, with a dash between each two. -/
def IsGrouped (cs : List Char) : Prop :=
  ∃ groups : List (List Char), groups.map List.length = [8, 4, 4, 4, 12] ∧
    (∀ ds ∈ groups, ∀ c ∈ ds, IsHexDigit c) ∧ cs = ['-'].intercalate groups

/-- The numbers that the groups stand for: three whose low byte comes first on the wire, and two
whose high byte does. -/
def numbers (g : Guid) : List Nat :=
  [numberAt g.bytes 0 4, numberAt g.bytes 4 2, numberAt g.bytes 6 2,
    leNat ((g.bytes.drop 8).take 2).reverse, leNat (g.bytes.drop 10).reverse]

/-- A text of five groups that are the numerals of the numbers of a GUID. -/
def Spelled (g : Guid) (cs : List Char) : Prop :=
  ∃ groups : List (List Char), groups.map List.length = [8, 4, 4, 4, 12] ∧
    List.Forall₂ (IsNumeral 16) groups g.numbers ∧ cs = ['-'].intercalate groups

/-! ### The order of the bytes -/

/-- The bytes that the groups are written from, the high byte of each number first. -/
def parts (b : Bytes) : List Bytes :=
  [(b.take 4).reverse, ((b.drop 4).take 2).reverse, ((b.drop 6).take 2).reverse,
    (b.drop 8).take 2, b.drop 10]

theorem swapGroups_eq (long : 8 ≤ b.length) : swapGroups b = (parts b).flatten := by
  match b, long with
  | b0 :: b1 :: b2 :: b3 :: b4 :: b5 :: b6 :: b7 :: rest, _ => simp [swapGroups, parts]

theorem map_length_parts (h : b.length = 16) : (parts b).map List.length = [4, 2, 2, 2, 6] := by
  simp [parts, h]

theorem numbers_eq (g : Guid) : g.numbers = (parts g.bytes).map fun p => leNat p.reverse := by
  simp [numbers, parts, numberAt]

theorem swapGroups_bytes (g : Guid) : swapGroups g.bytes = (parts g.bytes).flatten :=
  swapGroups_eq (by rw [g.length_bytes]; decide)

theorem length_swapGroups_bytes (g : Guid) : (swapGroups g.bytes).length = 16 :=
  (length_swapGroups g.bytes).trans g.length_bytes

theorem ofBytes?_swapGroups_eq_some_iff :
    ofBytes? (swapGroups b) = some g ↔ b = swapGroups g.bytes := by
  unfold ofBytes?
  constructor
  · intro h
    split at h
    · obtain rfl := Option.some.inj h
      exact (swapGroups_swapGroups b).symm
    · cases h
  · rintro rfl
    simp only [swapGroups_swapGroups, g.length_bytes, dif_pos]

/-! ### Reading -/

/-- The digits of all groups together stand for the bytes in the order of text. -/
theorem spelled_iff : g.Spelled cs ↔
    ∃ groups : List (List Char), groups.map List.length = [8, 4, 4, 4, 12] ∧
      bytes? groups.flatten = some (swapGroups g.bytes) ∧ cs = ['-'].intercalate groups := by
  refine exists_congr fun groups => and_congr_right fun lengths => and_congr_left fun _ => ?_
  have sizes := map_length_parts g.length_bytes
  -- two digits for each byte
  have twice : groups.map List.length = (parts g.bytes).map fun p => 2 * p.length := by
    have doubled := congrArg (List.map (2 * ·)) sizes
    rw [List.map_map] at doubled
    exact lengths.trans doubled.symm
  have nonempty : [] ∉ parts g.bytes := by
    intro h
    have zero := List.mem_map_of_mem (f := List.length) h
    rw [sizes] at zero
    simp at zero
  rw [swapGroups_bytes, bytes?_flatten_eq_some_iff twice nonempty, numbers_eq,
    List.forall₂_map_right_iff]

/-- Whatever the digits of a text of the form, there is a GUID that it stands for. -/
theorem isGrouped_iff : IsGrouped cs ↔ ∃ g : Guid, g.Spelled cs := by
  simp only [spelled_iff]
  constructor
  · rintro ⟨groups, lengths, hex, layout⟩
    have length : groups.flatten.length = 2 * 16 := by
      rw [List.length_flatten, lengths]
      rfl
    have digits : ∀ c ∈ groups.flatten, IsHexDigit c := by
      intro c hc
      obtain ⟨ds, hds, hc⟩ := List.mem_flatten.1 hc
      exact hex ds hds c hc
    obtain ⟨b, hb, read⟩ := exists_bytes? digits length
    refine ⟨⟨swapGroups b, (length_swapGroups b).trans hb⟩, groups, lengths, ?_, layout⟩
    rwa [swapGroups_swapGroups]
  · rintro ⟨g, groups, lengths, read, layout⟩
    refine ⟨groups, lengths, fun ds hds c hc => ?_, layout⟩
    exact isHexDigit_of_bytes? read c (List.mem_flatten_of_mem hds hc)

/-- Nothing but digits and dashes stands in a text of the form. -/
theorem IsGrouped.not_mem {c : Char} (h : IsGrouped cs) (dash : c ≠ '-')
    (digit : digit? 16 c = none) : c ∉ cs := by
  obtain ⟨groups, -, hex, rfl⟩ := h
  intro hc
  rw [← Text.joined_eq_intercalate] at hc
  rcases Text.mem_joined hc with rfl | ⟨ds, hds, hc⟩
  · exact dash rfl
  · exact not_isHexDigit digit (hex ds hds c hc)

theorem ofChars?_eq_some_iff : ofChars? cs = some g ↔ g.Spelled (unbraced cs) := by
  have steps : ofChars? cs = some g ↔
      (Text.fields '-' (unbraced cs)).map List.length = groupLengths ∧
        bytes? (Text.fields '-' (unbraced cs)).flatten = some (swapGroups g.bytes) := by
    simp [ofChars?, Option.bind_eq_some_iff, guard, ofBytes?_swapGroups_eq_some_iff]
  rw [steps, spelled_iff]
  constructor
  · rintro ⟨lengths, read⟩
    refine ⟨_, lengths, read, ?_⟩
    rw [← Text.joined_eq_intercalate, Text.joined_fields]
  · rintro ⟨groups, lengths, read, layout⟩
    have nonempty : groups ≠ [] := by
      rintro rfl
      cases lengths
    -- a dash inside a group would be found as a separator
    have dashless : ∀ ds ∈ groups, '-' ∉ ds := fun ds hds hc =>
      not_isHexDigit rfl (isHexDigit_of_bytes? read _ (List.mem_flatten_of_mem hds hc))
    rw [layout, ← Text.joined_eq_intercalate, Text.fields_joined nonempty dashless]
    exact ⟨lengths, read⟩

/-! ### Braces -/

theorem enclosed_unbraced (cs : List Char) : Enclosed (unbraced cs) cs := by
  unfold unbraced
  split
  next inner =>
    split
    next last =>
      have ne : inner ≠ [] := by
        rintro rfl
        cases last
      right
      rw [List.getLast?_eq_some_getLast ne] at last
      rw [← Option.some.inj last, List.dropLast_append_getLast]
    next => exact .inl rfl
  next => exact .inl rfl

/-- Of a text that no brace stands in, the braces around it are taken off. -/
theorem Enclosed.unbraced_eq (h : Enclosed inner cs) (brace : '\x7b' ∉ inner) :
    unbraced cs = inner := by
  rcases h with rfl | rfl
  · unfold unbraced
    split
    next => exact absurd List.mem_cons_self brace
    next => rfl
  · simp [unbraced]

/-- The text that the reader finds between braces is the one that the form is asked of. -/
theorem exists_enclosed_iff (cs : List Char) {P : List Char → Prop}
    (grouped : ∀ inner, P inner → IsGrouped inner) :
    (∃ inner, Enclosed inner cs ∧ P inner) ↔ P (unbraced cs) := by
  constructor
  · rintro ⟨inner, enclosed, h⟩
    rwa [enclosed.unbraced_eq ((grouped inner h).not_mem (by decide) rfl)]
  · intro h
    exact ⟨_, enclosed_unbraced cs, h⟩

/-! ### Writing -/

theorem splitLengths_eq (ns : List Nat) (cs : List Char) :
    splitLengths ns cs = ns.splitLengths cs := by
  induction ns generalizing cs with
  | nil => rfl
  | cons n ns ih => rw [splitLengths, List.splitLengths_cons, ih]

theorem splitLengths_flatten {ns : List Nat} {groups : List (List Char)}
    (h : groups.map List.length = ns) : splitLengths ns groups.flatten = groups := by
  have sum : groups.flatten.length = ns.sum := by rw [List.length_flatten, h]
  rw [splitLengths_eq, List.eq_iff_flatten_eq, h]
  exact ⟨List.flatten_splitLengths _ _ sum.le, List.map_splitLengths_length _ _ sum.ge⟩

/-- A GUID is written as any of its texts without braces, in small letters. -/
theorem Spelled.chars_eq (h : g.Spelled cs) : g.chars = cs.map Char.toLower := by
  obtain ⟨groups, lengths, read, rfl⟩ := spelled_iff.1 h
  have same : (groups.map (List.map Char.toLower)).map List.length = groupLengths := by
    rw [List.map_map]
    exact (List.map_congr_left fun ds _ => List.length_map _).trans lengths
  rw [chars, ← map_toLower_of_bytes? read, List.map_flatten, splitLengths_flatten same,
    ← Text.joined_eq_intercalate, Text.map_joined rfl]

/-- What a GUID is written as is a text of it. -/
theorem spelled_chars (g : Guid) : g.Spelled g.chars := by
  have length : (hexBytes (swapGroups g.bytes)).length = groupLengths.sum := by
    rw [length_hexBytes, length_swapGroups_bytes]
    rfl
  refine spelled_iff.2 ⟨splitLengths groupLengths (hexBytes (swapGroups g.bytes)), ?_, ?_, ?_⟩
  · rw [splitLengths_eq]
    exact List.map_splitLengths_length _ _ length.ge
  · rw [splitLengths_eq, List.flatten_splitLengths _ _ length.le, bytes?_hexBytes]
  · rw [chars, Text.joined_eq_intercalate]

/-! ### The reader of texts -/

theorem parse_eq_ok_iff {t : String} : parse t = .ok g ↔ g.Spelled (unbraced t.toList) := by
  rw [← ofChars?_eq_some_iff, parse]
  cases ofChars? t.toList with
  | none => simp
  | some g' => simp

theorem parse_eq_error_iff {t : String} {e : Error} :
    parse t = .error e ↔ e = .malformedGuid ∧ ¬IsGrouped (unbraced t.toList) := by
  simp only [isGrouped_iff, ← ofChars?_eq_some_iff, parse]
  cases ofChars? t.toList with
  | none => simp [eq_comm]
  | some g' => simp

theorem parse_text (g : Guid) : parse g.text = .ok g := by
  have written := g.spelled_chars
  have braceless : unbraced g.chars = g.chars :=
    Enclosed.unbraced_eq (.inl rfl) ((isGrouped_iff.2 ⟨g, written⟩).not_mem (by decide) rfl)
  rw [parse_eq_ok_iff, text, String.toList_ofList, braceless]
  exact written

/-- GUIDs are told apart by their texts. -/
theorem text_inj {g g' : Guid} : g.text = g'.text ↔ g = g' := by
  refine ⟨fun same => ?_, congrArg text⟩
  have read := g.parse_text
  rw [same, parse_text] at read
  exact (Except.ok.inj read).symm

/-- A text of the form is of the GUID that is written as the same text in small letters. -/
theorem spelled_iff_text : g.Spelled cs ↔
    IsGrouped cs ∧ g.text = .ofList (cs.map Char.toLower) := by
  constructor
  · intro h
    exact ⟨isGrouped_iff.2 ⟨g, h⟩, congrArg String.ofList h.chars_eq⟩
  · rintro ⟨grouped, written⟩
    obtain ⟨g', h⟩ := isGrouped_iff.1 grouped
    have same : g'.text = g.text := (congrArg String.ofList h.chars_eq).trans written.symm
    rwa [← text_inj.1 same]

/-- The reader takes the texts of the form, in braces or not, and fails on the others. What it reads
is written as the text between the braces, in small letters; the groups are the numerals of its
numbers. And every GUID is read from what it is written as. -/
theorem parse_iff_grouped :
    (∀ t : String,
      ((∃ g, parse t = .ok g) ↔ ∃ inner, Enclosed inner t.toList ∧ IsGrouped inner) ∧
      (∀ g, parse t = .ok g ↔ ∃ inner, Enclosed inner t.toList ∧
        IsGrouped inner ∧ g.text = .ofList (inner.map Char.toLower)) ∧
      (∀ g, parse t = .ok g ↔ ∃ inner, Enclosed inner t.toList ∧ g.Spelled inner) ∧
      ∀ e, parse t = .error e ↔
        e = .malformedGuid ∧ ¬∃ inner, Enclosed inner t.toList ∧ IsGrouped inner) ∧
    ∀ g : Guid, parse g.text = .ok g := by
  refine ⟨fun t => ?_, parse_text⟩
  have grouped := exists_enclosed_iff t.toList fun _ (h : IsGrouped _) => h
  have spelled (g : Guid) := exists_enclosed_iff t.toList fun _ (h : g.Spelled _) =>
    isGrouped_iff.2 ⟨g, h⟩
  refine ⟨?_, fun g => ?_, fun g => ?_, fun e => ?_⟩
  · rw [grouped, isGrouped_iff]
    exact exists_congr fun g => parse_eq_ok_iff
  · simp only [← spelled_iff_text, spelled, parse_eq_ok_iff]
  · rw [spelled, parse_eq_ok_iff]
  · rw [grouped, parse_eq_error_iff]

end Guid

end AccessControl
