import AccessControl.Proofs.Bitset.Names
import AccessControl.Proofs.Text.Canonical

/-!
# Words as text

A word is described by the names of its set bits, and a number for those that the table has no entry
for (`Meaning.describe`). The text of a word has for its number the bits that none of the names is
looked up to. That is the same in every table without clashes, and `text_eq_describe_iff` says for
which words and for which tables it is not.
-/

namespace AccessControl

/-- Names, and a number in hexadecimal where it has bits or where there are no names. -/
def listing {n : Nat} (names : List String) (rest : BitVec n) : String :=
  " | ".intercalate (names ++
    if rest ≠ 0 ∨ names = [] then ["0x" ++ String.ofList (Numeral.hex rest.toNat)] else [])

namespace Meaning

variable {n : Nat}

/-- The names of the set bits of a word, in the order of the table. -/
def namesOf (m : Meaning) (w : BitVec n) : List String :=
  (m.entries.filter fun e => w.getLsbD e.2).map (·.1)

/-- The bits of a word that the table has no entry for. -/
def unlisted (m : Meaning) (w : BitVec n) : BitVec n :=
  m.entries.foldr (fun e rest => putBit rest e.2 false) w

/-- The names of the set bits that the table has, and the others as a number. -/
def describe (m : Meaning) (w : BitVec n) : String := listing (m.namesOf w) (m.unlisted w)

end Meaning

theorem getLsbD_clearBit {n : Nat} (w : BitVec n) (i j : Nat) :
    (putBit w i false).getLsbD j = (w.getLsbD j && j != i) := by
  rw [getLsbD_putBit]
  by_cases same : j = i
  · subst same
    by_cases room : j < n
    · simp [room]
    · simp [room, BitVec.getLsbD_of_ge w j (Nat.not_lt.1 room)]
  · simp [same]

theorem Meaning.getLsbD_unlisted {n : Nat} (m : Meaning) (w : BitVec n) (i : Nat) :
    (m.unlisted w).getLsbD i = true ↔ w.getLsbD i = true ∧ ∀ e ∈ m.entries, e.2 ≠ i := by
  unfold unlisted
  induction m.entries with
  | nil => simp
  | cons e es ih =>
    rw [List.foldr_cons, getLsbD_clearBit, Bool.and_eq_true, ih, List.forall_mem_cons, bne_iff_ne,
      and_assoc, and_comm (b := i ≠ e.2), ne_comm (a := i)]

theorem eq_of_hexText_eq {n : Nat} {v w : BitVec n}
    (h : "0x" ++ String.ofList (Numeral.hex v.toNat) =
      "0x" ++ String.ofList (Numeral.hex w.toNat)) : v = w := by
  rw [String.append_right_inj, String.ofList_inj, Numeral.hex, Numeral.hex,
    Numeral.toDigits_inj (by decide) (Nat.le_refl 16)] at h
  exact BitVec.eq_of_toNat_eq h

theorem listing_of_ne_nil {n : Nat} {names : List String} (h : names ≠ []) (w : BitVec n) :
    listing names w = " | ".intercalate names ++
      if w = 0 then "" else " | " ++ ("0x" ++ String.ofList (Numeral.hex w.toNat)) := by
  unfold listing
  by_cases zero : w = 0
  · simp [zero, h]
  · simp only [zero, ne_eq, not_false_eq_true, true_or, if_true, if_false]
    rw [String.intercalate_append_of_ne_nil h (List.cons_ne_nil _ _),
      String.intercalate_singleton, String.append_assoc]

/-- The number can be read off the text, if there is one. -/
theorem listing_inj {n : Nat} {names : List String} {v w : BitVec n} :
    listing names v = listing names w ↔ v = w := by
  refine ⟨fun h => ?_, congrArg _⟩
  by_cases none : names = []
  · subst none
    simp only [listing, or_true, if_true, List.nil_append, String.intercalate_singleton] at h
    exact eq_of_hexText_eq h
  · rw [listing_of_ne_nil none, listing_of_ne_nil none, String.append_right_inj] at h
    split_ifs at h with hv hw hw
    · rw [hv, hw]
    · simp at h
    · simp at h
    · exact eq_of_hexText_eq ((String.append_right_inj _).1 h)

namespace Bitset

variable {n : Nat} {s w : Bitset n} {m : Meaning}

theorem getLsbD_clearNamed (s : Bitset n) (names : List String) (i : Nat) :
    (s.clearNamed names).getLsbD i = true ↔
      s.get i = true ∧ ∀ a ∈ names, s.indexOf? a ≠ some i := by
  induction names with
  | nil => simp [clearNamed, get]
  | cons a names ih =>
    rw [clearNamed, List.forall_mem_cons]
    cases s.indexOf? a with
    | none => simp [ih]
    | some j =>
      simp only [getLsbD_clearBit, Bool.and_eq_true, ih, bne_iff_ne, ne_eq, Option.some.injEq]
      rw [and_assoc, and_comm (b := ¬ i = j), eq_comm (a := i)]

theorem namesOf_eq (h : s.table = some m) : m.namesOf s.bits = s.names := (names_eq h).symm

/-- What is left of a word when the names have been written: the bits that none of the names that
were written is looked up to. -/
theorem exists_rest (h : s.table = some m) :
    ∃ rest : BitVec n, s.text = listing (m.namesOf s.bits) rest ∧
      ∀ i, rest.getLsbD i = true ↔ s.get i = true ∧
        ∀ e ∈ m.entries, s.get e.2 = true → m.indexOf? e.1 ≠ some i := by
  refine ⟨s.clearNamed s.names, by rw [namesOf_eq h]; rfl, fun i => ?_⟩
  rw [getLsbD_clearNamed, names_eq h]
  simp only [List.forall_mem_map, List.mem_filter, and_imp, indexOf?_eq h]

/-- The text is the one that describes the word exactly when each set bit of the table is what one
of the names that are written is looked up to. -/
theorem text_eq_iff (h : s.table = some m) :
    s.text = m.describe s.bits ↔ ∀ e ∈ m.entries, s.get e.2 = true →
      ∃ f ∈ m.entries, s.get f.2 = true ∧ m.indexOf? f.1 = some e.2 := by
  obtain ⟨rest, text, bits⟩ := exists_rest h
  rw [text, Meaning.describe, listing_inj]
  constructor
  · rintro rfl e he set
    have named : (m.unlisted s.bits).getLsbD e.2 ≠ true := fun unlisted =>
      ((m.getLsbD_unlisted _ _).1 unlisted).2 e he rfl
    rw [ne_eq, bits] at named
    by_contra none
    push Not at none
    exact named ⟨set, fun f hf set' => none f hf set'⟩
  · intro found
    refine BitVec.eq_of_getLsbD_eq fun i _ => ?_
    rw [Bool.eq_iff_iff, bits, m.getLsbD_unlisted]
    refine and_congr_right fun set => ⟨fun unnamed e he bit => ?_, fun unlisted f _ _ bit => ?_⟩
    · subst bit
      obtain ⟨f, hf, set', bit⟩ := found e he set
      exact unnamed f hf set' bit
    · obtain ⟨e, he, -, rfl⟩ := Meaning.exists_of_indexOf? bit
      exact unlisted e he rfl

/-- A word whose only bit is one that the table names. -/
theorem exists_single (fits : m.Fits n) {e : String × Nat} (he : e ∈ m.entries) :
    ∃ w s : Bitset n, w.withMeaning m = .ok s ∧ ∀ i, s.get i = true ↔ i = e.2 := by
  have room : e.2 < n := fits.2 e he
  refine ⟨⟨.twoPow n e.2, none, by simp⟩, ⟨.twoPow n e.2, some m, by simpa using fits⟩,
    withMeaning_eq_ok_iff.2 ⟨fits, rfl, rfl⟩, fun i => ?_⟩
  simp [get, BitVec.getLsbD_twoPow, room, eq_comm]

/-- The text of a word gives the names of its set bits in the order of the table, and then the set
bits that none of these names is looked up to, as a number where there are any or no name was
written. For a word that describes it exactly when each of its bits that the table has is what one
of these names is looked up to, and for all words of a table exactly when each of its bits has a
name that is looked up to it. So it is in every table without clashes. -/
theorem text_eq_describe_iff (h : w.withMeaning m = .ok s) :
    (∃ rest : BitVec n, s.text = listing (m.namesOf w.bits) rest ∧
      ∀ i, rest.getLsbD i = true ↔ w.get i = true ∧
        ∀ e ∈ m.entries, w.get e.2 = true → m.indexOf? e.1 ≠ some i) ∧
    (s.text = m.describe w.bits ↔ ∀ e ∈ m.entries, w.get e.2 = true →
      ∃ f ∈ m.entries, w.get f.2 = true ∧ m.indexOf? f.1 = some e.2) ∧
    ((∀ v t : Bitset n, v.withMeaning m = .ok t → t.text = m.describe v.bits) ↔
      ∀ e ∈ m.entries, ∃ f ∈ m.entries, f.2 = e.2 ∧ m.indexOf? f.1 = some e.2) ∧
    (m.isInjective = true → s.text = m.describe w.bits) := by
  obtain ⟨fits, bits, table⟩ := withMeaning_eq_ok_iff.1 h
  have all : (∀ v t : Bitset n, v.withMeaning m = .ok t → t.text = m.describe v.bits) ↔
      ∀ e ∈ m.entries, ∃ f ∈ m.entries, f.2 = e.2 ∧ m.indexOf? f.1 = some e.2 := by
    constructor
    · intro described e he
      obtain ⟨v, t, given, single⟩ := exists_single fits he
      obtain ⟨-, same, table⟩ := withMeaning_eq_ok_iff.1 given
      have text := described v t given
      rw [← same, text_eq_iff table] at text
      obtain ⟨f, hf, set, bit⟩ := text e he ((single _).2 rfl)
      exact ⟨f, hf, (single _).1 set, bit⟩
    · intro found v t given
      obtain ⟨-, same, table⟩ := withMeaning_eq_ok_iff.1 given
      rw [← same, text_eq_iff table]
      intro e he set
      obtain ⟨f, hf, own, bit⟩ := found e he
      exact ⟨f, hf, own ▸ set, bit⟩
  have get_eq (i : Nat) : s.get i = w.get i := by rw [get, get, bits]
  refine ⟨?_, ?_, all, fun inj => ?_⟩
  · simpa only [bits, get_eq] using exists_rest table
  · simpa only [bits, get_eq] using text_eq_iff table
  · refine all.2 (fun e he => ⟨e, he, rfl, ?_⟩) w s h
    exact (Meaning.indexOf?_eq_some_iff inj).2 ⟨e, he, Meaning.sameName_refl _, rfl⟩

/-- Two names that are set, and a bit that has none. -/
theorem text_eq_describe_iff_narrow :
    let m : Meaning := ⟨"narrow", 8, [("LOW", 0), ("HIGH", 7)]⟩
    ∃ s : Bitset 8, (ofNat 8 0x83).withMeaning m = .ok s ∧ m.isInjective = true ∧
      s.text = m.describe (0x83 : BitVec 8) ∧
      m.describe (0x83 : BitVec 8) = "LOW | HIGH | 0x2" := by
  intro m
  have fits : m.Fits 8 := by decide
  let s : Bitset 8 := ⟨.ofNat 8 0x83, some m, by simpa using fits⟩
  have h : (ofNat 8 0x83).withMeaning m = .ok s := withMeaning_eq_ok_iff.2 ⟨fits, rfl, rfl⟩
  have inj : m.isInjective = true := by rfl
  exact ⟨s, h, inj, (text_eq_describe_iff h).2.2.2 inj, by decide +kernel⟩

/-- Where two bits have the same name up to case, the second is named and given as a number too. -/
theorem text_of_shared_name :
    let m : Meaning := ⟨"shared", 8, [("A", 0), ("a", 1)]⟩
    ∃ s : Bitset 8, (ofNat 8 2).withMeaning m = .ok s ∧ s.text = "a | 0x2" ∧
      m.nameOf? 1 = some "a" ∧ m.describe (2 : BitVec 8) = "a" := by
  intro m
  have fits : m.Fits 8 := by decide
  let s : Bitset 8 := ⟨.ofNat 8 2, some m, by simpa using fits⟩
  exact ⟨s, withMeaning_eq_ok_iff.2 ⟨fits, rfl, rfl⟩, by decide +kernel +revert, by rfl, by rfl⟩

end Bitset
end AccessControl
