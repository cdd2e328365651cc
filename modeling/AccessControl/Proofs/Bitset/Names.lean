import AccessControl.Bitset
import AccessControl.Proofs.Bitset.Lookup
import AccessControl.Proofs.Bytes.Fields

/-!
# Words and the names of their bits

A word is made of names one after the other, up to the first that the table does not list
(`setAll_of_lists`, `setAll_of_not_lists`). Where no two entries of the table clash, the names of a
word bring back its bits as far as the table has them, and names bring back themselves
(`ofNames_names`).
-/

namespace AccessControl.Bitset

variable {n i : Nat} {s t w : Bitset n} {m : Meaning} {a : String} {names : List String}

/-! ### Tables of words -/

/-- A table is given to a word that it fits, and changes nothing else. -/
theorem withMeaning_eq_ok_iff :
    w.withMeaning m = .ok s ↔ m.Fits n ∧ s.bits = w.bits ∧ s.table = some m := by
  constructor
  · intro h
    unfold withMeaning at h
    split at h
    next fits =>
      cases h
      exact ⟨fits, rfl, rfl⟩
    next => split at h <;> cases h
  · rintro ⟨fits, bits, table⟩
    rw [withMeaning_of_fits w fits]
    exact congrArg Except.ok (Bitset.ext bits.symm table.symm)

/-- The bits that a table names are bits of the word. -/
theorem index_lt (h : s.table = some m) (hi : m.indexOf? a = some i) : i < n := by
  obtain ⟨e, he, -, rfl⟩ := Meaning.exists_of_indexOf? hi
  exact (s.fits m h).2 e he

theorem indexOf?_eq (h : s.table = some m) (a : String) : s.indexOf? a = m.indexOf? a := by
  rw [indexOf?, h, Option.bind_some]

theorem names_eq (h : s.table = some m) :
    s.names = (m.entries.filter fun e => s.get e.2).map (·.1) := by
  simp only [names, h, ← List.filterMap_eq_map, List.filterMap_filter, Function.comp_apply]

/-! ### Setting bits by name -/

theorem exists_setNamed? (h : s.table = some m) (hi : m.indexOf? a = some i) :
    ∃ t, s.setNamed? a true = some t ∧ t.table = some m ∧
      ∀ j, t.get j = (s.get j || i == j) := by
  have room := index_lt h hi
  refine ⟨{ s with bits := putBit s.bits i true }, ?_, h, fun j => ?_⟩
  · rw [setNamed?, indexOf?_eq h, hi, Option.bind_some, set?, if_pos room]
  · simp only [get, getLsbD_putBit, room, and_true]
    by_cases same : j = i
    · simp [same]
    · simp [same, Ne.symm same]

theorem setNamed?_of_not_lists (h : s.table = some m) (unknown : ¬ m.Lists a) (value : Bool) :
    s.setNamed? a value = none := by
  rw [setNamed?, indexOf?_eq h, Meaning.indexOf?_eq_none_iff.2 unknown, Option.bind_none]

/-- Names that the table lists add their bits to the word. -/
theorem setAll_of_lists (h : s.table = some m) (known : ∀ a ∈ names, m.Lists a) :
    ∃ t, setAll m s names = .ok t ∧ t.table = some m ∧
      ∀ j, t.get j = (s.get j || names.any fun a => m.indexOf? a == some j) := by
  induction names generalizing s with
  | nil => exact ⟨s, rfl, h, by simp⟩
  | cons a names ih =>
    obtain ⟨first, known⟩ := List.forall_mem_cons.1 known
    obtain ⟨i, hi⟩ := Meaning.exists_indexOf?_iff.2 first
    obtain ⟨s', step, table, bits⟩ := exists_setNamed? h hi
    obtain ⟨t, rest, table, bits'⟩ := ih table known
    refine ⟨t, by rw [setAll, step]; exact rest, table, fun j => ?_⟩
    rw [bits', bits, List.any_cons, hi, Bool.or_assoc]
    rfl

/-- The first name that the table does not list ends it. -/
theorem setAll_of_not_lists (h : s.table = some m) (known : ∀ a ∈ names, m.Lists a)
    (unknown : ¬ m.Lists a) (more : List String) :
    setAll m s (names ++ a :: more) = .error (.invalidMeaning m.name a) := by
  induction names generalizing s with
  | nil => rw [List.nil_append, setAll, setNamed?_of_not_lists h unknown]
  | cons b names ih =>
    obtain ⟨first, known⟩ := List.forall_mem_cons.1 known
    obtain ⟨i, hi⟩ := Meaning.exists_indexOf?_iff.2 first
    obtain ⟨s', step, table, -⟩ := exists_setNamed? h hi
    rw [List.cons_append, setAll, step]
    exact ih table known

/-! ### Words of names -/

/-- The word without bits, with a table that fits it. -/
theorem exists_blank (fits : m.Fits n) :
    ∃ z : Bitset n, (ofNat n 0).withMeaning m = .ok z ∧ z.table = some m ∧
      ∀ j, z.get j = false := by
  refine ⟨⟨.ofNat n 0, some m, by simpa using fits⟩, ?_, rfl, fun j => ?_⟩
  · exact withMeaning_eq_ok_iff.2 ⟨fits, rfl, rfl⟩
  · simp [get]

theorem exists_ofNames (fits : m.Fits n) (known : ∀ a ∈ names, m.Lists a) :
    ∃ t, ofNames n m names = .ok t ∧ t.table = some m ∧
      ∀ j, t.get j = names.any fun a => m.indexOf? a == some j := by
  obtain ⟨z, blank, table, zeros⟩ := exists_blank fits
  obtain ⟨t, all, table, bits⟩ := setAll_of_lists table known
  refine ⟨t, by rw [ofNames, blank, ok_bind, all], table, fun j => ?_⟩
  rw [bits, zeros, Bool.false_or]

theorem ofNames_of_not_lists (fits : m.Fits n) (known : ∀ a ∈ names, m.Lists a)
    (unknown : ¬ m.Lists a) (more : List String) :
    ofNames n m (names ++ a :: more) = .error (.invalidMeaning m.name a) := by
  obtain ⟨z, blank, table, -⟩ := exists_blank fits
  rw [ofNames, blank, ok_bind, setAll_of_not_lists table known unknown]

/-! ### Tables without clashes -/

/-- The bits of the listed names of a word are its own, as far as the table has them. -/
theorem any_names_iff (inj : m.isInjective = true) (h : s.table = some m) {j : Nat} :
    (s.names.any fun a => m.indexOf? a == some j) = true ↔
      s.get j = true ∧ ∃ e ∈ m.entries, e.2 = j := by
  have found : ∀ e ∈ m.entries, m.indexOf? e.1 = some e.2 := fun e he =>
    (Meaning.indexOf?_eq_some_iff inj).2 ⟨e, he, Meaning.sameName_refl _, rfl⟩
  simp only [names_eq h, List.any_map, List.any_filter, List.any_eq_true, Bool.and_eq_true,
    Function.comp_apply, beq_iff_eq]
  constructor
  · rintro ⟨e, he, set, bit⟩
    rw [found e he, Option.some.injEq] at bit
    subst bit
    exact ⟨set, e, he, rfl⟩
  · rintro ⟨set, e, he, rfl⟩
    exact ⟨e, he, set, found e he⟩

/-- Names bring back the entries that they stand for. -/
theorem names_eq_filter (inj : m.isInjective = true) (h : s.table = some m)
    (bits : ∀ j, s.get j = names.any fun a => m.indexOf? a == some j) :
    s.names = (m.entries.filter fun e => names.any (Meaning.sameName e.1 ·)).map (·.1) := by
  rw [names_eq h]
  refine congrArg _ (List.filter_congr fun e he => ?_)
  rw [bits]
  refine congrArg names.any (funext fun a => ?_)
  rw [Bool.eq_iff_iff, beq_iff_eq, Meaning.indexOf?_eq_some_iff inj]
  constructor
  · rintro ⟨f, hf, same, bit⟩
    rwa [Meaning.eq_of_index_eq inj hf he bit] at same
  · intro same
    exact ⟨e, he, same, rfl⟩

theorem nodup_names (inj : m.isInjective = true) (h : s.table = some m) : s.names.Nodup := by
  rw [names_eq h, List.Nodup, List.pairwise_map]
  refine ((Meaning.isInjective_iff.1 inj).imp fun {e f} apart same => ?_).filter _
  have names := (Meaning.apart_iff.1 apart).1
  rw [same, Meaning.sameName_refl] at names
  cases names

/-- In a table whose entries differ in name and in bit, names and bits are looked up to each other,
up to case. The names of a word bring back those of its bits that the table has. A list of names
fails with the first that the table does not list, and else makes a word that is named by the
entries the list stands for, in the order of the table and each once. -/
theorem ofNames_names (inj : m.isInjective = true) (h : w.withMeaning m = .ok s) :
    (∀ a i, m.indexOf? a = some i ↔
      ∃ b, m.nameOf? i = some b ∧ Meaning.sameName b a = true) ∧
    (∃ t, ofNames n m s.names = .ok t ∧
      ∀ j, t.get j = true ↔ w.get j = true ∧ ∃ e ∈ m.entries, e.2 = j) ∧
    (∀ names a more, (∀ b ∈ names, m.Lists b) → ¬ m.Lists a →
      ofNames n m (names ++ a :: more) = .error (.invalidMeaning m.name a)) ∧
    ∀ names, (∀ a ∈ names, m.Lists a) → ∃ t, ofNames n m names = .ok t ∧
      t.names = (m.entries.filter fun e => names.any (Meaning.sameName e.1 ·)).map (·.1) ∧
      t.names.Nodup := by
  obtain ⟨fits, bits, table⟩ := withMeaning_eq_ok_iff.1 h
  refine ⟨fun a i => ?_, ?_, fun names a more known unknown => ?_, fun names known => ?_⟩
  · rw [Meaning.indexOf?_eq_some_iff inj]
    simp only [Meaning.nameOf?_eq_some_iff inj]
    constructor
    · rintro ⟨e, he, same, rfl⟩
      exact ⟨e.1, he, same⟩
    · rintro ⟨b, he, same⟩
      exact ⟨(b, i), he, same, rfl⟩
  · have known : ∀ a ∈ s.names, m.Lists a := by
      intro a ha
      rw [names_eq table] at ha
      obtain ⟨e, he, rfl⟩ := List.mem_map.1 ha
      exact ⟨e, (List.mem_filter.1 he).1, Meaning.sameName_refl _⟩
    obtain ⟨t, made, -, back⟩ := exists_ofNames fits known
    refine ⟨t, made, fun j => ?_⟩
    rw [back, any_names_iff inj table, get, get, bits]
  · exact ofNames_of_not_lists fits known unknown more
  · obtain ⟨t, made, table, back⟩ := exists_ofNames fits known
    exact ⟨t, made, names_eq_filter inj table back, nodup_names inj table⟩

/-- A bit without a name is not brought back, and names count once, in the order of the table. -/
theorem ofNames_names_doubled :
    let m : Meaning := ⟨"narrow", 8, [("LOW", 0), ("HIGH", 7)]⟩
    ∃ s, m.isInjective = true ∧ (ofNat 8 0x83).withMeaning m = .ok s ∧
      (∃ t, ofNames 8 m s.names = .ok t ∧ t.get 7 = true ∧ ¬ t.get 1 = true) ∧
      ofNames 8 m ["high", "MIDDLE", "TOP"] = .error (.invalidMeaning "narrow" "MIDDLE") ∧
      ∃ t, ofNames 8 m ["high", "low", "HIGH"] = .ok t ∧ t.names = ["LOW", "HIGH"] := by
  intro m
  have inj : m.isInjective = true := by rfl
  have fits : m.Fits 8 := by decide
  let s : Bitset 8 := ⟨.ofNat 8 0x83, some m, by simpa using fits⟩
  have h : (ofNat 8 0x83).withMeaning m = .ok s := withMeaning_eq_ok_iff.2 ⟨fits, rfl, rfl⟩
  have low : m.Lists "low" := ⟨("LOW", 0), .head _, by rfl⟩
  have high : m.Lists "high" := ⟨("HIGH", 7), .tail _ (.head _), by rfl⟩
  have HIGH : m.Lists "HIGH" := ⟨("HIGH", 7), .tail _ (.head _), by rfl⟩
  have middle : ¬ m.Lists "MIDDLE" := Meaning.indexOf?_eq_none_iff.1 (by rfl)
  obtain ⟨-, ⟨t, back, bits⟩, fails, makes⟩ := ofNames_names inj h
  obtain ⟨t', made, names, -⟩ := makes ["high", "low", "HIGH"] (by simp [low, high, HIGH])
  refine ⟨s, inj, h, ⟨t, back, (bits 7).2 ⟨by decide, by decide⟩, ?_⟩, ?_, t', made, ?_⟩
  · intro set
    exact absurd ((bits 1).1 set).2 (by decide)
  · exact fails ["high"] "MIDDLE" ["TOP"] (by simp [high]) middle
  · rw [names]
    rfl

end AccessControl.Bitset
