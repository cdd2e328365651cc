import AccessControl.Meaning
import Mathlib.Data.List.Pairwise

/-!
# Looking up names and bits

A name is looked up without regard to case, and the first entry counts. In a table in which each two
entries differ in name and in bit no entry hides another, so every entry is found from its name
(`indexOf?_eq_some_iff`) and from its bit (`nameOf?_eq_some_iff`).
-/

namespace AccessControl.Meaning

variable {m : Meaning} {a b c : String} {i : Nat} {e f : String × Nat}

/-! ### Names up to case -/

theorem sameName_iff :
    sameName a b = true ↔ a.toList.map Char.toLower = b.toList.map Char.toLower :=
  Text.sameLetters_iff

theorem sameName_refl (a : String) : sameName a a = true := sameName_iff.2 rfl

theorem sameName_symm (h : sameName a b = true) : sameName b a = true :=
  sameName_iff.2 (sameName_iff.1 h).symm

theorem sameName_trans (h : sameName a b = true) (h' : sameName b c = true) :
    sameName a c = true :=
  sameName_iff.2 ((sameName_iff.1 h).trans (sameName_iff.1 h'))

/-! ### The first entry -/

/-- The table has an entry of a name, in whatever case. -/
def Lists (m : Meaning) (a : String) : Prop := ∃ e ∈ m.entries, sameName e.1 a = true

theorem exists_of_indexOf? (h : m.indexOf? a = some i) :
    ∃ e ∈ m.entries, sameName e.1 a = true ∧ e.2 = i := by
  obtain ⟨e, found, rfl⟩ := Option.map_eq_some_iff.1 h
  have same := List.find?_some found
  exact ⟨e, List.mem_of_find?_eq_some found, same, rfl⟩

theorem exists_indexOf?_iff : (∃ i, m.indexOf? a = some i) ↔ m.Lists a := by
  constructor
  · rintro ⟨i, h⟩
    obtain ⟨e, he, same, -⟩ := exists_of_indexOf? h
    exact ⟨e, he, same⟩
  · rintro ⟨e, he, same⟩
    have some : (m.entries.find? fun e => sameName e.1 a).isSome = true :=
      List.find?_isSome.2 ⟨e, he, same⟩
    obtain ⟨f, found⟩ := Option.isSome_iff_exists.1 some
    exact ⟨f.2, Option.map_eq_some_iff.2 ⟨f, found, rfl⟩⟩

theorem indexOf?_eq_none_iff : m.indexOf? a = none ↔ ¬ m.Lists a := by
  rw [← exists_indexOf?_iff, Option.eq_none_iff_forall_ne_some, not_exists]

/-! ### Tables without clashes -/

theorem apart_iff : apart e f = true ↔ sameName e.1 f.1 = false ∧ e.2 ≠ f.2 := by
  simp [apart]

theorem apart_symm (h : apart e f = true) : apart f e = true := by
  obtain ⟨names, bits⟩ := apart_iff.1 h
  refine apart_iff.2 ⟨?_, bits.symm⟩
  rw [Bool.eq_false_iff] at names ⊢
  exact fun same => names (sameName_symm same)

theorem isInjective_iff :
    m.isInjective = true ↔ m.entries.Pairwise fun e f => apart e f = true := by
  unfold isInjective
  induction m.entries with
  | nil => simp [isInjective.go]
  | cons e es ih =>
    rw [isInjective.go, Bool.and_eq_true, ih, List.all_eq_true, List.pairwise_cons]

theorem apart_of_ne (inj : m.isInjective = true) (he : e ∈ m.entries) (hf : f ∈ m.entries)
    (h : e ≠ f) : apart e f = true := by
  have : Std.Symm fun e f => apart e f = true := ⟨fun _ _ => apart_symm⟩
  exact (isInjective_iff.1 inj).forall he hf h

theorem eq_of_sameName (inj : m.isInjective = true) (he : e ∈ m.entries) (hf : f ∈ m.entries)
    (same : sameName e.1 f.1 = true) : e = f := by
  by_contra h
  have names := (apart_iff.1 (apart_of_ne inj he hf h)).1
  rw [same] at names
  cases names

theorem eq_of_index_eq (inj : m.isInjective = true) (he : e ∈ m.entries) (hf : f ∈ m.entries)
    (same : e.2 = f.2) : e = f := by
  by_contra h
  exact (apart_iff.1 (apart_of_ne inj he hf h)).2 same

theorem indexOf?_eq_some_iff (inj : m.isInjective = true) :
    m.indexOf? a = some i ↔ ∃ e ∈ m.entries, sameName e.1 a = true ∧ e.2 = i := by
  refine ⟨exists_of_indexOf?, ?_⟩
  rintro ⟨e, he, same, rfl⟩
  obtain ⟨j, found⟩ := exists_indexOf?_iff.2 ⟨e, he, same⟩
  obtain ⟨f, hf, same', rfl⟩ := exists_of_indexOf? found
  rw [found, eq_of_sameName inj he hf (sameName_trans same (sameName_symm same'))]

theorem nameOf?_eq_some_iff (inj : m.isInjective = true) :
    m.nameOf? i = some a ↔ (a, i) ∈ m.entries := by
  constructor
  · intro h
    obtain ⟨e, found, rfl⟩ := Option.map_eq_some_iff.1 h
    have bit := List.find?_some found
    rw [← beq_iff_eq.1 bit]
    exact List.mem_of_find?_eq_some found
  · intro he
    have some : (m.entries.find? fun e => e.2 == i).isSome = true :=
      List.find?_isSome.2 ⟨(a, i), he, beq_self_eq_true i⟩
    obtain ⟨f, found⟩ := Option.isSome_iff_exists.1 some
    have bit := List.find?_some found
    have eq := eq_of_index_eq inj (List.mem_of_find?_eq_some found) he (beq_iff_eq.1 bit)
    rw [nameOf?, found, eq]
    rfl

end AccessControl.Meaning
