import AccessControl.Proofs.Sid.Text
import AccessControl.Proofs.Sid.Wire
import AccessControl.Proofs.Text.Canonical

/-!
# The text that a SID is written as

Many texts are read as the same SID. One of them is canonical, with numerals that have no zeros in
front; it is the one that is written (`canonical_iff`), and it is read as the SID it was written
from.
-/

namespace AccessControl

open Numeral

namespace Authority

variable {cs : List Char} {a : Authority}

/-- The canonical text of an authority: in decimal where 32 bits hold it, and else in hexadecimal
after `0x`. -/
def Canonical (a : Authority) (cs : List Char) : Prop :=
  (a.toNat < 2 ^ 32 ∧ IsCanonical 10 cs a.toNat) ∨
    (2 ^ 32 ≤ a.toNat ∧ ∃ ds, cs = '0' :: 'x' :: ds ∧ IsCanonical 16 ds a.toNat)

theorem canonical_iff : a.Canonical cs ↔ cs = a.chars := by
  have size : UInt32.size = 2 ^ 32 := rfl
  simp only [Canonical, isCanonical_decimal_iff, isCanonical_upperHex_iff, exists_eq_right, chars,
    size]
  by_cases h : a.toNat < 2 ^ 32
  · simp only [h, Nat.not_le.2 h, if_true, true_and, false_and, or_false]
  · simp only [h, Nat.not_lt.1 h, if_false, true_and, false_and, false_or]

theorem Canonical.spelled (h : a.Canonical cs) : a.Spelled IsNumeral cs := by
  rcases h with ⟨-, numeral, -⟩ | ⟨-, ds, rfl, numeral, -⟩
  · exact .inl numeral
  · exact .inr ⟨'x', ds, .inl rfl, rfl, numeral⟩

end Authority

namespace Sid

variable {cs : List Char} {s : Sid}

/-- The canonical text of a SID: `S-1-`, the authority, and each sub-authority after a dash. -/
def Canonical (s : Sid) (cs : List Char) : Prop :=
  ∃ authority subs, s.authority.Canonical authority ∧
    List.Forall₂ (fun ds n => IsCanonical 10 ds (UInt32.toNat n)) subs s.subAuthorities ∧
    cs = ['S', '-', '1', '-'] ++ authority ++ subs.flatMap ('-' :: ·)

/-- The text starts with the revision, which is one. -/
theorem chars_eq (s : Sid) : s.chars = ['S', '-', '1', '-'] ++ s.authority.chars ++
    s.subAuthorities.flatMap fun n => '-' :: decimal n.toNat := by
  rw [chars, s.revision_eq]
  rfl

/-- A SID is written as its canonical text. -/
theorem canonical_iff : s.Canonical cs ↔ cs = s.chars := by
  have written : ∀ subs,
      List.Forall₂ (fun ds n => IsCanonical 10 ds (UInt32.toNat n)) subs s.subAuthorities ↔
        subs = s.subAuthorities.map fun n => decimal n.toNat := by
    intro subs
    simp only [isCanonical_decimal_iff, ← List.forall₂_eq_eq_eq, List.forall₂_map_right_iff]
  simp only [Canonical, written, Authority.canonical_iff]
  constructor
  · rintro ⟨_, _, rfl, rfl, rfl⟩
    rw [List.flatMap_map, chars_eq]
  · rintro rfl
    exact ⟨_, _, rfl, rfl, by rw [List.flatMap_map, chars_eq]⟩

theorem isNumeral_onlyRevision : IsNumeral 10 ['1'] onlyRevision.toNat :=
  ⟨[1], List.cons_ne_nil _ _, .cons ⟨by decide, .inl rfl⟩ .nil, rfl⟩

theorem isNumeral_revision (s : Sid) : IsNumeral 10 ['1'] s.revision.toNat := by
  rw [s.revision_eq]
  exact isNumeral_onlyRevision

/-- The canonical text has the documented layout. -/
theorem Canonical.spelled (h : s.Canonical cs) : s.parts.Spelled IsNumeral cs := by
  obtain ⟨authority, subs, ha, hsubs, rfl⟩ := h
  exact ⟨'S', ['1'], authority, subs, .inl rfl, s.isNumeral_revision, ha.spelled,
    hsubs.imp fun _ _ h => h.1, rfl⟩

theorem parse_of_canonical {t : String} (h : s.Canonical t.toList) : parse t = .ok s :=
  parse_eq_ok_iff.2 (SidParts.spelled_isNumeral_iff.1 h.spelled).2

theorem chars_inj {s' : Sid} : s.chars = s'.chars ↔ s = s' := by
  refine ⟨fun same => ?_, congrArg chars⟩
  have read (r : Sid) : parse (String.ofList r.chars) = .ok r :=
    parse_of_canonical (canonical_iff.2 String.toList_ofList)
  have both := read s
  rw [same, read s'] at both
  exact (Except.ok.inj both).symm

/-- A text of a SID has no parentheses. -/
theorem paren_not_mem_chars (s : Sid) : ')' ∉ s.chars := by
  have decimals (n : Nat) : ')' ∉ decimal n :=
    (isNumeral_toDigits (by decide) n).not_mem (by decide) rfl
  have authority : ')' ∉ s.authority.chars := by
    rw [Authority.chars]
    split
    next => exact decimals _
    next =>
      have numeral : IsNumeral 16 (upperHex s.authority.toNat) s.authority.toNat :=
        (isCanonical_upperHex_iff.2 rfl).1
      simpa using numeral.not_mem (by decide) rfl
  simp [chars_eq, authority, decimals]

/-- A SID is read from the text that it is written as, which is its canonical one and no other
SID's. Text, value and bytes agree: the bytes of what is read stand for the same text. -/
theorem parse_text_canonical (s : Sid) :
    parse s.text = .ok s ∧ (∀ t : String, t = s.text ↔ s.Canonical t.toList) ∧
      (∀ s' : Sid, s'.text = s.text ↔ s' = s) ∧
      (do return (← decode (← parse s.text).encode).text : Except Error String) = .ok s.text := by
  have canonical : ∀ t : String, t = s.text ↔ s.Canonical t.toList := by
    intro t
    rw [canonical_iff, ← String.toList_inj, text, String.toList_ofList]
  have read : parse s.text = .ok s := parse_of_canonical ((canonical _).1 rfl)
  refine ⟨read, canonical, fun s' => ⟨fun same => ?_, congrArg text⟩, ?_⟩
  · have read' : parse s'.text = .ok s' := parse_of_canonical (canonical_iff.2 String.toList_ofList)
    rw [same, read] at read'
    exact (Except.ok.inj read').symm
  · have bytes : decode s.encode = .ok s := decode_eq_ok_iff.2 rfl
    rw [read, ok_bind, bytes, ok_bind, pure_ok]

end Sid

end AccessControl
