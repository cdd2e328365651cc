import AccessControl.Sid.Text
import AccessControl.Proofs.Text.Numeral

/-!
# The texts that are SIDs

The layout of a SID text is said once, for any way to spell a number: `S` in either case, the
revision, the authority, and each sub-authority after a dash. Numbers are spelled by digits alone
in the layout that is documented, and may have a plus sign in the one that is read;
`parse_spelled` says that this is the only difference between the two.
-/

namespace AccessControl

open Numeral

/-! ### The parts of a text -/

namespace Text

theorem toLower_eq_s_iff {c : Char} : c.toLower = 's' ↔ c = 'S' ∨ c = 's' := by
  refine ⟨fun h => ?_, ?_⟩
  · by_cases upper : c.val ≥ 'A'.val ∧ c.val ≤ 'Z'.val
    · have lower : c.toLower.val = c.val + 32 := congrArg Char.val (dif_pos upper)
      have le : c.val.toNat ≤ 90 := upper.2
      have sum : (c.val + 32).toNat = c.val.toNat + 32 :=
        Nat.mod_eq_of_lt (Nat.lt_of_le_of_lt (Nat.add_le_add_right le 32) (by decide))
      have code : c.toNat + 32 = 'S'.toNat + 32 := by
        rw [← Char.toNat_val, ← sum, ← lower, h]
        rfl
      exact .inl (Char.toNat_inj.1 (Nat.add_right_cancel code))
    · have same : c.toLower = c := dif_neg upper
      exact .inr (same.symm.trans h)
  · rintro (rfl | rfl) <;> rfl

/-- A text is the letter `s`, up to case, exactly when it is that letter in one of its cases. -/
theorem sameLetters_s_iff {head : List Char} :
    sameLetters head ['s'] = true ↔ ∃ c, head = [c] ∧ (c = 'S' ∨ c = 's') := by
  have small : ['s'].map Char.toLower = ['s'] := rfl
  rw [sameLetters_iff, small, List.map_eq_singleton_iff]
  simp only [toLower_eq_s_iff]

end Text

/-- All elements of a list are read exactly when each of them is. -/
theorem mapM_eq_some_iff {α β : Type} {f : α → Option β} {l : List α} {l' : List β} :
    l.mapM f = some l' ↔ List.Forall₂ (fun a b => f a = some b) l l' := by
  induction l generalizing l' with
  | nil => simp [eq_comm]
  | cons a l ih =>
    simp only [List.mapM_cons, Option.bind_eq_bind, Option.bind_eq_some_iff, ih]
    constructor
    · rintro ⟨b, hb, bs, hbs, ⟨⟩⟩
      exact .cons hb hbs
    · rintro (_ | ⟨hb, hbs⟩)
      exact ⟨_, hb, _, hbs, rfl⟩

/-! ### Authorities -/

namespace Authority

variable {cs : List Char} {a : Authority}

theorem length_reverse_bytes (a : Authority) : a.bytes.reverse.length = 6 := by
  rw [List.length_reverse, a.length_bytes]

theorem toNat_lt (a : Authority) : a.toNat < 0x1000000000000 := by
  have bound := leNat_lt a.bytes.reverse
  rw [a.length_reverse_bytes] at bound
  exact bound

theorem ofNat_toNat (a : Authority) : ofNat a.toNat = a := by
  have bytes : leBytes 6 (leNat a.bytes.reverse) = a.bytes.reverse := by
    rw [← a.length_reverse_bytes, leBytes_leNat]
  cases a
  simp only [ofNat, toNat, bytes, List.reverse_reverse]

theorem toNat_ofNat {n : Nat} (h : n < 0x1000000000000) : (ofNat n).toNat = n := by
  rw [toNat, ofNat, List.reverse_reverse, leNat_leBytes]
  exact Nat.mod_eq_of_lt h

/-- The spelling of an authority: in decimal, or in hexadecimal after `0x` in either case. -/
def Spelled (number : Nat → List Char → Nat → Prop) (cs : List Char) (a : Authority) : Prop :=
  number 10 cs a.toNat ∨
    ∃ x ds, (x = 'x' ∨ x = 'X') ∧ cs = '0' :: x :: ds ∧ number 16 ds a.toNat

theorem map_read?_eq_some_iff {base : Nat} (hb : base ≤ 16) :
    (read? base 0x1000000000000 cs).map ofNat = some a ↔ IsSigned base cs a.toNat :=
  Numeral.map_read?_eq_some_iff hb toNat_lt ofNat_toNat fun _ => toNat_ofNat

/-- The mark of a hexadecimal authority begins no decimal number. -/
theorem spelled_mark_iff {x : Char} {ds : List Char} (hx : x = 'x' ∨ x = 'X') :
    a.Spelled IsSigned ('0' :: x :: ds) ↔ IsSigned 16 ds a.toNat := by
  refine ⟨?_, fun h => .inr ⟨x, ds, hx, rfl, h⟩⟩
  rintro (decimal | ⟨_, _, -, ⟨⟩, h⟩)
  · have numeral : IsNumeral 10 ('0' :: x :: ds) a.toNat := (isSigned_iff (by decide)).1 decimal
    have mem : x ∈ '0' :: x :: ds := by simp
    rcases hx with rfl | rfl
    · exact absurd mem (numeral.not_mem (by decide) rfl)
    · exact absurd mem (numeral.not_mem (by decide) rfl)
  · exact h

/-- An authority is read exactly from its spellings. -/
theorem ofChars?_eq_some_iff : ofChars? cs = some a ↔ a.Spelled IsSigned cs := by
  unfold ofChars?
  split
  next => rw [map_read?_eq_some_iff (by decide), spelled_mark_iff (.inl rfl)]
  next => rw [map_read?_eq_some_iff (by decide), spelled_mark_iff (.inr rfl)]
  next small large =>
    rw [map_read?_eq_some_iff (by decide)]
    refine ⟨.inl, ?_⟩
    rintro (decimal | ⟨x, ds, rfl | rfl, rfl, -⟩)
    · exact decimal
    · exact absurd rfl (small ds)
    · exact absurd rfl (large ds)

theorem Spelled.dash_not_mem (h : a.Spelled IsSigned cs) : '-' ∉ cs := by
  rcases h with decimal | ⟨x, ds, hx, rfl, hex⟩
  · exact decimal.not_mem (by decide) rfl (by decide)
  · have dash : '-' ∉ ds := hex.not_mem (by decide) rfl (by decide)
    rcases hx with rfl | rfl <;> simp [dash]

theorem spelled_isNumeral_iff : a.Spelled IsNumeral cs ↔ '+' ∉ cs ∧ a.Spelled IsSigned cs := by
  simp only [Spelled, isNumeral_iff (show 10 ≤ 16 by decide), isNumeral_iff (Nat.le_refl 16)]
  constructor
  · rintro (⟨plus, h⟩ | ⟨x, ds, hx, rfl, plus, h⟩)
    · exact ⟨plus, .inl h⟩
    · refine ⟨?_, .inr ⟨x, ds, hx, rfl, h⟩⟩
      rcases hx with rfl | rfl <;> simp [plus]
  · rintro ⟨plus, h | ⟨x, ds, hx, rfl, h⟩⟩
    · exact .inl ⟨plus, h⟩
    · simp only [List.mem_cons, not_or] at plus
      exact .inr ⟨x, ds, hx, rfl, plus.2.2, h⟩

end Authority

/-! ### Parts with any revision -/

namespace SidParts

variable {cs : List Char} {p : SidParts}

/-- The layout of a SID text: `S` in either case, and after a dash each the revision, the authority
and the sub-authorities. -/
def Spelled (number : Nat → List Char → Nat → Prop) (cs : List Char) (p : SidParts) : Prop :=
  ∃ head revision authority subs,
    (head = 'S' ∨ head = 's') ∧ number 10 revision p.revision.toNat ∧
    p.authority.Spelled number authority ∧
    List.Forall₂ (fun ds n => number 10 ds (UInt32.toNat n)) subs p.subAuthorities ∧
    cs = head :: '-' :: (revision ++ '-' :: (authority ++ subs.flatMap ('-' :: ·)))

/-- A sub-authority is read exactly from its spellings. -/
theorem map_read?_eq_some_iff {n : UInt32} :
    (read? 10 UInt32.size cs).map UInt32.ofNat = some n ↔ IsSigned 10 cs n.toNat :=
  Numeral.map_read?_eq_some_iff (by decide) UInt32.toNat_lt (fun _ => UInt32.ofNat_toNat)
    fun _ => UInt32.toNat_ofNat_of_lt'

/-- The fields of a text that is read, each of them a part of it. -/
theorem ofChars?_eq_some_iff_fields : ofChars? cs = some p ↔
    ∃ head revision authority subs,
      Text.fields '-' cs = [head] :: revision :: authority :: subs ∧
      (head = 'S' ∨ head = 's') ∧ IsSigned 10 revision p.revision.toNat ∧
      p.authority.Spelled IsSigned authority ∧
      List.Forall₂ (fun ds n => IsSigned 10 ds (UInt32.toNat n)) subs p.subAuthorities := by
  unfold ofChars?
  split
  next first revision authority subs fields =>
    simp only [fields, Option.bind_eq_bind, Option.bind_eq_some_iff, Option.guard_eq_some',
      Text.sameLetters_s_iff, read?_eq_some_iff (show 10 ≤ 16 by decide),
      Authority.ofChars?_eq_some_iff, mapM_eq_some_iff, map_read?_eq_some_iff]
    constructor
    · rintro ⟨_, ⟨head, rfl, hhead⟩, r, ⟨hr, below⟩, a, ha, ns, hns, h⟩
      split_ifs at h with len
      cases h
      refine ⟨head, revision, authority, subs, rfl, hhead, ?_, ha, hns⟩
      rwa [UInt8.toNat_ofNat_of_lt' below]
    · rintro ⟨head, _, _, _, ⟨⟩, hhead, hr, ha, hns⟩
      refine ⟨(), ⟨head, rfl, hhead⟩, _, ⟨hr, p.revision.toNat_lt⟩, _, ha, _, hns, ?_⟩
      exact (dif_pos p.length_le).trans (by rw [UInt8.ofNat_toNat])
  next other =>
    constructor
    · intro h
      cases h
    · rintro ⟨head, revision, authority, subs, fields, -⟩
      exact absurd fields (other [head] revision authority subs)

/-- The parts of a text with dashes between them. -/
theorem joined_parts (head : Char) (revision authority : List Char) (subs : List (List Char)) :
    Text.joined '-' ([head] :: revision :: authority :: subs) =
      head :: '-' :: (revision ++ '-' :: (authority ++ subs.flatMap ('-' :: ·))) := by
  simp only [Text.joined_cons, List.flatMap_cons, List.cons_append, List.nil_append]

/-- No dash stands in a part, so that the parts of a text are found again. -/
theorem fields_parts {head : Char} {revision authority : List Char} {subs : List (List Char)}
    {r : Nat} {a : Authority} {ns : List UInt32} (hhead : head = 'S' ∨ head = 's')
    (hr : IsSigned 10 revision r) (ha : a.Spelled IsSigned authority)
    (hns : List.Forall₂ (fun ds n => IsSigned 10 ds (UInt32.toNat n)) subs ns) :
    Text.fields '-' (head :: '-' :: (revision ++ '-' :: (authority ++ subs.flatMap ('-' :: ·)))) =
      [head] :: revision :: authority :: subs := by
  rw [← joined_parts]
  refine Text.fields_joined (by simp) ?_
  have head_ne : head ≠ '-' := by rcases hhead with rfl | rfl <;> decide
  have subs_dash : List.Forall₂ (fun ds n => '-' ∉ ds ∧ IsSigned 10 ds (UInt32.toNat n)) subs ns :=
    hns.imp fun ds n h => ⟨h.not_mem (by decide) rfl (by decide), h⟩
  simp only [List.mem_cons, forall_eq_or_imp]
  exact ⟨by simp [head_ne.symm], hr.not_mem (by decide) rfl (by decide), ha.dash_not_mem,
    ((List.forall₂_and_left _ _).1 subs_dash).1⟩

/-- The parts of a SID text are read exactly from their spellings. -/
theorem ofChars?_eq_some_iff : ofChars? cs = some p ↔ p.Spelled IsSigned cs := by
  rw [ofChars?_eq_some_iff_fields]
  constructor
  · rintro ⟨head, revision, authority, subs, fields, hhead, hr, ha, hns⟩
    refine ⟨head, revision, authority, subs, hhead, hr, ha, hns, ?_⟩
    rw [← joined_parts, ← fields, Text.joined_fields]
  · rintro ⟨head, revision, authority, subs, hhead, hr, ha, hns, rfl⟩
    exact ⟨head, revision, authority, subs, fields_parts hhead hr ha hns, hhead, hr, ha, hns⟩

/-- The documented layout is the one that is read, less the texts with a plus sign. -/
theorem spelled_isNumeral_iff : p.Spelled IsNumeral cs ↔ '+' ∉ cs ∧ p.Spelled IsSigned cs := by
  have plus_not_mem : ∀ {head revision authority} {subs : List (List Char)},
      head = 'S' ∨ head = 's' →
      ('+' ∉ head :: '-' :: (revision ++ '-' :: (authority ++ subs.flatMap ('-' :: ·))) ↔
        '+' ∉ revision ∧ '+' ∉ authority ∧ ∀ ds ∈ subs, '+' ∉ ds) := by
    rintro head revision authority subs (rfl | rfl) <;> simp
  simp only [Spelled, isNumeral_iff (show 10 ≤ 16 by decide), Authority.spelled_isNumeral_iff,
    List.forall₂_and_left]
  constructor
  · rintro ⟨head, revision, authority, subs, hhead, ⟨pr, hr⟩, ⟨pa, ha⟩, ⟨pn, hns⟩, rfl⟩
    exact ⟨(plus_not_mem hhead).2 ⟨pr, pa, pn⟩, head, revision, authority, subs, hhead, hr, ha,
      hns, rfl⟩
  · rintro ⟨plus, head, revision, authority, subs, hhead, hr, ha, hns, rfl⟩
    obtain ⟨pr, pa, pn⟩ := (plus_not_mem hhead).1 plus
    exact ⟨head, revision, authority, subs, hhead, ⟨pr, hr⟩, ⟨pa, ha⟩, ⟨pn, hns⟩, rfl⟩

end SidParts

/-! ### SIDs -/

namespace Sid

/-- A SID as the parts of a text. -/
def parts (s : Sid) : SidParts := ⟨s.revision, s.authority, s.subAuthorities, s.length_le⟩

theorem ofChars?_eq_some_iff {cs : List Char} {s : Sid} :
    ofChars? cs = some s ↔ s.parts.Spelled IsSigned cs := by
  simp only [ofChars?, Option.bind_eq_bind, Option.bind_eq_some_iff, SidParts.ofChars?_eq_some_iff]
  constructor
  · rintro ⟨p, hp, same⟩
    split at same
    · cases same
      exact hp
    · cases same
  · intro h
    exact ⟨s.parts, h, dif_pos s.revision_eq⟩

theorem parse_eq_ok_iff {t : String} {s : Sid} :
    parse t = .ok s ↔ s.parts.Spelled IsSigned t.toList := by
  rw [← ofChars?_eq_some_iff, parse]
  cases ofChars? t.toList <;> simp

theorem parse_eq_error_iff {t : String} {e : Error} :
    parse t = .error e ↔ e = .malformedSid ∧ ∀ s : Sid, ¬ s.parts.Spelled IsSigned t.toList := by
  simp only [← ofChars?_eq_some_iff, parse]
  cases ofChars? t.toList <;> simp [eq_comm]

/-- A text is read as a SID exactly when it has the layout of one, each number of digits behind at
most one plus sign, and any other text is malformed. The documented layout, of digits alone,
has exactly those of them in which no plus sign stands. -/
theorem parse_spelled (t : String) :
    (∀ s, parse t = .ok s ↔ s.parts.Spelled IsSigned t.toList) ∧
      (∀ s, s.parts.Spelled IsNumeral t.toList ↔ '+' ∉ t.toList ∧ parse t = .ok s) ∧
      ∀ e, parse t = .error e ↔
        e = .malformedSid ∧ ∀ s : Sid, ¬ s.parts.Spelled IsSigned t.toList := by
  refine ⟨fun s => parse_eq_ok_iff, fun s => ?_, fun e => parse_eq_error_iff⟩
  rw [SidParts.spelled_isNumeral_iff, parse_eq_ok_iff]

/-- A plus sign in an authority is read over, though no SID is spelled with one. -/
theorem parse_plus_sign :
    parse "S-1-0x+5" = .ok ⟨1, .ofNat 5, [], rfl, by decide⟩ ∧
      ∀ s : Sid, ¬ s.parts.Spelled IsNumeral "S-1-0x+5".toList := by
  refine ⟨by rfl, ?_⟩
  intro s h
  exact (SidParts.spelled_isNumeral_iff.1 h).1 (by decide)

end Sid

end AccessControl
