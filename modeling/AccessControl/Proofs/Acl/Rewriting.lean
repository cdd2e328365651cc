import AccessControl.Proofs.Ace.Unassigned
import AccessControl.Proofs.Acl.Extent
import AccessControl.Proofs.Acl.Writing

/-!
# Lists that are written again

What is written of a list that was read has a part for each of its entries, in place of the slice
that the entry was read from. No part takes more than its slice, filled up to groups of four bytes,
unless it is of a resource attribute; so if all the slices are such groups already, the list is
written, and does not grow (`encode_length_le_declared`). The part of an entry of an unassigned type
is the slice itself, filled up (`encode_unassigned`).
-/

namespace AccessControl.Acl

variable {l : Acl} {as : List Ace} {slices parts : List Bytes} {b : Bytes}

/-! ### Sizes -/

theorem entriesLen_le_sum_align4 (filled : List.Forall₂ (fun slice a => a.Fills slice) slices as)
    (other : ∀ a ∈ as, a.type ≠ AceKind.systemResourceAttribute.type) :
    entriesLen as ≤ (slices.map fun slice => align4 (Ace.declaredSize slice)).sum := by
  induction filled with
  | nil => exact Nat.le_refl 0
  | cons head _ ih =>
    rw [List.forall_mem_cons] at other
    rw [entriesLen, List.map_cons, List.sum_cons]
    exact Nat.add_le_add (Ace.size_le_align4_of_decode head.read other.1) (ih other.2)

/-- An entry that is read does not grow beyond the group of four bytes in which its declared size
ends when it is written again, unless it is a resource attribute. A list that is read without any of
those, whose entries all declare whole groups, is written again, and in no more bytes than it
declared itself. -/
theorem encode_length_le_declared :
    (∀ b a, Ace.decode b = .ok a → a.type ≠ AceKind.systemResourceAttribute.type →
      a.size ≤ align4 (Ace.declaredSize b)) ∧
    ∀ b l, decode b = .ok l →
      (∀ slice ∈ entrySlices (numberAt b 4 2) (b.drop 8), 4 ∣ Ace.declaredSize slice) →
      (∀ a ∈ l.entries, a.type ≠ AceKind.systemResourceAttribute.type) →
      ∃ b', l.encode = .ok b' ∧ b'.length ≤ declaredSize b := by
  constructor
  · intro b a h other
    exact Ace.size_le_align4_of_decode h other
  · intro b l h groups other
    obtain ⟨filled, room⟩ := slices_of_decode h
    have whole : (entrySlices (entryCount b) (b.drop headerLen)).map
        (fun slice => align4 (Ace.declaredSize slice)) =
          (entrySlices (entryCount b) (b.drop headerLen)).map Ace.declaredSize :=
      List.map_congr_left fun slice hslice => align4_eq_self (groups slice hslice)
    have entries := entriesLen_le_sum_align4 filled other
    rw [whole] at entries
    have least : headerLen ≤ declaredSize b := headerLen_le_of_decode h
    have size : l.encodedLen ≤ declaredSize b := by
      rw [encodedLen]
      omega
    obtain ⟨b', written⟩ := exists_encode (Nat.lt_of_le_of_lt size (numberAt_lt b 2 2))
    refine ⟨b', written, ?_⟩
    rw [length_of_encode written]
    exact size

/-- A condition loses most of its padding, the body of an unassigned type keeps its bytes, and a
denial loses the bytes behind its SID. -/
theorem encode_length_le_declared_padding :
    let everyone := WellKnown.everyone.toSid
    let sid : Bytes := [0x01, 0x01, 0, 0, 0, 0, 0, 0x01, 0, 0, 0, 0]
    let grant : Bytes := [0x09, 0x00, 40, 0, 0x01, 0, 0, 0] ++ sid ++
      [0x61, 0x72, 0x74, 0x78, 0, 0, 0x18, 0x01, 0, 0, 0, 0x07, 0, 0, 0, 0, 0xA2, 0, 0, 0]
    let other : Bytes := [0x20, 0x00, 8, 0, 0xAA, 0xBB, 0xCC, 0xDD]
    let deny : Bytes := [0x01, 0x00, 24, 0, 0x02, 0, 0, 0] ++ sid ++ [0xFF, 0xFF, 0xFF, 0xFF]
    let b : Bytes := [0x02, 0x00, 80, 0, 0x03, 0, 0, 0] ++ (grant ++ (other ++ deny))
    let a : Ace := ⟨AceKind.accessAllowedCallback.type, 0,
      .basicWithData ⟨1, everyone⟩ (.condition (.negation (.octets [0x07]))),
      ⟨rfl, trivial, trivial⟩⟩
    let l : Acl := ⟨[a, ⟨⟨0x20⟩, 0, .unknown [0xAA, 0xBB, 0xCC, 0xDD], ⟨rfl, trivial, ⟨1, rfl⟩⟩⟩,
      .denied everyone 2]⟩
    Ace.decode grant = .ok a ∧ a.size ≤ align4 40 ∧ decode b = .ok l ∧
      entrySlices 3 (b.drop 8) = [grant, other, deny] ∧
      ∃ b', l.encode = .ok b' ∧ b'.length ≤ 80 := by
  intro everyone sid grant other deny b a l
  have read : Ace.decode grant = .ok a := by
    simp only [grant, sid, a, everyone]
    rfl
  have readAll : decode b = .ok l := by
    simp only [b, grant, other, deny, sid, l, a, everyone]
    rfl
  have slices : entrySlices (numberAt b 4 2) (b.drop 8) = [grant, other, deny] := rfl
  obtain ⟨size, list⟩ := encode_length_le_declared
  have groups : ∀ slice ∈ entrySlices (numberAt b 4 2) (b.drop 8), 4 ∣ Ace.declaredSize slice := by
    rw [slices]
    simp only [grant, other, deny, sid]
    decide
  exact ⟨read, size grant a read (by decide), readAll, slices, list b l readAll groups (by decide)⟩

/-! ### Unassigned types -/

/-- What is written of entries has a part for each slice that one of them fills. -/
theorem forall₂_parts (filled : List.Forall₂ (fun slice a => a.Fills slice) slices as)
    (written : List.Forall₂ (fun a part => a.encode = .ok part) as parts) :
    List.Forall₂ (fun slice part => ∃ a : Ace, a.Fills slice ∧ a.encode = .ok part)
      slices parts := by
  induction filled generalizing parts with
  | nil =>
    cases written
    exact .nil
  | cons head _ ih =>
    rcases written with _ | ⟨first, others⟩
    exact .cons ⟨_, head, first⟩ (ih others)

/-- An entry that was written fits the field for its size, so its part is its slice filled up. -/
theorem part_of_unassigned {a : Ace} {slice part : Bytes} (h : a.Fills slice)
    (unassigned : (Ace.declaredType slice).shape? = none) (written : a.encode = .ok part) :
    part = Ace.counted (padded slice) ∧ (4 ∣ slice.length → part = slice) := by
  obtain ⟨fits, -⟩ := Ace.encode_eq_ok_iff.1 written
  rw [Ace.size_of_unassigned h unassigned] at fits
  have carried := Ace.encode_of_unassigned h unassigned fits
  refine ⟨Except.ok.inj (written.symm.trans carried), ?_⟩
  intro groups
  exact Except.ok.inj (written.symm.trans (Ace.encode_self_of_unassigned h unassigned groups))

/-- An entry of an unassigned type is read, whatever its body is. It is written again as the bytes
that it declared, filled up to groups of four bytes that its size counts, or is refused for its size
if this is too large. In a list that is read and written again, the part of such an entry is what is
written of it alone. -/
theorem encode_unassigned :
    (∀ b, (Ace.declaredType b).shape? = none → 4 ≤ Ace.declaredSize b →
      Ace.declaredSize b ≤ b.length →
      ∃ a, Ace.decode b = .ok a ∧
        (4 ∣ Ace.declaredSize b → a.encode = .ok (b.take (Ace.declaredSize b))) ∧
        (Ace.declaredSize b ≤ 65532 →
          a.encode = .ok (Ace.counted (padded (b.take (Ace.declaredSize b))))) ∧
        (65532 < Ace.declaredSize b → a.encode = .error (.invalidSize .ace 65536))) ∧
    ∀ b l b', decode b = .ok l → l.encode = .ok b' →
      ∃ parts, b'.drop 8 = parts.flatten ∧
        List.Forall₂ (fun a part => a.encode = .ok part) l.entries parts ∧
        List.Forall₂ (fun slice part => (Ace.declaredType slice).shape? = none →
            part = Ace.counted (padded slice) ∧ (4 ∣ slice.length → part = slice))
          (entrySlices (numberAt b 4 2) (b.drop 8)) parts := by
  constructor
  · intro b unassigned least fits
    obtain ⟨a, h⟩ := Ace.exists_decode_of_unassigned unassigned least fits
    obtain ⟨t, ht⟩ := fst_eq_ok.1 h
    obtain ⟨size, filled⟩ := Ace.fills_take_of_cutFront ht
    have length := List.length_take_of_le fits
    rw [← Ace.declaredType_take (Nat.lt_of_lt_of_le (by decide) least)] at unassigned
    have carried := Ace.encode_of_unassigned filled unassigned
    have refused := Ace.encode_error_of_unassigned filled unassigned
    rw [length] at carried refused
    refine ⟨a, h, ?_, ?_, ?_⟩
    · intro groups
      rw [← length] at groups
      exact Ace.encode_self_of_unassigned filled unassigned groups
    · intro small
      exact carried (Nat.lt_of_le_of_lt (align4_mono small) (by decide))
    · intro large
      have field : Ace.declaredSize b < 256 ^ 2 := numberAt_lt b 2 2
      have filledUp : align4 (Ace.declaredSize b) = 65536 := by
        rw [align4]
        omega
      rw [filledUp] at refused
      exact refused (by decide)
  · intro b l b' h written
    obtain ⟨-, -, x, hx, rfl⟩ := encode_eq_ok_iff.1 written
    obtain ⟨parts, each, rfl⟩ := encodeEntries_eq_ok_iff.1 hx
    obtain ⟨filled, -⟩ := slices_of_decode h
    refine ⟨parts, rfl, each, (forall₂_parts filled each).imp ?_⟩
    rintro slice part ⟨a, ha, hpart⟩ unassigned
    exact part_of_unassigned ha unassigned hpart

/-- A body of one byte is filled up, also behind a denial in a list, a body of four bytes stays as it
is, and one that ends three bytes before the size has no room left is too large. -/
theorem encode_unassigned_filled_up :
    let first : Bytes := [0x20, 0x10, 5, 0, 0xAA]
    let second : Bytes := [0x21, 0x00, 8, 0, 0xAA, 0xBB, 0xCC, 0xDD]
    let large : Bytes := [0x22, 0x00, 0xFD, 0xFF] ++ zeros 65529
    let deny : Bytes :=
      [0x01, 0x00, 20, 0, 0x02, 0, 0, 0, 0x01, 0x01, 0, 0, 0, 0, 0, 0x01, 0, 0, 0, 0]
    let b : Bytes := [0x04, 0x00, 33, 0, 0x02, 0, 0, 0] ++ (deny ++ first)
    let b' : Bytes := [0x02, 0x00, 36, 0, 0x02, 0, 0, 0] ++
      (deny ++ [0x20, 0x10, 8, 0, 0xAA, 0, 0, 0])
    let l : Acl := ⟨[.denied WellKnown.everyone.toSid 2,
      ⟨⟨0x20⟩, 0x10, .unknown [0xAA, 0, 0, 0], ⟨rfl, trivial, ⟨1, rfl⟩⟩⟩]⟩
    (∃ a, Ace.decode (first ++ [0xFF]) = .ok a ∧
        a.encode = .ok [0x20, 0x10, 8, 0, 0xAA, 0, 0, 0]) ∧
      (∃ a, Ace.decode (second ++ [0xFF]) = .ok a ∧ a.encode = .ok second) ∧
      (∃ a, Ace.decode large = .ok a ∧ a.encode = .error (.invalidSize .ace 65536)) ∧
      decode b = .ok l ∧ l.encode = .ok b' ∧
      ∃ parts, b'.drop 8 = parts.flatten ∧
        List.Forall₂ (fun a part => a.encode = .ok part) l.entries parts ∧
        List.Forall₂ (fun slice part => (Ace.declaredType slice).shape? = none →
            part = Ace.counted (padded slice) ∧ (4 ∣ slice.length → part = slice))
          [deny, first] parts := by
  intro first second large deny b b' l
  obtain ⟨entry, list⟩ := encode_unassigned
  have readAll : decode b = .ok l := by
    simp only [b, deny, first, l]
    rfl
  have written : l.encode = .ok b' := by
    simp only [b', deny, l]
    rfl
  have length : large.length = 65533 := by
    simp only [large, List.length_append, length_zeros]
    rfl
  have size : Ace.declaredSize large = 65533 := rfl
  obtain ⟨a, ha, -, filledUp, -⟩ := entry (first ++ [0xFF]) rfl (by decide) (by decide)
  obtain ⟨a', ha', same, -, -⟩ := entry (second ++ [0xFF]) rfl (by decide) (by decide)
  obtain ⟨a'', ha'', -, -, refused⟩ := entry large rfl (by rw [size]; decide)
    (by rw [size, length])
  have bytes : Ace.counted (padded ((first ++ [0xFF]).take (Ace.declaredSize (first ++ [0xFF])))) =
      [0x20, 0x10, 8, 0, 0xAA, 0, 0, 0] := by
    simp only [first]
    rfl
  exact ⟨⟨a, ha, (filledUp (by decide)).trans (congrArg Except.ok bytes)⟩,
    ⟨a', ha', same (by decide)⟩, ⟨a'', ha'', refused (by rw [size]; decide)⟩,
    readAll, written, list b l b' readAll written⟩

end AccessControl.Acl
