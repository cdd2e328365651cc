import AccessControl.Proofs.Acl.Size
import AccessControl.Proofs.Descriptor.Wire

/-!
# What is written of a descriptor

A descriptor is written exactly when each of its lists is (`written_iff_lists_fit`). The offsets in
its header are worked out before any part is written, from the sizes that the parts will have; they
are where the parts then start, one right after the other.
-/

namespace AccessControl.Descriptor

variable {d : Descriptor} {b : Bytes}

/-! ### Writing the lists -/

/-- The lists in the order in which they are written. -/
def lists (d : Descriptor) : List Acl := d.sacl.toList ++ d.dacl.toList

theorem mem_lists {l : Acl} : l ∈ d.lists ↔ l ∈ d.sacl ∨ l ∈ d.dacl := by
  rw [lists, List.mem_append, Option.mem_toList, Option.mem_toList]
  rfl

theorem exists_encodePart {part : Option Acl}
    (h : part.toList.find? (65535 < ·.encodedLen) = none) :
    ∃ x, encodePart Acl.encode part = .ok x := by
  cases part with
  | none => exact ⟨[], rfl⟩
  | some l =>
    have fits : l.encodedLen < 256 ^ 2 := by simpa [Nat.lt_succ_iff] using h
    exact Acl.exists_encode fits

theorem encodePart_of_large {part : Option Acl} {l : Acl}
    (h : part.toList.find? (65535 < ·.encodedLen) = some l) :
    encodePart Acl.encode part = .error (.invalidSize .acl l.encodedLen) := by
  cases part with
  | none => cases h
  | some x =>
    have large := List.find?_some h
    obtain rfl : l = x := List.mem_singleton.1 (List.mem_of_find?_eq_some h)
    exact Acl.encode_of_large (of_decide_eq_true large)

/-- With offsets that fit, only a list can keep a descriptor from being written. -/
theorem encode_eq_of_offsetsFit (h : d.OffsetsFit) : ∃ front, d.encode = (do
    let sacl ← encodePart Acl.encode d.sacl
    let dacl ← encodePart Acl.encode d.dacl
    return front ++ sacl ++ dacl) := by
  obtain ⟨ownerLt, groupLt, saclLt, daclLt⟩ := h
  have sid : ∀ part : Option Sid,
      ∃ x, encodePart (fun s => .ok s.encode) part = .ok x := by
    intro part
    cases part with
    | none => exact ⟨[], rfl⟩
    | some s => exact ⟨s.encode, rfl⟩
  obtain ⟨owner, howner⟩ := sid d.owner
  obtain ⟨group, hgroup⟩ := sid d.group
  refine ⟨header 0 d.control d.offsets ++ owner ++ group, ?_⟩
  simp only [encode, offsetField_eq_ok_iff.2 ⟨ownerLt, rfl⟩, offsetField_eq_ok_iff.2 ⟨groupLt, rfl⟩,
    offsetField_eq_ok_iff.2 ⟨saclLt, rfl⟩, offsetField_eq_ok_iff.2 ⟨daclLt, rfl⟩, howner, hgroup,
    ok_bind, header, List.cons_append, List.append_assoc]
  rfl

theorem exists_encode_of_lists (h : d.OffsetsFit)
    (fit : d.lists.find? (65535 < ·.encodedLen) = none) : ∃ c, d.encode = .ok c := by
  obtain ⟨front, written⟩ := encode_eq_of_offsetsFit h
  rw [lists, List.find?_append, Option.or_eq_none_iff] at fit
  obtain ⟨sacl, hsacl⟩ := exists_encodePart fit.1
  obtain ⟨dacl, hdacl⟩ := exists_encodePart fit.2
  rw [written, hsacl, hdacl]
  exact ⟨front ++ sacl ++ dacl, rfl⟩

theorem encode_of_large_list {l : Acl} (h : d.OffsetsFit)
    (large : d.lists.find? (65535 < ·.encodedLen) = some l) :
    d.encode = .error (.invalidSize .acl l.encodedLen) := by
  obtain ⟨front, written⟩ := encode_eq_of_offsetsFit h
  rw [lists, List.find?_append, Option.or_eq_some_iff] at large
  rw [written]
  rcases large with sacl | ⟨sacl, dacl⟩
  · rw [encodePart_of_large sacl, error_bind]
  · obtain ⟨x, hx⟩ := exists_encodePart sacl
    rw [hx, ok_bind, encodePart_of_large dacl, error_bind]

/-! ### Offsets -/

theorem partOffset_le {α : Type} (part : Option α) (start : Nat) :
    partOffset part start ≤ start := by
  unfold partOffset
  split
  · exact Nat.le_refl start
  · exact Nat.zero_le start

theorem partLen_le {α : Type} {len : α → Nat} {part : Option α} {bound : Nat}
    (h : ∀ x ∈ part, len x ≤ bound) : partLen len part ≤ bound := by
  cases part with
  | none => exact Nat.zero_le bound
  | some x => exact h x rfl

theorem encodedLen_sid_le (part : Option Sid) : partLen Sid.encodedLen part ≤ 68 :=
  partLen_le fun s _ => s.encodedLen_le

/-- Where the writer puts the DACL. -/
def daclStart (d : Descriptor) : Nat :=
  headerLen + partLen Sid.encodedLen d.owner + partLen Sid.encodedLen d.group +
    partLen Acl.encodedLen d.sacl

/-- Only SIDs come before the other parts, so none of these can be too far from the start. -/
theorem offsets_lt (d : Descriptor) :
    d.offsets.owner < 256 ^ 4 ∧ d.offsets.group < 256 ^ 4 ∧ d.offsets.sacl < 256 ^ 4 := by
  have owner := encodedLen_sid_le d.owner
  have group := encodedLen_sid_le d.group
  have sids : headerLen + partLen Sid.encodedLen d.owner + partLen Sid.encodedLen d.group <
      256 ^ 4 := by
    unfold headerLen
    omega
  refine ⟨?_, ?_, ?_⟩
  all_goals
    refine Nat.lt_of_le_of_lt (partOffset_le ..) ?_
    omega

theorem offsetsFit_of_sacl_le (h : partLen Acl.encodedLen d.sacl ≤ 256 ^ 3) : d.OffsetsFit := by
  obtain ⟨ownerLt, groupLt, saclLt⟩ := d.offsets_lt
  have owner := encodedLen_sid_le d.owner
  have group := encodedLen_sid_le d.group
  refine ⟨ownerLt, groupLt, saclLt, Nat.lt_of_le_of_lt (partOffset_le ..) ?_⟩
  unfold headerLen
  omega

/-- Behind a SACL so long that its offset does not fit, a DACL is not written. -/
theorem encode_of_not_offsetsFit (h : ¬ d.OffsetsFit) :
    256 ^ 4 ≤ d.daclStart ∧
      d.encode = .error (.invalidSize .descriptorOffset d.daclStart) := by
  obtain ⟨ownerLt, groupLt, saclLt⟩ := d.offsets_lt
  have large : 256 ^ 4 ≤ partOffset d.dacl d.daclStart :=
    Nat.le_of_not_lt fun daclLt => h ⟨ownerLt, groupLt, saclLt, daclLt⟩
  have present : d.dacl.isSome := by
    by_contra absent
    rw [partOffset, if_neg absent] at large
    exact absurd large (by decide)
  rw [partOffset, if_pos present] at large
  have refused : offsetField d.dacl d.daclStart =
      .error (.invalidSize .descriptorOffset d.daclStart) := by
    rw [offsetField, if_pos present, sizeField_of_le large]
  rw [daclStart] at refused ⊢
  refine ⟨large, ?_⟩
  simp only [encode, offsetField_eq_ok_iff.2 ⟨ownerLt, rfl⟩, offsetField_eq_ok_iff.2 ⟨groupLt, rfl⟩,
    offsetField_eq_ok_iff.2 ⟨saclLt, rfl⟩, refused, ok_bind, error_bind]

/-! ### When a descriptor is written -/

theorem encodedLen_le_of_encodePart {part : Option Acl} {x : Bytes}
    (h : encodePart Acl.encode part = .ok x) {l : Acl} (hl : l ∈ part) : l.encodedLen ≤ 65535 := by
  cases hl
  exact Nat.le_of_lt_succ (Acl.encode_eq_ok_iff.1 h).1

theorem exists_encode_iff_lists_fit :
    (∃ b, d.encode = .ok b) ↔ ∀ l ∈ d.lists, l.encodedLen ≤ 65535 := by
  constructor
  · rintro ⟨b, h⟩ l hl
    obtain ⟨-, _, _, _, _, -, -, hsacl, hdacl, -⟩ := encode_eq_ok_iff.1 h
    rcases mem_lists.1 hl with hl | hl
    · exact encodedLen_le_of_encodePart hsacl hl
    · exact encodedLen_le_of_encodePart hdacl hl
  · intro fit
    have placed : d.OffsetsFit := by
      refine offsetsFit_of_sacl_le (partLen_le fun l hl => ?_)
      exact Nat.le_trans (fit l (mem_lists.2 (.inl hl))) (by decide)
    refine exists_encode_of_lists placed (List.find?_eq_none.2 fun l hl large => ?_)
    exact Nat.not_lt.2 (fit l hl) (of_decide_eq_true large)

/-- Whatever keeps a descriptor from being written is a size that is too large. -/
theorem invalidSize_of_encode {e : Error} (h : d.encode = .error e) :
    ∃ item ∈ [Item.acl, .descriptorOffset], ∃ size, 65535 < size ∧ e = .invalidSize item size := by
  by_cases placed : d.OffsetsFit
  · cases hl : d.lists.find? (65535 < ·.encodedLen) with
    | none =>
      obtain ⟨b, written⟩ := exists_encode_of_lists placed hl
      rw [written] at h
      cases h
    | some l =>
      have large := List.find?_some hl
      rw [encode_of_large_list placed hl] at h
      cases h
      exact ⟨.acl, List.mem_cons_self, _, of_decide_eq_true large, rfl⟩
  · obtain ⟨large, refused⟩ := encode_of_not_offsetsFit placed
    rw [refused] at h
    cases h
    have size : 65535 < d.daclStart := Nat.lt_of_lt_of_le (by decide) large
    exact ⟨.descriptorOffset, List.mem_cons_of_mem _ List.mem_cons_self, _, size, rfl⟩

/-! ### What is written -/

/-- What is written of a descriptor is a header and then its parts. The parts are as long as they
were expected to be when their offsets were worked out, so they start where these say. -/
theorem parts_of_encode (h : d.encode = .ok b) : ∃ front owner group sacl dacl : Bytes,
    (encodePart (fun s : Sid => .ok s.encode) d.owner = .ok owner ∧
      encodePart (fun s : Sid => .ok s.encode) d.group = .ok group ∧
      encodePart Acl.encode d.sacl = .ok sacl ∧ encodePart Acl.encode d.dacl = .ok dacl) ∧
    b = front ++ (owner ++ (group ++ (sacl ++ dacl))) ∧ front.length = headerLen ∧
    front = header 0 d.control (offsetsAt b) ∧
    offsetsAt b = ⟨partOffset d.owner front.length, partOffset d.group (front ++ owner).length,
      partOffset d.sacl (front ++ owner ++ group).length,
      partOffset d.dacl (front ++ owner ++ group ++ sacl).length⟩ := by
  obtain ⟨fits, owner, group, sacl, dacl, howner, hgroup, hsacl, hdacl, hb⟩ :=
    encode_eq_ok_iff.1 h
  have atOwner : (header 0 d.control d.offsets).length = headerLen := length_header ..
  have ownerLen := length_of_encodePart length_of_sid howner
  have groupLen := length_of_encodePart length_of_sid hgroup
  have saclLen : sacl.length = partLen Acl.encodedLen d.sacl :=
    length_of_encodePart (fun l x hx => Acl.length_of_encode hx) hsacl
  have offsets : offsetsAt b = d.offsets := by
    rw [hb]
    exact offsetsAt_header fits _
  refine ⟨header 0 d.control d.offsets, owner, group, sacl, dacl, ⟨howner, hgroup, hsacl, hdacl⟩,
    hb, atOwner, ?_, ?_⟩
  · rw [offsets]
  · simp only [offsets, List.length_append, atOwner, ownerLen, groupLen, saclLen]
    rfl

theorem length_of_encode (h : d.encode = .ok b) : b.length = d.encodedLen := by
  obtain ⟨front, owner, group, sacl, dacl, ⟨howner, hgroup, hsacl, hdacl⟩, rfl, length, -⟩ :=
    parts_of_encode h
  have list : ∀ (l : Acl) x, l.encode = .ok x → x.length = l.encodedLen :=
    fun l x hx => Acl.length_of_encode hx
  simp only [List.length_append, length, length_of_encodePart length_of_sid howner,
    length_of_encodePart length_of_sid hgroup, length_of_encodePart list hsacl,
    length_of_encodePart list hdacl, encodedLen, Nat.add_assoc]

/-- A descriptor is written exactly when each of its lists takes at most 65535 bytes, and is refused
for a size otherwise. What is written is a header of twenty bytes and then owner, group, SACL and
DACL as they are written alone, with nothing between them. The offsets in the header are zero for a
part that is absent and otherwise the number of bytes in front of it. -/
theorem written_iff_lists_fit (d : Descriptor) :
    ((∃ b, d.encode = .ok b) ↔ ∀ l ∈ d.lists, l.encodedLen ≤ 65535) ∧
      (∀ e, d.encode = .error e →
        ∃ item ∈ [Item.acl, .descriptorOffset], ∃ size, 65535 < size ∧ e = .invalidSize item size) ∧
      ∀ b, d.encode = .ok b → ∃ front owner group sacl dacl : Bytes,
        (encodePart (fun s : Sid => .ok s.encode) d.owner = .ok owner ∧
          encodePart (fun s : Sid => .ok s.encode) d.group = .ok group ∧
          encodePart Acl.encode d.sacl = .ok sacl ∧ encodePart Acl.encode d.dacl = .ok dacl) ∧
        b = front ++ (owner ++ (group ++ (sacl ++ dacl))) ∧ front.length = 20 ∧
        front = header 0 d.control (offsetsAt b) ∧
        offsetsAt b = ⟨partOffset d.owner front.length, partOffset d.group (front ++ owner).length,
          partOffset d.sacl (front ++ owner ++ group).length,
          partOffset d.dacl (front ++ owner ++ group ++ sacl).length⟩ ∧
        b.length = 20 + partLen Sid.encodedLen d.owner + partLen Sid.encodedLen d.group +
          partLen Acl.encodedLen d.sacl + partLen Acl.encodedLen d.dacl := by
  refine ⟨exists_encode_iff_lists_fit, fun e h => invalidSize_of_encode h, ?_⟩
  intro b h
  obtain ⟨front, owner, group, sacl, dacl, parts, whole, length, start, offsets⟩ :=
    parts_of_encode h
  exact ⟨front, owner, group, sacl, dacl, parts, whole, length, start, offsets, length_of_encode h⟩

/-- The group comes right after the header and the DACL right after the group. A SACL of two bodies
of 40000 bytes is too large. -/
theorem written_iff_lists_fit_group_dacl :
    let everyone := WellKnown.everyone.toSid
    let d := make 0x8000 none (some everyone) none (some ⟨[.allowed everyone 1]⟩)
    let sid : Bytes := [0x01, 0x01, 0, 0, 0, 0, 0, 0x01, 0, 0, 0, 0]
    let b : Bytes :=
      [0x01, 0x00, 0x04, 0x80, 0, 0, 0, 0, 20, 0, 0, 0, 0, 0, 0, 0, 32, 0, 0, 0] ++ sid ++
        ([0x02, 0x00, 28, 0, 0x01, 0, 0, 0] ++ ([0x00, 0x00, 20, 0, 0x01, 0, 0, 0] ++ sid))
    let half : Ace := ⟨⟨0x20⟩, 0, .unknown (zeros 40000), ⟨rfl, trivial, ⟨10000, length_zeros _⟩⟩⟩
    let large := make 0x8000 none none (some ⟨[half, half]⟩) none
    d.encode = .ok b ∧ offsetsAt b = ⟨0, 20, 0, 32⟩ ∧ b.length = 20 + 0 + 12 + 0 + 28 ∧
      ∃ item size, 65535 < size ∧ large.encode = .error (.invalidSize item size) := by
  intro everyone d sid b half large
  have written : d.encode = .ok b := by
    simp only [d, b, sid, everyone]
    rfl
  obtain ⟨-, -, parts⟩ := written_iff_lists_fit d
  obtain ⟨_, _, _, _, _, -, -, -, -, -, total⟩ := parts b written
  refine ⟨written, rfl, total.trans ?_, ?_⟩
  · simp only [d, everyone]
    rfl
  have size : Acl.encodedLen ⟨[half, half]⟩ = 80016 := by
    simp only [half, Acl.encodedLen, Acl.entriesLen, Ace.size, Payload.encodedLen, length_zeros]
    rfl
  obtain ⟨fit, refused, -⟩ := written_iff_lists_fit large
  cases h : large.encode with
  | ok c =>
    have small := fit.1 ⟨c, h⟩ _ List.mem_cons_self
    rw [size] at small
    exact absurd small (by decide)
  | error e =>
    obtain ⟨item, -, n, hn, rfl⟩ := refused e h
    exact ⟨item, n, hn, rfl⟩

end AccessControl.Descriptor
