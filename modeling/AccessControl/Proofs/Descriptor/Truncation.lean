import AccessControl.Proofs.Acl.Extent
import AccessControl.Proofs.Claim.Decode
import AccessControl.Proofs.Descriptor.Writing

/-!
# Truncated bytes

What is written is not read once bytes are missing at its end (`error_of_truncated`). Claim
attributes, entries and lists are read by stable readers, which would have to leave the missing
bytes over. A descriptor is read at its offsets, so it is followed part by part: if a part starts
within the bytes that are there and is read, it also ends within them (`end_le_of_decodePart`),
which is where the next part starts.
-/

namespace AccessControl

theorem Sid.refusesPrefixes (s : Sid) : RefusesPrefixes cutFront s.encode := by
  have stable : Stable cutFront := by
    intro b x t h u
    obtain rfl := cutFront_eq_ok_iff.1 h
    exact cutFront_eq_ok_iff.2 (List.append_assoc ..)
  exact stable.refusesPrefixes_of_whole (cutFront_eq_ok_iff.2 (List.append_nil _).symm)

namespace Descriptor

variable {d : Descriptor} {b : Bytes} {n : Nat}

/-- A part that is read where it was written is there up to its end. -/
theorem end_le_of_decodePart {α : Type} {encode : α → Except Error Bytes}
    {decode : Bytes → Except Error (α × Bytes)} {item : Item} {part read : Option α}
    {front bytes rest : Bytes}
    (refuses : ∀ x bytes, encode x = .ok bytes → RefusesPrefixes decode bytes)
    (written : encodePart encode part = .ok bytes) (hb : b = front ++ (bytes ++ rest))
    (nonempty : front ≠ []) (starts : front.length ≤ n)
    (h : decodePart decode item (b.take n) (partOffset part front.length) = .ok read) :
    (front ++ bytes).length ≤ n := by
  cases part with
  | none =>
    cases written
    rwa [List.append_nil]
  | some x =>
    by_contra missing
    rw [List.length_append, Nat.not_le] at missing
    have block : (b.take n).drop front.length = bytes.take (n - front.length) := by
      rw [hb, List.drop_take, List.drop_left, List.take_append_of_le_length (by omega)]
    obtain ⟨e, refused⟩ := refuses x bytes written (n - front.length) (by omega)
    have read : partOffset (some x) front.length = front.length := rfl
    rw [read, decodePart, if_neg (Nat.ne_of_gt (List.length_pos_iff.2 nonempty))] at h
    simp only [bind_eq_ok, Prod.exists, cut_eq_ok_iff_drop] at h
    obtain ⟨_, _, ⟨-, -, rfl⟩, y, r, hy, -⟩ := h
    rw [block, refused] at hy
    cases hy

/-- If a descriptor is read from the first bytes of a byte string, these hold the header, and parts
are read from them at the offsets in it. -/
theorem decodePart_of_decode_take {o : Offsets} (short : n ≤ b.length) (offsets : offsetsAt b = o)
    (h : decode (b.take n) = .ok d) : headerLen ≤ n ∧ ∃ owner group sacl dacl,
      decodePart Sid.cutFront .ownerSid (b.take n) o.owner = .ok owner ∧
      decodePart Sid.cutFront .groupSid (b.take n) o.group = .ok group ∧
      decodePart Acl.cutFront .sacl (b.take n) o.sacl = .ok sacl ∧
      decodePart Acl.cutFront .dacl (b.take n) o.dacl = .ok dacl := by
  obtain ⟨⟨long, -, -⟩, owner, group, sacl, dacl, howner, hgroup, hsacl, hdacl, -⟩ :=
    decode_eq_ok_iff.1 h
  rw [List.length_take_of_le short] at long
  rw [← offsets, ← offsetsAt_take b long]
  exact ⟨long, owner, group, sacl, dacl, howner, hgroup, hsacl, hdacl⟩

/-- Of what is written of a descriptor, no part that breaks off is read, not even if it breaks off
where a part of the descriptor ends. -/
theorem refusesPrefixes (h : d.encode = .ok b) : RefusesPrefixes decode b := by
  intro n hn
  cases hread : decode (b.take n) with
  | error e => exact ⟨e, rfl⟩
  | ok d' =>
    exfalso
    obtain ⟨front, owner, group, sacl, dacl, ⟨howner, hgroup, hsacl, hdacl⟩, hb, length, -,
      offsets⟩ := parts_of_encode h
    obtain ⟨long, _, _, _, _, readOwner, readGroup, readSacl, readDacl⟩ :=
      decodePart_of_decode_take (Nat.le_of_lt hn) offsets hread
    have sid : ∀ (s : Sid) bytes, (Except.ok s.encode : Except Error Bytes) = .ok bytes →
        RefusesPrefixes Sid.cutFront bytes := by
      intro s bytes hs
      cases hs
      exact s.refusesPrefixes
    have acl : ∀ (l : Acl) bytes, l.encode = .ok bytes → RefusesPrefixes Acl.cutFront bytes :=
      fun l bytes hl => Acl.refusesPrefixes hl
    -- every part ends within the bytes that are there, which is where the next one starts
    have nonempty : front ≠ [] := List.ne_nil_of_length_eq_add_one length
    have ownerEnd : (front ++ owner).length ≤ n :=
      end_le_of_decodePart sid howner hb nonempty (length ▸ long) readOwner
    rw [← List.append_assoc] at hb
    have nonempty := List.append_ne_nil_of_left_ne_nil nonempty owner
    have groupEnd : (front ++ owner ++ group).length ≤ n :=
      end_le_of_decodePart sid hgroup hb nonempty ownerEnd readGroup
    rw [← List.append_assoc] at hb
    have nonempty := List.append_ne_nil_of_left_ne_nil nonempty group
    have saclEnd : (front ++ owner ++ group ++ sacl).length ≤ n :=
      end_le_of_decodePart acl hsacl hb nonempty groupEnd readSacl
    rw [← List.append_assoc, ← List.append_nil dacl] at hb
    have nonempty := List.append_ne_nil_of_left_ne_nil nonempty sacl
    have daclEnd : (front ++ owner ++ group ++ sacl ++ dacl).length ≤ n :=
      end_le_of_decodePart acl hdacl hb nonempty saclEnd readDacl
    rw [List.append_nil] at hb
    rw [← hb] at daclEnd
    exact Nat.not_le.2 hn daclEnd

end Descriptor

/-- No descriptor, list or entry is read from what is written of it when bytes are missing at the
end, and no claim attribute of which no string has a zero character. -/
theorem error_of_truncated :
    (∀ (d : Descriptor) b, d.encode = .ok b → RefusesPrefixes Descriptor.decode b) ∧
    (∀ (l : Acl) b, l.encode = .ok b → RefusesPrefixes Acl.decode b) ∧
    (∀ (a : Ace) b, a.encode = .ok b → RefusesPrefixes Ace.decode b) ∧
    ∀ (a : ClaimAttribute) b, a.NulFree → a.encode = .ok b →
      RefusesPrefixes ClaimAttribute.decode b := by
  refine ⟨?_, ?_, ?_, ?_⟩
  · intro d b h
    exact Descriptor.refusesPrefixes h
  · intro l b h
    exact (Acl.refusesPrefixes h).fst
  · intro a b h
    exact (Ace.refusesPrefixes h).fst
  · intro a b nulFree h
    exact (ClaimAttribute.refusesPrefixes h nulFree).fst

/-- A descriptor lacks its list, a list its only entry, an entry its SID and an attribute its last
value, which is a text of no character. -/
theorem error_of_truncated_boundary :
    let everyone := WellKnown.everyone.toSid
    let entry := Ace.allowed everyone 1
    let l : Acl := ⟨[entry]⟩
    let d := Descriptor.make 0x8000 (some everyone) none none (some l)
    let a : ClaimAttribute := ⟨"A", .string, 0, [.string "B", .string ""], by decide⟩
    let sid : Bytes := [0x01, 0x01, 0, 0, 0, 0, 0, 0x01, 0, 0, 0, 0]
    let ace : Bytes := [0x00, 0x00, 20, 0, 0x01, 0, 0, 0] ++ sid
    let acl : Bytes := [0x02, 0x00, 28, 0, 0x01, 0, 0, 0] ++ ace
    let b : Bytes :=
      [0x01, 0x00, 0x04, 0x80, 20, 0, 0, 0, 0, 0, 0, 0, 0, 0, 0, 0, 32, 0, 0, 0] ++ (sid ++ acl)
    let claim : Bytes :=
      [20, 0, 0, 0, 3, 0, 0, 0, 0, 0, 0, 0, 2, 0, 0, 0, 24, 0, 0, 0] ++
      [0x41, 0, 0, 0] ++ [0x42, 0, 0, 0] ++ [0, 0]
    (d.encode = .ok b ∧ ∃ e, Descriptor.decode (b.take 32) = .error e) ∧
      (l.encode = .ok acl ∧ ∃ e, Acl.decode (acl.take 8) = .error e) ∧
      (entry.encode = .ok ace ∧ ∃ e, Ace.decode (ace.take 8) = .error e) ∧
      a.NulFree ∧ a.encode = .ok claim ∧ ∃ e, ClaimAttribute.decode (claim.take 28) = .error e := by
  intro everyone entry l d a sid ace acl b claim
  obtain ⟨descriptors, lists, entries, claims⟩ := error_of_truncated
  have written : d.encode = .ok b := by
    simp only [d, l, entry, everyone, b, acl, ace, sid]
    rfl
  have listWritten : l.encode = .ok acl := by
    simp only [l, entry, everyone, acl, ace, sid]
    rfl
  have entryWritten : entry.encode = .ok ace := by
    simp only [entry, everyone, ace, sid]
    rfl
  have claimWritten : a.encode = .ok claim := by
    simp only [a, claim]
    rfl
  have nulFree : a.NulFree := by
    refine ⟨by decide, ?_⟩
    simp [a, ClaimValue.NulFree]
  exact ⟨⟨written, descriptors d b written 32 (by decide)⟩,
    ⟨listWritten, lists l acl listWritten 8 (by decide)⟩,
    ⟨entryWritten, entries entry ace entryWritten 8 (by decide)⟩,
    nulFree, claimWritten, claims a claim nulFree claimWritten 28 (by decide)⟩

end AccessControl
