import AccessControl.Proofs.Ace.Extent

/-!
# Entries of unassigned types

An entry of an unassigned type is read whatever its body is, and only its size may keep it from
being written again (`encode_of_unassigned`). A reader fills up the body to groups of four bytes,
where a writer fills up the entry; as the header is such a group itself, both put the same zero
bytes at the end. So what is written is what was read, with these zero bytes and with their number
in the size (`counted`).
-/

namespace AccessControl

theorem drop_padded {b : Bytes} (h : 4 ≤ b.length) : (padded b).drop 4 = padded (b.drop 4) := by
  have zerosLeft : align4 b.length - b.length = align4 (b.length - 4) - (b.length - 4) := by
    unfold align4
    omega
  rw [padded_eq, padded_eq, List.drop_append_of_le_length h, List.length_drop, zerosLeft]

namespace Ace

variable {a : Ace} {b w : Bytes}

/-- The bytes of an entry, with their number as its size. -/
def counted (w : Bytes) : Bytes := w.take 2 ++ (leBytes 2 w.length ++ w.drop headerLen)

theorem counted_eq_self (least : headerLen ≤ w.length) (size : declaredSize w = w.length) :
    counted w = w := by
  have field : leBytes 2 (declaredSize w) ++ w.drop headerLen = w.drop 2 :=
    leBytes_numberAt w 2 2 least
  rw [counted, ← size, field, List.take_append_drop]

theorem Fills.headerLen_le (h : a.Fills w) : headerLen ≤ w.length := by
  obtain ⟨t, ht⟩ := fst_eq_ok.1 h.read
  rw [← h.size]
  exact headerLen_le_of_cutFront ht

/-! ### Reading -/

/-- The first two bytes of an entry are its type and its flags. -/
theorem code_flags_eq_take (long : 2 ≤ w.length) :
    (declaredType w).code :: leBytes 1 (declaredFlags w).toNat = w.take 2 := by
  match w with
  | [] | [_] => simp at long
  | code :: flags :: w =>
    have second : numberAt (code :: flags :: w) 1 1 = flags.toNat := rfl
    simp [declaredType, declaredFlags, second, leBytes_one]

/-- Whatever it holds, an entry of an unassigned type is read. -/
theorem exists_decode_of_unassigned (unassigned : (declaredType b).shape? = none)
    (least : headerLen ≤ declaredSize b) (fits : declaredSize b ≤ b.length) :
    ∃ a, decode b = .ok a := by
  have shape : (Payload.unknown (bodyBytes b)).shape? = (declaredType b).shape? := unassigned.symm
  rw [decode_of_declared least fits, unassigned]
  exact exists_make shape trivial _

/-- The body is kept, with zero bytes up to a group of four. -/
theorem parts_of_unassigned (h : a.Fills w) (unassigned : (declaredType w).shape? = none) :
    a.type = declaredType w ∧ a.flags = declaredFlags w ∧
      a.payload = .unknown (padded (w.drop headerLen)) := by
  have least : headerLen ≤ declaredSize w := by
    rw [h.size]
    exact h.headerLen_le
  have body : bodyBytes w = w.drop headerLen := by
    rw [bodyBytes, h.size, ← List.length_drop, List.take_length]
  have made := h.read
  rw [decode_of_declared least (Nat.le_of_eq h.size), unassigned, body] at made
  obtain ⟨type, flags, payload, -⟩ := make_eq_ok_iff.1 made
  exact ⟨type, flags, payload⟩

/-! ### Writing again -/

theorem size_of_unassigned (h : a.Fills w) (unassigned : (declaredType w).shape? = none) :
    a.size = align4 w.length := by
  obtain ⟨-, -, payload⟩ := parts_of_unassigned h unassigned
  have body : headerLen + (w.length - headerLen) = w.length := Nat.add_sub_cancel' h.headerLen_le
  have groups : 4 ∣ headerLen := by decide
  rw [size, payload, Payload.encodedLen, length_padded, List.length_drop, ← align4_add groups, body,
    align4_eq_self (four_dvd_align4 _)]

/-- What is written of an entry of an unassigned type is what it was read from, filled up to groups
of four bytes that its size counts. -/
theorem encode_of_unassigned (h : a.Fills w) (unassigned : (declaredType w).shape? = none)
    (fits : align4 w.length < 256 ^ 2) : a.encode = .ok (counted (padded w)) := by
  obtain ⟨type, flags, payload⟩ := parts_of_unassigned h unassigned
  have size := size_of_unassigned h unassigned
  have least : 4 ≤ w.length := h.headerLen_le
  have written : a.payload.encode = .ok (padded (w.drop headerLen)) := by
    rw [payload]
    rfl
  have noPadding : a.size - (headerLen + a.payload.encodedLen) = 0 := by
    have whole : headerLen + a.payload.encodedLen = a.size := by
      rw [Ace.size, payload, Payload.encodedLen, length_padded]
      exact (align4_eq_self (Nat.dvd_add (by decide) (four_dvd_align4 _))).symm
    rw [whole, Nat.sub_self]
  have front : (padded w).take 2 = w.take 2 := by
    rw [padded_eq, List.take_append_of_le_length (Nat.le_trans (by decide) least)]
  have behind : (padded w).drop headerLen = padded (w.drop headerLen) := drop_padded least
  refine encode_eq_ok_iff.2 ⟨size ▸ fits, padded (w.drop headerLen), written, ?_⟩
  rw [noPadding, zeros_zero, List.append_nil, type, flags, size, counted, length_padded, front,
    behind, ← code_flags_eq_take (Nat.le_trans (by decide) least)]
  rfl

/-- What takes whole groups of four bytes already is written as it was read. -/
theorem encode_self_of_unassigned (h : a.Fills w) (unassigned : (declaredType w).shape? = none)
    (groups : 4 ∣ w.length) : a.encode = .ok w := by
  have fits : align4 w.length < 256 ^ 2 := by
    rw [align4_eq_self groups, ← h.size]
    exact numberAt_lt w 2 2
  rw [encode_of_unassigned h unassigned fits, padded_eq_self groups,
    counted_eq_self h.headerLen_le h.size]

theorem encode_error_of_unassigned (h : a.Fills w) (unassigned : (declaredType w).shape? = none)
    (large : 256 ^ 2 ≤ align4 w.length) :
    a.encode = .error (.invalidSize .ace (align4 w.length)) := by
  rw [encode, size_of_unassigned h unassigned, sizeField_of_le large, error_bind]

end Ace
end AccessControl
