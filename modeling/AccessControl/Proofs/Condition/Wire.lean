import AccessControl.Proofs.Condition.Run

/-!
# Conditions, read and written

A condition is read from its signature and its tokens, with zero bytes wherever the grammar has
room for them, as long as its tree is within the bounds of a reader; from anything else no
condition is read (`decodes_iff_emits`). What a writer makes of a tree is one of these byte
strings. So a tree within the bounds is read back as it is, and one beyond them is refused for its
depth alone (`decode_encode_iff_shallow`).
-/

namespace AccessControl.Condition

variable {b w x : Bytes} {c : Condition}

/-! ### Signature and tokens -/

theorem decode_append_eq_ok_iff :
    decode (signature ++ w) = .ok c ↔ run w.length w [] = .ok [c] := by
  have tokens : (signature ++ w).drop signature.length = w := List.drop_left
  simp only [decode, List.take_left', ne_eq, not_true_eq_false, if_false, pure_ok, tokens,
    bind_eq_ok]
  constructor
  · rintro ⟨out, hrun, h⟩
    split at h
    · cases h
    · cases h
      exact hrun
    · cases h
  · intro hrun
    exact ⟨[c], hrun, rfl⟩

theorem decode_append_eq_error {e : Error} (h : run w.length w [] = .error e) :
    decode (signature ++ w) = .error e := by
  have tokens : (signature ++ w).drop signature.length = w := List.drop_left
  simp only [decode, List.take_left', ne_eq, not_true_eq_false, if_false, pure_ok, tokens, h,
    error_bind]

theorem exists_tokens_of_decode (h : decode b = .ok c) : ∃ w, b = signature ++ w := by
  refine ⟨b.drop signature.length, ?_⟩
  by_cases hb : b.take signature.length = signature
  · have split := List.take_append_drop signature.length b
    rw [hb] at split
    exact split.symm
  · rw [decode, if_pos hb] at h
    cases h

/-- The tokens of a tree within the bounds are read as the tree, whatever padding they end in. -/
theorem decode_emits (h : Emits c.node x) (shallow : c.node.Shallow) (p : Nat) :
    decode (signature ++ (x ++ zeros p)) = .ok c := by
  rw [decode_append_eq_ok_iff]
  rcases run_emits h c.lawful with ⟨-, pushes⟩ | ⟨deep, -⟩
  · obtain ⟨m, hm, hrun⟩ := pushes (zeros p) [] _ (Nat.le_refl _)
    obtain ⟨m', -, hrest⟩ := run_zeros [c] (b := []) (p := p) (k := m) (by simpa using hm)
    rw [List.append_nil] at hrest
    rw [hrun, List.append_nil, hrest, run]
  · rw [List.forall_mem_singleton] at deep
    exact absurd shallow deep

/-- The tokens of a tree beyond the bounds are refused for one of the two depths. -/
theorem decode_emits_of_deep (h : Emits c.node x) (deep : ¬ c.node.Shallow) (p : Nat) :
    ∃ f : Fault, (f = .compositeTooDeep ∨ f = .tooDeep) ∧
      decode (signature ++ (x ++ zeros p)) = .error (.malformedCondition f) := by
  rcases run_emits h c.lawful with ⟨shallow, -⟩ | ⟨-, exceeds⟩
  · rw [List.forall_mem_singleton] at shallow
    exact absurd shallow deep
  · obtain ⟨f, hf, hrun⟩ := exceeds (zeros p) [] _ (Nat.le_refl _)
    exact ⟨f, hf, decode_append_eq_error hrun⟩

/-- Whatever is read as a condition is the tokens of its tree, which is within the bounds. -/
theorem emits_of_decode (h : decode b = .ok c) :
    c.node.Shallow ∧ ∃ x p, b = signature ++ (x ++ zeros p) ∧ Emits c.node x := by
  obtain ⟨w, rfl⟩ := exists_tokens_of_decode h
  rw [decode_append_eq_ok_iff] at h
  obtain ⟨x, p, consumed, hx⟩ := consumed_of_run .nil (Nat.le_refl _) h 0
  rw [zeros_zero, List.nil_append, List.nil_append] at hx
  obtain _ | ⟨_ | _, top, shallow⟩ := consumed
  rw [List.nil_append] at hx
  exact ⟨shallow, _, p, by rw [hx], top⟩

theorem encodedLen_le_of_decode (h : decode b = .ok c) : c.encodedLen ≤ align4 b.length := by
  obtain ⟨-, x, p, rfl, emits⟩ := emits_of_decode h
  have tokens := emits.encodedLen_le
  refine align4_mono ?_
  simp only [List.length_append]
  omega

/-! ### What a reader accepts -/

/-- A tree is read from a byte string exactly when its operators take the operands they have, it is
within both bounds, and the byte string is the signature, the tokens of the tree and padding. -/
theorem decodes_iff_emits (b : Bytes) (n : Node) :
    (∃ c : Condition, decode b = .ok c ∧ c.node = n) ↔
      n.Lawful ∧ (n.nesting ≤ 32 ∧ n.height ≤ 256) ∧
        ∃ x p, b = signature ++ (x ++ zeros p) ∧ Emits n x := by
  constructor
  · rintro ⟨c, h, rfl⟩
    obtain ⟨shallow, emits⟩ := emits_of_decode h
    exact ⟨c.lawful, ⟨shallow.nesting_le, shallow.height_le⟩, emits⟩
  · rintro ⟨lawful, ⟨nesting, height⟩, x, p, rfl, emits⟩
    exact ⟨⟨n, lawful⟩, decode_emits emits ⟨nesting, height⟩ p, rfl⟩

/-! ### What a writer makes -/

/-- What is written of a condition is its signature, the tokens of its tree and padding. -/
theorem encode_eq_ok_iff : c.encode = .ok b ↔
    ∃ x, c.node.encode = .ok x ∧ b = padded (signature ++ x) := by
  simp only [encode, bind_eq_ok, pure_ok, Except.ok.injEq, eq_comm (a := b)]

theorem emits_of_encoded (h : c.encode = .ok b) :
    ∃ x p, b = signature ++ (x ++ zeros p) ∧ Emits c.node x := by
  obtain ⟨x, hx, rfl⟩ := encode_eq_ok_iff.1 h
  exact ⟨x, _, by rw [padded_eq, List.append_assoc], emits_of_encode c.lawful hx⟩

theorem length_of_encode (h : c.encode = .ok b) : b.length = c.encodedLen := by
  obtain ⟨x, hx, rfl⟩ := encode_eq_ok_iff.1 h
  rw [length_padded, List.length_append, Node.length_of_encode c.node hx, encodedLen]

theorem four_dvd_encodedLen (c : Condition) : 4 ∣ c.encodedLen := four_dvd_align4 _

theorem exists_encode (h : c.encodedLen < 256 ^ 4) : ∃ b, c.encode = .ok b := by
  have padding : signature.length + c.node.encodedLen ≤ c.encodedLen := le_align4 _
  obtain ⟨x, hx⟩ := Node.exists_encode c.node (by omega)
  exact ⟨_, encode_eq_ok_iff.2 ⟨x, hx, rfl⟩⟩

/-- A condition within the bounds is read back from what was written, and from any more padding
after it. -/
theorem decode_of_encode (h : c.encode = .ok b) (shallow : c.node.Shallow) (p : Nat) :
    decode (b ++ zeros p) = .ok c := by
  obtain ⟨x, q, rfl, emits⟩ := emits_of_encoded h
  rw [List.append_assoc, List.append_assoc, zeros_append_zeros]
  exact decode_emits emits shallow (q + p)

/-- What is written of a condition fills whole groups of four bytes, and is read back as the
condition exactly when its tree is within both bounds. The tree being too deep is the only reason
to refuse it. -/
theorem decode_encode_iff_shallow (h : c.encode = .ok b) :
    4 ∣ b.length ∧
      (decode b = .ok c ↔ c.node.nesting ≤ 32 ∧ c.node.height ≤ 256) ∧
      (¬ (c.node.nesting ≤ 32 ∧ c.node.height ≤ 256) →
        decode b = .error (.malformedCondition .compositeTooDeep) ∨
          decode b = .error (.malformedCondition .tooDeep)) := by
  refine ⟨?_, ⟨?_, ?_⟩, ?_⟩
  · rw [length_of_encode h]
    exact four_dvd_encodedLen c
  · intro hd
    obtain ⟨shallow, -⟩ := emits_of_decode hd
    exact ⟨shallow.nesting_le, shallow.height_le⟩
  · rintro ⟨nesting, height⟩
    have back := decode_of_encode h ⟨nesting, height⟩ 0
    rwa [zeros_zero, List.append_nil] at back
  · intro deep
    obtain ⟨x, p, rfl, emits⟩ := emits_of_encoded h
    obtain ⟨f, rfl | rfl, hf⟩ := decode_emits_of_deep emits
      (fun shallow => deep ⟨shallow.nesting_le, shallow.height_le⟩) p
    · exact .inl hf
    · exact .inr hf

/-- A negated octet string takes eleven bytes and one of padding. -/
theorem decode_encode_iff_shallow_negation :
    let c := negation (octets [0x07])
    let b := signature ++ [0x18, 0x01, 0x00, 0x00, 0x00, 0x07, 0xA2, 0x00]
    c.encode = .ok b ∧ 4 ∣ b.length ∧ decode b = .ok c := by
  intro c b
  have written : c.encode = .ok b := rfl
  obtain ⟨size, back, -⟩ := decode_encode_iff_shallow written
  exact ⟨written, size, back.2 ⟨by decide, by decide⟩⟩

end AccessControl.Condition
