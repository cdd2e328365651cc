import AccessControl.Acl.Wire
import AccessControl.Proofs.Ace.Wire

/-!
# Access control lists, read and written

A list is read back from what was written of it, entry by entry, and the reader stops right after
it, if all of its entries survive the wire (`Acl.cutFront_of_encode`). A reader makes no lists but
these (`Acl.wireSafe_of_cutFront`).
-/

namespace AccessControl.Acl

variable {l : Acl} {as : List Ace} {b x t : Bytes} {n : Nat}

/-! ### Entries -/

theorem length_of_encodeEntries (h : encodeEntries as = .ok x) :
    x.length = entriesLen as := by
  induction as generalizing x with
  | nil =>
    cases h
    rfl
  | cons a as ih =>
    simp only [encodeEntries, bind_eq_ok] at h
    obtain ⟨y, hy, z, hz, h⟩ := h
    cases h
    rw [List.length_append, Ace.length_of_encode hy, ih hz, entriesLen]

theorem decodeEntries_of_encodeEntries (h : encodeEntries as = .ok x)
    (safe : ∀ a ∈ as, a.WireSafe) (t : Bytes) : decodeEntries as.length (x ++ t) = .ok as := by
  induction as generalizing x with
  | nil => rfl
  | cons a as ih =>
    simp only [encodeEntries, bind_eq_ok] at h
    obtain ⟨y, hy, z, hz, h⟩ := h
    cases h
    rw [List.forall_mem_cons] at safe
    rw [List.append_assoc, List.length_cons, decodeEntries, Ace.cutFront_of_encode hy safe.1,
      ok_bind]
    simp only [ih hz safe.2, ok_bind, pure_ok]

theorem wireSafe_of_decodeEntries (h : decodeEntries n b = .ok as) : ∀ a ∈ as, a.WireSafe := by
  induction n generalizing b as with
  | zero =>
    cases h
    simp
  | succ n ih =>
    simp only [decodeEntries, bind_eq_ok, Prod.exists] at h
    obtain ⟨a, r, ha, as', has, h⟩ := h
    cases h
    rw [List.forall_mem_cons]
    exact ⟨Ace.wireSafe_of_cutFront ha, ih has⟩

/-! ### Lists -/

/-- Every entry of the list survives the wire. -/
def WireSafe (l : Acl) : Prop := ∀ a ∈ l.entries, a.WireSafe

theorem encode_eq_ok_iff : l.encode = .ok b ↔
    l.encodedLen < 256 ^ 2 ∧ l.entries.length < 256 ^ 2 ∧
      ∃ x, encodeEntries l.entries = .ok x ∧
        b = l.revision :: 0 :: (leBytes 2 l.encodedLen ++ (leBytes 2 l.entries.length ++
          (leBytes 2 0 ++ x))) := by
  simp only [encode, bind_eq_ok, sizeField_eq_ok_iff, List.cons_append, List.append_assoc, pure_ok,
    Except.ok.injEq]
  constructor
  · rintro ⟨_, ⟨size, rfl⟩, _, ⟨count, rfl⟩, x, hx, rfl⟩
    exact ⟨size, count, x, hx, rfl⟩
  · rintro ⟨size, count, x, hx, rfl⟩
    exact ⟨_, ⟨size, rfl⟩, _, ⟨count, rfl⟩, x, hx, rfl⟩

theorem length_of_encode (h : l.encode = .ok b) : b.length = l.encodedLen := by
  obtain ⟨-, -, x, hx, rfl⟩ := encode_eq_ok_iff.1 h
  simp only [List.length_cons, List.length_append, length_leBytes, length_of_encodeEntries hx,
    encodedLen, headerLen]
  omega

theorem revision_bounds (l : Acl) :
    leastRevision ≤ l.revision.toNat ∧ l.revision.toNat ≤ greatestRevision := by
  unfold revision
  split
  · decide
  · decide

/-- A list is read exactly from its header and a body that starts with as many entries as it
counts. -/
theorem cutFront_eq_ok_iff : cutFront b = .ok (l, t) ↔
    ∃ (revision second : UInt8) (count pad : Nat) (body : Bytes),
      (leastRevision ≤ revision.toNat ∧ revision.toNat ≤ greatestRevision) ∧
      headerLen + body.length < 256 ^ 2 ∧ count < 256 ^ 2 ∧ pad < 256 ^ 2 ∧
      decodeEntries count body = .ok l.entries ∧
      b = revision :: second :: (leBytes 2 (headerLen + body.length) ++ (leBytes 2 count ++
        (leBytes 2 pad ++ (body ++ t)))) := by
  constructor
  · intro h
    simp only [cutFront, throw_error, error_bind, bind_eq_ok, Prod.exists, check_eq_ok,
      cutNat_one_eq_ok_iff, cutNat_eq_ok_iff (n := 2), cut_eq_ok_iff] at h
    obtain ⟨_, _, ⟨revision, rfl, rfl⟩, inRange, _, _, ⟨second, rfl, rfl⟩, size, _, ⟨fits, rfl⟩,
      least, count, _, ⟨counts, rfl⟩, pad, _, ⟨hpad, rfl⟩, body, _, ⟨rfl, length⟩, as, entries,
      h⟩ := h
    cases h
    obtain rfl : size = headerLen + body.length := by omega
    exact ⟨revision, second, count, pad, body, by omega, fits, counts, hpad, entries, rfl⟩
  · rintro ⟨revision, second, count, pad, body, known, fits, counts, hpad, entries, rfl⟩
    have inRange : ¬ (revision.toNat < leastRevision ∨ greatestRevision < revision.toNat) := by
      omega
    have least : ¬ headerLen + body.length < headerLen := Nat.not_lt.2 (Nat.le_add_right ..)
    simp only [cutFront, cutNat_one_cons, cutNat_leBytes fits, cutNat_leBytes counts,
      cutNat_leBytes hpad, ok_bind, if_neg inRange, if_neg least, Nat.add_sub_cancel_left,
      cut_append, entries, pure_ok]

/-- A list of entries that survive the wire is read back from its bytes, whatever follows them. -/
theorem cutFront_of_encode (h : l.encode = .ok b) (safe : l.WireSafe) (t : Bytes) :
    cutFront (b ++ t) = .ok (l, t) := by
  obtain ⟨fits, count, x, hx, rfl⟩ := encode_eq_ok_iff.1 h
  have size : l.encodedLen = headerLen + x.length := by
    rw [length_of_encodeEntries hx, encodedLen]
  have entries : decodeEntries l.entries.length x = .ok l.entries := by
    have := decodeEntries_of_encodeEntries hx safe []
    rwa [List.append_nil] at this
  refine cutFront_eq_ok_iff.2 ⟨l.revision, 0, l.entries.length, 0, x, l.revision_bounds,
    size ▸ fits, count, by decide, entries, ?_⟩
  simp only [size, List.cons_append, List.append_assoc]

/-- Every entry of a list that is read survives the wire. -/
theorem wireSafe_of_cutFront (h : cutFront b = .ok (l, t)) : l.WireSafe := by
  obtain ⟨_, _, _, _, _, -, -, -, -, entries, -⟩ := cutFront_eq_ok_iff.1 h
  exact wireSafe_of_decodeEntries entries

end AccessControl.Acl
