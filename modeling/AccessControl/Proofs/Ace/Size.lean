import AccessControl.Proofs.Ace.Wire
import AccessControl.Proofs.Claim.Decode

/-!
# Sizes of entries that are read

An entry is read from as many bytes as it declares (`Ace.drop_of_cutFront`). Written again, it takes
what it declared, filled up to groups of four bytes, or less; only an attribute may take more, as
its name and its value are written apart even where they shared bytes (`Ace.size_le_of_cutFront`).
-/

namespace AccessControl

/-! ### Kinds of data -/

/-- How many times as many bytes an entry with data of a kind may take when it is written again. -/
def DataKind.growth : DataKind → Nat
  | .attribute => 3
  | _ => 1

namespace DataKind

variable {kind : DataKind} {m d r : Nat}

theorem growth_pos (kind : DataKind) : 0 < kind.growth := by cases kind <;> decide

theorem growth_le (kind : DataKind) : kind.growth ≤ 3 := by cases kind <;> decide

theorem growth_eq_one (h : kind ≠ .attribute) : kind.growth = 1 := by
  cases kind with
  | «attribute» => exact absurd rfl h
  | _ => rfl

theorem le_growth_mul (kind : DataKind) (n : Nat) : n ≤ kind.growth * align4 n :=
  Nat.le_trans (le_align4 n) (Nat.le_mul_of_pos_left _ kind.growth_pos)

/-- Data that grows by its factor does so behind a body of whole groups as well. -/
theorem add_le_growth_mul (hm : 4 ∣ m) (h : d ≤ kind.growth * align4 r) :
    m + d ≤ kind.growth * align4 (m + r) := by
  rw [align4_add hm, Nat.mul_add]
  exact Nat.add_le_add (Nat.le_mul_of_pos_left m kind.growth_pos) h

end DataKind

theorem AceKind.ofCode?_eq_some {c : UInt8} {k : AceKind} : ofCode? c = some k ↔ k.code = c := by
  constructor
  · intro h
    unfold ofCode? at h
    split at h <;> cases h <;> rfl
  · rintro rfl
    exact ofCode?_code k

/-- Resource attributes are the only entries that have an attribute as their data. -/
theorem AceType.eq_of_dataKind_eq_attribute {type : AceType} (h : type.dataKind = .attribute) :
    type = AceKind.systemResourceAttribute.type := by
  rw [dataKind, kind?] at h
  cases known : AceKind.ofCode? type.code with
  | none =>
    rw [known] at h
    cases h
  | some k =>
    rw [known] at h
    obtain rfl : k = .systemResourceAttribute := by
      cases k with
      | systemResourceAttribute => rfl
      | _ => cases h
    rw [AceKind.type, AceKind.ofCode?_eq_some.1 known]

/-! ### Data and payloads -/

section Payloads

variable {d : AppData} {p : Payload} {kind : DataKind} {shape : Option AceShape} {b t : Bytes}

theorem AppData.encodedLen_normalized_le (h : decode kind b = .ok d) :
    d.normalized.encodedLen ≤ kind.growth * align4 b.length := by
  unfold decode at h
  split at h
  · cases h
    exact Nat.zero_le _
  · cases kind with
    | condition =>
      obtain ⟨c, hc, h⟩ := bind_eq_ok.1 h
      cases h
      have := Condition.encodedLen_le_of_decode hc
      simpa [DataKind.growth, normalized, encodedLen] using this
    | «attribute» =>
      obtain ⟨a, ha, h⟩ := bind_eq_ok.1 h
      cases h
      exact Nat.le_trans (ClaimAttribute.encodedLen_le_of_decode ha)
        (Nat.mul_le_mul_left 3 (le_align4 b.length))
    | raw | none =>
      cases h
      rename_i nonzero
      simp [DataKind.growth, normalized, nonzero, encodedLen]

/-- A payload is read from as many bytes as it takes in normal form, filled up to groups of four, or
more; only an attribute may take more. -/
theorem Payload.encodedLen_normalized_le (h : decode shape kind b = .ok p) :
    p.normalized.encodedLen ≤ kind.growth * align4 b.length := by
  unfold decode at h
  split at h
  · simp only [bind_eq_ok, Prod.exists, BasicBody.cutFront_eq_ok_iff] at h
    obtain ⟨x, rest, rfl, h⟩ := h
    cases h
    refine Nat.le_trans ?_ (kind.le_growth_mul _)
    rw [List.length_append, x.length_encode]
    exact Nat.le_add_right ..
  · simp only [bind_eq_ok, Prod.exists, ObjectBody.cutFront_eq_ok_iff] at h
    obtain ⟨o, rest, ⟨normal, rfl⟩, h⟩ := h
    cases h
    refine Nat.le_trans ?_ (kind.le_growth_mul _)
    rw [List.length_append, o.length_encode]
    exact Nat.le_add_right ..
  · simp only [bind_eq_ok, Prod.exists, ObjectBody.cutFront_eq_ok_iff] at h
    obtain ⟨o, rest, ⟨normal, rfl⟩, d, hd, h⟩ := h
    cases h
    rw [List.length_append, o.length_encode]
    exact DataKind.add_le_growth_mul o.four_dvd_encodedLen (AppData.encodedLen_normalized_le hd)
  · simp only [bind_eq_ok, Prod.exists, BasicBody.cutFront_eq_ok_iff] at h
    obtain ⟨x, rest, rfl, d, hd, h⟩ := h
    cases h
    rw [List.length_append, x.length_encode]
    exact DataKind.add_le_growth_mul x.four_dvd_encodedLen (AppData.encodedLen_normalized_le hd)
  · cases h
    rw [normalized, encodedLen, length_padded]
    exact Nat.le_mul_of_pos_left _ kind.growth_pos

end Payloads

/-! ### Entries -/

namespace Ace

variable {a : Ace} {b t : Bytes}

/-- The type that the entry at the start of a byte string declares. -/
def declaredType (b : Bytes) : AceType := ⟨b.headD 0⟩

/-- The size that the entry at the start of a byte string declares. -/
def declaredSize (b : Bytes) : Nat := numberAt b 2 2

/-- The size that the entry at the start of a byte string has at most when it is written again: what
it declares, filled up to groups of four bytes, and three times as many for an attribute. -/
def sizeBound (b : Bytes) : Nat :=
  (declaredType b).dataKind.growth * align4 (declaredSize b)

theorem sizeBound_le (b : Bytes) : sizeBound b ≤ 12 * declaredSize b :=
  calc sizeBound b
    _ ≤ 3 * (4 * declaredSize b) := Nat.mul_le_mul (DataKind.growth_le _) (align4_le_four_mul _)
    _ = 12 * declaredSize b := (Nat.mul_assoc 3 4 _).symm

/-- The header of an entry says which type it has and how many bytes it takes. -/
theorem declared_of_header (type : AceType) (flags : BitVec 8) {n : Nat} (fits : n < 256 ^ 2)
    (x : Bytes) :
    declaredType (type.code :: (leBytes 1 flags.toNat ++ (leBytes 2 n ++ x))) = type ∧
      declaredSize (type.code :: (leBytes 1 flags.toNat ++ (leBytes 2 n ++ x))) = n :=
  ⟨rfl, numberAt_append [type.code, UInt8.ofNat flags.toNat] fits x⟩

/-- The rest starts right after as many bytes as the entry declares. -/
theorem drop_of_cutFront (h : cutFront b = .ok (a, t)) :
    declaredSize b ≤ b.length ∧ t = b.drop (declaredSize b) := by
  obtain ⟨type, flags, body, p, fits, -, -, hb⟩ := cutFront_eq_ok_iff.1 h
  obtain ⟨-, declared⟩ := declared_of_header type flags fits (body ++ t)
  rw [← hb] at declared
  generalize hx : type.code :: (leBytes 1 flags.toNat ++ leBytes 2 (headerLen + body.length)) = head
  have covered : (head ++ body).length = declaredSize b := by
    simp only [declared, ← hx, List.length_append, List.length_cons, length_leBytes, headerLen]
  have hb : b = head ++ body ++ t := by
    simp only [hb, ← hx, List.cons_append, List.append_assoc]
  constructor
  · have total := congrArg List.length hb
    rw [List.length_append, covered] at total
    exact Nat.le.intro total.symm
  · rw [← covered]
    exact ((congrArg (List.drop _) hb).trans List.drop_left).symm

theorem size_le_of_cutFront (h : cutFront b = .ok (a, t)) : a.size ≤ sizeBound b := by
  obtain ⟨type, flags, body, p, fits, hp, made, rfl⟩ := cutFront_eq_ok_iff.1 h
  obtain ⟨-, -, hpayload, -⟩ := make_eq_ok_iff.1 made
  obtain ⟨sameType, declared⟩ := declared_of_header type flags fits (body ++ t)
  have payload := Payload.encodedLen_normalized_le hp
  have total := DataKind.add_le_growth_mul (by decide : 4 ∣ headerLen) payload
  have groups : 4 ∣ type.dataKind.growth * align4 (headerLen + body.length) :=
    Nat.dvd_mul_left_of_dvd (four_dvd_align4 _) _
  rw [sizeBound, sameType, declared, size, hpayload]
  exact Nat.le_trans (align4_mono total) (Nat.le_of_eq (align4_eq_self groups))

theorem type_of_cutFront (h : cutFront b = .ok (a, t)) : a.type = declaredType b := by
  obtain ⟨type, flags, body, p, fits, -, made, rfl⟩ := cutFront_eq_ok_iff.1 h
  rw [(declared_of_header type flags fits (body ++ t)).1]
  exact (make_eq_ok_iff.1 made).1

/-- An entry of another type than a resource attribute does not grow beyond the group of four bytes
in which its declared size ends. -/
theorem size_le_align4_of_decode (h : decode b = .ok a)
    (other : a.type ≠ AceKind.systemResourceAttribute.type) : a.size ≤ align4 (declaredSize b) := by
  obtain ⟨t, ht⟩ := fst_eq_ok.1 h
  have kind : (declaredType b).dataKind ≠ .attribute := by
    rw [← type_of_cutFront ht]
    exact fun h => other (AceType.eq_of_dataKind_eq_attribute h)
  have bound := size_le_of_cutFront ht
  rwa [sizeBound, DataKind.growth_eq_one kind, Nat.one_mul] at bound

end Ace
end AccessControl
