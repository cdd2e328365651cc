import Mathlib.Data.List.Forall2
import AccessControl.Proofs.Acl.Size

/-!
# What is written of a list

The size of a list alone decides whether it is written: its entries take at least a header each, so
a list that is not too large has not too many of them and none that is too large. What is written is
a header of eight bytes and then the entries one after another (`written_iff_encodedLen_le`).
-/

namespace AccessControl.Acl

variable {l : Acl} {as : List Ace} {x : Bytes}

theorem entriesLen_eq_sum (as : List Ace) : entriesLen as = (as.map Ace.size).sum := by
  induction as with
  | nil => rfl
  | cons a as ih => rw [entriesLen, List.map_cons, List.sum_cons, ih]

/-- Entries are written one after another, each as it is written alone. -/
theorem encodeEntries_eq_ok_iff : encodeEntries as = .ok x ↔
    ∃ parts, List.Forall₂ (fun a part => a.encode = .ok part) as parts ∧ x = parts.flatten := by
  induction as generalizing x with
  | nil =>
    constructor
    · intro h
      cases h
      exact ⟨[], .nil, rfl⟩
    · rintro ⟨parts, each, rfl⟩
      cases each
      rfl
  | cons a as ih =>
    simp only [encodeEntries, bind_eq_ok, ih]
    constructor
    · rintro ⟨part, first, _, ⟨parts, each, rfl⟩, h⟩
      cases h
      exact ⟨part :: parts, .cons first each, rfl⟩
    · rintro ⟨parts, each, rfl⟩
      rcases each with _ | ⟨first, each⟩
      exact ⟨_, first, _, ⟨_, each, rfl⟩, rfl⟩

theorem size_le_entriesLen {a : Ace} (ha : a ∈ as) : a.size ≤ entriesLen as := by
  induction ha with
  | head as => exact Nat.le_add_right ..
  | tail b _ ih => exact Nat.le_trans ih (Nat.le_add_left ..)

theorem exists_encode_of_mem {a : Ace} (fits : l.encodedLen < 256 ^ 2) (ha : a ∈ l.entries) :
    ∃ part, a.encode = .ok part := by
  have entries : entriesLen l.entries ≤ l.encodedLen := Nat.le_add_left ..
  have member : a.size ≤ l.encodedLen := Nat.le_trans (size_le_entriesLen ha) entries
  exact Ace.exists_encode (Nat.lt_of_le_of_lt member fits)

/-- A list is refused for its size and for nothing else. -/
theorem encode_eq_error_iff {e : Error} : l.encode = .error e ↔
    256 ^ 2 ≤ l.encodedLen ∧ e = .invalidSize .acl l.encodedLen := by
  constructor
  · intro h
    rcases Nat.lt_or_ge l.encodedLen (256 ^ 2) with fits | large
    · obtain ⟨b, written⟩ := exists_encode fits
      rw [written] at h
      cases h
    · rw [encode_of_large large] at h
      cases h
      exact ⟨large, rfl⟩
  · rintro ⟨large, rfl⟩
    exact encode_of_large large

/-- A list is written exactly when its header and its entries take at most 65535 bytes, and is
refused for its size otherwise, as a list that is not too large has neither too many entries nor one
that is refused. What is written is the revision that the entries ask for, the size, the number of
entries and then each entry as it is written alone. -/
theorem written_iff_encodedLen_le (l : Acl) :
    l.encodedLen = 8 + (l.entries.map Ace.size).sum ∧
      ((∃ b, l.encode = .ok b) ↔ l.encodedLen ≤ 65535) ∧
      (∀ e, l.encode = .error e ↔
        ¬ l.encodedLen ≤ 65535 ∧ e = .invalidSize .acl l.encodedLen) ∧
      (l.encodedLen ≤ 65535 →
        l.entries.length ≤ 65535 ∧ ∀ a ∈ l.entries, ∃ part, a.encode = .ok part) ∧
      ∀ b, l.encode = .ok b →
        ∃ parts, List.Forall₂ (fun a part => a.encode = .ok part) l.entries parts ∧
          b = [if l.entries.any (fun a => a.type.isObject) then 4 else 2, 0] ++
            (leBytes 2 l.encodedLen ++ (leBytes 2 l.entries.length ++
              ([0, 0] ++ parts.flatten))) := by
  refine ⟨?_, ⟨?_, ?_⟩, ?_, ?_, ?_⟩
  · rw [encodedLen, entriesLen_eq_sum, headerLen]
  · rintro ⟨b, h⟩
    exact Nat.le_of_lt_succ (encode_eq_ok_iff.1 h).1
  · intro fits
    exact exists_encode (Nat.lt_succ_of_le fits)
  · intro e
    rw [Nat.not_le]
    exact encode_eq_error_iff
  · intro fits
    have count := length_le_entriesLen l.entries
    have entries : entriesLen l.entries ≤ l.encodedLen := Nat.le_add_left ..
    exact ⟨by omega, fun a ha => exists_encode_of_mem (Nat.lt_succ_of_le fits) ha⟩
  · intro b h
    obtain ⟨-, -, x, hx, rfl⟩ := encode_eq_ok_iff.1 h
    obtain ⟨parts, each, rfl⟩ := encodeEntries_eq_ok_iff.1 hx
    exact ⟨parts, each, rfl⟩

/-- A denial and a grant for objects of a type are written with the later revision, and two bodies
of 40000 bytes are too large together, though neither of them is. -/
theorem written_iff_encodedLen_le_object :
    let everyone := WellKnown.everyone.toSid
    let g : Guid := ⟨zeros 16, length_zeros 16⟩
    let grant : Ace := ⟨AceKind.accessAllowedObject.type, 0, .object ⟨1, 1, some g, none, everyone⟩,
      ⟨rfl, trivial, ⟨by decide, by decide⟩⟩⟩
    let l : Acl := ⟨[.denied everyone 2, grant]⟩
    let sid : Bytes := [0x01, 0x01, 0, 0, 0, 0, 0, 0x01, 0, 0, 0, 0]
    let b : Bytes := [0x04, 0x00, 68, 0, 0x02, 0, 0, 0] ++
      ([0x01, 0x00, 20, 0, 0x02, 0, 0, 0] ++ sid ++
        ([0x05, 0x00, 40, 0, 0x01, 0, 0, 0, 0x01, 0, 0, 0] ++ zeros 16 ++ sid))
    let half : Ace := ⟨⟨0x20⟩, 0, .unknown (zeros 40000), ⟨rfl, trivial, ⟨10000, length_zeros _⟩⟩⟩
    let large : Acl := ⟨[half, half]⟩
    l.encode = .ok b ∧
      (∃ parts, List.Forall₂ (fun a part => a.encode = .ok part) l.entries parts ∧
        b = [0x04, 0x00] ++ (leBytes 2 68 ++ (leBytes 2 2 ++ ([0, 0] ++ parts.flatten)))) ∧
      (∃ part, half.encode = .ok part) ∧
      large.encode = .error (.invalidSize .acl 80016) := by
  intro everyone g grant l sid b half large
  have written : l.encode = .ok b := by
    simp only [l, b, grant, g, sid, everyone]
    decide
  have objects : (l.entries.any fun a => a.type.isObject) = true := rfl
  have length : l.encodedLen = 68 := by
    simp only [l, grant, g, everyone]
    decide
  have size : half.size = 40004 := by
    simp only [half, Ace.size, Payload.encodedLen, length_zeros]
    rfl
  obtain ⟨-, -, -, -, parts⟩ := written_iff_encodedLen_le l
  obtain ⟨total, -, refused, -, -⟩ := written_iff_encodedLen_le large
  have total : large.encodedLen = 80016 := by
    rw [total]
    simp only [large, List.map_cons, List.map_nil, List.sum_cons, List.sum_nil, size]
    rfl
  obtain ⟨each, ofEach, hb⟩ := parts b written
  rw [if_pos objects, length] at hb
  refine ⟨written, ⟨each, ofEach, hb⟩, Ace.exists_encode (by rw [size]; decide), ?_⟩
  rw [← total]
  exact (refused _).2 ⟨by rw [total]; decide, rfl⟩

end AccessControl.Acl
