import AccessControl.Bitset
import AccessControl.Proofs.Descriptor.Failures

/-!
# Bytes that are said to be missing

Where a byte string is refused because bytes are missing, the cause says how many are needed and how
many are available. Single fields, records, parts at an offset and entries count these differently,
and any of them may stand deep inside the whole. The counts are true all the same
(`available_lt_needed_of_decode`): a reader that takes something off the front is given no more than
the whole has, which is what `Consumes` carries from one reader to the next.
-/

namespace AccessControl

variable {α : Type} {len : Nat} {b : Bytes}

/-- If a byte string is refused because bytes are missing, more are needed than are available, and
no more are available than it has. -/
def ShortageIsTrue (b : Bytes) (x : Except Error α) : Prop :=
  (∀ item needed available, x = .error (.truncated item needed available) →
    available < needed ∧ available ≤ b.length) ∧
  ∀ declared available, x = .error (.truncatedAce declared available) →
    available < declared ∧ available ≤ b.length

theorem Yields.shortageIsTrue {Q : α → Prop} {x : Except Error α} (h : Yields b.length Q x) :
    ShortageIsTrue b x := by
  constructor
  · rintro item needed available rfl
    exact h
  · rintro declared available rfl
    exact h

theorem Bitset.yields_decode (n : Nat) (within : b.length ≤ len) :
    Yields len (fun _ => True) (Bitset.decode n b) :=
  (yields_cutNat (Error.credible_short within)).bind fun _ _ => trivial

/-- Whatever is read, and however deep in it bytes are missing, the cause tells the truth about how
many are. -/
theorem available_lt_needed_of_decode (b : Bytes) :
    (∀ n, ShortageIsTrue b (Bitset.decode n b)) ∧ ShortageIsTrue b (Sid.decode b) ∧
      ShortageIsTrue b (ClaimAttribute.decode b) ∧ ShortageIsTrue b (Condition.decode b) ∧
      ShortageIsTrue b (Ace.decode b) ∧ ShortageIsTrue b (Acl.decode b) ∧
      ShortageIsTrue b (Descriptor.decode b) := by
  have whole : b.length ≤ b.length := Nat.le_refl _
  refine ⟨fun n => ?_, ?_, ?_, ?_, ?_, ?_, ?_⟩
  · exact (Bitset.yields_decode n whole).shortageIsTrue
  · exact (Sid.yields_decode whole).shortageIsTrue
  · exact (ClaimAttribute.yields_decode whole).shortageIsTrue
  · exact (Condition.yields_decode whole).shortageIsTrue
  · exact (Ace.yields_decode whole).shortageIsTrue
  · exact (Acl.yields_decode whole).shortageIsTrue
  · exact (Descriptor.yields_decode whole).shortageIsTrue

/-- A word, a record, an offset, a text in a composite, and an entry in a list, each of them cut
short. -/
theorem available_lt_needed_of_decode_nested :
    let sid : Bytes := [0x01, 0x02, 0, 0, 0, 0, 0, 0x05, 32, 0, 0, 0]
    let claim : Bytes := [100, 0, 0, 0, 1, 0, 0, 0, 0, 0, 0, 0, 0, 0, 0, 0, 20, 0, 0, 0]
    let condition : Bytes :=
      Condition.signature ++ [0x50, 6, 0, 0, 0] ++ [0x10, 9, 0, 0, 0, 0x41]
    let ace : Bytes := [0x00, 0x00, 20, 0, 0x01, 0, 0, 0]
    let acl : Bytes := [0x02, 0x00, 16, 0, 0x01, 0, 0, 0] ++ ace
    let descriptor : Bytes :=
      [0x01, 0x00, 0x04, 0x80, 0, 0, 0, 0, 0, 0, 0, 0, 0, 0, 0, 0, 20, 0, 0, 0] ++ acl
    (Bitset.decode 32 [1, 2] = .error (.truncated .flags 4 2) ∧ 2 < 4 ∧ 2 ≤ 2) ∧
      (Sid.decode sid = .error (.truncated .sid 13 12) ∧ 12 < 13 ∧ 12 ≤ sid.length) ∧
      (ClaimAttribute.decode claim = .error (.truncated .claimName 100 20) ∧
        20 < 100 ∧ 20 ≤ claim.length) ∧
      (Condition.decode condition = .error (.truncated .expressionString 9 1) ∧
        1 < 9 ∧ 1 ≤ condition.length) ∧
      (Ace.decode ace = .error (.truncatedAce 20 8) ∧ 8 < 20 ∧ 8 ≤ ace.length) ∧
      (Acl.decode acl = .error (.truncatedAce 20 8) ∧ 8 < 20 ∧ 8 ≤ acl.length) ∧
      Descriptor.decode descriptor = .error (.truncatedAce 20 8) ∧
        8 < 20 ∧ 8 ≤ descriptor.length := by
  intro sid claim condition ace acl descriptor
  obtain ⟨bitsets, -⟩ := available_lt_needed_of_decode [1, 2]
  obtain ⟨-, sids, -⟩ := available_lt_needed_of_decode sid
  obtain ⟨-, -, claims, -⟩ := available_lt_needed_of_decode claim
  obtain ⟨-, -, -, conditions, -⟩ := available_lt_needed_of_decode condition
  obtain ⟨-, -, -, -, entries, -⟩ := available_lt_needed_of_decode ace
  obtain ⟨-, -, -, -, -, lists, -⟩ := available_lt_needed_of_decode acl
  obtain ⟨-, -, -, -, -, -, descriptors⟩ := available_lt_needed_of_decode descriptor
  have word : Bitset.decode 32 [1, 2] = .error (.truncated .flags 4 2) := rfl
  have record : Sid.decode sid = .error (.truncated .sid 13 12) := rfl
  have offset : ClaimAttribute.decode claim = .error (.truncated .claimName 100 20) := rfl
  have text : Condition.decode condition = .error (.truncated .expressionString 9 1) := rfl
  have entry : Ace.decode ace = .error (.truncatedAce 20 8) := rfl
  have list : Acl.decode acl = .error (.truncatedAce 20 8) := rfl
  have part : Descriptor.decode descriptor = .error (.truncatedAce 20 8) := by
    decide +kernel
  exact ⟨⟨word, (bitsets 32).1 _ _ _ word⟩, ⟨record, sids.1 _ _ _ record⟩,
    ⟨offset, claims.1 _ _ _ offset⟩, ⟨text, conditions.1 _ _ _ text⟩,
    ⟨entry, entries.2 _ _ entry⟩, ⟨list, lists.2 _ _ list⟩, part, descriptors.2 _ _ part⟩

end AccessControl
