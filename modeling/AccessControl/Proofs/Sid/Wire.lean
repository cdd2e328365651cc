import AccessControl.Proofs.Bytes.Fields
import AccessControl.Sid.Wire

/-!
# SIDs are exactly their bytes

A SID has one binary form, and reading accepts nothing else: as a field in front of other bytes
(`cutField_eq_ok_iff`) and as a whole byte string (`decode_eq_ok_iff`). A byte string is that of a
SID when its first two bytes and its length say so (`exists_encode_iff`).
-/

namespace AccessControl.Sid

variable {short : Bytes → Error} {b t : Bytes}

theorem encodeSubs_cons (sub : UInt32) (subs : List UInt32) :
    encodeSubs (sub :: subs) = leBytes 4 sub.toNat ++ encodeSubs subs := rfl

theorem length_encodeSubs (subs : List UInt32) : (encodeSubs subs).length = 4 * subs.length := by
  induction subs with
  | nil => rfl
  | cons sub subs ih =>
    rw [encodeSubs_cons, List.length_append, length_leBytes, ih, List.length_cons]
    omega

theorem length_encode (s : Sid) : s.encode.length = s.encodedLen := by
  simp only [encode, encodedLen, count, List.cons_append, List.length_cons, List.length_append,
    s.authority.length_bytes, length_encodeSubs]
  omega

theorem four_dvd_encodedLen (s : Sid) : 4 ∣ s.encodedLen := by
  unfold encodedLen
  omega

theorem encodedLen_le (s : Sid) : s.encodedLen ≤ 68 := by
  have := s.length_le
  unfold encodedLen count
  omega

theorem cutAuthority_eq_ok_iff {a : Authority} :
    cutAuthority short b = .ok (a, t) ↔ b = a.bytes ++ t := by
  rw [cutAuthority, Authority.ofBytes?]
  constructor
  · intro h
    by_cases hb : (b.take 6).length = 6
    · rw [dif_pos hb] at h
      cases h
      exact (List.take_append_drop 6 b).symm
    · rw [dif_neg hb] at h
      cases h
  · rintro rfl
    have htake : (a.bytes ++ t).take 6 = a.bytes := List.take_left' a.length_bytes
    have hdrop : (a.bytes ++ t).drop 6 = t := List.drop_left' a.length_bytes
    simp only [htake, hdrop, a.length_bytes, dif_pos]

theorem cutSubs_eq_ok_iff {n : Nat} {subs : List UInt32} :
    cutSubs short n b = .ok (subs, t) ↔ subs.length = n ∧ b = encodeSubs subs ++ t := by
  induction n generalizing b t subs with
  | zero =>
    cases subs with
    | nil => simp [cutSubs, encodeSubs]
    | cons sub subs => simp [cutSubs]
  | succ n ih =>
    simp only [cutSubs, bind_eq_ok, Prod.exists, cutNat_eq_ok_iff, ih]
    constructor
    · rintro ⟨v, r, ⟨hv, rfl⟩, subs', r', ⟨rfl, rfl⟩, h⟩
      cases h
      have hsub : (UInt32.ofNat v).toNat = v := by
        rw [UInt32.toNat_ofNat']
        exact Nat.mod_eq_of_lt hv
      refine ⟨rfl, ?_⟩
      rw [encodeSubs_cons, hsub, List.append_assoc]
    · rintro ⟨hlen, rfl⟩
      cases subs with
      | nil => cases hlen
      | cons sub subs =>
        refine ⟨sub.toNat, encodeSubs subs ++ t, ⟨sub.toNat_lt, ?_⟩, subs, t, ⟨?_, rfl⟩, ?_⟩
        · rw [encodeSubs_cons, List.append_assoc]
        · simpa using hlen
        · simp

/-- Every byte string of the right length is that of sub-authorities. -/
theorem exists_encodeSubs {n : Nat} (h : b.length = 4 * n) :
    ∃ subs, subs.length = n ∧ encodeSubs subs = b := by
  induction n generalizing b with
  | zero => exact ⟨[], rfl, (List.length_eq_zero_iff.1 h).symm⟩
  | succ n ih =>
    obtain ⟨subs, length, rest⟩ := ih (b := b.drop 4) (by rw [List.length_drop]; omega)
    have number : (UInt32.ofNat (numberAt b 0 4)).toNat = numberAt b 0 4 :=
      UInt32.toNat_ofNat_of_lt' (numberAt_lt b 0 4)
    refine ⟨.ofNat (numberAt b 0 4) :: subs, congrArg (· + 1) length, ?_⟩
    rw [encodeSubs_cons, number, rest]
    exact leBytes_numberAt b 0 4 (by omega)

/-- The cut to fifteen sub-authorities drops none of a SID. -/
theorem ofParts_self (s : Sid) : ofParts s.authority s.subAuthorities = s := by
  have h : s.subAuthorities.take maxCount = s.subAuthorities := List.take_of_length_le s.length_le
  have one : onlyRevision = s.revision := s.revision_eq.symm
  simp only [ofParts, h, one]

/-- A SID is read exactly from its bytes. -/
theorem cutField_eq_ok_iff {s : Sid} : cutField short b = .ok (s, t) ↔ b = s.encode ++ t := by
  simp only [cutField, throw_error, error_bind, bind_eq_ok, Prod.exists, check_eq_ok,
    cutNat_one_eq_ok_iff, cutAuthority_eq_ok_iff, cutSubs_eq_ok_iff]
  constructor
  · rintro ⟨_, _, ⟨rev, rfl, rfl⟩, hrev, _, _, ⟨count, rfl, rfl⟩, hcount, a, _, rfl, subs, _,
      ⟨hlen, rfl⟩, h⟩
    cases h
    have hall : subs.take maxCount = subs := List.take_of_length_le (by omega)
    have hrev' : rev = onlyRevision := UInt8.toNat_inj.1 (Decidable.not_not.1 hrev)
    have hcount' : UInt8.ofNat subs.length = count := by rw [hlen, UInt8.ofNat_toNat]
    simp only [encode, Sid.count, ofParts, hall, hrev', hcount', List.cons_append,
      List.append_assoc]
  · rintro rfl
    have hcount : (UInt8.ofNat s.count).toNat = s.subAuthorities.length := by
      have := s.length_le
      rw [UInt8.toNat_ofNat', count]
      omega
    refine ⟨_, _, ⟨onlyRevision, rfl, rfl⟩, by simp, _, _, ⟨UInt8.ofNat s.count, rfl, rfl⟩, ?_,
      s.authority, _, ?_, s.subAuthorities, t, ⟨hcount.symm, rfl⟩, ?_⟩
    · rw [hcount, Nat.not_lt]
      exact s.length_le
    · exact List.append_assoc ..
    · rw [ofParts_self]
      rfl

/-- A SID is read from the front of a byte string exactly when its bytes are there. -/
theorem cutFront_eq_ok_iff {s : Sid} : cutFront b = .ok (s, t) ↔ b = s.encode ++ t :=
  cutField_eq_ok_iff

/-- A byte string is a SID exactly when it is the bytes of that SID. -/
theorem decode_eq_ok_iff {s : Sid} : decode b = .ok s ↔ b = s.encode := by
  simp only [decode, throw_error, error_bind, bind_eq_ok, Prod.exists, check_eq_ok,
    cutFront_eq_ok_iff]
  constructor
  · rintro ⟨s', r, rfl, hr, h⟩
    cases h
    rw [Decidable.not_not.1 hr, List.append_nil]
  · rintro rfl
    exact ⟨s, [], by rw [List.append_nil], by simp, rfl⟩

/-- A byte string is that of a SID exactly when it starts with the revision and a count that is not
too large, and has the length that goes with the count. -/
theorem exists_encode_iff : (∃ s : Sid, s.encode = b) ↔
    8 ≤ b.length ∧ b[0]? = some onlyRevision ∧
      ∃ count, b[1]? = some count ∧ count.toNat ≤ maxCount ∧ b.length = 8 + 4 * count.toNat := by
  constructor
  · rintro ⟨s, rfl⟩
    have room : s.count ≤ maxCount := s.length_le
    have number : (UInt8.ofNat s.count).toNat = s.count := by
      rw [UInt8.toNat_ofNat']
      unfold maxCount at room
      omega
    rw [length_encode, encodedLen]
    exact ⟨Nat.le_add_right .., rfl, UInt8.ofNat s.count, rfl, by rwa [number], by rw [number]⟩
  · rintro ⟨long, first, count, second, room, length⟩
    match b with
    | rev :: c :: rest =>
      obtain rfl : rev = onlyRevision := Option.some.inj first
      obtain rfl : c = count := Option.some.inj second
      simp only [List.length_cons] at length
      obtain ⟨subs, hsubs, bytes⟩ := exists_encodeSubs (n := c.toNat) (b := rest.drop 6)
        (by rw [List.length_drop]; omega)
      have same : UInt8.ofNat subs.length = c := by rw [hsubs, UInt8.ofNat_toNat]
      have whole : rest.take 6 ++ encodeSubs subs = rest := by
        rw [bytes, List.take_append_drop]
      refine ⟨⟨onlyRevision, ⟨rest.take 6, by rw [List.length_take]; omega⟩, subs, rfl, ?_⟩, ?_⟩
      · exact Nat.le_trans (Nat.le_of_eq hsubs) room
      · change onlyRevision :: UInt8.ofNat subs.length :: (rest.take 6 ++ encodeSubs subs) = _
        rw [same, whole]

/-- Bytes and SIDs determine each other: a SID has the bytes that it is read from and no others, and
the byte strings that are read are given by their first two bytes and their length. In front of
other bytes a SID is read from its own and leaves the others. -/
theorem decode_iff_encode (b : Bytes) :
    (∀ s, decode b = .ok s ↔ s.encode = b) ∧
      ((∃ s, decode b = .ok s) ↔ 8 ≤ b.length ∧ b[0]? = some 1 ∧
        ∃ count, b[1]? = some count ∧ count.toNat ≤ 15 ∧ b.length = 8 + 4 * count.toNat) ∧
      ∀ (s : Sid) (t : Bytes), (s.encode ++ t).length = s.encodedLen + t.length ∧
        cutFront (s.encode ++ t) = .ok (s, t) ∧
        ∀ short, cutField short (s.encode ++ t) = .ok (s, t) := by
  have exact : ∀ s, decode b = .ok s ↔ s.encode = b := fun s => decode_eq_ok_iff.trans eq_comm
  refine ⟨exact, ?_, fun s t => ⟨?_, cutFront_eq_ok_iff.2 rfl, fun _ => cutField_eq_ok_iff.2 rfl⟩⟩
  · simp only [exact]
    exact exists_encode_iff
  · rw [List.length_append, length_encode]

end AccessControl.Sid
