import AccessControl.Proofs.Ace.Payload

/-!
# Entries, read and written

The constructor of entries succeeds when the shape and the data of a payload belong to the type,
and gives its normal form. An entry is read back from what was written of it, and the reader stops
right after it, if its data survives the wire (`Ace.cutFront_of_encode`); a reader makes no entries
but these (`Ace.wireSafe_of_cutFront`). The size of an entry alone decides whether it is written
(`Ace.written_iff_size_le`).
-/

namespace AccessControl.Ace

variable {a : Ace} {b t : Bytes}

/-! ### The constructor -/

theorem make_eq_ok_iff {type : AceType} {flags : BitVec 8} {p : Payload} :
    make type flags p = .ok a ↔
      a.type = type ∧ a.flags = flags ∧ a.payload = p.normalized ∧
        p.shape? = type.shape? ∧ p.normalized.data.Fits type.dataKind := by
  rw [make]
  by_cases hs : p.shape? = type.shape?
  · rw [dif_pos hs]
    by_cases hf : p.normalized.data.Fits type.dataKind
    · rw [dif_pos hf, Except.ok.injEq]
      constructor
      · rintro rfl
        exact ⟨rfl, rfl, rfl, hs, hf⟩
      · rintro ⟨rfl, rfl, hp, -⟩
        simp only [← hp]
    · simp [hf]
  · simp [hs]

theorem exists_make {type : AceType} {p : Payload} (shape : p.shape? = type.shape?)
    (fits : p.normalized.data.Fits type.dataKind) (flags : BitVec 8) :
    ∃ a, make type flags p = .ok a := by
  rw [make, dif_pos shape, dif_pos fits]
  exact ⟨_, rfl⟩

/-- A payload of the right shape is refused for its data alone. -/
theorem make_eq_error_iff {type : AceType} {flags : BitVec 8} {p : Payload} {e : Error}
    (shape : p.shape? = type.shape?) : make type flags p = .error e ↔
      ¬ p.normalized.data.Fits type.dataKind ∧ p.normalized.data.refusal type = e := by
  rw [make, dif_pos shape]
  by_cases fits : p.normalized.data.Fits type.dataKind
  · simp [fits]
  · simp [fits]

/-- The constructor gives back an entry of which it is given the parts. -/
theorem make_self (a : Ace) : make a.type a.flags a.payload = .ok a := by
  have normal := Payload.normalized_eq_self a.valid.normal
  refine make_eq_ok_iff.2 ⟨rfl, rfl, normal.symm, a.valid.shape, ?_⟩
  rw [normal]
  exact a.valid.fits

/-! ### The envelope -/

/-- The condition of the entry is within the bounds of a reader, and its claim has no zero
characters. -/
def WireSafe (a : Ace) : Prop := a.payload.data.WireSafe

theorem headerLen_le_size (a : Ace) : headerLen ≤ a.size :=
  Nat.le_trans (Nat.le_add_right ..) (le_align4 _)

theorem four_dvd_size (a : Ace) : 4 ∣ a.size := four_dvd_align4 _

/-- What is written of an entry is its header, its payload and padding. -/
theorem encode_eq_ok_iff : a.encode = .ok b ↔
    a.size < 256 ^ 2 ∧ ∃ x, a.payload.encode = .ok x ∧
      b = a.type.code :: (leBytes 1 a.flags.toNat ++ (leBytes 2 a.size ++
        (x ++ zeros (a.size - (headerLen + a.payload.encodedLen))))) := by
  simp only [encode, bind_eq_ok, sizeField_eq_ok_iff, pure_ok, Except.ok.injEq]
  have bytes : ∀ x, a.payload.encode = .ok x →
      padded (a.type.code :: leBytes 1 a.flags.toNat ++ leBytes 2 a.size ++ x) =
        a.type.code :: (leBytes 1 a.flags.toNat ++ (leBytes 2 a.size ++
          (x ++ zeros (a.size - (headerLen + a.payload.encodedLen))))) := by
    intro x hx
    have size : (a.type.code :: leBytes 1 a.flags.toNat ++ leBytes 2 a.size ++ x).length =
        headerLen + a.payload.encodedLen := by
      simp only [List.length_append, List.length_cons, length_leBytes, Payload.length_of_encode hx,
        headerLen]
    rw [padded_eq, size]
    simp only [List.cons_append, List.append_assoc, Ace.size]
  constructor
  · rintro ⟨_, ⟨fits, rfl⟩, x, hx, rfl⟩
    exact ⟨fits, x, hx, bytes x hx⟩
  · rintro ⟨fits, x, hx, rfl⟩
    exact ⟨_, ⟨fits, rfl⟩, x, hx, bytes x hx⟩

theorem length_of_encode (h : a.encode = .ok b) : b.length = a.size := by
  obtain ⟨-, x, hx, rfl⟩ := encode_eq_ok_iff.1 h
  have : headerLen + a.payload.encodedLen ≤ a.size := le_align4 _
  simp only [List.length_append, List.length_cons, length_leBytes, length_zeros,
    Payload.length_of_encode hx]
  simp only [headerLen] at this ⊢
  omega

/-- An entry is read exactly from its header and a body that holds a payload for its type. -/
theorem cutFront_eq_ok_iff : cutFront b = .ok (a, t) ↔
    ∃ (type : AceType) (flags : BitVec 8) (body : Bytes) (p : Payload),
      headerLen + body.length < 256 ^ 2 ∧
      Payload.decode type.shape? type.dataKind body = .ok p ∧ make type flags p = .ok a ∧
      b = type.code :: (leBytes 1 flags.toNat ++ (leBytes 2 (headerLen + body.length) ++
        (body ++ t))) := by
  constructor
  · intro h
    simp only [cutFront, throw_error, error_bind, bind_eq_ok, Prod.exists, check_eq_ok,
      cutNat_eq_ok_iff, cut_eq_ok_iff] at h
    obtain ⟨code, _, ⟨-, rfl⟩, flags, _, ⟨flagsFit, rfl⟩, size, _, ⟨fits, rfl⟩, least, body, _,
      ⟨rfl, length⟩, p, hp, a', made, h⟩ := h
    cases h
    obtain rfl : size = headerLen + body.length := by omega
    have word : flags % 2 ^ 8 = flags := Nat.mod_eq_of_lt flagsFit
    refine ⟨⟨.ofNat code⟩, .ofNat 8 flags, body, p, fits, hp, made, ?_⟩
    rw [leBytes_one, BitVec.toNat_ofNat, word]
    rfl
  · rintro ⟨type, flags, body, p, fits, hp, made, rfl⟩
    have word : flags.toNat < 256 ^ 1 := flags.isLt
    have least : ¬ headerLen + body.length < headerLen := Nat.not_lt.2 (Nat.le_add_right ..)
    simp only [cutFront, cutNat_one_cons, cutNat_leBytes word, cutNat_leBytes fits, ok_bind,
      if_neg least, Nat.add_sub_cancel_left, cut_append, UInt8.ofNat_toNat, hp, BitVec.ofNat_toNat,
      BitVec.setWidth_eq, made, pure_ok]

/-- An entry that survives the wire is read back from its bytes, whatever follows them. -/
theorem cutFront_of_encode (h : a.encode = .ok b) (safe : a.WireSafe) (t : Bytes) :
    cutFront (b ++ t) = .ok (a, t) := by
  obtain ⟨fits, x, hx, rfl⟩ := encode_eq_ok_iff.1 h
  have length := Payload.length_of_encode hx
  have room : headerLen + a.payload.encodedLen ≤ a.size := le_align4 _
  generalize hk : a.size - (headerLen + a.payload.encodedLen) = k
  have size : a.size = headerLen + (x ++ zeros k).length := by
    rw [List.length_append, length_zeros, length]
    omega
  -- a payload of whole groups of four bytes gets no padding, so raw bytes stay as they are
  have payload : Payload.decode a.type.shape? a.type.dataKind (x ++ zeros k) = .ok a.payload := by
    refine Payload.decode_of_encode hx a.valid safe fun hx4 => ?_
    rw [length] at hx4
    rw [← hk, Ace.size, align4_eq_self (Nat.dvd_add (by decide) hx4), Nat.sub_self]
  refine cutFront_eq_ok_iff.2
    ⟨a.type, a.flags, x ++ zeros k, a.payload, size ▸ fits, payload, a.make_self, ?_⟩
  simp only [size, List.cons_append, List.append_assoc]

/-- The size of an entry is the third field of its header. -/
theorem numberAt_of_encode (h : a.encode = .ok b) : numberAt b 2 2 = a.size := by
  obtain ⟨fits, x, -, rfl⟩ := encode_eq_ok_iff.1 h
  exact numberAt_append [a.type.code, UInt8.ofNat a.flags.toNat] fits _

/-- The flags are in place right after the type. -/
theorem flagsAt_of_encode (h : a.encode = .ok b) : numberAt b 1 1 = a.flags.toNat := by
  obtain ⟨-, x, -, rfl⟩ := encode_eq_ok_iff.1 h
  exact numberAt_append [a.type.code] a.flags.isLt _

theorem decode_of_encode (h : a.encode = .ok b) (safe : a.WireSafe) (t : Bytes) :
    decode (b ++ t) = .ok a :=
  fst_eq_ok.2 ⟨t, cutFront_of_encode h safe t⟩

theorem exists_encode (fits : a.size < 256 ^ 2) : ∃ b, a.encode = .ok b := by
  have padding : headerLen + a.payload.encodedLen ≤ a.size := le_align4 _
  obtain ⟨x, hx⟩ := Payload.exists_encode (p := a.payload) (by omega)
  exact ⟨_, encode_eq_ok_iff.2 ⟨fits, x, hx, rfl⟩⟩

/-- A reader makes entries that survive the wire only. -/
theorem wireSafe_of_cutFront (h : cutFront b = .ok (a, t)) : a.WireSafe := by
  obtain ⟨type, flags, body, p, -, hp, made, -⟩ := cutFront_eq_ok_iff.1 h
  obtain ⟨-, -, hpayload, -⟩ := make_eq_ok_iff.1 made
  rw [WireSafe, hpayload]
  exact Payload.wireSafe_normalized (Payload.wireSafe_of_decode hp)

/-- An entry is written exactly when its size can be counted in two bytes, and is refused for its
size otherwise. What is written fills whole groups of four bytes and says how many it has, and the
entry is read back from it, whatever follows, if its data survives the wire. -/
theorem written_iff_size_le (a : Ace) :
    ((∃ b, a.encode = .ok b) ↔ a.size ≤ 65535) ∧
      (¬ a.size ≤ 65535 → a.encode = .error (.invalidSize .ace a.size)) ∧
      ∀ b, a.encode = .ok b →
        b.length = a.size ∧ 4 ∣ b.length ∧ numberAt b 2 2 = b.length ∧
          (a.WireSafe → ∀ t, decode (b ++ t) = .ok a) := by
  refine ⟨⟨?_, ?_⟩, ?_, ?_⟩
  · rintro ⟨b, h⟩
    exact Nat.le_of_lt_succ (encode_eq_ok_iff.1 h).1
  · intro fits
    exact exists_encode (Nat.lt_succ_of_le fits)
  · intro large
    rw [encode, sizeField_of_le (Nat.lt_of_not_le large), error_bind]
  · intro b h
    have total := length_of_encode h
    refine ⟨total, ?_, ?_, fun safe t => decode_of_encode h safe t⟩
    · rw [total]
      exact a.four_dvd_size
    · rw [total]
      exact numberAt_of_encode h

/-- Two bytes of raw data are filled up to four, and a body of 65532 bytes is one group too long. -/
theorem written_iff_size_le_filled :
    let everyone := WellKnown.everyone.toSid
    let a : Ace := ⟨AceKind.systemAccessFilter.type, 0x10,
      .basicWithData ⟨2, everyone⟩ (.raw [0xAA, 0xBB, 0, 0]), ⟨rfl, trivial, rfl, ⟨1, rfl⟩⟩⟩
    let b : Bytes := [0x15, 0x10, 24, 0, 0x02, 0, 0, 0, 0x01, 0x01, 0, 0, 0, 0, 0, 0x01, 0, 0, 0, 0,
      0xAA, 0xBB, 0, 0]
    let large : Ace := ⟨⟨0x20⟩, 0, .unknown (zeros 65532), ⟨rfl, trivial, ⟨16383, length_zeros _⟩⟩⟩
    make AceKind.systemAccessFilter.type 0x10 (.basicWithData ⟨2, everyone⟩ (.raw [0xAA, 0xBB])) =
        .ok a ∧
      a.encode = .ok b ∧ b.length = a.size ∧ numberAt b 2 2 = b.length ∧
      (∀ t, decode (b ++ t) = .ok a) ∧
      large.encode = .error (.invalidSize .ace 65536) := by
  intro everyone a b large
  have made : make AceKind.systemAccessFilter.type 0x10
      (.basicWithData ⟨2, everyone⟩ (.raw [0xAA, 0xBB])) = .ok a := by
    simp only [a, everyone]
    rfl
  have written : a.encode = .ok b := by
    simp only [a, b, everyone]
    decide
  have size : large.size = 65536 := by
    simp only [large, Ace.size, Payload.encodedLen, length_zeros]
    rfl
  obtain ⟨-, -, back⟩ := written_iff_size_le a
  obtain ⟨-, refused, -⟩ := written_iff_size_le large
  obtain ⟨total, -, counted, read⟩ := back b written
  rw [size] at refused
  exact ⟨made, written, total, counted, read trivial, refused (by decide)⟩

end AccessControl.Ace
