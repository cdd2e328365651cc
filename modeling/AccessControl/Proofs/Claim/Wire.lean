import AccessControl.Claim.Wire
import AccessControl.Proofs.Sid.Wire
import AccessControl.Proofs.Text.Utf16

/-!
# Claim attributes, read and written

A claim attribute is read back from what was written of it when its strings have no zero character,
since a string ends at its first zero unit (`cutFront_of_encode`). A reader makes no other
attributes, whatever the offsets in the header are (`nulFree_of_cutFront`).
-/

namespace AccessControl

/-! ### Values -/

namespace ClaimValue

variable {v : ClaimValue} {vs : List ClaimValue} {type : ClaimType} {b x t : Bytes} {n : Nat}

/-- A string value has no zero character. -/
def NulFree : ClaimValue → Prop
  | .string text => '\x00' ∉ text.toList
  | _ => True

/-- A value is read back from its bytes, whatever follows them. -/
theorem cutFront_of_encode (h : v.encode = .ok x) (nulFree : v.NulFree) (t : Bytes) :
    cutFront v.type (x ++ t) = .ok (v, t) := by
  cases v with
  | int64 value =>
    cases h
    have fits : value.toUInt64.toNat < 256 ^ 8 := value.toUInt64.toNat_lt
    simp only [cutFront, type, cutNat_leBytes fits, ok_bind, pure_ok, UInt64.ofNat_toNat,
      Int64.toInt64_toUInt64]
  | uint64 value =>
    cases h
    have fits : value.toNat < 256 ^ 8 := value.toNat_lt
    simp only [cutFront, type, cutNat_leBytes fits, ok_bind, pure_ok, UInt64.ofNat_toNat]
  | boolean value =>
    cases h
    have fits : value.toNat < 256 ^ 8 := by cases value <;> decide
    have back : (value.toNat != 0) = value := by cases value <;> rfl
    simp only [cutFront, type, cutNat_leBytes fits, ok_bind, pure_ok, back]
  | string text =>
    cases h
    have back : Utf16.decodeTerminated (Utf16.encodeTerminated text ++ t) = .ok (text, t) :=
      Utf16.decodeTerminated_eq_ok_iff.2 ⟨nulFree, rfl⟩
    simp only [cutFront, type, back, ok_bind, pure_ok]
  | fqbn name =>
    simp only [encode, bind_eq_ok, sizeField_eq_ok_iff] at h
    obtain ⟨_, ⟨fits, rfl⟩, h⟩ := h
    cases h
    have size : (Utf16.encode name).length = 2 * (Utf16.units name).length := Utf16.length_encode _
    rw [List.append_assoc]
    simp only [cutFront, type, cutNat_leBytes fits, ok_bind, ← size, cut_append,
      Utf16.decode_encode, pure_ok]
  | sid s =>
    simp only [encode, bind_eq_ok, sizeField_eq_ok_iff] at h
    obtain ⟨_, ⟨fits, rfl⟩, h⟩ := h
    cases h
    rw [← Sid.length_encode] at fits ⊢
    have back : Sid.decode s.encode = .ok s := Sid.decode_eq_ok_iff.2 rfl
    simp only [cutFront, type, cutPrefixed_append fits, ok_bind, back, pure_ok]
  | octetString bytes =>
    simp only [encode, bind_eq_ok, sizeField_eq_ok_iff] at h
    obtain ⟨_, ⟨fits, rfl⟩, h⟩ := h
    cases h
    simp only [cutFront, type, cutPrefixed_append fits, ok_bind, pure_ok]

/-- A value that is read is of the type that was asked for, and no string has a zero character. -/
theorem valid_of_cutFront (h : cutFront type b = .ok (v, t)) : v.type = type ∧ v.NulFree := by
  cases type with
  | string =>
    simp only [cutFront, bind_eq_ok, Prod.exists, Utf16.decodeTerminated_eq_ok_iff] at h
    obtain ⟨text, _, ⟨nulFree, -⟩, h⟩ := h
    cases h
    exact ⟨rfl, nulFree⟩
  | int64 | uint64 | boolean | octetString =>
    obtain ⟨_, -, h⟩ := bind_eq_ok.1 h
    cases h
    exact ⟨rfl, trivial⟩
  | sid =>
    simp only [cutFront, bind_eq_ok] at h
    obtain ⟨_, -, _, -, h⟩ := h
    cases h
    exact ⟨rfl, trivial⟩
  | fqbn =>
    simp only [cutFront, bind_eq_ok] at h
    obtain ⟨_, -, _, -, _, -, h⟩ := h
    cases h
    exact ⟨rfl, trivial⟩

theorem cutMany_of_encodeAll (h : encodeAll vs = .ok x) (typed : ∀ v ∈ vs, v.type = type)
    (nulFree : ∀ v ∈ vs, v.NulFree) (t : Bytes) :
    cutMany type vs.length (x ++ t) = .ok (vs, t) := by
  induction vs generalizing x with
  | nil =>
    cases h
    rfl
  | cons v vs ih =>
    simp only [encodeAll, bind_eq_ok] at h
    obtain ⟨y, hy, z, hz, h⟩ := h
    cases h
    rw [List.forall_mem_cons] at typed nulFree
    obtain ⟨rfl, typed⟩ := typed
    rw [List.append_assoc, List.length_cons, cutMany, cutFront_of_encode hy nulFree.1, ok_bind]
    simp [ih hz typed nulFree.2]

/-- Values are read in the number that was asked for, and all of them are of the one type. -/
theorem valid_of_cutMany (h : cutMany type n b = .ok (vs, t)) :
    vs.length = n ∧ ∀ v ∈ vs, v.type = type ∧ v.NulFree := by
  induction n generalizing b vs with
  | zero =>
    cases h
    simp
  | succ n ih =>
    simp only [cutMany, bind_eq_ok, Prod.exists] at h
    obtain ⟨v, r, hv, vs', r', hvs, h⟩ := h
    cases h
    obtain ⟨length, valid⟩ := ih hvs
    rw [List.length_cons, length, List.forall_mem_cons]
    exact ⟨rfl, valid_of_cutFront hv, valid⟩

theorem length_of_encode (h : v.encode = .ok x) : x.length = v.encodedLen := by
  cases v with
  | int64 | uint64 | boolean =>
    cases h
    simp [encodedLen]
  | string text =>
    cases h
    exact Utf16.length_encodeTerminated text
  | fqbn | sid | octetString =>
    simp only [encode, bind_eq_ok, sizeField_eq_ok_iff] at h
    obtain ⟨_, ⟨-, rfl⟩, h⟩ := h
    cases h
    simp [encodedLen, Sid.length_encode]

theorem length_of_encodeAll (h : encodeAll vs = .ok x) :
    x.length = encodedLenAll vs := by
  induction vs generalizing x with
  | nil =>
    cases h
    rfl
  | cons v vs ih =>
    simp only [encodeAll, bind_eq_ok] at h
    obtain ⟨y, hy, z, hz, h⟩ := h
    cases h
    rw [List.length_append, length_of_encode hy, ih hz, encodedLenAll]

/-- A value is written if its bytes can be counted in four. -/
theorem exists_encode (h : v.encodedLen < 256 ^ 4) : ∃ x, v.encode = .ok x := by
  cases v with
  | int64 | uint64 | boolean | string => exact ⟨_, rfl⟩
  | fqbn name =>
    have fits : (Utf16.units name).length < 256 ^ 4 := by
      simp only [encodedLen, Utf16.encodedLen] at h
      omega
    exact ⟨_, by rw [encode, sizeField_of_lt fits]; rfl⟩
  | sid s =>
    have fits : s.encodedLen < 256 ^ 4 := Nat.lt_of_le_of_lt (Nat.le_add_left ..) h
    exact ⟨_, by rw [encode, sizeField_of_lt fits]; rfl⟩
  | octetString bytes =>
    have fits : bytes.length < 256 ^ 4 := Nat.lt_of_le_of_lt (Nat.le_add_left ..) h
    exact ⟨_, by rw [encode, sizeField_of_lt fits]; rfl⟩

theorem exists_encodeAll (vs : List ClaimValue) (h : encodedLenAll vs < 256 ^ 4) :
    ∃ x, encodeAll vs = .ok x := by
  induction vs with
  | nil => exact ⟨_, rfl⟩
  | cons v vs ih =>
    rw [encodedLenAll] at h
    obtain ⟨x, hx⟩ := exists_encode (v := v) (by omega)
    obtain ⟨y, hy⟩ := ih (by omega)
    exact ⟨_, by rw [encodeAll, hx, hy]; rfl⟩

theorem two_le_encodedLen (v : ClaimValue) : 2 ≤ v.encodedLen := by
  cases v with
  | int64 | uint64 | boolean => exact (by decide : 2 ≤ 8)
  | string text => exact Nat.le_add_left ..
  | fqbn | sid | octetString => exact Nat.le_add_right_of_le (by decide : 2 ≤ 4)

/-- Every value takes two bytes at least, so values are at most half as many as their bytes. -/
theorem two_mul_length_le_encodedLenAll (vs : List ClaimValue) :
    2 * vs.length ≤ encodedLenAll vs := by
  induction vs with
  | nil => exact Nat.le_refl 0
  | cons v vs ih =>
    have least := v.two_le_encodedLen
    rw [List.length_cons, encodedLenAll]
    omega

end ClaimValue

/-! ### Attributes -/

namespace ClaimAttribute

variable {a : ClaimAttribute} {b t : Bytes}

/-- No string of the attribute has a zero character, neither its name nor a value. -/
structure NulFree (a : ClaimAttribute) : Prop where
  name : '\x00' ∉ a.name.toList
  values : ∀ v ∈ a.values, v.NulFree

theorem make_eq_ok_iff {name : String} {type : ClaimType} {flags : BitVec 32}
    {values : List ClaimValue} : make name type flags values = .ok a ↔
      a.name = name ∧ a.type = type ∧ a.flags = flags ∧ a.values = values := by
  constructor
  · intro h
    unfold make at h
    split at h
    · cases h
    · cases h
      exact ⟨rfl, rfl, rfl, rfl⟩
  · rintro ⟨rfl, rfl, rfl, rfl⟩
    exact make_self a

/-- The header that a writer makes. -/
def header (a : ClaimAttribute) : Bytes :=
  leBytes 4 headerLen ++ (leBytes 2 a.type.code.toNat ++ (leBytes 2 0 ++
    (leBytes 4 a.flags.toNat ++ (leBytes 4 a.values.length ++ leBytes 4 a.valuesOffset))))

@[simp] theorem length_header (a : ClaimAttribute) : a.header.length = headerLen := by
  simp [header, headerLen]

theorem numberAt_header (count : a.values.length < 256 ^ 4) (offset : a.valuesOffset < 256 ^ 4)
    (w : Bytes) : numberAt (a.header ++ w) 0 4 = headerLen ∧
      numberAt (a.header ++ w) 4 2 = a.type.code.toNat ∧
      numberAt (a.header ++ w) 8 4 = a.flags.toNat ∧
      numberAt (a.header ++ w) 12 4 = a.values.length ∧
      numberAt (a.header ++ w) 16 4 = a.valuesOffset := by
  simp only [header, List.append_assoc]
  refine ⟨?_, ?_, ?_, ?_, ?_⟩
  · exact numberAt_append [] (by decide) _
  · exact numberAt_append (leBytes 4 headerLen) a.type.code.toNat_lt _
  · exact numberAt_append
      (leBytes 4 headerLen ++ (leBytes 2 a.type.code.toNat ++ leBytes 2 0)) a.flags.isLt _
  · exact numberAt_append (leBytes 4 headerLen ++ (leBytes 2 a.type.code.toNat ++ (leBytes 2 0 ++
      leBytes 4 a.flags.toNat))) count _
  · exact numberAt_append (leBytes 4 headerLen ++ (leBytes 2 a.type.code.toNat ++ (leBytes 2 0 ++
      (leBytes 4 a.flags.toNat ++ leBytes 4 a.values.length)))) offset _

theorem encode_eq_ok_iff : a.encode = .ok b ↔
    a.values.length < 256 ^ 4 ∧ a.valuesOffset < 256 ^ 4 ∧
      ∃ x, ClaimValue.encodeAll a.values = .ok x ∧
        b = a.header ++ (Utf16.encodeTerminated a.name ++ x) := by
  simp only [encode, bind_eq_ok, sizeField_eq_ok_iff]
  constructor
  · rintro ⟨_, ⟨count, rfl⟩, _, ⟨offset, rfl⟩, x, hx, h⟩
    cases h
    exact ⟨count, offset, x, hx, by simp only [header, List.append_assoc]⟩
  · rintro ⟨count, offset, x, hx, rfl⟩
    refine ⟨_, ⟨count, rfl⟩, _, ⟨offset, rfl⟩, x, hx, ?_⟩
    simp only [header, List.append_assoc, pure_ok]

theorem length_of_encode (h : a.encode = .ok b) : b.length = a.encodedLen := by
  obtain ⟨-, -, x, hx, rfl⟩ := encode_eq_ok_iff.1 h
  simp only [encodedLen, valuesOffset, List.length_append, length_header,
    ClaimValue.length_of_encodeAll hx, Utf16.length_encodeTerminated]
  omega

/-- An attribute is written if its bytes can be counted in four. -/
theorem exists_encode (h : a.encodedLen < 256 ^ 4) : ∃ b, a.encode = .ok b := by
  rw [encodedLen] at h
  have count := ClaimValue.two_mul_length_le_encodedLenAll a.values
  obtain ⟨x, hx⟩ := ClaimValue.exists_encodeAll a.values (by omega)
  exact ⟨_, encode_eq_ok_iff.2 ⟨by omega, by omega, x, hx, rfl⟩⟩

/-! ### Attributes that are read -/

theorem headerLen_le_of_cutFront (h : cutFront b = .ok (a, t)) : headerLen ≤ b.length := by
  simp only [cutFront, bind_eq_ok, Prod.exists, cutNat_eq_ok_iff] at h
  obtain ⟨_, _, ⟨-, header⟩, _, _, ⟨-, rfl⟩, _, _, ⟨-, rfl⟩, _, _, ⟨-, rfl⟩, _, _, ⟨-, rfl⟩, _, _,
    ⟨-, rfl⟩, -⟩ := h
  have long := congrArg List.length header
  simp only [List.length_append, length_leBytes] at long
  rw [headerLen]
  omega

/-- Going on beyond the header as far as the values reach never fails, as these end within the byte
string. -/
theorem cut_beyond (long : headerLen ≤ b.length) (short : Bytes → Error) (after : Bytes) :
    cut short (b.length - after.length - headerLen) (b.drop headerLen) =
      .ok ((b.drop headerLen).take (b.length - after.length - headerLen),
        b.drop (max headerLen (b.length - after.length))) := by
  have beyond : max headerLen (b.length - after.length) - headerLen =
      b.length - after.length - headerLen := by omega
  have inside : max headerLen (b.length - after.length) ≤ b.length :=
    Nat.max_le.2 ⟨long, Nat.sub_le ..⟩
  rw [← beyond]
  exact cut_drop (Nat.le_max_left ..) inside

/-- After the header, the name and the values are read at its offsets. -/
theorem cutFront_of_long (long : headerLen ≤ b.length) : cutFront b =
    match ClaimType.ofCode? (.ofNat (numberAt b 4 2)) with
    | none => .error (.unknownClaimType (.ofNat (numberAt b 4 2)))
    | some type => do
      let (_, atName) ← cut (.short .claimName (numberAt b 0 4)) (numberAt b 0 4) b
      let (name, _) ← Utf16.decodeTerminated atName
      let (_, atValues) ← cut (.short .claimValues (numberAt b 16 4)) (numberAt b 16 4) b
      let (values, rest) ← ClaimValue.cutMany type (numberAt b 12 4) atValues
      let claim ← make name type (.ofNat 32 (numberAt b 8 4)) values
      return (claim, b.drop (max headerLen (b.length - rest.length))) := by
  have size : 20 ≤ b.length := long
  have nameOffset : ∀ short, cutNat short 4 b = .ok (numberAt b 0 4, b.drop 4) :=
    fun short => cutNat_of_le (by omega)
  have code : ∀ short, cutNat short 2 (b.drop 4) = .ok (numberAt b 4 2, b.drop 6) :=
    fun short => cutNat_drop (by omega)
  have second : ∀ short, cutNat short 2 (b.drop 6) = .ok (numberAt b 6 2, b.drop 8) :=
    fun short => cutNat_drop (by omega)
  have flags : ∀ short, cutNat short 4 (b.drop 8) = .ok (numberAt b 8 4, b.drop 12) :=
    fun short => cutNat_drop (by omega)
  have count : ∀ short, cutNat short 4 (b.drop 12) = .ok (numberAt b 12 4, b.drop 16) :=
    fun short => cutNat_drop (by omega)
  have valuesOffset : ∀ short, cutNat short 4 (b.drop 16) = .ok (numberAt b 16 4, b.drop 20) :=
    fun short => cutNat_drop (by omega)
  simp only [cutFront, nameOffset, code, second, flags, count, valuesOffset, cut_beyond long, ok_bind]
  cases ClaimType.ofCode? (.ofNat (numberAt b 4 2)) with
  | none => rfl
  | some type => rfl

/-- An attribute is read exactly from its header, and from the name and the values at the offsets
in it. -/
theorem cutFront_eq_ok_iff : cutFront b = .ok (a, t) ↔ headerLen ≤ b.length ∧
    (ClaimType.ofCode? (.ofNat (numberAt b 4 2)) = some a.type ∧
      a.flags = .ofNat 32 (numberAt b 8 4)) ∧
    (numberAt b 0 4 ≤ b.length ∧
      ∃ r, Utf16.decodeTerminated (b.drop (numberAt b 0 4)) = .ok (a.name, r)) ∧
    (numberAt b 16 4 ≤ b.length ∧
      ∃ r, ClaimValue.cutMany a.type (numberAt b 12 4) (b.drop (numberAt b 16 4)) =
        .ok (a.values, r) ∧ t = b.drop (max headerLen (b.length - r.length))) := by
  constructor
  · intro h
    have long := headerLen_le_of_cutFront h
    rw [cutFront_of_long long] at h
    split at h
    · cases h
    next type known =>
      simp only [bind_eq_ok, Prod.exists, cut_eq_ok_iff_drop, make_eq_ok_iff] at h
      obtain ⟨_, _, ⟨named, rfl, rfl⟩, name, r, hname, _, _, ⟨valued, rfl, rfl⟩, values, r',
        hvalues, a', ⟨rfl, rfl, flags, rfl⟩, h⟩ := h
      cases h
      exact ⟨long, ⟨known, flags⟩, ⟨named, r, hname⟩, valued, r', hvalues, rfl⟩
  · rintro ⟨long, ⟨known, flags⟩, ⟨named, r, hname⟩, valued, r', hvalues, rfl⟩
    rw [cutFront_of_long long, known]
    simp only [cut_eq, if_pos named, if_pos valued, hname, hvalues, ← flags, make_self, ok_bind,
      pure_ok]

/-- An attribute without zero characters is read back from its bytes, whatever follows them. -/
theorem cutFront_of_encode (h : a.encode = .ok b) (nulFree : a.NulFree) (t : Bytes) :
    cutFront (b ++ t) = .ok (a, t) := by
  obtain ⟨count, offset, x, hx, hb⟩ := encode_eq_ok_iff.1 h
  generalize hname : Utf16.encodeTerminated a.name = n at hb
  have whole : b ++ t = a.header ++ (n ++ (x ++ t)) := by simp only [hb, List.append_assoc]
  have name : Utf16.decodeTerminated (n ++ (x ++ t)) = .ok (a.name, x ++ t) :=
    Utf16.decodeTerminated_eq_ok_iff.2 ⟨nulFree.name, by rw [hname]⟩
  have values := ClaimValue.cutMany_of_encodeAll hx a.typed nulFree.values t
  have beforeValues : (a.header ++ n).length = a.valuesOffset := by
    rw [List.length_append, length_header, ← hname, Utf16.length_encodeTerminated, valuesOffset]
  have atName : (b ++ t).drop headerLen = n ++ (x ++ t) := by
    rw [whole, List.drop_left' a.length_header]
  have atValues : (b ++ t).drop a.valuesOffset = x ++ t := by
    rw [whole, ← List.append_assoc, List.drop_left' beforeValues]
  have room : a.valuesOffset ≤ b.length := by
    rw [length_of_encode h]
    exact Nat.le_add_right ..
  have size : headerLen ≤ b.length := Nat.le_trans (Nat.le_add_right ..) room
  have longer : b.length ≤ (b ++ t).length := by
    rw [List.length_append]
    exact Nat.le_add_right ..
  -- where the rest starts is worked out from the length of what the values leave over
  have rest : t = (b ++ t).drop (max headerLen ((b ++ t).length - t.length)) := by
    rw [List.length_append, Nat.add_sub_cancel, Nat.max_eq_right size, List.drop_left]
  obtain ⟨nameField, codeField, flagsField, countField, valuesField⟩ :=
    numberAt_header count offset (n ++ (x ++ t))
  rw [← whole] at nameField codeField flagsField countField valuesField
  rw [cutFront_eq_ok_iff, nameField, codeField, flagsField, countField, valuesField, atName,
    atValues]
  refine ⟨Nat.le_trans size longer, ⟨?_, ?_⟩, ⟨Nat.le_trans size longer, _, name⟩,
    Nat.le_trans room longer, _, values, rest⟩
  · rw [UInt16.ofNat_toNat, ClaimType.ofCode?_code]
  · rw [BitVec.ofNat_toNat, BitVec.setWidth_eq]

/-- No string of an attribute that is read has a zero character. -/
theorem nulFree_of_cutFront (h : cutFront b = .ok (a, t)) : a.NulFree := by
  obtain ⟨-, -, ⟨-, _, name⟩, -, _, values, -⟩ := cutFront_eq_ok_iff.1 h
  obtain ⟨-, valid⟩ := ClaimValue.valid_of_cutMany values
  exact ⟨(Utf16.decodeTerminated_eq_ok_iff.1 name).1, fun v hv => (valid v hv).2⟩

theorem decode_of_encode (h : a.encode = .ok b) (nulFree : a.NulFree) (t : Bytes) :
    decode (b ++ t) = .ok a :=
  fst_eq_ok.2 ⟨t, cutFront_of_encode h nulFree t⟩

theorem nulFree_of_decode (h : decode b = .ok a) : a.NulFree := by
  obtain ⟨t, ht⟩ := fst_eq_ok.1 h
  exact nulFree_of_cutFront ht

/-- An attribute that is made of a name without a zero character, and of values of which no string
has one, is read back from its bytes, whatever follows them. Octet strings and fully qualified names
may hold anything, as their lengths stand in front of them. -/
theorem decode_encode_of_make {name : String} {type : ClaimType} {flags : BitVec 32}
    {values : List ClaimValue} (made : make name type flags values = .ok a)
    (nameFree : '\x00' ∉ name.toList)
    (stringsFree : type = .string → ∀ text, .string text ∈ values → '\x00' ∉ text.toList)
    (h : a.encode = .ok b) (t : Bytes) : decode (b ++ t) = .ok a := by
  obtain ⟨rfl, rfl, rfl, rfl⟩ := make_eq_ok_iff.1 made
  refine decode_of_encode h ⟨nameFree, fun v hv => ?_⟩ t
  cases v with
  | string text => exact stringsFree (a.typed _ hv).symm text hv
  | _ => trivial

/-- A name of a character outside the basic plane, and fully qualified names with a zero character,
of no character, and of one that takes two units. -/
theorem decode_encode_of_make_fqbn :
    let values : List ClaimValue := [.fqbn "O\x00A", .fqbn "", .fqbn "😀"]
    let a : ClaimAttribute := ⟨"😀", .fqbn, 0x20, values, by decide⟩
    let b : Bytes :=
      [20, 0, 0, 0, 4, 0, 0, 0, 0x20, 0, 0, 0, 3, 0, 0, 0, 26, 0, 0, 0] ++
      [0x3D, 0xD8, 0x00, 0xDE, 0, 0] ++
      [3, 0, 0, 0, 0x4F, 0, 0, 0, 0x41, 0] ++ [0, 0, 0, 0] ++ [2, 0, 0, 0, 0x3D, 0xD8, 0x00, 0xDE]
    make "😀" .fqbn 0x20 values = .ok a ∧ a.encode = .ok b ∧ ∀ t, decode (b ++ t) = .ok a := by
  intro values a b
  have made : make "😀" .fqbn 0x20 values = .ok a := make_self a
  have written : a.encode = .ok b := by
    simp only [a, b, values]
    rfl
  exact ⟨made, written, decode_encode_of_make made (by decide) (by simp) written⟩

end ClaimAttribute
end AccessControl
