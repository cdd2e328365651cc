import AccessControl.Proofs.Bytes.Prefixes
import AccessControl.Proofs.Claim.Wire

/-!
# What attributes are read from

The values of an attribute are read from as many bytes as they are written in
(`ClaimValue.length_of_cutMany`), and so is its name, but they may share these bytes with each other
and with the header: an attribute takes at most three times as many bytes when it is written again
(`ClaimAttribute.encodedLen_le_of_decode`). Wherever the offsets point, what is read is what the
constructor makes of its parts, and it survives the wire; once the values are read, nothing is
refused any more (`ClaimAttribute.sound_of_decode`). Bytes that follow change nothing, so what is
written of an attribute is not read when it breaks off (`ClaimAttribute.refusesPrefixes`).
-/

namespace AccessControl

theorem Utf16.length_of_decodeTerminated {b t : Bytes} {s : String}
    (h : decodeTerminated b = .ok (s, t)) : b.length = encodedLen s + 2 + t.length := by
  obtain ⟨-, rfl⟩ := decodeTerminated_eq_ok_iff.1 h
  rw [List.length_append, length_encodeTerminated]

theorem Utf16.stable_decodeTerminated : Stable decodeTerminated := by
  intro b s t h u
  obtain ⟨nulFree, rfl⟩ := decodeTerminated_eq_ok_iff.1 h
  exact decodeTerminated_eq_ok_iff.2 ⟨nulFree, List.append_assoc ..⟩

namespace ClaimValue

variable {v : ClaimValue} {vs : List ClaimValue} {type : ClaimType} {b t : Bytes} {n : Nat}

/-- A value is read from as many bytes as it is written in. -/
theorem length_of_cutFront (h : cutFront type b = .ok (v, t)) :
    b.length = v.encodedLen + t.length := by
  cases type with
  | int64 | uint64 | boolean =>
    simp only [cutFront, bind_eq_ok, Prod.exists, cutNat_eq_ok_iff] at h
    obtain ⟨_, _, ⟨-, rfl⟩, h⟩ := h
    cases h
    rw [List.length_append, length_leBytes, encodedLen]
  | string =>
    simp only [cutFront, bind_eq_ok, Prod.exists] at h
    obtain ⟨text, _, read, h⟩ := h
    cases h
    exact Utf16.length_of_decodeTerminated read
  | fqbn =>
    simp only [cutFront, bind_eq_ok, Prod.exists, cutNat_eq_ok_iff, cut_eq_ok_iff,
      Utf16.decode_eq_ok_iff] at h
    obtain ⟨_, _, ⟨-, rfl⟩, _, _, ⟨rfl, -⟩, name, rfl, h⟩ := h
    cases h
    rw [List.length_append, List.length_append, length_leBytes, Utf16.length_encode, encodedLen]
    omega
  | sid =>
    simp only [cutFront, bind_eq_ok, Prod.exists, cutPrefixed_eq_ok_iff, Sid.decode_eq_ok_iff] at h
    obtain ⟨_, _, ⟨-, rfl⟩, s, rfl, h⟩ := h
    cases h
    rw [List.length_append, List.length_append, length_leBytes, Sid.length_encode, encodedLen]
  | octetString =>
    simp only [cutFront, bind_eq_ok, Prod.exists, cutPrefixed_eq_ok_iff] at h
    obtain ⟨bytes, _, ⟨-, rfl⟩, h⟩ := h
    cases h
    rw [List.length_append, List.length_append, length_leBytes, encodedLen]

theorem length_of_cutMany (h : cutMany type n b = .ok (vs, t)) :
    b.length = encodedLenAll vs + t.length := by
  induction n generalizing b vs with
  | zero =>
    cases h
    rw [encodedLenAll, Nat.zero_add]
  | succ n ih =>
    simp only [cutMany, bind_eq_ok, Prod.exists] at h
    obtain ⟨v, r, hv, vs', r', hvs, h⟩ := h
    cases h
    rw [length_of_cutFront hv, ih hvs, encodedLenAll, Nat.add_assoc]

theorem stable_cutFront (type : ClaimType) : Stable (cutFront type) := by
  cases type with
  | int64 => exact (stable_cutNat _ 8).map (f := .ok) (g := fun n => int64 (UInt64.ofNat n).toInt64)
  | uint64 => exact (stable_cutNat _ 8).map (f := .ok) (g := fun n => uint64 (.ofNat n))
  | boolean => exact (stable_cutNat _ 8).map (f := .ok) (g := fun n => boolean (n != 0))
  | string => exact Utf16.stable_decodeTerminated.map (f := .ok) (g := string)
  | fqbn =>
    exact (stable_cutNat _ 4).andThen fun units =>
      (stable_cut (.short .claimFqbn (2 * units)) (2 * units)).map (f := Utf16.decode) (g := fqbn)
  | sid => exact (stable_cutPrefixed .claimSid).map (f := Sid.decode) (g := sid)
  | octetString => exact (stable_cutPrefixed .claimOctetString).map (f := .ok) (g := octetString)

theorem stable_cutMany (type : ClaimType) (n : Nat) : Stable (cutMany type n) := by
  induction n with
  | zero =>
    intro b vs t h u
    cases h
    rfl
  | succ n ih => exact (stable_cutFront type).andThen fun v => ih.map (f := .ok) (g := (v :: ·))

end ClaimValue

namespace ClaimAttribute

variable {a : ClaimAttribute} {b t : Bytes}

/-- The header, the name and the values each have their place in what an attribute is read from,
though not each a place of its own. -/
theorem lengths_le_of_cutFront (h : cutFront b = .ok (a, t)) :
    headerLen ≤ b.length ∧ Utf16.encodedLen a.name + 2 ≤ b.length ∧
      ClaimValue.encodedLenAll a.values ≤ b.length := by
  obtain ⟨long, -, ⟨named, _, hname⟩, valued, _, hvalues, -⟩ := cutFront_eq_ok_iff.1 h
  have nameLen := Utf16.length_of_decodeTerminated hname
  have valuesLen := ClaimValue.length_of_cutMany hvalues
  rw [List.length_drop] at nameLen valuesLen
  omega

theorem encodedLen_le_of_decode (h : decode b = .ok a) : a.encodedLen ≤ 3 * b.length := by
  obtain ⟨t, ht⟩ := fst_eq_ok.1 h
  have lengths := lengths_le_of_cutFront ht
  rw [encodedLen, valuesOffset]
  omega

/-- Once the name and the values are read, an attribute is made of them: they are of the type that
the header says, and the end of the values is a place to go on from. -/
theorem exists_cutFront_of_cutMany {type : ClaimType} {name : String} {values : List ClaimValue}
    {r r' : Bytes} (long : headerLen ≤ b.length)
    (known : ClaimType.ofCode? (.ofNat (numberAt b 4 2)) = some type)
    (named : numberAt b 0 4 ≤ b.length)
    (hname : Utf16.decodeTerminated (b.drop (numberAt b 0 4)) = .ok (name, r))
    (valued : numberAt b 16 4 ≤ b.length)
    (hvalues : ClaimValue.cutMany type (numberAt b 12 4) (b.drop (numberAt b 16 4)) =
      .ok (values, r')) :
    ∃ a, make name type (.ofNat 32 (numberAt b 8 4)) values = .ok a ∧
      cutFront b = .ok (a, b.drop (max headerLen (b.length - r'.length))) := by
  obtain ⟨-, valid⟩ := ClaimValue.valid_of_cutMany hvalues
  have typed : ∀ v ∈ values, v.type = type := fun v hv => (valid v hv).1
  let a : ClaimAttribute := ⟨name, type, .ofNat 32 (numberAt b 8 4), values, typed⟩
  refine ⟨a, make_self a, cutFront_eq_ok_iff.2 ⟨long, ⟨known, rfl⟩, ⟨named, r, hname⟩, ?_⟩⟩
  exact ⟨valued, r', hvalues, rfl⟩

theorem length_values_of_cutFront (h : cutFront b = .ok (a, t)) :
    a.values.length = numberAt b 12 4 ∧ numberAt b 16 4 ≤ b.length ∧
      2 * a.values.length ≤ b.length - numberAt b 16 4 := by
  obtain ⟨-, -, -, valued, r, hvalues, -⟩ := cutFront_eq_ok_iff.1 h
  have bytes := ClaimValue.length_of_cutMany hvalues
  have least := ClaimValue.two_mul_length_le_encodedLenAll a.values
  rw [List.length_drop] at bytes
  exact ⟨(ClaimValue.valid_of_cutMany hvalues).1, valued, by omega⟩

/-- Whatever byte string an attribute is read from, the constructor makes the attribute of its
parts, it has as many values as the header counts and at least two bytes behind the offset for each
of them, no string of it has a zero character, and it is read back from what is written of it. Once
the header, the name and the values are read, an attribute is made of them without fail. -/
theorem sound_of_decode (b : Bytes) :
    (∀ a, decode b = .ok a →
      make a.name a.type a.flags a.values = .ok a ∧
        a.values.length = numberAt b 12 4 ∧
        (numberAt b 16 4 ≤ b.length ∧ 2 * a.values.length ≤ b.length - numberAt b 16 4) ∧
        '\x00' ∉ a.name.toList ∧ (∀ text, .string text ∈ a.values → '\x00' ∉ text.toList) ∧
        ∀ b', a.encode = .ok b' → ∀ t, decode (b' ++ t) = .ok a) ∧
    ∀ type name values r r', headerLen ≤ b.length →
      ClaimType.ofCode? (.ofNat (numberAt b 4 2)) = some type →
      numberAt b 0 4 ≤ b.length →
      Utf16.decodeTerminated (b.drop (numberAt b 0 4)) = .ok (name, r) →
      numberAt b 16 4 ≤ b.length →
      ClaimValue.cutMany type (numberAt b 12 4) (b.drop (numberAt b 16 4)) = .ok (values, r') →
      ∃ a, make name type (.ofNat 32 (numberAt b 8 4)) values = .ok a ∧
        cutFront b = .ok (a, b.drop (max headerLen (b.length - r'.length))) := by
  constructor
  · intro a h
    obtain ⟨t, ht⟩ := fst_eq_ok.1 h
    obtain ⟨count, valued, room⟩ := length_values_of_cutFront ht
    have nulFree := nulFree_of_cutFront ht
    refine ⟨make_self a, count, ⟨valued, room⟩, nulFree.name, ?_, ?_⟩
    · intro text htext
      exact nulFree.values _ htext
    · intro b' written t'
      exact decode_of_encode written nulFree t'
  · intro type name values r r' long known named hname valued hvalues
    exact exists_cutFront_of_cutMany long known named hname valued hvalues

/-- The name and the only value lie in the header: the name is the zero unit in the offset of the
values, and the value is the flags and the count. -/
theorem sound_of_decode_header :
    let b : Bytes := [18, 0, 0, 0, 2, 0, 0, 0, 0x20, 0, 0, 0, 1, 0, 0, 0, 8, 0, 0, 0]
    let a : ClaimAttribute := ⟨"", .uint64, 0x20, [.uint64 0x100000020], by decide⟩
    let b' : Bytes := [20, 0, 0, 0, 2, 0, 0, 0, 0x20, 0, 0, 0, 1, 0, 0, 0, 22, 0, 0, 0] ++ [0, 0] ++
      [0x20, 0, 0, 0, 1, 0, 0, 0]
    decode b = .ok a ∧ make "" .uint64 0x20 [.uint64 0x100000020] = .ok a ∧
      2 * 1 ≤ b.length - 8 ∧ a.encode = .ok b' ∧ (∀ t, decode (b' ++ t) = .ok a) ∧
      cutFront b = .ok (a, []) := by
  intro b a b'
  have read : decode b = .ok a := by
    simp only [b, a]
    rfl
  have written : a.encode = .ok b' := by
    simp only [a, b']
    rfl
  obtain ⟨sound, goesOn⟩ := sound_of_decode b
  obtain ⟨made, -, ⟨-, room⟩, -, -, back⟩ := sound a read
  obtain ⟨a', made', rest⟩ := goesOn .uint64 "" [.uint64 0x100000020] [] [8, 0, 0, 0] (by decide)
    rfl (by decide) rfl (by decide) rfl
  obtain rfl : a = a' := Except.ok.inj (made.symm.trans made')
  exact ⟨read, made, room, written, back b' written, rest⟩

/-! ### Attributes that break off -/

theorem stable_cutFront : Stable cutFront := by
  intro b a t h u
  obtain ⟨long, kind, ⟨named, r, hname⟩, valued, r', hvalues, rfl⟩ := cutFront_eq_ok_iff.1 h
  have size : 20 ≤ b.length := long
  have longer : b.length ≤ (b ++ u).length := by
    rw [List.length_append]
    exact Nat.le_add_right ..
  have nameOffset : numberAt (b ++ u) 0 4 = numberAt b 0 4 := numberAt_append_right (by omega) u
  have code : numberAt (b ++ u) 4 2 = numberAt b 4 2 := numberAt_append_right (by omega) u
  have flags : numberAt (b ++ u) 8 4 = numberAt b 8 4 := numberAt_append_right (by omega) u
  have count : numberAt (b ++ u) 12 4 = numberAt b 12 4 := numberAt_append_right (by omega) u
  have valuesOffset : numberAt (b ++ u) 16 4 = numberAt b 16 4 :=
    numberAt_append_right (by omega) u
  rw [cutFront_eq_ok_iff, nameOffset, code, flags, count, valuesOffset,
    List.drop_append_of_le_length named, List.drop_append_of_le_length valued]
  refine ⟨Nat.le_trans long longer, kind,
    ⟨Nat.le_trans named longer, r ++ u, Utf16.stable_decodeTerminated hname u⟩,
    Nat.le_trans valued longer, r' ++ u, ClaimValue.stable_cutMany _ _ hvalues u, ?_⟩
  have inside : max headerLen (b.length - r'.length) ≤ b.length :=
    Nat.max_le.2 ⟨long, Nat.sub_le ..⟩
  rw [List.length_append, List.length_append, Nat.add_sub_add_right,
    List.drop_append_of_le_length inside]

/-- Of what is written of an attribute without zero characters, no part that breaks off is read. -/
theorem refusesPrefixes (h : a.encode = .ok b) (nulFree : a.NulFree) :
    RefusesPrefixes cutFront b := by
  have whole := cutFront_of_encode h nulFree []
  rw [List.append_nil] at whole
  exact stable_cutFront.refusesPrefixes_of_whole whole

end ClaimAttribute
end AccessControl
