import AccessControl.Proofs.Claim.Wire

/-!
# Attributes with the same bytes

Two attributes have the same bytes exactly when they agree in everything but their values, and the
bytes of the values together are the same (`encode_eq_ok_iff_of_encode`). Of values of a type other
than strings, the bytes tell them apart. Strings only end where a zero unit is: as long as no string
has one of its own, the bytes tell them apart too, and otherwise the end of one string may be moved
into the next (`exists_other_encode_iff`).
-/

namespace AccessControl

/-! ### Strings one after another -/

namespace ClaimValue

variable {texts others : List String} {vs ws : List ClaimValue} {type : ClaimType} {x : Bytes}

/-- The units of strings one after another, each with the zero unit that ends it. -/
def joined (texts : List String) : List UInt16 := texts.flatMap fun s => Utf16.units s ++ [0]

theorem joined_cons (s : String) (texts : List String) :
    joined (s :: texts) = Utf16.units s ++ 0 :: joined texts := by
  rw [joined, List.flatMap_cons, List.append_assoc]
  rfl

theorem joined_append (texts others : List String) :
    joined (texts ++ others) = joined texts ++ joined others :=
  List.flatMap_append

theorem encodeAll_strings (texts : List String) :
    encodeAll (texts.map .string) = .ok (Utf16.bytesOf (joined texts)) := by
  induction texts with
  | nil => rfl
  | cons s texts ih =>
    have head : Utf16.encodeTerminated s ++ Utf16.bytesOf (joined texts) =
        Utf16.bytesOf (joined (s :: texts)) := by
      rw [joined_cons, Utf16.bytesOf_append, Utf16.encodeTerminated, List.append_assoc]
      rfl
    rw [List.map_cons, encodeAll, ih, encode, ok_bind, ok_bind, head, pure_ok]

theorem exists_texts (typed : ∀ v ∈ vs, v.type = .string) :
    ∃ texts : List String, vs = texts.map .string := by
  induction vs with
  | nil => exact ⟨[], rfl⟩
  | cons v vs ih =>
    rw [List.forall_mem_cons] at typed
    obtain ⟨head, tail⟩ := typed
    obtain ⟨texts, rfl⟩ := ih tail
    cases v with
    | string s => exact ⟨s :: texts, rfl⟩
    | _ => cases head

/-- The zero units are those that end a string and those inside one. -/
theorem count_joined (texts : List String) :
    (joined texts).count 0 = texts.length + (texts.flatMap Utf16.units).count 0 := by
  induction texts with
  | nil => rfl
  | cons s texts ih =>
    rw [joined_cons, List.count_append, List.count_cons_self, ih, List.length_cons,
      List.flatMap_cons, List.count_append]
    omega

theorem count_joined_eq_length_iff :
    (joined texts).count 0 = texts.length ↔ ∀ s ∈ texts, '\x00' ∉ s.toList := by
  rw [count_joined, Nat.add_eq_left, List.count_eq_zero, List.mem_flatMap]
  simp only [Utf16.zero_mem_units, not_exists, not_and]

/-- The end of a string is moved to its first zero character, and what follows that character goes
to the front of the next string. -/
theorem joined_move (l r : List Char) (w : String) :
    joined [String.ofList (l ++ '\x00' :: r), w] =
      joined [String.ofList l, String.ofList (r ++ '\x00' :: w.toList)] := by
  have zero : Utf16.unitsOf '\x00' = [0] := rfl
  simp only [joined, Utf16.units, String.toList_ofList, List.flatMap_append, List.flatMap_cons,
    List.flatMap_nil, zero, List.append_assoc, List.cons_append, List.nil_append]

theorem ofList_ne_of_longer {l r : List Char} :
    String.ofList (l ++ '\x00' :: r) ≠ String.ofList l := by
  intro h
  have lists := congrArg (fun s => s.toList.length) h
  simp only [String.toList_ofList, List.length_append, List.length_cons] at lists
  omega

/-- Strings of which one has a zero character share their units with as many other strings, if there
are at least two of them. -/
theorem exists_other_joined (several : 1 < texts.length) {s : String} (hs : s ∈ texts)
    (nul : '\x00' ∈ s.toList) :
    ∃ others, others ≠ texts ∧ others.length = texts.length ∧ joined others = joined texts := by
  obtain ⟨front, back, rfl⟩ := List.append_of_mem hs
  obtain ⟨l, r, hlr⟩ := List.append_of_mem nul
  obtain rfl : s = String.ofList (l ++ '\x00' :: r) := by rw [← hlr, String.ofList_toList]
  cases back with
  | cons w back =>
    -- the string ends earlier, and the next one starts with what is cut off
    refine ⟨front ++ [String.ofList l, String.ofList (r ++ '\x00' :: w.toList)] ++ back, ?_, ?_, ?_⟩
    · intro h
      rw [List.append_assoc, List.append_cancel_left_eq] at h
      exact ofList_ne_of_longer (List.cons.inj h).1.symm
    · simp
    · have split : front ++ String.ofList (l ++ '\x00' :: r) :: w :: back =
          front ++ [String.ofList (l ++ '\x00' :: r), w] ++ back := by simp
      rw [split, joined_append, joined_append, joined_append, joined_append, joined_move]
  | nil =>
    -- the string is the last one, and the one in front of it takes what comes before the zero
    obtain ⟨start, u, rfl⟩ : ∃ start u, front = start ++ [u] := by
      rcases List.eq_nil_or_concat front with rfl | ⟨start, u, rfl⟩
      · simp at several
      · exact ⟨start, u, List.concat_eq_append⟩
    refine ⟨start ++ [String.ofList (u.toList ++ '\x00' :: l), String.ofList r], ?_, ?_, ?_⟩
    · intro h
      rw [List.append_assoc, List.append_cancel_left_eq] at h
      have head := (List.cons.inj h).1
      rw [← u.ofList_toList, String.toList_ofList] at head
      exact ofList_ne_of_longer head
    · simp
    · rw [List.append_assoc, joined_append, joined_append, joined_move, String.ofList_toList,
        String.toList_ofList]
      rfl

/-! ### Values of one type -/

theorem nulFree_of_type_ne {v : ClaimValue} (h : v.type ≠ .string) : v.NulFree := by
  cases v with
  | string => exact absurd rfl h
  | _ => trivial

/-- Values without zero characters are told apart by their bytes, as they are read back from them.
-/
theorem eq_of_nulFree (typed : ∀ v ∈ vs, v.type = type) (typed' : ∀ v ∈ ws, v.type = type)
    (length : ws.length = vs.length) (hv : encodeAll vs = .ok x) (hw : encodeAll ws = .ok x)
    (free : ∀ v ∈ vs, v.NulFree) (free' : ∀ v ∈ ws, v.NulFree) : ws = vs := by
  have read := cutMany_of_encodeAll hv typed free []
  have read' := cutMany_of_encodeAll hw typed' free' []
  rw [length, read] at read'
  exact (Prod.ext_iff.1 (Except.ok.inj read')).1.symm

/-- If the bytes of strings have no zero units but those that end one of so many strings, no other
strings, as many of them, have a zero character. -/
theorem nulFree_of_joined_eq (free : ∀ s ∈ texts, '\x00' ∉ s.toList)
    (length : others.length = texts.length) (h : joined others = joined texts) :
    ∀ s ∈ others, '\x00' ∉ s.toList := by
  rw [← count_joined_eq_length_iff] at free ⊢
  rw [h, free, length]

theorem eq_of_joined_eq_of_short (short : texts.length ≤ 1) (length : others.length = texts.length)
    (h : joined others = joined texts) : others = texts := by
  match texts, others with
  | [], [] => rfl
  | [s], [s'] =>
    have units : Utf16.units s' ++ [0] = Utf16.units s ++ [0] := by simpa [joined] using h
    have bytes := congrArg Utf16.bytesOf (List.append_cancel_right units)
    rw [Utf16.encode_inj bytes]
  | [], _ :: _ | [_], [] | [_], _ :: _ :: _ => simp at length
  | _ :: _ :: _, _ => simp at short

/-- Values of one type are told apart by their bytes, except for several strings of which one has a
zero character. -/
theorem eq_of_encodeAll_eq (typed : ∀ v ∈ vs, v.type = type) (typed' : ∀ v ∈ ws, v.type = type)
    (length : ws.length = vs.length) (hv : encodeAll vs = .ok x) (hw : encodeAll ws = .ok x)
    (h : type = .string → 1 < vs.length → ∀ v ∈ vs, v.NulFree) : ws = vs := by
  by_cases hstring : type = .string
  · subst hstring
    obtain ⟨texts, rfl⟩ := exists_texts typed
    obtain ⟨others, rfl⟩ := exists_texts typed'
    rw [encodeAll_strings] at hv hw
    have units : joined others = joined texts :=
      Utf16.bytesOf_inj (Except.ok.inj (hw.trans hv.symm))
    rw [List.length_map, List.length_map] at length
    by_cases several : 1 < texts.length
    · have free : ∀ s ∈ texts, '\x00' ∉ s.toList := by
        have values := h rfl (by rwa [List.length_map])
        rwa [List.forall_mem_map] at values
      have free' := nulFree_of_joined_eq free length units
      refine eq_of_nulFree typed typed' (by simpa using length) (encodeAll_strings texts) ?_ ?_ ?_
      · rw [encodeAll_strings, units]
      · rwa [List.forall_mem_map]
      · rwa [List.forall_mem_map]
    · rw [eq_of_joined_eq_of_short (Nat.le_of_not_lt several) length units]
  · refine eq_of_nulFree typed typed' length hv hw ?_ ?_
    · intro v hmem
      exact nulFree_of_type_ne (typed v hmem ▸ hstring)
    · intro v hmem
      exact nulFree_of_type_ne (typed' v hmem ▸ hstring)

end ClaimValue

/-! ### Attributes -/

theorem ClaimType.code_inj {s t : ClaimType} (h : s.code = t.code) : s = t := by
  have types := congrArg ofCode? h
  rw [ofCode?_code, ofCode?_code] at types
  exact Option.some.inj types

namespace ClaimAttribute

variable {a a' : ClaimAttribute} {b : Bytes}

theorem eq_of_parts (name : a'.name = a.name) (type : a'.type = a.type) (flags : a'.flags = a.flags)
    (values : a'.values = a.values) : a' = a := by
  have made := make_eq_ok_iff.2 ⟨name, type, flags, values⟩
  rw [make_self] at made
  exact (Except.ok.inj made).symm

/-- The numbers in a header are told apart by its bytes, if they fit their fields. -/
theorem parts_of_header_eq (count : a.values.length < 256 ^ 4) (count' : a'.values.length < 256 ^ 4)
    (offset : a.valuesOffset < 256 ^ 4) (offset' : a'.valuesOffset < 256 ^ 4)
    (h : a'.header = a.header) :
    a'.type = a.type ∧ a'.flags = a.flags ∧ a'.values.length = a.values.length ∧
      a'.valuesOffset = a.valuesOffset := by
  rw [header, header] at h
  obtain ⟨-, h⟩ := List.append_inj h (by simp)
  obtain ⟨code, h⟩ := List.append_inj h (by simp)
  obtain ⟨-, h⟩ := List.append_inj h (by simp)
  obtain ⟨word, h⟩ := List.append_inj h (by simp)
  obtain ⟨number, place⟩ := List.append_inj h (by simp)
  have codes : a'.type.code.toNat = a.type.code.toNat :=
    leBytes_inj a'.type.code.toNat_lt a.type.code.toNat_lt code
  have words : a'.flags.toNat = a.flags.toNat := leBytes_inj a'.flags.isLt a.flags.isLt word
  exact ⟨ClaimType.code_inj (UInt16.toNat_inj.1 codes), BitVec.eq_of_toNat_eq words,
    leBytes_inj count' count number, leBytes_inj offset' offset place⟩

/-- Two attributes have the same bytes exactly when they agree in everything but the values, and the
bytes of the values together are the same. -/
theorem encode_eq_ok_iff_of_encode (h : a.encode = .ok b) : a'.encode = .ok b ↔
    a'.name = a.name ∧ a'.type = a.type ∧ a'.flags = a.flags ∧
      a'.values.length = a.values.length ∧
      ClaimValue.encodeAll a'.values = ClaimValue.encodeAll a.values := by
  obtain ⟨count, offset, x, hx, rfl⟩ := encode_eq_ok_iff.1 h
  constructor
  · intro h'
    obtain ⟨count', offset', x', hx', hb⟩ := encode_eq_ok_iff.1 h'
    obtain ⟨headers, rest⟩ := List.append_inj hb (by simp)
    obtain ⟨type, flags, number, place⟩ :=
      parts_of_header_eq count count' offset offset' headers.symm
    -- the offset of the values says how long the name is
    have lengths : (Utf16.encodeTerminated a.name).length =
        (Utf16.encodeTerminated a'.name).length := by
      rw [Utf16.length_encodeTerminated, Utf16.length_encodeTerminated]
      simp only [valuesOffset] at place
      omega
    obtain ⟨names, rfl⟩ := List.append_inj rest lengths
    have name := Utf16.encode_inj (List.append_cancel_right names)
    exact ⟨name.symm, type, flags, number, hx'.trans hx.symm⟩
  · rintro ⟨name, type, flags, number, values⟩
    have headers : a'.header = a.header := by
      rw [header, header, valuesOffset, valuesOffset, name, type, flags, number]
    refine encode_eq_ok_iff.2 ⟨by rwa [number], ?_, x, by rwa [values], by rw [headers, name]⟩
    rwa [valuesOffset, name]

/-- Some other attribute has the same bytes exactly when the values are several strings of which one
has a zero character. -/
theorem exists_other_encode_iff (h : a.encode = .ok b) :
    (∃ a', a' ≠ a ∧ a'.encode = .ok b) ↔
      a.type = .string ∧ 1 < a.values.length ∧ ∃ v ∈ a.values, ¬ v.NulFree := by
  obtain ⟨-, -, x, hx, -⟩ := encode_eq_ok_iff.1 h
  constructor
  · rintro ⟨a', other, h'⟩
    obtain ⟨name, type, flags, number, bytes⟩ := (encode_eq_ok_iff_of_encode h).1 h'
    by_contra shared
    refine other (eq_of_parts name type flags ?_)
    refine ClaimValue.eq_of_encodeAll_eq a.typed ?_ number hx (bytes.trans hx) ?_
    · rw [← type]
      exact a'.typed
    · intro string several v hv
      by_contra nul
      exact shared ⟨string, several, v, hv, nul⟩
  · rintro ⟨string, several, v, hv, nul⟩
    have typed := a.typed
    rw [string] at typed
    obtain ⟨texts, htexts⟩ := ClaimValue.exists_texts typed
    rw [htexts, List.length_map] at several
    rw [htexts] at hv
    obtain ⟨s, hs, rfl⟩ := List.mem_map.1 hv
    obtain ⟨others, different, number, units⟩ :=
      ClaimValue.exists_other_joined several hs (not_not.1 nul)
    have typed' : ∀ v ∈ others.map ClaimValue.string, v.type = .string := by
      simp [ClaimValue.type]
    refine ⟨⟨a.name, .string, a.flags, others.map .string, typed'⟩, ?_, ?_⟩
    · intro same
      have values := (congrArg ClaimAttribute.values same).trans htexts
      exact different ((List.map_inj_right fun _ _ => ClaimValue.string.inj).1 values)
    · refine (encode_eq_ok_iff_of_encode h).2 ⟨rfl, string.symm, rfl, ?_, ?_⟩
      · rw [htexts, List.length_map, List.length_map, number]
      · rw [htexts, ClaimValue.encodeAll_strings, ClaimValue.encodeAll_strings, units]

/-- One string with a zero character is told apart by its bytes, whereas two share them with two
others. -/
theorem exists_other_encode_iff_zero :
    let one : ClaimAttribute := ⟨"n", .string, 0, [.string "A\x00"], by decide⟩
    let two : ClaimAttribute := ⟨"n", .string, 0, [.string "A\x00", .string "B"], by decide⟩
    let front (count : UInt8) : Bytes :=
      [20, 0, 0, 0, 3, 0, 0, 0, 0, 0, 0, 0, count, 0, 0, 0, 24, 0, 0, 0, 0x6E, 0, 0, 0]
    let b := front 1 ++ [0x41, 0, 0, 0, 0, 0]
    let b' := front 2 ++ [0x41, 0, 0, 0, 0, 0, 0x42, 0, 0, 0]
    one.encode = .ok b ∧ (¬ ∃ a', a' ≠ one ∧ a'.encode = .ok b) ∧
      two.encode = .ok b' ∧ ∃ a', a' ≠ two ∧ a'.encode = .ok b' := by
  intro one two front b b'
  have written : one.encode = .ok b := by
    simp only [one, b, front]
    rfl
  have written' : two.encode = .ok b' := by
    simp only [two, b', front]
    rfl
  have alone := exists_other_encode_iff written
  have shared := exists_other_encode_iff written'
  refine ⟨written, fun other => absurd (alone.1 other).2.1 (by decide), written', shared.2 ?_⟩
  refine ⟨rfl, by decide, .string "A\x00", List.mem_cons_self .., ?_⟩
  simp [ClaimValue.NulFree]

/-- The zero character at the end of a string, moved to the front of the next one, leaves the bytes
as they are. -/
theorem encode_eq_of_moved_zero :
    let a : ClaimAttribute := ⟨"n", .string, 0, [.string "A\x00", .string "B"], by decide⟩
    let a' : ClaimAttribute := ⟨"n", .string, 0, [.string "A", .string "\x00B"], by decide⟩
    make "n" .string 0 [.string "A\x00", .string "B"] = .ok a ∧
      make "n" .string 0 [.string "A", .string "\x00B"] = .ok a' ∧
      a ≠ a' ∧ ∃ b, a.encode = .ok b ∧ a'.encode = .ok b := by
  intro a a'
  refine ⟨make_self a, make_self a', by decide, ?_⟩
  refine ⟨[20, 0, 0, 0, 3, 0, 0, 0, 0, 0, 0, 0, 2, 0, 0, 0, 24, 0, 0, 0, 0x6E, 0, 0, 0,
    0x41, 0, 0, 0, 0, 0, 0x42, 0, 0, 0], ?_, ?_⟩
  · simp only [a]
    rfl
  · simp only [a']
    rfl

end ClaimAttribute
end AccessControl
