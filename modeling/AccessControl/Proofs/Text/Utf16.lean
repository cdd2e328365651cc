import AccessControl.Proofs.Bytes.Fields
import AccessControl.Utf16

/-!
# Texts are exactly their units

Reading a text from UTF-16 accepts the bytes that it is written as and no others, with or without a
zero unit at its end. A terminated text is read back exactly when it has no zero character, since a
unit is zero only in the form of that character.
-/

namespace AccessControl.Utf16

/-! ### Units of characters -/

theorem toNat_ofNat {n : Nat} (valid : n.isValidChar) : (Char.ofNat n).toNat = n := by
  rw [Char.ofNat, dif_pos valid]
  rfl

/-- A unit outside the surrogates is the form of the character of its number. -/
theorem unitsOf_ofNat {u : UInt16} (high : isHigh u = false) (low : isLow u = false) :
    unitsOf (Char.ofNat u.toNat) = [u] := by
  rw [isHigh_eq, decide_eq_false_iff_not] at high
  rw [isLow_eq, decide_eq_false_iff_not] at low
  have hu : u.toNat < 65536 := u.toNat_lt
  have valid : u.toNat.isValidChar := by
    rw [Nat.isValidChar]; omega
  have hn : (Char.ofNat u.toNat).toNat = u.toNat := toNat_ofNat valid
  rw [unitsOf]
  simp [hn, hu]

/-- A pair of surrogates is the form of its character. -/
theorem unitsOf_ofPair {u v : UInt16} (high : isHigh u = true) (low : isLow v = true) :
    unitsOf (ofPair u v) = [u, v] := by
  rw [isHigh_eq, decide_eq_true_eq] at high
  rw [isLow_eq, decide_eq_true_eq] at low
  generalize hn : 0x10000 + (u.toNat - 0xD800) * 0x400 + (v.toNat - 0xDC00) = n
  have valid : n.isValidChar := by
    rw [Nat.isValidChar]; omega
  have hc : (ofPair u v).toNat = n := by rw [ofPair, hn, toNat_ofNat valid]
  have above : ¬ n < 0x10000 := by omega
  have hu : 0xD800 + (n - 0x10000) / 0x400 = u.toNat := by omega
  have hv : 0xDC00 + (n - 0x10000) % 0x400 = v.toNat := by omega
  simp [unitsOf, hc, above, hu, hv]

theorem flatMap_unitsOf_of_chars? {us : List UInt16} {cs : List Char} (h : chars? us = some cs) :
    cs.flatMap unitsOf = us := by
  fun_induction chars? us generalizing cs with
  | case1 => cases h; rfl
  | case2 u hu => cases h
  | case3 u hu =>
    cases h
    simp only [Bool.or_eq_true, not_or, Bool.not_eq_true] at hu
    simp [unitsOf_ofNat hu.1 hu.2]
  | case4 u v us high low ih =>
    obtain ⟨cs', hcs, rfl⟩ := Option.map_eq_some_iff.1 h
    rw [List.flatMap_cons, unitsOf_ofPair high low, ih hcs]
    rfl
  | case5 u v us high low => cases h
  | case6 u v us high low => cases h
  | case7 u v us high low ih =>
    obtain ⟨cs', hcs, rfl⟩ := Option.map_eq_some_iff.1 h
    rw [Bool.not_eq_true] at high low
    rw [List.flatMap_cons, unitsOf_ofNat high low, ih hcs]
    rfl

theorem bytesOf_of_units? {b : Bytes} {us : List UInt16} (h : units? b = some us) :
    bytesOf us = b := by
  fun_induction units? b generalizing us with
  | case1 => cases h; rfl
  | case2 x => cases h
  | case3 low high b ih =>
    obtain ⟨us', hus, rfl⟩ := Option.map_eq_some_iff.1 h
    have hlt : leNat [low, high] < 65536 := by simpa using leNat_lt [low, high]
    have pair : leBytes 2 (UInt16.ofNat (leNat [low, high])).toNat = [low, high] := by
      rw [UInt16.toNat_ofNat', Nat.mod_eq_of_lt hlt]
      exact leBytes_leNat [low, high]
    have cons : bytesOf (UInt16.ofNat (leNat [low, high]) :: us') =
        leBytes 2 (UInt16.ofNat (leNat [low, high])).toNat ++ bytesOf us' := rfl
    rw [cons, pair, ih hus]
    rfl

/-- A text is read exactly from its bytes. -/
theorem decode_eq_ok_iff {b : Bytes} {s : String} : decode b = .ok s ↔ b = encode s := by
  constructor
  · intro h
    rw [decode] at h
    cases hcs : (units? b).bind chars? with
    | none => rw [hcs] at h; cases h
    | some cs =>
      rw [hcs] at h
      cases h
      obtain ⟨us, hus, hchars⟩ := Option.bind_eq_some_iff.1 hcs
      rw [encode, units, String.toList_ofList, flatMap_unitsOf_of_chars? hchars,
        bytesOf_of_units? hus]
  · rintro rfl
    exact decode_encode s

/-- There is one cause for which bytes are no text. -/
theorem decode_eq_error_iff {b : Bytes} {e : Error} :
    decode b = .error e ↔ e = .invalidUtf16 ∧ (units? b).bind chars? = none := by
  unfold decode
  split
  next h => simp [h]
  next h => simp [h, eq_comm]

theorem encode_inj {s s' : String} (h : encode s = encode s') : s = s' := by
  have texts := congrArg decode h
  rw [decode_encode, decode_encode] at texts
  exact Except.ok.inj texts

theorem bytesOf_inj {us vs : List UInt16} (h : bytesOf us = bytesOf vs) : us = vs := by
  have units := congrArg units? h
  rw [units?_bytesOf, units?_bytesOf] at units
  exact Option.some.inj units

theorem bytesOf_append (us vs : List UInt16) : bytesOf (us ++ vs) = bytesOf us ++ bytesOf vs :=
  List.flatMap_append

/-! ### Terminated text -/

/-- The zero unit is the form of the zero character and a part of no other. -/
theorem zero_mem_unitsOf {c : Char} : 0 ∈ unitsOf c ↔ c = '\x00' := by
  constructor
  · intro h
    have valid : c.toNat < 0xD800 ∨ 0xDFFF < c.toNat ∧ c.toNat < 0x110000 := c.valid
    apply Char.toNat_inj.1
    rw [unitsOf] at h
    by_cases hc : c.toNat < 0x10000
    · simp only [hc, if_true, List.mem_singleton] at h
      have hn := congrArg UInt16.toNat h
      rw [UInt16.toNat_ofNat', Nat.mod_eq_of_lt hc] at hn
      exact hn.symm
    · simp only [hc, if_false, List.mem_cons, List.not_mem_nil, or_false] at h
      rcases h with h | h
      all_goals
        have hn := congrArg UInt16.toNat h
        rw [UInt16.toNat_ofNat'] at hn
        simp only [UInt16.toNat_zero] at hn
        omega
  · rintro rfl
    decide

theorem zero_mem_units {s : String} : 0 ∈ units s ↔ '\x00' ∈ s.toList := by
  simp only [units, List.mem_flatMap, zero_mem_unitsOf]
  constructor
  · rintro ⟨c, hc, rfl⟩
    exact hc
  · intro h
    exact ⟨'\x00', h, rfl⟩

theorem bytesOf_cons (u : UInt16) (us : List UInt16) :
    bytesOf (u :: us) = UInt8.ofNat u.toNat :: UInt8.ofNat (u.toNat / 256) :: bytesOf us := rfl

/-- A unit is zero when both of its bytes are. -/
theorem unit_eq_zero_iff (u : UInt16) :
    UInt8.ofNat u.toNat = 0 ∧ UInt8.ofNat (u.toNat / 256) = 0 ↔ u = 0 := by
  constructor
  · rintro ⟨hlow, hhigh⟩
    have low := congrArg UInt8.toNat hlow
    have high := congrArg UInt8.toNat hhigh
    rw [UInt8.toNat_ofNat'] at low high
    simp only [UInt8.toNat_zero] at low high
    have hu : u.toNat < 65536 := u.toNat_lt
    apply UInt16.toNat_inj.1
    rw [UInt16.toNat_zero]
    omega
  · rintro rfl
    decide

theorem cutTerminated?_bytesOf {us : List UInt16} (h : 0 ∉ us) (t : Bytes) :
    cutTerminated? (bytesOf us ++ 0 :: 0 :: t) = some (bytesOf us, t) := by
  induction us with
  | nil => simp [bytesOf, cutTerminated?]
  | cons u us ih =>
    rw [List.mem_cons, not_or] at h
    have hu : ¬ (UInt8.ofNat u.toNat = 0 ∧ UInt8.ofNat (u.toNat / 256) = 0) := by
      rw [unit_eq_zero_iff]
      exact fun hu => h.1 hu.symm
    rw [bytesOf_cons, List.cons_append, List.cons_append, cutTerminated?, if_neg hu, ih h.2]
    rfl

/-- What is cut off in front of a terminator has no zero unit. -/
theorem eq_of_cutTerminated? {b x r : Bytes} (h : cutTerminated? b = some (x, r)) :
    b = x ++ 0 :: 0 :: r ∧ ∀ us, units? x = some us → 0 ∉ us := by
  fun_induction cutTerminated? b generalizing x with
  | case1 low high b hz =>
    cases h
    obtain ⟨rfl, rfl⟩ := hz
    refine ⟨rfl, fun us hus => ?_⟩
    cases hus
    simp
  | case2 low high b hz ih =>
    obtain ⟨⟨x', r'⟩, hx, heq⟩ := Option.map_eq_some_iff.1 h
    cases heq
    obtain ⟨rfl, hzero⟩ := ih hx
    refine ⟨rfl, fun us hus => ?_⟩
    obtain ⟨us', hus', rfl⟩ := Option.map_eq_some_iff.1 hus
    rw [List.mem_cons, not_or]
    refine ⟨fun hu => hz ?_, hzero us' hus'⟩
    have hbytes := bytesOf_of_units? hus
    rw [bytesOf_cons, ← hu] at hbytes
    cases hbytes
    decide
  | case3 b hb => cases h

/-- A terminated text is read exactly from its bytes, and has no zero character. -/
theorem decodeTerminated_eq_ok_iff {b r : Bytes} {s : String} :
    decodeTerminated b = .ok (s, r) ↔ '\x00' ∉ s.toList ∧ b = encodeTerminated s ++ r := by
  have assoc : encodeTerminated s ++ r = bytesOf (units s) ++ 0 :: 0 :: r := by
    rw [encodeTerminated, encode, List.append_assoc]; rfl
  rw [assoc, ← zero_mem_units]
  constructor
  · intro h
    rw [decodeTerminated] at h
    cases hcut : cutTerminated? b with
    | none => rw [hcut] at h; cases h
    | some cutOff =>
      obtain ⟨x, r'⟩ := cutOff
      rw [hcut] at h
      obtain ⟨s', hs, heq⟩ := bind_eq_ok.1 h
      cases heq
      obtain ⟨rfl, hzero⟩ := eq_of_cutTerminated? hcut
      obtain rfl := decode_eq_ok_iff.1 hs
      exact ⟨hzero _ (units?_bytesOf _), rfl⟩
  · rintro ⟨hzero, rfl⟩
    rw [decodeTerminated, cutTerminated?_bytesOf hzero]
    have hs : decode (bytesOf (units s)) = .ok s := decode_encode s
    simp [hs]

theorem length_encodeTerminated (s : String) :
    (encodeTerminated s).length = encodedLen s + 2 := by
  simp [encodeTerminated]

end AccessControl.Utf16
