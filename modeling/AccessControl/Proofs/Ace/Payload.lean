import AccessControl.Ace.Wire
import AccessControl.Proofs.Claim.Wire
import AccessControl.Proofs.Condition.Wire

/-!
# Payloads, read and written

A body is read exactly from its bytes, and what a reader gives is in normal form. A payload in
normal form is read back from its bytes and the padding that its entry has room for, when its
condition is within the bounds of a reader and its claim has no zero characters
(`Payload.decode_of_encode`); a reader makes no payloads but these (`Payload.wireSafe_of_decode`).
-/

namespace AccessControl

variable {short : Bytes → Error} {b t : Bytes}

/-! ### Normal forms -/

theorem putBit_getLsbD {n : Nat} (w : BitVec n) (i : Nat) : putBit w i (w.getLsbD i) = w := by
  apply BitVec.eq_of_getLsbD_eq
  intro j hj
  rw [getLsbD_putBit]
  by_cases h : j = i ∧ i < n
  · rw [if_pos h, h.1]
  · rw [if_neg h]

theorem ObjectBody.syncedFlags_eq_self {o : ObjectBody} (h : o.IsNormal) :
    o.syncedFlags = o.flags := by
  rw [syncedFlags, ← h.1, ← h.2, putBit_getLsbD, putBit_getLsbD]

theorem ObjectBody.normalized_eq_self {o : ObjectBody} (h : o.IsNormal) : o.normalized = o := by
  rw [normalized, syncedFlags_eq_self h]

theorem AppData.normalized_eq_self {d : AppData} (h : d.IsNormal) : d.normalized = d := by
  cases d with
  | raw bytes =>
    obtain ⟨nonzero, size⟩ := h
    simp [normalized, nonzero, padded_eq_self size]
  | _ => rfl

theorem Payload.normalized_eq_self {p : Payload} (h : p.IsNormal) : p.normalized = p := by
  cases p with
  | basic => rfl
  | object o => rw [normalized, ObjectBody.normalized_eq_self h]
  | objectWithData o d =>
    rw [normalized, ObjectBody.normalized_eq_self h.1, AppData.normalized_eq_self h.2]
  | basicWithData body d => rw [normalized, AppData.normalized_eq_self h]
  | unknown body => rw [normalized, padded_eq_self h]

/-! ### Bodies -/

theorem Guid.cutField_eq_ok_iff {g : Guid} : cutField short b = .ok (g, t) ↔ b = g.bytes ++ t := by
  rw [cutField, ofBytes?]
  constructor
  · intro h
    by_cases hb : (b.take size).length = 16
    · rw [dif_pos hb] at h
      cases h
      exact (List.take_append_drop size b).symm
    · rw [dif_neg hb] at h
      cases h
  · rintro rfl
    have htake : (g.bytes ++ t).take size = g.bytes := List.take_left' g.length_bytes
    have hdrop : (g.bytes ++ t).drop size = t := List.drop_left' g.length_bytes
    simp only [htake, hdrop, g.length_bytes, dif_pos]

/-- A word of 32 bits is read exactly from its bytes. -/
theorem toNat_ofNat_of_lt {v : Nat} (h : v < 256 ^ 4) : (BitVec.ofNat 32 v).toNat = v := by
  rw [BitVec.toNat_ofNat]
  exact Nat.mod_eq_of_lt h

namespace BasicBody

theorem cutFront_eq_ok_iff {x : BasicBody} : cutFront b = .ok (x, t) ↔ b = x.encode ++ t := by
  simp only [cutFront, bind_eq_ok, Prod.exists, cutNat_eq_ok_iff, Sid.cutField_eq_ok_iff]
  constructor
  · rintro ⟨v, _, ⟨hv, rfl⟩, s, _, rfl, h⟩
    cases h
    rw [encode, toNat_ofNat_of_lt hv, List.append_assoc]
  · rintro rfl
    refine ⟨x.mask.toNat, x.sid.encode ++ t, ⟨x.mask.isLt, ?_⟩, x.sid, t, rfl, ?_⟩
    · rw [encode, List.append_assoc]
    · simp

theorem length_encode (x : BasicBody) : x.encode.length = x.encodedLen := by
  simp [encode, encodedLen, Sid.length_encode]

theorem four_dvd_encodedLen (x : BasicBody) : 4 ∣ x.encodedLen :=
  Nat.dvd_add (by decide) x.sid.four_dvd_encodedLen

end BasicBody

namespace ObjectBody

variable {o : ObjectBody} {g : Option Guid} {present : Bool}

theorem cutType_eq_ok_iff :
    cutType short present b = .ok (g, t) ↔ g.isSome = present ∧ b = encodeType g ++ t := by
  cases present with
  | true =>
    simp only [cutType, if_true, bind_eq_ok, Prod.exists, Guid.cutField_eq_ok_iff]
    constructor
    · rintro ⟨x, _, rfl, h⟩
      cases h
      exact ⟨rfl, rfl⟩
    · rintro ⟨hg, rfl⟩
      obtain ⟨x, rfl⟩ := Option.isSome_iff_exists.1 hg
      exact ⟨x, t, rfl, rfl⟩
  | false =>
    rw [cutType, if_neg Bool.false_ne_true]
    constructor
    · intro h
      cases h
      exact ⟨rfl, rfl⟩
    · rintro ⟨hg, rfl⟩
      obtain rfl := Option.not_isSome_iff_eq_none.1 (Bool.eq_false_iff.1 hg)
      rfl

/-- A body is read exactly from its bytes, and only in normal form. -/
theorem cutFront_eq_ok_iff : cutFront b = .ok (o, t) ↔ o.IsNormal ∧ b = o.encode ++ t := by
  simp only [cutFront, bind_eq_ok, Prod.exists, cutNat_eq_ok_iff, cutType_eq_ok_iff,
    Sid.cutField_eq_ok_iff]
  constructor
  · rintro ⟨v, _, ⟨hv, rfl⟩, w, _, ⟨hw, rfl⟩, g, _, ⟨hg, rfl⟩, i, _, ⟨hi, rfl⟩, s, _, rfl, h⟩
    cases h
    have normal : IsNormal ⟨.ofNat 32 v, .ofNat 32 w, g, i, s⟩ := ⟨hg.symm, hi.symm⟩
    refine ⟨normal, ?_⟩
    rw [encode, syncedFlags_eq_self normal, toNat_ofNat_of_lt hv, toNat_ofNat_of_lt hw]
    simp only [List.append_assoc]
  · rintro ⟨normal, rfl⟩
    refine ⟨o.mask.toNat, _, ⟨o.mask.isLt, ?_⟩, o.flags.toNat, _, ⟨o.flags.isLt, rfl⟩,
      o.objectType, _, ⟨?_, rfl⟩, o.inheritedType, _, ⟨?_, rfl⟩, o.sid, t, rfl, ?_⟩
    · rw [encode, syncedFlags_eq_self normal]
      simp only [List.append_assoc]
    · rw [BitVec.ofNat_toNat, BitVec.setWidth_eq, normal.1]
    · rw [BitVec.ofNat_toNat, BitVec.setWidth_eq, normal.2]
    · simp

theorem length_encodeType (g : Option Guid) : (encodeType g).length = typeLen g := by
  cases g with
  | none => rfl
  | some g => exact g.length_bytes

theorem length_encode (o : ObjectBody) : o.encode.length = o.encodedLen := by
  simp only [encode, encodedLen, List.length_append, length_leBytes, length_encodeType,
    Sid.length_encode]

theorem four_dvd_encodedLen (o : ObjectBody) : 4 ∣ o.encodedLen := by
  have type : ∀ g : Option Guid, 4 ∣ typeLen g := by
    intro g
    cases g with
    | none => exact Nat.dvd_zero 4
    | some g => exact (by decide : 4 ∣ Guid.size)
  have := type o.objectType
  have := type o.inheritedType
  have := o.sid.four_dvd_encodedLen
  unfold encodedLen
  omega

end ObjectBody

/-! ### Application data -/

namespace AppData

variable {d : AppData} {kind : DataKind}

/-- The condition is within the bounds of a reader, and the claim has no zero characters. -/
def WireSafe : AppData → Prop
  | .condition c => c.node.Shallow
  | .attribute a => a.NulFree
  | _ => True

theorem length_of_encode (h : d.encode = .ok b) : b.length = d.encodedLen := by
  cases d with
  | none | raw =>
    cases h
    rfl
  | condition c => exact Condition.length_of_encode h
  | «attribute» a => exact ClaimAttribute.length_of_encode h

theorem exists_encode (h : d.encodedLen < 256 ^ 4) : ∃ b, d.encode = .ok b := by
  cases d with
  | none | raw => exact ⟨_, rfl⟩
  | condition c => exact Condition.exists_encode h
  | «attribute» a => exact ClaimAttribute.exists_encode h

/-- Data is read back from its bytes and from zero bytes after it, as long as those do not make raw
data longer. -/
theorem decode_of_encode (h : d.encode = .ok b) (fits : d.Fits kind) (normal : d.IsNormal)
    (safe : d.WireSafe) {k : Nat} (hk : 4 ∣ b.length → k = 0) :
    decode kind (b ++ zeros k) = .ok d := by
  unfold decode
  rw [allZero_append_zeros]
  cases d with
  | none =>
    cases h
    rfl
  | condition c =>
    obtain ⟨x, p, hb, -⟩ := Condition.emits_of_encoded h
    have nonzero : allZero b = false := by rw [hb]; rfl
    cases kind with
    | condition =>
      rw [nonzero, if_neg Bool.false_ne_true]
      simp only [Condition.decode_of_encode h safe, ok_bind, pure_ok]
    | _ => cases fits
  | «attribute» a =>
    obtain ⟨-, -, x, -, hb⟩ := ClaimAttribute.encode_eq_ok_iff.1 h
    have nonzero : allZero b = false := by rw [hb]; rfl
    cases kind with
    | «attribute» =>
      rw [nonzero, if_neg Bool.false_ne_true]
      simp only [ClaimAttribute.decode_of_encode h safe, ok_bind, pure_ok]
    | _ => cases fits
  | raw bytes =>
    cases h
    obtain ⟨nonzero, size⟩ := normal
    rw [nonzero, if_neg Bool.false_ne_true, hk size, zeros_zero, List.append_nil]
    cases kind with
    | raw => rfl
    | _ => cases fits

theorem wireSafe_of_decode (h : decode kind b = .ok d) : d.WireSafe := by
  unfold decode at h
  split at h
  · cases h
    trivial
  · cases kind with
    | condition =>
      obtain ⟨c, hc, h⟩ := bind_eq_ok.1 h
      cases h
      exact (Condition.emits_of_decode hc).1
    | «attribute» =>
      obtain ⟨a, ha, h⟩ := bind_eq_ok.1 h
      cases h
      exact ClaimAttribute.nulFree_of_decode ha
    | raw | none =>
      cases h
      trivial

theorem wireSafe_normalized (h : d.WireSafe) : d.normalized.WireSafe := by
  cases d with
  | raw bytes =>
    rw [normalized]
    split <;> trivial
  | _ => exact h

end AppData

/-! ### Payloads -/

namespace Payload

variable {p : Payload} {type : AceType} {kind : DataKind} {shape : Option AceShape}

theorem length_of_encode (h : p.encode = .ok b) : b.length = p.encodedLen := by
  cases p with
  | basic x =>
    cases h
    exact x.length_encode
  | object o =>
    cases h
    exact o.length_encode
  | unknown body =>
    cases h
    rfl
  | basicWithData x d =>
    obtain ⟨y, hy, h⟩ := bind_eq_ok.1 h
    cases h
    rw [List.length_append, x.length_encode, AppData.length_of_encode hy, encodedLen]
  | objectWithData o d =>
    obtain ⟨y, hy, h⟩ := bind_eq_ok.1 h
    cases h
    rw [List.length_append, o.length_encode, AppData.length_of_encode hy, encodedLen]

theorem exists_encode (h : p.encodedLen < 256 ^ 4) : ∃ b, p.encode = .ok b := by
  cases p with
  | basic | object | unknown => exact ⟨_, rfl⟩
  | basicWithData x d =>
    obtain ⟨y, hy⟩ := AppData.exists_encode (Nat.lt_of_le_of_lt (Nat.le_add_left ..) h)
    exact ⟨_, by rw [encode, hy]; rfl⟩
  | objectWithData o d =>
    obtain ⟨y, hy⟩ := AppData.exists_encode (Nat.lt_of_le_of_lt (Nat.le_add_left ..) h)
    exact ⟨_, by rw [encode, hy]; rfl⟩

/-- A payload is read back from its bytes and from zero bytes after it, as long as those do not
make bytes longer that are not looked into. -/
theorem decode_of_encode (h : p.encode = .ok b) (valid : p.Valid type) (safe : p.data.WireSafe)
    {k : Nat} (hk : 4 ∣ b.length → k = 0) :
    decode type.shape? type.dataKind (b ++ zeros k) = .ok p := by
  obtain ⟨shape, fits, normal⟩ := valid
  rw [← shape]
  cases p with
  | basic x =>
    cases h
    have body := BasicBody.cutFront_eq_ok_iff.2 (rfl : x.encode ++ zeros k = _)
    simp only [shape?, decode, body, ok_bind, pure_ok]
  | object o =>
    cases h
    have body := ObjectBody.cutFront_eq_ok_iff.2 ⟨normal, (rfl : o.encode ++ zeros k = _)⟩
    simp only [shape?, decode, body, ok_bind, pure_ok]
  | unknown body =>
    cases h
    rw [hk normal, zeros_zero, List.append_nil]
    rfl
  | basicWithData x d =>
    obtain ⟨y, hy, h⟩ := bind_eq_ok.1 h
    cases h
    rw [List.append_assoc]
    have body := BasicBody.cutFront_eq_ok_iff.2 (rfl : x.encode ++ (y ++ zeros k) = _)
    have data : AppData.decode type.dataKind (y ++ zeros k) = .ok d := by
      refine AppData.decode_of_encode hy fits normal safe fun hy4 => hk ?_
      rw [List.length_append, x.length_encode]
      exact Nat.dvd_add x.four_dvd_encodedLen hy4
    simp only [shape?, decode, body, data, ok_bind, pure_ok]
  | objectWithData o d =>
    obtain ⟨y, hy, h⟩ := bind_eq_ok.1 h
    cases h
    rw [List.append_assoc]
    have body := ObjectBody.cutFront_eq_ok_iff.2
      ⟨normal.1, (rfl : o.encode ++ (y ++ zeros k) = _)⟩
    have data : AppData.decode type.dataKind (y ++ zeros k) = .ok d := by
      refine AppData.decode_of_encode hy fits normal.2 safe fun hy4 => hk ?_
      rw [List.length_append, o.length_encode]
      exact Nat.dvd_add o.four_dvd_encodedLen hy4
    simp only [shape?, decode, body, data, ok_bind, pure_ok]

theorem wireSafe_of_decode (h : decode shape kind b = .ok p) : p.data.WireSafe := by
  unfold decode at h
  split at h
  · obtain ⟨_, -, h⟩ := bind_eq_ok.1 h
    cases h
    trivial
  · obtain ⟨_, -, h⟩ := bind_eq_ok.1 h
    cases h
    trivial
  · simp only [bind_eq_ok] at h
    obtain ⟨_, -, d, hd, h⟩ := h
    cases h
    exact AppData.wireSafe_of_decode hd
  · simp only [bind_eq_ok] at h
    obtain ⟨_, -, d, hd, h⟩ := h
    cases h
    exact AppData.wireSafe_of_decode hd
  · cases h
    trivial

theorem wireSafe_normalized (h : p.data.WireSafe) : p.normalized.data.WireSafe := by
  cases p with
  | basicWithData | objectWithData => exact AppData.wireSafe_normalized h
  | _ => trivial

end Payload
end AccessControl
