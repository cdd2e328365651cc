import AccessControl.Proofs.Ace.Size
import AccessControl.Proofs.Bytes.Prefixes

/-!
# What an entry is read from

An entry declares its size, and a reader that finds as many bytes looks at these only: the bytes
behind them change neither the entry nor the error (`Ace.decode_take_declared`). Where there are
fewer, no entry is read, so a written entry that breaks off is refused (`Ace.refusesPrefixes`), even
one that could not be read back.
-/

namespace AccessControl.Ace

variable {a : Ace} {b t : Bytes}

/-! ### The declared bytes -/

/-- The flags that the entry at the start of a byte string declares. -/
def declaredFlags (b : Bytes) : BitVec 8 := .ofNat 8 (numberAt b 1 1)

/-- The bytes that the entry at the start of a byte string has for its payload. -/
def bodyBytes (b : Bytes) : Bytes := (b.drop headerLen).take (declaredSize b - headerLen)

theorem ofNat_numberAt_zero (b : Bytes) : UInt8.ofNat (numberAt b 0 1) = b.headD 0 := by
  cases b with
  | nil => rfl
  | cons x b => exact UInt8.ofNat_toNat

theorem declaredType_take {n : Nat} (h : 0 < n) (b : Bytes) :
    declaredType (b.take n) = declaredType b := by
  have first : numberAt (b.take n) 0 1 = numberAt b 0 1 := numberAt_take b h
  rw [declaredType, declaredType, ← ofNat_numberAt_zero, first, ofNat_numberAt_zero]

/-- The entry, and what is left, is what the declared bytes make. -/
theorem cutFront_of_declared (least : headerLen ≤ declaredSize b)
    (fits : declaredSize b ≤ b.length) : cutFront b = (do
      let payload ← Payload.decode (declaredType b).shape? (declaredType b).dataKind (bodyBytes b)
      return (← make (declaredType b) (declaredFlags b) payload, b.drop (declaredSize b))) := by
  have long : 4 ≤ b.length := Nat.le_trans least fits
  have code : ∀ short, cutNat short 1 b = .ok (numberAt b 0 1, b.drop 1) :=
    fun short => cutNat_of_le (by omega)
  have flags : ∀ short, cutNat short 1 (b.drop 1) = .ok (numberAt b 1 1, b.drop 2) :=
    fun short => cutNat_drop (by omega)
  have size : ∀ short, cutNat short 2 (b.drop 2) = .ok (declaredSize b, b.drop headerLen) :=
    fun short => cutNat_drop long
  have body : ∀ short, cut short (declaredSize b - headerLen) (b.drop headerLen) =
      .ok (bodyBytes b, b.drop (declaredSize b)) :=
    fun short => cut_drop least fits
  simp only [cutFront, code, flags, size, body, ok_bind, if_neg (Nat.not_lt.2 least),
    ofNat_numberAt_zero, declaredType, declaredFlags]

theorem decode_of_declared (least : headerLen ≤ declaredSize b)
    (fits : declaredSize b ≤ b.length) : decode b = (do
      let payload ← Payload.decode (declaredType b).shape? (declaredType b).dataKind (bodyBytes b)
      make (declaredType b) (declaredFlags b) payload) := by
  rw [decode, cutFront_of_declared least fits]
  cases Payload.decode (declaredType b).shape? (declaredType b).dataKind (bodyBytes b) with
  | error e => rfl
  | ok payload =>
    rw [ok_bind, ok_bind]
    cases make (declaredType b) (declaredFlags b) payload with
    | error e => rfl
    | ok a => rfl

/-- The bytes behind the declared ones do not matter, neither to the entry nor to the error. -/
theorem decode_take_declared (least : headerLen ≤ declaredSize b)
    (fits : declaredSize b ≤ b.length) : decode (b.take (declaredSize b)) = decode b := by
  generalize hw : b.take (declaredSize b) = w
  have size : declaredSize w = declaredSize b := by
    rw [← hw]
    exact numberAt_take b least
  have least' : headerLen ≤ declaredSize w := size ▸ least
  have fits' : declaredSize w ≤ w.length := by rw [size, ← hw, List.length_take_of_le fits]
  have type : declaredType w = declaredType b := by
    rw [← hw]
    exact declaredType_take (Nat.lt_of_lt_of_le (by decide) least) b
  have flags : declaredFlags w = declaredFlags b := by
    have second : numberAt (b.take (declaredSize b)) 1 1 = numberAt b 1 1 :=
      numberAt_take b (Nat.le_trans (by decide) least)
    rw [declaredFlags, ← hw, second, declaredFlags]
  have body : bodyBytes w = bodyBytes b := by
    rw [bodyBytes, size, ← hw]
    exact take_drop_take b headerLen (declaredSize b)
  rw [decode_of_declared least' fits', decode_of_declared least fits, type, flags, body]

theorem headerLen_le_of_cutFront (h : cutFront b = .ok (a, t)) : headerLen ≤ declaredSize b := by
  obtain ⟨type, flags, body, p, fits, -, -, rfl⟩ := cutFront_eq_ok_iff.1 h
  rw [(declared_of_header type flags fits (body ++ t)).2]
  exact Nat.le_add_right ..

/-- The entry is read from a byte string that is as long as it declares. -/
structure Fills (a : Ace) (w : Bytes) : Prop where
  size : declaredSize w = w.length
  read : decode w = .ok a

/-- An entry fills the bytes that are declared for it, of which it is read alone. -/
theorem fills_take_of_cutFront (h : cutFront b = .ok (a, t)) :
    declaredSize (b.take (declaredSize b)) = declaredSize b ∧
      a.Fills (b.take (declaredSize b)) := by
  have least := headerLen_le_of_cutFront h
  have fits := (drop_of_cutFront h).1
  have size : declaredSize (b.take (declaredSize b)) = declaredSize b := numberAt_take b least
  refine ⟨size, ?_, ?_⟩
  · rw [size, List.length_take_of_le fits]
  · rw [decode_take_declared least fits]
    exact fst_eq_ok.2 ⟨t, h⟩

/-! ### Entries that break off -/

theorem stable_cutFront : Stable cutFront := by
  intro b a t h u
  obtain ⟨type, flags, body, p, fits, hp, made, rfl⟩ := cutFront_eq_ok_iff.1 h
  refine cutFront_eq_ok_iff.2 ⟨type, flags, body, p, fits, hp, made, ?_⟩
  simp only [List.cons_append, List.append_assoc]

theorem declaredSize_of_encode (h : a.encode = .ok b) : declaredSize b = b.length :=
  (numberAt_of_encode h).trans (length_of_encode h).symm

/-- Of what is written of an entry, no part that breaks off is read. -/
theorem refusesPrefixes (h : a.encode = .ok b) : RefusesPrefixes cutFront b := by
  refine stable_cutFront.refusesPrefixes ?_
  intro x t hx
  rw [(drop_of_cutFront hx).2, declaredSize_of_encode h, List.drop_length]

end AccessControl.Ace
