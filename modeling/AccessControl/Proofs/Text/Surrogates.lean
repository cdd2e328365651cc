import AccessControl.Proofs.Text.Utf16

/-!
# Byte strings that are no text

Reading UTF-16 fails exactly where a byte is left over or a surrogate has no partner; on all other
byte strings the reader and the writer are inverse to each other (`decode_inverse_encode`).
Surrogates are judged here by their places: a high one needs a low one at the next place, and a low
one a high one at the place before. The reader, which goes through the units from the front and
takes pairs off together, finds the same ones (`chars?_eq_none_iff`).
-/

namespace AccessControl.Utf16

/-! ### Surrogates without a partner -/

def HighSurrogate (n : Nat) : Prop := 0xD800 ≤ n ∧ n < 0xDC00

def LowSurrogate (n : Nat) : Prop := 0xDC00 ≤ n ∧ n < 0xE000

instance (n : Nat) : Decidable (HighSurrogate n) := inferInstanceAs (Decidable (_ ∧ _))

instance (n : Nat) : Decidable (LowSurrogate n) := inferInstanceAs (Decidable (_ ∧ _))

/-- The unit at a place is a high surrogate with no low one behind it, or a low one with no high one
in front of it. -/
def UnpairedAt (unit : Nat → Nat) (i : Nat) : Prop :=
  HighSurrogate (unit i) ∧ ¬ LowSurrogate (unit (i + 1)) ∨
    LowSurrogate (unit i) ∧ (i = 0 ∨ ¬ HighSurrogate (unit (i - 1)))

instance (unit : Nat → Nat) (i : Nat) : Decidable (UnpairedAt unit i) :=
  inferInstanceAs (Decidable (_ ∨ _))

variable {u v : UInt16} {us : List UInt16} {b : Bytes}

theorem isHigh_iff : isHigh u = true ↔ HighSurrogate u.toNat := by
  rw [isHigh_eq, decide_eq_true_eq, HighSurrogate]

theorem isLow_iff : isLow u = true ↔ LowSurrogate u.toNat := by
  rw [isLow_eq, decide_eq_true_eq, LowSurrogate]

theorem LowSurrogate.not_high {n : Nat} (low : LowSurrogate n) : ¬ HighSurrogate n :=
  fun high => Nat.not_le.2 high.2 low.1

section Places

variable {unit : Nat → Nat} {i : Nat}

theorem unpairedAt_zero : UnpairedAt unit 0 ↔
    HighSurrogate (unit 0) ∧ ¬ LowSurrogate (unit 1) ∨ LowSurrogate (unit 0) := by
  simp [UnpairedAt]

theorem unpairedAt_succ : UnpairedAt unit (i + 1) ↔
    HighSurrogate (unit (i + 1)) ∧ ¬ LowSurrogate (unit (i + 2)) ∨
      LowSurrogate (unit (i + 1)) ∧ ¬ HighSurrogate (unit i) := by
  simp [UnpairedAt]

/-- The number of the unit at a place, zero behind the last one. -/
def unitOf (us : List UInt16) (i : Nat) : Nat := (us.getD i 0).toNat

theorem unitOf_zero : unitOf (u :: us) 0 = u.toNat := rfl

theorem unitOf_succ : unitOf (u :: us) (i + 1) = unitOf us i := rfl

theorem not_unpairedAt_nil : ¬ UnpairedAt (unitOf []) i := by
  simp [UnpairedAt, unitOf, HighSurrogate, LowSurrogate]

/-- A unit that is no high surrogate is no partner of the one behind it. -/
theorem unpairedAt_cons (high : ¬ HighSurrogate u.toNat) :
    UnpairedAt (unitOf (u :: us)) (i + 1) ↔ UnpairedAt (unitOf us) i := by
  cases i with
  | zero => simp [unpairedAt_succ, unpairedAt_zero, unitOf_zero, unitOf_succ, high]
  | succ i => simp only [unpairedAt_succ, unitOf_succ]

theorem exists_unpairedAt_cons (high : ¬ HighSurrogate u.toNat) (low : ¬ LowSurrogate u.toNat) :
    (∃ i, UnpairedAt (unitOf (u :: us)) i) ↔ ∃ i, UnpairedAt (unitOf us) i := by
  have first : ¬ UnpairedAt (unitOf (u :: us)) 0 := by
    simp [unpairedAt_zero, unitOf_zero, high, low]
  simp only [← Nat.or_exists_add_one (p := UnpairedAt (unitOf (u :: us))), first, false_or,
    unpairedAt_cons high]

/-- A pair is judged by itself, and so is what stands behind it. -/
theorem exists_unpairedAt_pair (high : HighSurrogate u.toNat) (low : LowSurrogate v.toNat) :
    (∃ i, UnpairedAt (unitOf (u :: v :: us)) i) ↔ ∃ i, UnpairedAt (unitOf us) i := by
  have other : ¬ LowSurrogate u.toNat := fun h => h.not_high high
  have apart (i : Nat) :
      UnpairedAt (unitOf (u :: v :: us)) (i + 2) ↔ UnpairedAt (unitOf us) i := by
    have step : UnpairedAt (unitOf (u :: v :: us)) (i + 2) ↔
        UnpairedAt (unitOf (v :: us)) (i + 1) := by
      simp only [unpairedAt_succ, unitOf_succ]
    exact step.trans (unpairedAt_cons low.not_high)
  constructor
  · rintro ⟨_ | _ | i, h⟩
    · simp [unpairedAt_zero, unitOf_zero, unitOf_succ, low, other] at h
    · simp [unpairedAt_succ, unitOf_zero, unitOf_succ, low.not_high, high] at h
    · exact ⟨i, (apart i).1 h⟩
  · rintro ⟨i, h⟩
    exact ⟨i + 2, (apart i).2 h⟩

end Places

/-- Units are no text exactly when one of them is a surrogate without a partner. -/
theorem chars?_eq_none_iff : chars? us = none ↔ ∃ i, UnpairedAt (unitOf us) i := by
  fun_induction chars? us with
  | case1 => exact iff_of_false (by simp) (not_exists.2 fun _ => not_unpairedAt_nil)
  | case2 u surrogate =>
    rw [Bool.or_eq_true, isHigh_iff, isLow_iff] at surrogate
    have noLow : ¬ LowSurrogate 0 := by decide
    exact iff_of_true rfl ⟨0, unpairedAt_zero.2 (surrogate.imp_left fun high => ⟨high, noLow⟩)⟩
  | case3 u other =>
    rw [Bool.or_eq_true, isHigh_iff, isLow_iff, not_or] at other
    rw [exists_unpairedAt_cons other.1 other.2]
    exact iff_of_false (by simp) (not_exists.2 fun _ => not_unpairedAt_nil)
  | case4 u v us high low ih =>
    rw [isHigh_iff] at high
    rw [isLow_iff] at low
    rw [Option.map_eq_none_iff, ih, exists_unpairedAt_pair high low]
  | case5 u v us high low =>
    rw [isHigh_iff] at high
    rw [isLow_iff] at low
    exact iff_of_true rfl ⟨0, unpairedAt_zero.2 (.inl ⟨high, low⟩)⟩
  | case6 u v us high low =>
    rw [isLow_iff] at low
    exact iff_of_true rfl ⟨0, unpairedAt_zero.2 (.inr low)⟩
  | case7 u v us high low ih =>
    rw [isHigh_iff] at high
    rw [isLow_iff] at low
    rw [Option.map_eq_none_iff, ih, exists_unpairedAt_cons high low]

/-! ### Bytes -/

/-- The number of the unit at a place of a byte string. -/
def unitAt (b : Bytes) (i : Nat) : Nat := numberAt b (2 * i) 2

theorem unitAt_bytesOf (us : List UInt16) : unitAt (bytesOf us) = unitOf us := by
  funext i
  induction us generalizing i with
  | nil => simp [unitAt, numberAt, bytesOf, unitOf, leNat]
  | cons u us ih =>
    cases i with
    | zero => exact numberAt_append [] u.toNat_lt (bytesOf us)
    | succ i =>
      have place : 2 * (i + 1) = (leBytes 2 u.toNat).length + 2 * i := by
        rw [length_leBytes, Nat.mul_add_one, Nat.add_comm]
      have cons : bytesOf (u :: us) = leBytes 2 u.toNat ++ bytesOf us := rfl
      rw [unitAt, place, ← numberAt_drop, cons, List.drop_left]
      exact ih i

theorem units?_eq_none_iff : units? b = none ↔ b.length % 2 = 1 := by
  fun_induction units? b with
  | case1 => simp
  | case2 x => simp
  | case3 low high b ih =>
    rw [Option.map_eq_none_iff, ih, List.length_cons, List.length_cons]
    omega

/-- A byte string is no text exactly when a byte is left over or a surrogate has no partner. -/
theorem bind_chars?_eq_none_iff : (units? b).bind chars? = none ↔
    b.length % 2 = 1 ∨ ∃ i, UnpairedAt (unitAt b) i := by
  cases h : units? b with
  | none => simp [units?_eq_none_iff.1 h]
  | some us =>
    have even : ¬ b.length % 2 = 1 := by
      rw [← units?_eq_none_iff, h]
      simp
    rw [Option.bind_some, chars?_eq_none_iff, ← unitAt_bytesOf, bytesOf_of_units? h,
      or_iff_right even]

/-! ### Both directions -/

/-- Reading gives a text exactly from the bytes that it is written as, which are as many as was
predicted, and fails exactly for a byte that is left over or a surrogate without a partner. In front
of a terminator it gives a text exactly if that has no zero character and its bytes and two zero
bytes stand at the front, and leaves what is behind those. -/
theorem decode_inverse_encode :
    (∀ b s, decode b = .ok s ↔ encode s = b) ∧
    (∀ s, (encode s).length = encodedLen s) ∧
    (∀ b e, decode b = .error e ↔
      e = .invalidUtf16 ∧ (b.length % 2 = 1 ∨ ∃ i, UnpairedAt (unitAt b) i)) ∧
    ∀ b s r, decodeTerminated b = .ok (s, r) ↔
      '\x00' ∉ s.toList ∧ encode s ++ [0, 0] <+: b ∧ r = b.drop (encode s ++ [0, 0]).length := by
  refine ⟨fun b s => ?_, length_encode, fun b e => ?_, fun b s r => ?_⟩
  · rw [decode_eq_ok_iff, eq_comm]
  · rw [decode_eq_error_iff, bind_chars?_eq_none_iff]
  · rw [decodeTerminated_eq_ok_iff, and_congr_right_iff]
    rintro -
    constructor
    · rintro rfl
      exact ⟨List.prefix_append .., List.drop_left.symm⟩
    · rintro ⟨⟨t, rfl⟩, rfl⟩
      rw [List.drop_left, encodeTerminated]

example : decodeTerminated [0x41, 0x00, 0x00, 0x01, 0x00, 0x00, 0xFF] = .ok ("AĀ", [0xFF]) := by
  rfl

example : UnpairedAt (unitAt [0x41, 0x00, 0x00, 0xDC, 0x00, 0xD8]) 1 := by decide

end AccessControl.Utf16
