import Mathlib.Algebra.Ring.Nat
import AccessControl.Bytes.Field

/-!
# Fields, read and written

A reader is a chain of fields. The lemmas about chains say what it takes for a chain to succeed;
those about fields say that a field is read exactly from the bytes that it is written as. Zero
bytes that fill up a record get a name of their own, `zeros`.
-/

namespace AccessControl

/-! ### Chains -/

section Chain

variable {ε α β : Type} {x : Except ε α} {f : α → Except ε β} {e : ε} {b : β}

@[simp] theorem ok_bind (a : α) (f : α → Except ε β) : (Except.ok a >>= f) = f a := rfl

@[simp] theorem error_bind (e : ε) (f : α → Except ε β) :
    (Except.error e >>= f) = .error e := rfl

@[simp] theorem pure_ok (a : α) : (pure a : Except ε α) = .ok a := rfl

@[simp] theorem throw_error (e : ε) : (throw e : Except ε α) = .error e := rfl

/-- A chain succeeds when its first step does and the others do with what it gives. -/
theorem bind_eq_ok : x >>= f = .ok b ↔ ∃ a, x = .ok a ∧ f a = .ok b := by
  cases x with
  | error e => simp
  | ok a => simp

/-- A reader that drops the rest succeeds when the reader with the rest does. -/
theorem fst_eq_ok {x : Except ε (α × β)} {a : α} :
    (do return (← x).1) = .ok a ↔ ∃ t, x = .ok (a, t) := by
  cases x with
  | error e => simp
  | ok p => simp [Prod.ext_iff]

/-- A chain with a check succeeds when the check does not fire. -/
theorem check_eq_ok {c : Prop} [Decidable c] {x : Except ε β} :
    (if c then .error e else x) = .ok b ↔ ¬c ∧ x = .ok b := by
  by_cases h : c
  · simp [h]
  · simp [h]

end Chain

/-! ### Numbers and parts -/

variable {short : Bytes → Error} {item : Item} {n v : Nat} {a b t : Bytes}

/-- A part is cut off exactly when the byte string is long enough for it. -/
theorem cut_eq_ok_iff_drop :
    cut short n b = .ok (a, t) ↔ n ≤ b.length ∧ a = b.take n ∧ t = b.drop n := by
  rw [cut_eq]
  split
  next hn => simp [hn, eq_comm]
  next hn => simp [hn]

theorem leBytes_one (v : Nat) : leBytes 1 v = [UInt8.ofNat v] := rfl

theorem take_leBytes {k l : Nat} (h : k ≤ l) (v : Nat) : (leBytes l v).take k = leBytes k v := by
  induction k generalizing l v with
  | zero => rfl
  | succ k ih =>
    cases l with
    | zero => cases h
    | succ l => rw [leBytes, leBytes, List.take_succ_cons, ih (Nat.le_of_succ_le_succ h)]

/-- A number is read exactly from its bytes. -/
theorem cutNat_eq_ok_iff : cutNat short n b = .ok (v, t) ↔ v < 256 ^ n ∧ b = leBytes n v ++ t := by
  simp only [cutNat, bind_eq_ok, Prod.exists, cut_eq_ok_iff]
  constructor
  · rintro ⟨a, r, ⟨rfl, rfl⟩, h⟩
    cases h
    exact ⟨leNat_lt a, by rw [leBytes_leNat]⟩
  · rintro ⟨hv, rfl⟩
    have fits : v % Nat.pow 256 n = v := Nat.mod_eq_of_lt hv
    refine ⟨leBytes n v, t, ⟨rfl, length_leBytes n v⟩, ?_⟩
    rw [leNat_leBytes, fits]
    rfl

theorem leBytes_inj {w : Nat} (hv : v < 256 ^ n) (hw : w < 256 ^ n)
    (h : leBytes n v = leBytes n w) : v = w := by
  have numbers := congrArg leNat h
  rw [leNat_leBytes, leNat_leBytes] at numbers
  exact (Nat.mod_eq_of_lt hv).symm.trans (numbers.trans (Nat.mod_eq_of_lt hw))

theorem cutNat_leBytes (hv : v < 256 ^ n) : cutNat short n (leBytes n v ++ t) = .ok (v, t) :=
  cutNat_eq_ok_iff.2 ⟨hv, rfl⟩

theorem cutNat_one_cons (x : UInt8) : cutNat short 1 (x :: t) = .ok (x.toNat, t) := by
  have h : cutNat short 1 (leBytes 1 x.toNat ++ t) = .ok (x.toNat, t) := cutNat_leBytes x.toNat_lt
  simpa [leBytes_one] using h

/-- A byte is read exactly from itself. -/
theorem cutNat_one_eq_ok_iff :
    cutNat short 1 b = .ok (v, t) ↔ ∃ x : UInt8, x.toNat = v ∧ b = x :: t := by
  rw [cutNat_eq_ok_iff, leBytes_one]
  constructor
  · rintro ⟨hv, rfl⟩
    refine ⟨UInt8.ofNat v, ?_, rfl⟩
    rw [UInt8.toNat_ofNat']
    exact Nat.mod_eq_of_lt hv
  · rintro ⟨x, rfl, rfl⟩
    exact ⟨x.toNat_lt, by simp⟩

/-- A part with its length in front is read exactly from the two. -/
theorem cutPrefixed_eq_ok_iff :
    cutPrefixed item b = .ok (a, t) ↔
      a.length < 256 ^ 4 ∧ b = leBytes 4 a.length ++ a ++ t := by
  simp only [cutPrefixed, bind_eq_ok, Prod.exists, cutNat_eq_ok_iff, cut_eq_ok_iff]
  constructor
  · rintro ⟨n, r, ⟨hn, rfl⟩, rfl, rfl⟩
    exact ⟨hn, by rw [List.append_assoc]⟩
  · rintro ⟨ha, rfl⟩
    exact ⟨a.length, a ++ t, ⟨ha, by rw [List.append_assoc]⟩, rfl, rfl⟩

theorem cutPrefixed_append (ha : a.length < 256 ^ 4) :
    cutPrefixed item (leBytes 4 a.length ++ a ++ t) = .ok (a, t) :=
  cutPrefixed_eq_ok_iff.2 ⟨ha, rfl⟩

/-- A size is written exactly when it fits its field. -/
theorem sizeField_eq_ok_iff :
    sizeField n item v = .ok b ↔ v < 256 ^ n ∧ b = leBytes n v := by
  have unfolded : sizeField n item v =
      if v < 256 ^ n then .ok (leBytes n v) else .error (.invalidSize item v) := rfl
  rw [unfolded]
  by_cases h : v < 256 ^ n
  · simp [h, eq_comm]
  · simp [h]

theorem sizeField_of_lt (h : v < 256 ^ n) : sizeField n item v = .ok (leBytes n v) :=
  sizeField_eq_ok_iff.2 ⟨h, rfl⟩

theorem sizeField_of_le (h : 256 ^ n ≤ v) : sizeField n item v = .error (.invalidSize item v) :=
  if_neg (Nat.not_lt.2 h)

/-! ### Fields in place -/

/-- The number in `width` bytes of a byte string, from a position on. -/
def numberAt (b : Bytes) (start width : Nat) : Nat := leNat ((b.drop start).take width)

theorem numberAt_lt (b : Bytes) (start width : Nat) : numberAt b start width < 256 ^ width := by
  have short : ((b.drop start).take width).length ≤ width := List.length_take_le ..
  exact Nat.lt_of_lt_of_le (leNat_lt _) (Nat.pow_le_pow_right (by decide) short)

/-- A number is in place right after the bytes that were written before it. -/
theorem numberAt_append (front : Bytes) (hv : v < 256 ^ n) (t : Bytes) :
    numberAt (front ++ (leBytes n v ++ t)) front.length n = v := by
  have number : (leBytes n v ++ t).take n = leBytes n v := List.take_left' (length_leBytes n v)
  rw [numberAt, List.drop_left, number, leNat_leBytes]
  exact Nat.mod_eq_of_lt hv

/-- What is at a position is the number there and what follows it. -/
theorem leBytes_numberAt (b : Bytes) (start width : Nat) (h : start + width ≤ b.length) :
    leBytes width (numberAt b start width) ++ b.drop (start + width) = b.drop start := by
  have length : ((b.drop start).take width).length = width := by
    rw [List.length_take, List.length_drop]
    omega
  have number := leBytes_leNat ((b.drop start).take width)
  rw [length] at number
  rw [numberAt, number, ← List.drop_drop, List.take_append_drop]

theorem numberAt_drop (b : Bytes) (front start width : Nat) :
    numberAt (b.drop front) start width = numberAt b (front + start) width := by
  rw [numberAt, numberAt, List.drop_drop]

/-- A number is the same in every part of a byte string that goes on to the end of it. -/
theorem numberAt_take (b : Bytes) {start width : Nat} (h : start + width ≤ n) :
    numberAt (b.take n) start width = numberAt b start width := by
  have within : min width (n - start) = width := by omega
  rw [numberAt, numberAt, List.drop_take, List.take_take, within]

theorem numberAt_append_right {start width : Nat} (h : start + width ≤ b.length) (t : Bytes) :
    numberAt (b ++ t) start width = numberAt b start width := by
  have same := numberAt_take (b ++ t) h
  rwa [List.take_left, eq_comm] at same

/-- A number that a byte string is long enough for is read as what is in place there. -/
theorem cutNat_of_le (h : n ≤ b.length) :
    cutNat short n b = .ok (numberAt b 0 n, b.drop n) := by
  simp only [cutNat, cut_eq, if_pos h, ok_bind, pure_ok, numberAt, List.drop_zero]

theorem cutNat_drop {start : Nat} (h : start + n ≤ b.length) :
    cutNat short n (b.drop start) = .ok (numberAt b start n, b.drop (start + n)) := by
  have room : n ≤ (b.drop start).length := by
    rw [List.length_drop]
    omega
  rw [cutNat_of_le room, numberAt_drop, List.drop_drop, Nat.add_zero]

/-- What stands from one place to another is cut off as it is in place. -/
theorem cut_drop {start stop : Nat} (h : start ≤ stop) (fits : stop ≤ b.length) :
    cut short (stop - start) (b.drop start) =
      .ok ((b.drop start).take (stop - start), b.drop stop) := by
  have room : stop - start ≤ (b.drop start).length := by
    rw [List.length_drop]
    omega
  rw [cut_eq, if_pos room, List.drop_drop, Nat.add_sub_cancel' h]

theorem take_drop_take (b : Bytes) (start stop : Nat) :
    ((b.take stop).drop start).take (stop - start) = (b.drop start).take (stop - start) := by
  rw [List.drop_take, List.take_take, Nat.min_self]

/-! ### Zero bytes -/

/-- So many zero bytes. -/
def zeros (p : Nat) : Bytes := List.replicate p 0

@[simp] theorem length_zeros (p : Nat) : (zeros p).length = p := List.length_replicate

@[simp] theorem zeros_zero : zeros 0 = [] := rfl

theorem zeros_succ (p : Nat) : zeros (p + 1) = 0 :: zeros p := rfl

theorem zeros_append_zeros (p q : Nat) : zeros p ++ zeros q = zeros (p + q) :=
  List.replicate_append_replicate

@[simp] theorem allZero_zeros (p : Nat) : allZero (zeros p) = true := by
  simp [allZero, zeros]

theorem allZero_append_zeros (b : Bytes) (p : Nat) : allZero (b ++ zeros p) = allZero b := by
  rw [allZero, List.all_append]
  exact (congrArg (b.all (· == 0) && ·) (allZero_zeros p)).trans (Bool.and_true _)

theorem padded_eq (b : Bytes) : padded b = b ++ zeros (align4 b.length - b.length) := rfl

theorem align4_eq_self (h : 4 ∣ n) : align4 n = n := by unfold align4; omega

theorem align4_mono {m : Nat} (h : m ≤ n) : align4 m ≤ align4 n := by unfold align4; omega

theorem align4_le_four_mul (n : Nat) : align4 n ≤ 4 * n := by unfold align4; omega

theorem align4_add {m : Nat} (h : 4 ∣ m) (n : Nat) : align4 (m + n) = m + align4 n := by
  unfold align4; omega

theorem padded_eq_self (h : 4 ∣ b.length) : padded b = b := by
  rw [padded_eq, align4_eq_self h]
  simp

end AccessControl
