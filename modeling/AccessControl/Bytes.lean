/-!
# Byte strings

Numbers travel as a fixed count of bytes, least significant first, and records are filled up with
zero bytes to a multiple of four. `leNat_leBytes` and `leBytes_leNat` say that the two directions
are inverse to each other on numbers that fit and on byte strings of the right length.
-/

namespace AccessControl

/-- A byte string. -/
abbrev Bytes := List UInt8

/-- The `n` low bytes of a number, least significant first. -/
def leBytes : Nat → Nat → Bytes
  | 0, _ => []
  | n + 1, v => UInt8.ofNat v :: leBytes n (v / 256)

/-- The number whose bytes, least significant first, are given. -/
def leNat : Bytes → Nat
  | [] => 0
  | b :: bs => b.toNat + 256 * leNat bs

@[simp] theorem length_leBytes (n v : Nat) : (leBytes n v).length = n := by
  induction n generalizing v with
  | zero => rfl
  | succ n ih => simp [leBytes, ih]

theorem leNat_leBytes (n v : Nat) : leNat (leBytes n v) = v % Nat.pow 256 n := by
  induction n generalizing v with
  | zero => simp [leBytes, leNat, Nat.mod_one]
  | succ n ih => simp [leBytes, leNat, ih, Nat.pow_succ', Nat.mod_mul]

theorem leBytes_leNat (bs : Bytes) : leBytes bs.length (leNat bs) = bs := by
  induction bs with
  | nil => rfl
  | cons b bs ih =>
    have hb : b.toNat < 256 := b.toNat_lt
    have hdiv : (b.toNat + 256 * leNat bs) / 256 = leNat bs := by omega
    have hmod : UInt8.ofNat (b.toNat + 256 * leNat bs) = b := by
      apply UInt8.toNat_inj.1
      simp only [UInt8.toNat_ofNat']
      omega
    simp [leBytes, leNat, hdiv, hmod, ih]

theorem leNat_lt (bs : Bytes) : leNat bs < Nat.pow 256 bs.length := by
  induction bs with
  | nil => simp [leNat]
  | cons b bs ih =>
    have hb : b.toNat < 256 := b.toNat_lt
    change b.toNat + 256 * leNat bs < Nat.pow 256 bs.length * 256
    omega

/-! ### Padding -/

/-- The least multiple of four that is not below `n`. -/
def align4 (n : Nat) : Nat := (n + 3) / 4 * 4

/-- Whether every byte is zero; the empty string counts. -/
def allZero (b : Bytes) : Bool := b.all (· == 0)

/-- Zero bytes appended up to the next multiple of four. -/
def padded (b : Bytes) : Bytes := b ++ List.replicate (align4 b.length - b.length) 0

theorem le_align4 (n : Nat) : n ≤ align4 n := by unfold align4; omega

theorem align4_lt (n : Nat) : align4 n < n + 4 := by unfold align4; omega

theorem four_dvd_align4 (n : Nat) : 4 ∣ align4 n := Nat.dvd_mul_left 4 _

@[simp] theorem length_padded (b : Bytes) : (padded b).length = align4 b.length := by
  have := le_align4 b.length
  simp [padded]; omega

end AccessControl
