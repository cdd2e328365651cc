/-!
# Single bits of words

`putBit` sets or clears one bit of a word; `getLsbD_putBit` says that it changes no other.
-/

namespace AccessControl

/-- The word with bit `i` set or cleared; a word has no bit at its width or above. -/
def putBit {n : Nat} (w : BitVec n) (i : Nat) (value : Bool) : BitVec n :=
  if value then w ||| .twoPow n i else w &&& ~~~ .twoPow n i

theorem getLsbD_putBit {n : Nat} (w : BitVec n) (i : Nat) (value : Bool) (j : Nat) :
    (putBit w i value).getLsbD j = if j = i ∧ i < n then value else w.getLsbD j := by
  cases value with
  | true =>
    simp only [putBit, BitVec.getLsbD_or, BitVec.getLsbD_twoPow, if_true]
    by_cases hij : j = i <;> by_cases hi : i < n <;> simp_all [eq_comm]
  | false =>
    have above : ∀ k, ¬ k < n → w.getLsbD k = false := fun k hk =>
      BitVec.getLsbD_of_ge w k (Nat.le_of_not_lt hk)
    simp only [putBit, Bool.false_eq_true, if_false, BitVec.getLsbD_and, BitVec.getLsbD_not,
      BitVec.getLsbD_twoPow]
    by_cases hij : j = i
    · subst hij
      by_cases hj : j < n <;> simp [hj, above]
    · have hji : ¬ i = j := fun h => hij h.symm
      by_cases hj : j < n <;> simp [hij, hji, hj, above]

end AccessControl
