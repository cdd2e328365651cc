import AccessControl.Condition.Wire
import AccessControl.Proofs.Bytes.Failures

/-!
# What the reader of conditions says of byte strings it refuses

The causes for which tokens are refused are credible, however deep the composites are in which they
come up (`consumes_cutComposite`): the bytes of a composite are no more than those around it. The
stack has no part in this, as what an operator finds wrong with its operands is no matter of bytes.
-/

namespace AccessControl.Condition

variable {len : Nat} {b : Bytes}

/-! ### Literals -/

theorem consumes_cutInteger (len : Nat) (width : IntWidth) : Consumes len (cutInteger width) := by
  intro b within
  simp only [cutInteger, throw_error]
  refine (yields_cutNat (Error.credible_short within)).andThen fun value r hr => ?_
  dsimp only at hr ⊢
  refine (yields_cutNat (Error.credible_short (by omega))).andThen fun signCode s hs => ?_
  dsimp only at hs ⊢
  split
  · refine (yields_cutNat (Error.credible_short (by omega))).andThen fun baseCode t ht => ?_
    dsimp only at ht ⊢
    split
    · change t.length ≤ b.length
      omega
    · exact id
  · exact id

theorem consumes_cutText (len : Nat) (kind : TextKind) : Consumes len (cutText kind) := by
  intro b within
  refine (yields_cutPrefixed within).andThen fun content r hr => ?_
  refine (Utf16.yields_decode len content).bind fun s _ => ?_
  exact Nat.le_trans (Nat.le_add_left ..) hr

theorem consumes_cutOctets (len : Nat) : Consumes len cutOctets := fun _ within =>
  (yields_cutPrefixed within).bind fun _ h => Nat.le_trans (Nat.le_add_left ..) h

theorem consumes_cutSid (len : Nat) : Consumes len cutSid := by
  intro b within
  refine (yields_cutPrefixed within).andThen fun bytes r hr => ?_
  dsimp only at hr ⊢
  refine (Sid.yields_decode (by omega)).bind fun s _ => ?_
  change r.length ≤ b.length
  omega

theorem yields_composite (len : Nat) (es : List Condition) :
    Yields len (fun _ => True) (composite es) := by
  unfold composite
  split
  · exact id
  · trivial

section Literals

variable {nested : Bytes → Except Error (Condition × Bytes)}

/-- A literal is read credibly if composites are. -/
theorem yields_literal? {read : Except Error (Condition × Bytes)} {code : UInt8}
    (consumes : Consumes len nested) (within : b.length ≤ len)
    (h : literal? nested code b = some read) :
    Yields len (fun p => p.2.length ≤ b.length) read := by
  unfold literal? at h
  split at h
  · cases h
    exact consumes_cutInteger len _ b within
  · cases h
    exact consumes_cutText len _ b within
  · split at h
    · cases h
      exact consumes_cutOctets len b within
    · split at h
      · cases h
        exact consumes_cutSid len b within
      · split at h
        · cases h
          exact consumes b within
        · cases h

theorem yields_elements (consumes : Consumes len nested) (n : Nat) (within : b.length ≤ len) :
    Yields len (fun _ => True) (elements nested n b) := by
  induction n generalizing b with
  | zero => cases b <;> trivial
  | succ n ih =>
    cases b with
    | nil => trivial
    | cons code b =>
      have shorter : b.length ≤ len := Nat.le_of_succ_le within
      unfold elements
      split
      · exact ih shorter
      · split
        next read hread =>
          refine (yields_literal? consumes shorter hread).andThen fun e r hr => ?_
          exact (ih (Nat.le_trans hr shorter)).bind fun _ _ => trivial
        next => exact id

end Literals

/-- The induction is on the number of composites that may still be nested. -/
theorem consumes_cutComposite (len depth : Nat) : Consumes len (cutComposite depth) := by
  induction depth with
  | zero => exact fun _ _ => id
  | succ depth ih =>
    intro b within
    unfold cutComposite
    refine (yields_cutPrefixed within).andThen fun body r hr => ?_
    dsimp only at hr ⊢
    refine (yields_elements ih body.length (by omega)).bind fun es _ => ?_
    refine (yields_composite len es).bind fun c _ => ?_
    change r.length ≤ b.length
    omega

/-! ### Operators -/

theorem yields_membership (len : Nat) (op : MembershipOp) (a : Condition) :
    Yields len (fun _ => True) (membership op a) := by
  unfold membership
  split
  · trivial
  · exact id

theorem yields_comparison (len : Nat) (op : ComparisonOp) (l r : Condition) :
    Yields len (fun _ => True) (comparison op l r) := by
  unfold comparison
  split
  · split
    · trivial
    · exact id
  · exact id

theorem yields_unary (len : Nat) (op : UnaryOp) (a : Condition) :
    Yields len (fun _ => True) (unary op a) := by
  unfold unary
  split
  · trivial
  · exact id

theorem yields_reduce (len : Nat) (code : UInt8) (stack : List Condition) :
    Yields len (fun _ => True) (reduce code stack) := by
  unfold reduce
  split
  · split
    · exact (yields_membership len _ _).bind fun _ _ => trivial
    · exact id
  · split
    · exact (yields_comparison len _ _ _).bind fun _ _ => trivial
    · exact id
  · split
    · exact (yields_unary len _ _).bind fun _ _ => trivial
    · exact id
  · split
    · trivial
    · exact id
  · exact id

/-! ### All tokens -/

theorem yields_run (n : Nat) (stack : List Condition) (within : b.length ≤ len) :
    Yields len (fun _ => True) (run n b stack) := by
  induction n generalizing b stack with
  | zero => cases b <;> trivial
  | succ n ih =>
    cases b with
    | nil => trivial
    | cons code b =>
      have shorter : b.length ≤ len := Nat.le_of_succ_le within
      unfold run
      split
      · exact ih stack shorter
      · split
        next read hread =>
          refine (yields_literal? (consumes_cutComposite len maxNesting) shorter hread).andThen
            fun c r hr => ?_
          exact ih (c :: stack) (Nat.le_trans hr shorter)
        next =>
          refine (yields_reduce len code stack).andThen fun c rest _ => ?_
          exact yields_check (fun _ => id) fun _ => ih (c :: rest) shorter

theorem yields_decode (within : b.length ≤ len) : Yields len (fun _ => True) (decode b) := by
  have shorter : (b.drop signature.length).length ≤ len :=
    Nat.le_trans (List.drop_sublist ..).length_le within
  refine yields_check (fun _ => id) fun _ => ?_
  refine (yields_run _ [] shorter).bind fun stack _ => ?_
  split
  · exact id
  · trivial
  · exact id

end AccessControl.Condition
