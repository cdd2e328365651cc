import AccessControl.Proofs.Sid.Wire
import AccessControl.Proofs.Text.Utf16

/-!
# What readers say of byte strings they refuse

A reader either gives a value or a cause. `Yields` puts a condition on either outcome: the value has
a property, and the cause is credible for a byte string of so many bytes, that is, it is one that
reading can have at all, and where it tells how many bytes are needed and available, it tells the
truth. Readers are made of fields one after another, and so are the proofs that they yield what they
should. For those that leave a rest, `Consumes` says this of all byte strings at once.
-/

namespace AccessControl

/-! ### Causes -/

namespace Error

/-- The causes that only come up where values are built or texts are read. -/
def Foreign : Error → Prop
  | .payloadShape _ | .missingPart _ | .invalidMeaning _ _ | .malformedGuid
  | .malformedRecord _ => True
  | _ => False

/-- Reading a byte string of so many bytes can have the cause. Where bytes are missing, more are
needed than are available, and no more are available than were given. -/
def Credible (len : Nat) : Error → Prop
  | .truncated _ needed available | .truncatedAce needed available =>
    available < needed ∧ available ≤ len
  | e => ¬ e.Foreign

variable {e : Error} {len n : Nat} {b start : Bytes} {item : Item}

theorem Credible.not_foreign (h : e.Credible len) : ¬ e.Foreign := by
  cases e with
  | truncated | truncatedAce => exact id
  | _ => exact h

theorem credible_short (within : b.length ≤ len) (missing : b.length < n) :
    (short item n b).Credible len := ⟨missing, within⟩

/-- A record that ends early is said to need at least one more byte than there are. -/
theorem credible_shortRecord (within : start.length ≤ len) (item : Item) (least : Nat) (r : Bytes) :
    (shortRecord item least start r).Credible len :=
  ⟨Nat.lt_of_lt_of_le (Nat.lt_succ_self _) (Nat.le_max_right ..), within⟩

end Error

/-! ### Outcomes -/

section Outcome

variable {α β : Type} {len : Nat} {Q R : α → Prop} {P : β → Prop} {x : Except Error α} {e : Error}
  {f : α → Except Error β}

/-- A value has the property, and a cause is credible for so many bytes. -/
def Yields (len : Nat) (Q : α → Prop) : Except Error α → Prop
  | .ok a => Q a
  | .error e => e.Credible len

theorem Yields.mono (h : Yields len Q x) (weaker : ∀ a, Q a → R a) : Yields len R x := by
  cases x with
  | error e => exact h
  | ok a => exact weaker a h

theorem Yields.bind (h : Yields len Q x) (next : ∀ a, Q a → Yields len P (f a)) :
    Yields len P (x >>= f) := by
  cases x with
  | error e => exact h
  | ok a => exact next a h

section Rest

variable {γ : Type} {Q : α × γ → Prop} {x : Except Error (α × γ)} {f g : α × γ → Except Error β}

/-- A step that takes something off the front is followed by one that is given it and the rest. -/
theorem Yields.andThen (h : Yields len Q x) (next : ∀ a t, Q (a, t) → Yields len P (f (a, t))) :
    Yields len P (x >>= f) := h.bind fun p => next p.1 p.2

theorem andThen_congr (alike : ∀ a t, f (a, t) = g (a, t)) : (x >>= f) = x >>= g :=
  bind_congr fun p => alike p.1 p.2

/-- Chains that go on alike after what a step can give are equal. -/
theorem Yields.andThen_congr (h : Yields len Q x)
    (alike : ∀ a t, Q (a, t) → f (a, t) = g (a, t)) : (x >>= f) = x >>= g := by
  cases x with
  | error e => rfl
  | ok p => exact alike p.1 p.2 h

end Rest

/-- A check is passed by what it does not refuse, and what it refuses it has a cause for. -/
theorem yields_check {c : Prop} [Decidable c] (fires : c → e.Credible len)
    (passes : ¬ c → Yields len Q x) : Yields len Q (if c then .error e else x) := by
  by_cases h : c
  · rw [if_pos h]
    exact fires h
  · rw [if_neg h]
    exact passes h

/-- A reader that is given no more than so many bytes takes something off the front, which leaves
no more than it was given, or has a cause that is credible for so many. -/
def Consumes (len : Nat) (read : Bytes → Except Error (α × Bytes)) : Prop :=
  ∀ b : Bytes, b.length ≤ len → Yields len (fun p => p.2.length ≤ b.length) (read b)

end Outcome

/-! ### Fields -/

variable {len n : Nat} {b : Bytes} {short : Bytes → Error} {item : Item}

theorem yields_cut (missing : b.length < n → (short b).Credible len) :
    Yields len (fun p => p.1.length = n ∧ p.2.length + n = b.length) (cut short n b) := by
  rw [cut_eq]
  by_cases h : n ≤ b.length
  · rw [if_pos h]
    exact ⟨List.length_take_of_le h, by simp [h]⟩
  · rw [if_neg h]
    exact missing (Nat.not_le.1 h)

theorem yields_cutNat (missing : b.length < n → (short b).Credible len) :
    Yields len (fun p => p.2.length + n = b.length) (cutNat short n b) :=
  (yields_cut missing).bind fun _ h => h.2

theorem yields_cutPrefixed (within : b.length ≤ len) :
    Yields len (fun p => p.1.length + p.2.length ≤ b.length) (cutPrefixed item b) := by
  refine (yields_cutNat (Error.credible_short within)).andThen fun n r hr => ?_
  dsimp only at hr ⊢
  refine (yields_cut (Error.credible_short (by omega))).mono fun p hp => ?_
  omega

/-! ### Texts and SIDs -/

namespace Utf16

theorem eq_invalidUtf16_of_decode {e : Error} (h : decode b = .error e) : e = .invalidUtf16 :=
  (decode_eq_error_iff.1 h).1

theorem eq_invalidUtf16_of_decodeTerminated {e : Error} (h : decodeTerminated b = .error e) :
    e = .invalidUtf16 := by
  unfold decodeTerminated at h
  split at h
  next text rest _ =>
    cases read : decode text with
    | ok s => simp [read] at h
    | error e' =>
      rw [read] at h
      cases h
      exact eq_invalidUtf16_of_decode read
  next =>
    cases h
    rfl

theorem yields_decode (len : Nat) (b : Bytes) : Yields len (fun _ => True) (decode b) := by
  cases h : decode b with
  | ok s => trivial
  | error e => exact eq_invalidUtf16_of_decode h ▸ id

theorem yields_decodeTerminated (len : Nat) (b : Bytes) :
    Yields len (fun p => p.2.length ≤ b.length) (decodeTerminated b) := by
  cases h : decodeTerminated b with
  | ok p =>
    obtain ⟨-, rfl⟩ := decodeTerminated_eq_ok_iff.1 h
    exact (List.sublist_append_right _ _).length_le
  | error e => exact eq_invalidUtf16_of_decodeTerminated h ▸ id

end Utf16

namespace Sid

/-- Reading a SID as a field of a record fails like the record where bytes are missing. -/
theorem yields_cutAuthority (missing : (short b).Credible len) :
    Yields len (fun p => p.2.length ≤ b.length) (cutAuthority short b) := by
  unfold cutAuthority
  split
  · exact (List.drop_sublist ..).length_le
  · exact missing

theorem yields_cutSubs (missing : ∀ r, (short r).Credible len) (n : Nat) (b : Bytes) :
    Yields len (fun p => p.2.length ≤ b.length) (cutSubs short n b) := by
  induction n generalizing b with
  | zero => exact Nat.le_refl _
  | succ n ih =>
    refine (yields_cutNat fun _ => missing b).andThen fun sub r hr => ?_
    refine (ih r).andThen fun subs t ht => ?_
    exact Nat.le_trans ht (Nat.le.intro hr)

theorem yields_cutField (missing : ∀ r, (short r).Credible len) (b : Bytes) :
    Yields len (fun p => p.2.length ≤ b.length) (cutField short b) := by
  simp only [cutField, throw_error, error_bind]
  refine (yields_cutNat fun _ => missing b).andThen fun rev r hr => ?_
  refine yields_check (fun _ => id) fun _ => ?_
  refine (yields_cutNat fun _ => missing r).andThen fun count s hs => ?_
  refine yields_check (fun _ => id) fun _ => ?_
  refine (yields_cutAuthority (missing s)).andThen fun authority t ht => ?_
  refine (yields_cutSubs missing count t).andThen fun subs u hu => ?_
  dsimp only at hr hs ht hu
  change u.length ≤ b.length
  omega

theorem consumes_cutFront (len : Nat) : Consumes len cutFront := fun b within =>
  yields_cutField (Error.credible_shortRecord within .sid leastLen) b

theorem yields_decode (within : b.length ≤ len) : Yields len (fun _ => True) (decode b) := by
  simp only [decode, throw_error, error_bind]
  refine (consumes_cutFront len b within).andThen fun s rest _ => ?_
  exact yields_check (fun _ => id) fun _ => trivial

end Sid
end AccessControl
