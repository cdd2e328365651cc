import AccessControl.Proofs.Bytes.Fields

/-!
# Byte strings that break off

A reader that takes a value off the front of a byte string is stable if what it takes does not
change when more bytes follow. Fields are stable, and so is what is made of stable readers one after
another. If a stable reader leaves nothing of a byte string, it reads no byte string that breaks off
within that one (`Stable.refusesPrefixes`): it would leave the bytes that are missing.
-/

namespace AccessControl

variable {α β : Type}

/-- What the reader takes off the front stays the same when more bytes follow. -/
def Stable (read : Bytes → Except Error (α × Bytes)) : Prop :=
  ∀ ⦃b x t⦄, read b = .ok (x, t) → ∀ u, read (b ++ u) = .ok (x, t ++ u)

/-- No byte string that breaks off within this one is read. -/
def RefusesPrefixes (read : Bytes → Except Error α) (b : Bytes) : Prop :=
  ∀ n < b.length, ∃ e, read (b.take n) = .error e

theorem RefusesPrefixes.fst {read : Bytes → Except Error (α × Bytes)} {b : Bytes}
    (h : RefusesPrefixes read b) : RefusesPrefixes (fun b => do return (← read b).1) b := by
  intro n hn
  obtain ⟨e, he⟩ := h n hn
  exact ⟨e, by simp only [he, error_bind]⟩

namespace Stable

variable {read : Bytes → Except Error (α × Bytes)} {b : Bytes}

theorem refusesPrefixes (stable : Stable read) (whole : ∀ x t, read b = .ok (x, t) → t = []) :
    RefusesPrefixes read b := by
  intro n hn
  cases h : read (b.take n) with
  | error e => exact ⟨e, rfl⟩
  | ok p =>
    obtain ⟨x, t⟩ := p
    have goesOn := stable h (b.drop n)
    rw [List.take_append_drop] at goesOn
    have missing : b.drop n = [] := List.append_eq_nil_iff.1 (whole x _ goesOn) |>.2
    exact absurd (List.drop_eq_nil_iff.1 missing) (Nat.not_le.2 hn)

/-- A byte string that a stable reader takes as a whole is not read when it breaks off. -/
theorem refusesPrefixes_of_whole {x : α} (stable : Stable read) (whole : read b = .ok (x, [])) :
    RefusesPrefixes read b := by
  refine stable.refusesPrefixes fun y t h => ?_
  rw [whole] at h
  cases h
  rfl

theorem andThen {next : α → Bytes → Except Error (β × Bytes)} (stable : Stable read)
    (stable' : ∀ x, Stable (next x)) :
    Stable (fun b => do
      let (x, t) ← read b
      next x t) := by
  intro b y t h u
  obtain ⟨⟨x, r⟩, hx, hy⟩ := bind_eq_ok.1 h
  exact bind_eq_ok.2 ⟨(x, r ++ u), stable hx u, stable' x hy u⟩

theorem map {γ : Type} {f : α → Except Error γ} {g : γ → β} (stable : Stable read) :
    Stable (fun b => do
      let (x, t) ← read b
      return (g (← f x), t)) := by
  intro b y t h u
  obtain ⟨⟨x, _⟩, hx, h⟩ := bind_eq_ok.1 h
  obtain ⟨z, made, h⟩ := bind_eq_ok.1 h
  cases h
  exact bind_eq_ok.2 ⟨(x, t ++ u), stable hx u, bind_eq_ok.2 ⟨z, made, rfl⟩⟩

end Stable

/-! ### Fields -/

theorem stable_cut (short : Bytes → Error) (n : Nat) : Stable (cut short n) := by
  intro b x t h u
  obtain ⟨rfl, length⟩ := cut_eq_ok_iff.1 h
  exact cut_eq_ok_iff.2 ⟨List.append_assoc .., length⟩

theorem stable_cutNat (short : Bytes → Error) (n : Nat) : Stable (cutNat short n) :=
  (stable_cut short n).map (f := .ok)

theorem stable_cutPrefixed (item : Item) : Stable (cutPrefixed item) :=
  (stable_cutNat _ 4).andThen fun n => stable_cut (.short item n) n

end AccessControl
