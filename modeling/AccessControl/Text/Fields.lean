/-!
# Fields between separators

A text with `n` separators has `n + 1` fields, empty ones included. `joined_fields` says that
putting the separators back gives the text again, and `fields_joined` that fields without
separators in them are found again.
-/

namespace AccessControl.Text

/-- The parts of a text between the occurrences of a separator. -/
def fields (sep : Char) : List Char → List (List Char)
  | [] => [[]]
  | c :: cs =>
    if c = sep then [] :: fields sep cs
    else
      match fields sep cs with
      | [] => [[c]]
      | f :: fs => (c :: f) :: fs

/-- The fields with a separator between each two. -/
def joined (sep : Char) : List (List Char) → List Char
  | [] => []
  | [f] => f
  | f :: fs => f ++ sep :: joined sep fs

theorem joined_cons (sep : Char) (f : List Char) (fs : List (List Char)) :
    joined sep (f :: fs) = f ++ fs.flatMap (sep :: ·) := by
  induction fs generalizing f with
  | nil => simp [joined]
  | cons g fs ih => simp [joined, ih]

theorem joined_eq_intercalate (sep : Char) : ∀ fs, joined sep fs = [sep].intercalate fs
  | [] => rfl
  | [f] => by simp [joined]
  | f :: g :: fs => by simp [joined, joined_eq_intercalate sep (g :: fs)]

theorem mem_joined {sep c : Char} {fs : List (List Char)} (h : c ∈ joined sep fs) :
    c = sep ∨ ∃ f ∈ fs, c ∈ f := by
  cases fs with
  | nil => cases h
  | cons f fs =>
    simp only [joined_cons, List.mem_append, List.mem_flatMap, List.mem_cons] at h
    rcases h with first | ⟨g, later, rfl | inside⟩
    · exact .inr ⟨f, .head _, first⟩
    · exact .inl rfl
    · exact .inr ⟨g, .tail _ later, inside⟩

/-- A change of characters that keeps the separator goes on field by field. -/
theorem map_joined {sep : Char} {h : Char → Char} (keeps : h sep = sep) (fs : List (List Char)) :
    (joined sep fs).map h = joined sep (fs.map (List.map h)) := by
  cases fs with
  | nil => rfl
  | cons g fs =>
    simp only [List.map_cons, joined_cons, List.map_append, List.map_flatMap, List.flatMap_map,
      keeps]

theorem fields_ne_nil (sep : Char) (cs : List Char) : fields sep cs ≠ [] := by
  cases cs with
  | nil => simp [fields]
  | cons c cs =>
    unfold fields
    split
    · simp
    · split <;> simp

theorem joined_fields (sep : Char) (cs : List Char) : joined sep (fields sep cs) = cs := by
  induction cs with
  | nil => rfl
  | cons c cs ih =>
    unfold fields
    split
    next h =>
      cases hf : fields sep cs with
      | nil => exact absurd hf (fields_ne_nil sep cs)
      | cons f fs => rw [hf] at ih; simp [joined, ih, h]
    next =>
      cases hf : fields sep cs with
      | nil => exact absurd hf (fields_ne_nil sep cs)
      | cons f fs =>
        rw [hf] at ih
        cases fs with
        | nil => simpa [joined] using ih
        | cons g gs => simpa [joined] using ih

/-- A text without separators is one field. -/
theorem fields_eq_singleton {sep : Char} {f : List Char} (h : sep ∉ f) : fields sep f = [f] := by
  induction f with
  | nil => rfl
  | cons c cs ih =>
    have hc : c ≠ sep := fun e => h (by simp [e])
    have hcs : sep ∉ cs := fun e => h (by simp [e])
    simp [fields, hc, ih hcs]

/-- A separator ends the first field. -/
theorem fields_append_cons {sep : Char} {f : List Char} (h : sep ∉ f) (rest : List Char) :
    fields sep (f ++ sep :: rest) = f :: fields sep rest := by
  induction f with
  | nil => simp [fields]
  | cons c cs ih =>
    have hc : c ≠ sep := fun e => h (by simp [e])
    have hcs : sep ∉ cs := fun e => h (by simp [e])
    simp [fields, hc, ih hcs]

/-- Fields without separators in them are found again. -/
theorem fields_joined {sep : Char} : ∀ {fs : List (List Char)}, fs ≠ [] → (∀ f ∈ fs, sep ∉ f) →
    fields sep (joined sep fs) = fs
  | [], hne, _ => absurd rfl hne
  | [f], _, h => fields_eq_singleton (h f (by simp))
  | f :: g :: fs, _, h => by
    have hf : sep ∉ f := h f (by simp)
    have hfs : ∀ e ∈ g :: fs, sep ∉ e := fun e he => h e (List.mem_cons_of_mem f he)
    rw [joined, fields_append_cons hf, fields_joined (by simp) hfs]
    simp

end AccessControl.Text
