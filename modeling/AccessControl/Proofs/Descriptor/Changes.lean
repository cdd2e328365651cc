import AccessControl.Proofs.Descriptor.Wire

/-!
# Descriptors under changes

A descriptor is made by starting from the empty one or from one that was read, and changing it step
by step. Grants and denials that are added survive the wire, so every list of the outcome does if
the lists that were put in do (`wireSafe_run`), and then the outcome is read back from what is
written of it.
-/

namespace AccessControl

/-! ### Lists -/

namespace Acl

variable {l : Acl} {a : Ace}

theorem wireSafe_empty : empty.WireSafe := by
  intro a ha
  cases ha

theorem WireSafe.push (h : l.WireSafe) (ha : a.WireSafe) : (l.push a).WireSafe := by
  intro e he
  rcases List.mem_append.1 he with he | he
  · exact h e he
  · rw [List.mem_singleton.1 he]
    exact ha

theorem WireSafe.insertBeforeAllow (h : l.WireSafe) (ha : a.WireSafe) :
    (l.insertBeforeAllow a).WireSafe := by
  intro e he
  rcases List.mem_append.1 he with he | he
  · exact h e ((List.takeWhile_sublist _).subset he)
  · rcases List.mem_cons.1 he with rfl | he
    · exact ha
    · exact h e ((List.dropWhile_sublist _).subset he)

end Acl

namespace Descriptor

/-! ### Changes -/

/-- A change of a descriptor: a new control word, a part that is put in or taken away, or a grant or
denial of rights to a SID. -/
inductive Change where
  | control (word : Bitset 16)
  | owner (sid : Option Sid)
  | group (sid : Option Sid)
  | sacl (list : Option Acl)
  | dacl (list : Option Acl)
  | allow (sid : Sid) (mask : BitVec 32)
  | deny (sid : Sid) (mask : BitVec 32)

/-- The descriptor after a change. -/
def Change.apply (d : Descriptor) : Change → Descriptor
  | .control word => d.setControl word
  | .owner sid => d.setOwner sid
  | .group sid => d.setGroup sid
  | .sacl list => d.setSacl list
  | .dacl list => d.setDacl list
  | .allow sid mask => d.addAllowed sid mask
  | .deny sid mask => d.addDenied sid mask

/-- The descriptor after changes one after another. -/
def run (d : Descriptor) (changes : List Change) : Descriptor := changes.foldl Change.apply d

/-- The entries of a list that the change puts in survive the wire. -/
def Change.WireSafe : Change → Prop
  | .sacl list | .dacl list => ∀ l ∈ list, l.WireSafe
  | _ => True

variable {d : Descriptor}

theorem wireSafe_empty : empty.WireSafe := by
  constructor
  · intro l hl
    cases hl
  · intro l hl
    cases hl

theorem WireSafe.daclOrEmpty (h : d.WireSafe) : d.daclOrEmpty.WireSafe := by
  rw [Descriptor.daclOrEmpty]
  cases hd : d.dacl with
  | none => exact Acl.wireSafe_empty
  | some l => exact h.dacl l hd

theorem WireSafe.apply (h : d.WireSafe) {c : Change} (hc : c.WireSafe) : (c.apply d).WireSafe := by
  cases c with
  | control word => exact ⟨h.sacl, h.dacl⟩
  | owner sid => exact ⟨h.sacl, h.dacl⟩
  | group sid => exact ⟨h.sacl, h.dacl⟩
  | sacl list => exact ⟨hc, h.dacl⟩
  | dacl list => exact ⟨h.sacl, hc⟩
  | allow sid mask =>
    refine ⟨h.sacl, fun l hl => ?_⟩
    cases hl
    exact h.daclOrEmpty.push trivial
  | deny sid mask =>
    refine ⟨h.sacl, fun l hl => ?_⟩
    cases hl
    exact h.daclOrEmpty.insertBeforeAllow trivial

theorem wireSafe_run (h : d.WireSafe) {changes : List Change} (hc : ∀ c ∈ changes, c.WireSafe) :
    (d.run changes).WireSafe := by
  induction changes generalizing d with
  | nil => exact h
  | cons c changes ih =>
    rw [List.forall_mem_cons] at hc
    exact ih (h.apply hc.1) hc.2

/-! ### The round trip -/

/-- A descriptor that changes make of the empty one, or of one that was read, is read back from what
is written of it, whatever follows. It is enough that the lists which the changes put in survive the
wire, or that those which are there in the end do. -/
theorem decode_encode_run {start : Descriptor}
    (origin : start = empty ∨ ∃ source, decode source = .ok start) (changes : List Change)
    (safe : (∀ c ∈ changes, c.WireSafe) ∨ (start.run changes).WireSafe) {b : Bytes}
    (h : (start.run changes).encode = .ok b) (t : Bytes) :
    decode (b ++ t) = .ok (start.run changes) := by
  have origin : start.WireSafe := by
    rcases origin with rfl | ⟨source, hsource⟩
    · exact wireSafe_empty
    · exact wireSafe_of_decode hsource
  rcases safe with hc | hrun
  · exact decode_of_encode h (wireSafe_run origin hc) t
  · exact decode_of_encode h hrun t

/-- A grant under a condition is put in, and a denial goes in front of it. -/
theorem decode_encode_run_grant_deny :
    let everyone := WellKnown.everyone.toSid
    let grant := Ace.allowedIf everyone 1 (Condition.negation (Condition.octets [0x07]))
    let d := empty.run [.owner (some everyone), .dacl (some ⟨[grant]⟩), .deny everyone 2]
    let b : Bytes :=
      [0x01, 0x00, 0x04, 0x80, 20, 0, 0, 0, 0, 0, 0, 0, 0, 0, 0, 0, 32, 0, 0, 0] ++
      [0x01, 0x01, 0, 0, 0, 0, 0, 0x01, 0, 0, 0, 0] ++
      [0x02, 0x00, 60, 0, 0x02, 0, 0, 0] ++
      [0x01, 0x00, 20, 0, 0x02, 0, 0, 0, 0x01, 0x01, 0, 0, 0, 0, 0, 0x01, 0, 0, 0, 0] ++
      [0x09, 0x00, 32, 0, 0x01, 0, 0, 0, 0x01, 0x01, 0, 0, 0, 0, 0, 0x01, 0, 0, 0, 0,
        0x61, 0x72, 0x74, 0x78, 0x18, 0x01, 0, 0, 0, 0x07, 0xA2, 0]
    d.encode = .ok b ∧ ∀ t, decode (b ++ t) = .ok d := by
  intro everyone grant d b
  have written : d.encode = .ok b := by
    simp only [b, d, grant, everyone]
    rfl
  have list : (⟨[grant]⟩ : Acl).WireSafe := by
    intro a ha
    rw [List.mem_singleton.1 ha]
    exact ⟨by decide, by decide⟩
  have changes : ∀ c ∈ [.owner (some everyone), .dacl (some ⟨[grant]⟩), .deny everyone 2],
      Change.WireSafe c := by
    intro c hc
    simp only [List.mem_cons, List.not_mem_nil, or_false] at hc
    rcases hc with rfl | rfl | rfl
    · trivial
    · intro l hl
      cases hl
      exact list
    · trivial
  exact ⟨written, decode_encode_run (.inl rfl) _ (.inl changes) written⟩

end Descriptor
end AccessControl
