import AccessControl.Proofs.Descriptor.Wire

/-!
# Layouts of descriptors

The fields of the header stand at fixed places, and all else about the layout of a descriptor is
up to its offsets. A descriptor is read from every byte string that has its control word, up to the
two bits for presence, and its parts wherever the offsets point (`decode_of_layout`): the parts may
come in any order, with gaps between them, and share bytes with each other or with the header.
-/

namespace AccessControl.Descriptor

variable {d : Descriptor} {b : Bytes}

/-- A descriptor is read from every byte string that has its parts where the offsets in the header
say. Of the control word, the bits for presence do not matter. -/
theorem decode_of_layout (safe : d.WireSafe) (long : 20 ≤ b.length) (first : b[0]? = some 1)
    (control : ∀ i < 16, i ≠ 2 → i ≠ 4 → (controlAt b).getLsbD i = d.control.getLsbD i)
    (owner : PartAt (fun s : Sid => .ok s.encode) b (numberAt b 4 4) d.owner)
    (group : PartAt (fun s : Sid => .ok s.encode) b (numberAt b 8 4) d.group)
    (sacl : PartAt Acl.encode b (numberAt b 12 4) d.sacl)
    (dacl : PartAt Acl.encode b (numberAt b 16 4) d.dacl) : decode b = .ok d := by
  obtain ⟨second, hb⟩ := exists_header_append long first
  have self : (controlAt b).getLsbD selfRelativeBit = true := by
    rw [control selfRelativeBit (by decide) (by decide) (by decide)]
    exact d.self_bit
  have synced : syncedControl (controlAt b) d.sacl d.dacl = d.control := by
    rw [← d.syncedControl_self]
    exact syncedControl_congr fun i hi dacl sacl _ => control i hi dacl sacl
  exact decode_of_located hb self synced
    ⟨owner, group, sacl, dacl, numberAt_lt .., numberAt_lt .., numberAt_lt .., numberAt_lt ..⟩ safe

/-- The list comes first after a gap, the owner is the SID inside its entry, and the word says that
there is a SACL and no DACL. -/
theorem decode_of_layout_overlapping :
    let everyone := WellKnown.everyone.toSid
    let d := make 0x8000 (some everyone) none none (some ⟨[.allowed everyone 1]⟩)
    let sid : Bytes := [0x01, 0x01, 0, 0, 0, 0, 0, 0x01, 0, 0, 0, 0]
    let list : Bytes := [0x02, 0x00, 28, 0, 0x01, 0, 0, 0, 0x00, 0x00, 20, 0, 0x01, 0, 0, 0]
    let front : Bytes :=
      [0x01, 0x77, 0x10, 0x80, 38, 0, 0, 0, 0, 0, 0, 0, 0, 0, 0, 0, 22, 0, 0, 0, 0xFF, 0xFF]
    let b := front ++ (list ++ (sid ++ [0xFF]))
    controlAt b = 0x8010 ∧ d.control = 0x8004 ∧ numberAt b 4 4 = 38 ∧ numberAt b 16 4 = 22 ∧
      decode b = .ok d := by
  intro everyone d sid list front b
  have safe : d.WireSafe := by
    constructor
    · intro l hl
      cases hl
    · intro l hl a ha
      cases hl
      rw [List.mem_singleton.1 ha]
      trivial
  have written : Acl.encode ⟨[.allowed everyone 1]⟩ = .ok (list ++ sid) := by
    simp only [everyone, list, sid]
    rfl
  have word : d.control = 0x8004 := by
    simp only [d, everyone]
    decide
  have wire : controlAt b = 0x8010 := by
    simp only [b, front, list, sid]
    rfl
  refine ⟨wire, word, rfl, rfl, ?_⟩
  refine decode_of_layout safe (by decide) rfl ?_ ?_ rfl rfl ?_
  · rw [wire, word]
    decide
  · exact ⟨by decide, front ++ list, sid, [0xFF], rfl, rfl, rfl⟩
  · exact ⟨by decide, front, list ++ sid, [0xFF], written, rfl, rfl⟩

end AccessControl.Descriptor
