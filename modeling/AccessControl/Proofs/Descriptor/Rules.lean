import AccessControl.Proofs.Acl.Order
import AccessControl.Proofs.Descriptor.Changes

/-!
# Rules added to a descriptor

Rules that are added to a descriptor go to its DACL, or to an empty list where there is none, and
change nothing but that list and its bit in the control word (`run_rules`). What a run of rules
makes of the list is told by the two parts of it before the run and by the denials and the grants
in the run, each in their own order (`entries_addRules`).
-/

namespace AccessControl.Descriptor

variable {d : Descriptor} {l : Acl} {front back : List Ace}

/-- The change that adds a rule to the DACL. -/
def Change.ofRule : Acl.Rule → Change
  | .allow sid mask => .allow sid mask
  | .deny sid mask => .deny sid mask

/-- The descriptor with rules that are added to its DACL one after another. -/
def addRules (d : Descriptor) (rules : List Acl.Rule) : Descriptor :=
  d.run (rules.map Change.ofRule)

theorem setDacl_setDacl (d : Descriptor) (x y : Option Acl) :
    (d.setDacl x).setDacl y = d.setDacl y := by
  refine eq_of_parts ?_ rfl rfl rfl rfl
  rw [setDacl, setDacl, setDacl, control_make, control_make, control_make]
  refine syncedControl_congr fun i _ dacl sacl self => ?_
  exact (getLsbD_syncedControl ..).trans (by rw [if_neg self, if_neg sacl, if_neg dacl])

theorem apply_ofRule (d : Descriptor) (rule : Acl.Rule) :
    (Change.ofRule rule).apply d = d.setDacl (some (d.daclOrEmpty.addRule rule)) := by
  cases rule <;> rfl

/-- A run of rules makes a DACL and does nothing else; a run without rules does nothing at all. -/
theorem addRules_eq (d : Descriptor) (rules : List Acl.Rule) :
    d.addRules rules =
      if rules.isEmpty then d else d.setDacl (some (d.daclOrEmpty.addRules rules)) := by
  induction rules generalizing d with
  | nil => rfl
  | cons rule rules ih =>
    have step : d.addRules (rule :: rules) =
        (d.setDacl (some (d.daclOrEmpty.addRule rule))).addRules rules := by
      rw [← apply_ofRule]
      rfl
    rw [step, ih, setDacl_setDacl]
    cases rules with
    | nil => rfl
    | cons => rfl

/-- Denials that are added go in front of the first entry that granted access before, grants to the
end, and both keep their order, in a list as in the DACL of a descriptor. So no entry is lost,
doubled or moved past another, no denial that is added comes after an entry that grants access, and
it does not matter how grants and denials are mixed. -/
theorem entries_addRules (split : l.Split front back) (rules : List Acl.Rule) :
    (l.addRules rules).entries = front ++ Acl.denials rules ++ back ++ Acl.grants rules ∧
      l.entries.Sublist (l.addRules rules).entries ∧
      (l.addRules rules).entries.Perm (l.entries ++ rules.map Acl.Rule.entry) ∧
      (∀ a ∈ front ++ Acl.denials rules, a.type.isAllow = false) ∧
      (∀ d : Descriptor, d.daclOrEmpty = l → d.addRules rules =
        if rules.isEmpty then d else d.setDacl (some (l.addRules rules))) ∧
      ∀ rules', Acl.denials rules' = Acl.denials rules → Acl.grants rules' = Acl.grants rules →
        l.addRules rules' = l.addRules rules ∧
          ∀ d : Descriptor, d.daclOrEmpty = l → d.addRules rules' = d.addRules rules := by
  have after := split.addRules rules
  refine ⟨?_, split.sublist_addRules rules, split.perm_addRules rules, after.front, ?_, ?_⟩
  · rw [after.entries]
    simp only [List.append_assoc]
  · rintro d rfl
    exact d.addRules_eq rules
  · intro rules' hd hg
    refine ⟨Acl.addRules_eq_of_parts_eq l hd hg, ?_⟩
    rintro d rfl
    rw [addRules_eq, addRules_eq, Acl.addRules_eq_of_parts_eq _ hd hg,
      Acl.isEmpty_eq_of_parts_eq hd hg]

/-- The list starts with an entry for auditing, and has a denial behind a grant that stays there. -/
theorem entries_addRules_mixed :
    let everyone := WellKnown.everyone.toSid
    let audit : Ace := ⟨AceKind.systemAudit.type, 0x40, .basic ⟨1, everyone⟩, ⟨rfl, trivial, trivial⟩⟩
    let l : Acl := ⟨[audit, .allowed everyone 2, .denied everyone 4]⟩
    let d := empty.setDacl (some l)
    let rules : List Acl.Rule :=
      [.allow everyone 8, .deny everyone 16, .allow everyone 32, .deny everyone 64]
    let outcome : Acl := ⟨[audit, .denied everyone 16, .denied everyone 64, .allowed everyone 2,
      .denied everyone 4, .allowed everyone 8, .allowed everyone 32]⟩
    l.addRules rules = outcome ∧ d.addRules rules = d.setDacl (some outcome) := by
  intro everyone audit l d rules outcome
  have split : l.Split [audit] [.allowed everyone 2, .denied everyone 4] := by
    refine ⟨rfl, ?_, ?_⟩
    · intro a ha
      rw [List.mem_singleton.1 ha]
      rfl
    · intro a ha
      cases ha
      rfl
  obtain ⟨entries, -, -, -, descriptor, -⟩ := entries_addRules split rules
  have list : l.addRules rules = outcome := congrArg Acl.mk entries
  refine ⟨list, ?_⟩
  rw [← list]
  exact descriptor d rfl

end AccessControl.Descriptor
