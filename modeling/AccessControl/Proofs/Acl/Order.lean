import AccessControl.Acl

/-!
# The order of entries

Cut in front of the first entry that grants access, a list has two parts (`Split`). A denial that is
added goes to the end of the first part and a grant to the end of the second, so the cut stays where
it is, and in the end each part has what was added to it in the order in which it was added
(`Split.addRules`).
-/

namespace AccessControl.Acl

variable {l : Acl} {front back : List Ace} {a : Ace}

/-! ### The cut -/

/-- The two parts of a list, the second of which starts with the first entry that grants access. -/
structure Split (l : Acl) (front back : List Ace) : Prop where
  entries : l.entries = front ++ back
  front : ∀ a ∈ front, a.type.isAllow = false
  back : ∀ a ∈ back.head?, a.type.isAllow = true

theorem split_takeWhile (l : Acl) : l.Split (l.entries.takeWhile (!·.type.isAllow))
    (l.entries.dropWhile (!·.type.isAllow)) where
  entries := List.takeWhile_append_dropWhile.symm
  front a ha := by simpa using List.all_eq_true.1 List.all_takeWhile a ha
  back a ha := by
    have := List.head?_dropWhile_not (!·.type.isAllow) l.entries
    rw [ha] at this
    simpa using this

/-- There is one way to cut a list. -/
theorem Split.takeWhile_eq (h : l.Split front back) :
    l.entries.takeWhile (!·.type.isAllow) = front ∧
      l.entries.dropWhile (!·.type.isAllow) = back := by
  have none : ∀ a ∈ front, (!a.type.isAllow) = true := fun a ha => by simp [h.front a ha]
  rw [h.entries, List.takeWhile_append_of_pos none, List.dropWhile_append_of_pos none]
  cases hb : back with
  | nil => simp
  | cons a back =>
    have grants := h.back a (by rw [hb]; rfl)
    simp [grants]

/-- An entry that does not grant access is inserted at the end of the first part. -/
theorem Split.insertBeforeAllow (h : l.Split front back) (ha : a.type.isAllow = false) :
    (l.insertBeforeAllow a).Split (front ++ [a]) back where
  entries := by
    rw [Acl.insertBeforeAllow, h.takeWhile_eq.1, h.takeWhile_eq.2, List.append_assoc]
    rfl
  front e he := by
    rcases List.mem_append.1 he with he | he
    · exact h.front e he
    · rw [List.mem_singleton.1 he]
      exact ha
  back := h.back

/-- An entry that grants access and comes last is the end of the second part. -/
theorem Split.push (h : l.Split front back) (ha : a.type.isAllow = true) :
    (l.push a).Split front (back ++ [a]) where
  entries := by rw [Acl.push, h.entries, List.append_assoc]
  front := h.front
  back e he := by
    cases back with
    | nil =>
      cases he
      exact ha
    | cons e' back => exact h.back e he

/-! ### Rules -/

/-- A rule to add to a list, a grant or a denial of rights to a SID. -/
inductive Rule where
  | allow (sid : Sid) (mask : BitVec 32)
  | deny (sid : Sid) (mask : BitVec 32)

namespace Rule

/-- Whether the rule grants rights. -/
def isGrant : Rule → Bool
  | .allow _ _ => true
  | .deny _ _ => false

/-- The entry of a rule. -/
def entry : Rule → Ace
  | .allow sid mask => .allowed sid mask
  | .deny sid mask => .denied sid mask

end Rule

/-- The list with a rule. -/
def addRule (l : Acl) : Rule → Acl
  | .allow sid mask => l.addAllowed sid mask
  | .deny sid mask => l.addDenied sid mask

/-- The list with rules that are added one after another. -/
def addRules (l : Acl) (rules : List Rule) : Acl := rules.foldl addRule l

/-- The entries of the grants among some rules, in the order of the rules. -/
def grants (rules : List Rule) : List Ace := (rules.filter (·.isGrant)).map Rule.entry

/-- The entries of the denials among some rules, in the order of the rules. -/
def denials (rules : List Rule) : List Ace := (rules.filter (!·.isGrant)).map Rule.entry

/-- Each part of a list gets at its end what was added to it. -/
theorem Split.addRules (h : l.Split front back) (rules : List Rule) :
    (l.addRules rules).Split (front ++ denials rules) (back ++ grants rules) := by
  induction rules generalizing l front back with
  | nil => simpa [denials, grants, Acl.addRules] using h
  | cons rule rules ih =>
    cases rule with
    | allow sid mask =>
      have rest := ih (h.push (a := .allowed sid mask) rfl)
      rwa [List.append_assoc] at rest
    | deny sid mask =>
      have rest := ih (h.insertBeforeAllow (a := .denied sid mask) rfl)
      rwa [List.append_assoc] at rest

/-- Rules are denials and grants. -/
theorem denials_append_grants_perm (rules : List Rule) :
    (denials rules ++ grants rules).Perm (rules.map Rule.entry) := by
  rw [denials, grants, ← List.map_append]
  have parts := List.filter_append_perm (·.isGrant) rules
  exact (List.perm_append_comm.trans parts).map Rule.entry

/-- No entry is lost or doubled. -/
theorem Split.perm_addRules (h : l.Split front back) (rules : List Rule) :
    (l.addRules rules).entries.Perm (l.entries ++ rules.map Rule.entry) := by
  rw [(h.addRules rules).entries, h.entries]
  calc
    front ++ denials rules ++ (back ++ grants rules)
    _ = front ++ (denials rules ++ back) ++ grants rules := by simp only [List.append_assoc]
    List.Perm _ (front ++ (back ++ denials rules) ++ grants rules) :=
      (List.perm_append_comm.append_left front).append_right _
    _ = front ++ back ++ (denials rules ++ grants rules) := by simp only [List.append_assoc]
    List.Perm _ (front ++ back ++ rules.map Rule.entry) :=
      (denials_append_grants_perm rules).append_left _

/-- The entries that were there keep their order. -/
theorem Split.sublist_addRules (h : l.Split front back) (rules : List Rule) :
    l.entries.Sublist (l.addRules rules).entries := by
  rw [(h.addRules rules).entries, h.entries]
  exact (List.sublist_append_left ..).append (List.sublist_append_left ..)

theorem isEmpty_eq_of_parts_eq {rules rules' : List Rule} (hd : denials rules' = denials rules)
    (hg : grants rules' = grants rules) : rules'.isEmpty = rules.isEmpty := by
  have count : ∀ rules : List Rule,
      rules.length = (denials rules).length + (grants rules).length := by
    intro rules
    rw [← List.length_append, (denials_append_grants_perm rules).length_eq, List.length_map]
  have length : rules'.length = rules.length := by rw [count, count, hd, hg]
  rw [Bool.eq_iff_iff, List.isEmpty_iff_length_eq_zero, List.isEmpty_iff_length_eq_zero, length]

/-- How the grants come between the denials does not matter. -/
theorem addRules_eq_of_parts_eq {rules rules' : List Rule} (l : Acl)
    (hd : denials rules' = denials rules) (hg : grants rules' = grants rules) :
    l.addRules rules' = l.addRules rules := by
  have split := l.split_takeWhile
  have entries : (l.addRules rules').entries = (l.addRules rules).entries := by
    rw [(split.addRules rules').entries, (split.addRules rules).entries, hd, hg]
  exact congrArg Acl.mk entries

end AccessControl.Acl
