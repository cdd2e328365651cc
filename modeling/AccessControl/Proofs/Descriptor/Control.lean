import AccessControl.Proofs.Descriptor.Changes

/-!
# Control words under changes

Three bits of the control word are derived from the parts of a descriptor. The other bits are those
of the word that was set last, or else of the one that the descriptor started with, whatever was
changed in between (`Carries.run`), as a change touches nothing but what it is about
(`apply_sameAt`). All of that holds of any run of changes, and so does that the word which is
written is the word of the descriptor (`control_run`).
-/

namespace AccessControl.Descriptor

variable {d : Descriptor} {b : Bytes} {word : BitVec 16}

/-! ### What a change touches -/

/-- A single bit of the control word, or a part. -/
inductive Field where
  | bit (i : Nat)
  | owner
  | group
  | sacl
  | dacl

/-- Two descriptors have the same in a field. -/
def SameAt (d e : Descriptor) : Field → Prop
  | .bit i => d.control.getLsbD i = e.control.getLsbD i
  | .owner => d.owner = e.owner
  | .group => d.group = e.group
  | .sacl => d.sacl = e.sacl
  | .dacl => d.dacl = e.dacl

/-- The bit is not derived from the parts. -/
def IsFree (i : Nat) : Prop := i ≠ daclPresentBit ∧ i ≠ saclPresentBit ∧ i ≠ selfRelativeBit

/-- The field is one that the change is about, or the presence bit of a list that it is about. -/
def Change.Touches : Change → Field → Prop
  | .control _, .bit i => IsFree i
  | .owner _, .owner | .group _, .group | .sacl _, .sacl => True
  | .dacl _, .dacl | .allow _ _, .dacl | .deny _ _, .dacl => True
  | .sacl _, .bit i => i = saclPresentBit
  | .dacl _, .bit i | .allow _ _, .bit i | .deny _ _, .bit i => i = daclPresentBit
  | _, _ => False

theorem getLsbD_control_make (word : BitVec 16) (owner group : Option Sid)
    (sacl dacl : Option Acl) (i : Nat) :
    (make word owner group sacl dacl).control.getLsbD i =
      if i = selfRelativeBit then true
      else if i = saclPresentBit then sacl.isSome
      else if i = daclPresentBit then dacl.isSome
      else word.getLsbD i := by
  rw [control_make, getLsbD_syncedControl]

/-- The derived bits of a descriptor are those of its parts. -/
theorem getLsbD_control (d : Descriptor) (i : Nat) :
    d.control.getLsbD i =
      if i = selfRelativeBit then true
      else if i = saclPresentBit then d.sacl.isSome
      else if i = daclPresentBit then d.dacl.isSome
      else d.control.getLsbD i := by
  rw [← getLsbD_syncedControl, syncedControl_self]

theorem setSacl_sameAt_bit (d : Descriptor) (sacl : Option Acl) {i : Nat}
    (h : i ≠ saclPresentBit) : SameAt (d.setSacl sacl) d (.bit i) := by
  rw [SameAt, d.getLsbD_control, setSacl, getLsbD_control_make, if_neg h, if_neg h]

theorem setDacl_sameAt_bit (d : Descriptor) (dacl : Option Acl) {i : Nat}
    (h : i ≠ daclPresentBit) : SameAt (d.setDacl dacl) d (.bit i) := by
  rw [SameAt, d.getLsbD_control, setDacl, getLsbD_control_make, if_neg h, if_neg h]

theorem setControl_sameAt_bit (d : Descriptor) (word : Bitset 16) {i : Nat} (h : ¬ IsFree i) :
    SameAt (d.setControl word) d (.bit i) := by
  rw [SameAt, d.getLsbD_control, setControl, getLsbD_control_make]
  by_cases self : i = selfRelativeBit
  · rw [if_pos self, if_pos self]
  · by_cases sacl : i = saclPresentBit
    · rw [if_neg self, if_neg self, if_pos sacl, if_pos sacl]
    · by_cases dacl : i = daclPresentBit
      · rw [if_neg self, if_neg self, if_neg sacl, if_neg sacl, if_pos dacl, if_pos dacl]
      · exact absurd ⟨dacl, sacl, self⟩ h

/-- A change leaves alone what it does not touch. -/
theorem apply_sameAt (d : Descriptor) (c : Change) {f : Field} (h : ¬ c.Touches f) :
    SameAt (c.apply d) d f := by
  cases c with
  | control word =>
    cases f with
    | bit i => exact d.setControl_sameAt_bit word h
    | _ => rfl
  | owner sid =>
    cases f with
    | owner => exact absurd trivial h
    | _ => rfl
  | group sid =>
    cases f with
    | group => exact absurd trivial h
    | _ => rfl
  | sacl list =>
    cases f with
    | bit i => exact d.setSacl_sameAt_bit list h
    | sacl => exact absurd trivial h
    | _ => rfl
  | dacl | allow | deny =>
    cases f with
    | bit i => exact d.setDacl_sameAt_bit _ h
    | dacl => exact absurd trivial h
    | _ => rfl

/-! ### The word that was set last -/

/-- The descriptor has the bits of a control word that are not derived. -/
def Carries (d : Descriptor) (word : BitVec 16) : Prop :=
  ∀ i, IsFree i → d.control.getLsbD i = word.getLsbD i

theorem carries_make (word : BitVec 16) (owner group : Option Sid) (sacl dacl : Option Acl) :
    (make word owner group sacl dacl).Carries word := by
  rintro i ⟨dacl, sacl, self⟩
  rw [getLsbD_control_make, if_neg self, if_neg sacl, if_neg dacl]

/-- The second descriptor has what the change puts in, where the first is the one before. -/
def Change.Sets (d e : Descriptor) : Change → Prop
  | .control word => e.Carries word.bits
  | .owner sid => e.owner = sid
  | .group sid => e.group = sid
  | .sacl list => e.sacl = list
  | .dacl list => e.dacl = list
  | .allow sid mask => e.dacl = some (d.daclOrEmpty.addAllowed sid mask)
  | .deny sid mask => e.dacl = some (d.daclOrEmpty.addDenied sid mask)

theorem sets_apply (d : Descriptor) (c : Change) : c.Sets d (c.apply d) := by
  cases c with
  | control => exact carries_make _ _ _ _ _
  | _ => rfl

/-- The bits of the control word that a change sets, if it sets one. -/
def Change.word? : Change → Option (BitVec 16)
  | .control word => some word.bits
  | _ => none

/-- The bits of the control word that is set last in some changes, or else those before them. -/
def lastWord (before : BitVec 16) (changes : List Change) : BitVec 16 :=
  (changes.filterMap Change.word?).getLastD before

theorem lastWord_cons (before : BitVec 16) (c : Change) (changes : List Change) :
    lastWord before (c :: changes) = lastWord (c.word?.getD before) changes := by
  rw [lastWord, lastWord, List.filterMap_cons]
  cases c.word? with
  | none => rfl
  | some word => exact List.getLastD_cons ..

theorem Carries.apply (h : d.Carries word) (c : Change) :
    (c.apply d).Carries (c.word?.getD word) := by
  cases c with
  | control => exact carries_make _ _ _ _ _
  | owner | group => exact h
  | sacl | dacl | allow | deny =>
    intro i free
    exact (carries_make d.control _ _ _ _ i free).trans (h i free)

theorem Carries.run (h : d.Carries word) (changes : List Change) :
    (d.run changes).Carries (lastWord word changes) := by
  induction changes generalizing d word with
  | nil => exact h
  | cons c changes ih =>
    rw [lastWord_cons]
    exact ih (h.apply c)

/-! ### From where a run starts -/

/-- What a run starts with, and its control word: the empty descriptor, which has none of the bits,
or a descriptor that was read and the word in its header. -/
inductive Start : BitVec 16 → Descriptor → Prop
  | empty : Start 0 empty
  | read {source : Bytes} {d : Descriptor} (h : decode source = .ok d) : Start (controlAt source) d

theorem carries_of_decode (h : decode b = .ok d) : d.Carries (controlAt b) := by
  obtain ⟨-, _, _, _, _, -, -, -, -, rfl⟩ := decode_eq_ok_iff.1 h
  exact carries_make _ _ _ _ _

theorem Start.carries (h : Start word d) : d.Carries word := by
  cases h with
  | empty => exact carries_make _ _ _ _ _
  | read h => exact carries_of_decode h

/-! ### The wire -/

theorem controlAt_of_encode (h : d.encode = .ok b) : controlAt b = d.control := by
  obtain ⟨⟨w, rfl⟩, -⟩ := located_of_encode h
  exact controlAt_header ..

/-- The table of names fits the control word, so it can be given to any. -/
theorem withMeaning_control (s : Bitset 16) (h : s.bits = d.control) :
    s.withMeaning Meaning.control = .ok d.controlWord := by
  have fits : Meaning.control.Fits 16 := by decide
  rw [Bitset.withMeaning_of_fits s fits, Except.ok.injEq]
  exact Bitset.ext h d.table_eq.symm

/-- After any changes of the empty descriptor or of one that was read, the presence bits of the
control word say which lists there are, the bit for the self-relative form is set, and the others
are those of the word that was set last, if any was. A change puts in what it is about and leaves
the rest alone, the names of the bits are always at hand, and the word is what stands in the third
and fourth byte of what is written. -/
theorem control_run {start : Descriptor} (origin : Start word start) (changes : List Change) :
    let d := start.run changes
    (d.control.getLsbD 2 = d.dacl.isSome ∧ d.control.getLsbD 4 = d.sacl.isSome ∧
        d.control.getLsbD 15 = true) ∧
      (∀ i, i ≠ 2 → i ≠ 4 → i ≠ 15 → d.control.getLsbD i = (lastWord word changes).getLsbD i) ∧
      (∀ c : Change, c.Sets d (c.apply d) ∧ ∀ f, ¬ c.Touches f → SameAt (c.apply d) d f) ∧
      (d.controlWord.bits = d.control ∧ d.controlWord.table = some Meaning.control ∧
        ∀ s : Bitset 16, s.bits = d.control → s.withMeaning Meaning.control = .ok d.controlWord) ∧
      ∀ b, d.encode = .ok b → numberAt b 2 2 = d.controlWord.toNat := by
  intro d
  refine ⟨⟨d.dacl_bit, d.sacl_bit, d.self_bit⟩, ?_, ?_, ⟨rfl, d.table_eq, ?_⟩, ?_⟩
  · intro i dacl sacl self
    exact origin.carries.run changes i ⟨dacl, sacl, self⟩
  · intro c
    exact ⟨d.sets_apply c, fun f h => d.apply_sameAt c h⟩
  · intro s h
    exact withMeaning_control s h
  · intro b h
    rw [← toNat_controlAt, controlAt_of_encode h]
    rfl

/-- The header that is read protects the DACL that it does not have; the lists come later, and then
another word, whose only bit had a name of its own, takes the protection away. -/
theorem control_run_protected :
    let everyone := WellKnown.everyone.toSid
    let source : Bytes := [0x01, 0x00, 0x04, 0x90, 0, 0, 0, 0, 0, 0, 0, 0, 0, 0, 0, 0, 0, 0, 0, 0]
    let start := make 0x9004 none none none none
    let lists : List Change := [.allow everyone 1, .sacl (some .empty)]
    let word : Bitset 16 := ⟨0x0001, some ⟨"own", 16, [("A", 0)]⟩, by simp; decide⟩
    let d := start.run lists
    let e := start.run (lists ++ [.control word, .dacl none])
    decode source = .ok start ∧
      (d.control.getLsbD 2 = true ∧ d.control.getLsbD 4 = true ∧ d.control.getLsbD 12 = true) ∧
      (e.control.getLsbD 2 = false ∧ e.control.getLsbD 0 = true ∧ e.control.getLsbD 12 = false) ∧
      e.controlWord.table = some Meaning.control := by
  intro everyone source start lists word d e
  have read : decode source = .ok start := by
    simp only [source, start]
    rfl
  have kept : lastWord (controlAt source) lists = 0x9004 := by
    simp only [source, lists]
    rfl
  have replaced :
      lastWord (controlAt source) (lists ++ [.control word, .dacl none]) = 0x0001 := rfl
  obtain ⟨⟨dacl, sacl, -⟩, free, -⟩ := control_run (.read read) lists
  obtain ⟨⟨dacl', -, -⟩, free', -, ⟨-, table', -⟩, -⟩ :=
    control_run (.read read) (lists ++ [.control word, .dacl none])
  rw [kept] at free
  rw [replaced] at free'
  exact ⟨read, ⟨dacl, sacl, free 12 (by decide) (by decide) (by decide)⟩, ⟨dacl',
    free' 0 (by decide) (by decide) (by decide), free' 12 (by decide) (by decide) (by decide)⟩,
    table'⟩

end AccessControl.Descriptor
