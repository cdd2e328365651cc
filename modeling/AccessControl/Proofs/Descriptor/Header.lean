import AccessControl.Descriptor.Wire
import AccessControl.Proofs.Acl.Wire

/-!
# Headers of descriptors

The fields of a header stand at fixed places. A descriptor is read from a byte string of at least
twenty bytes with the right revision and form, part by part at the offsets in the header
(`decode_eq_ok_iff`). Of the control word, the reader keeps what is not derived from the parts
(`getLsbD_syncedControl`).
-/

namespace AccessControl.Descriptor

variable {d e : Descriptor} {b w : Bytes}

/-! ### The control word -/

/-- The three derived bits are set as the parts say, and the others are kept. -/
theorem getLsbD_syncedControl (w : BitVec 16) (sacl dacl : Option Acl) (i : Nat) :
    (syncedControl w sacl dacl).getLsbD i =
      if i = selfRelativeBit then true
      else if i = saclPresentBit then sacl.isSome
      else if i = daclPresentBit then dacl.isSome
      else w.getLsbD i := by
  have inRange : selfRelativeBit < 16 ∧ saclPresentBit < 16 ∧ daclPresentBit < 16 := by decide
  simp only [syncedControl, getLsbD_putBit, inRange, and_true]

/-- The derived bits of a word do not matter to the word that is made of it. -/
theorem syncedControl_congr {v w : BitVec 16} {sacl dacl : Option Acl}
    (h : ∀ i < 16, i ≠ daclPresentBit → i ≠ saclPresentBit → i ≠ selfRelativeBit →
      v.getLsbD i = w.getLsbD i) : syncedControl v sacl dacl = syncedControl w sacl dacl := by
  apply BitVec.eq_of_getLsbD_eq
  intro i hi
  rw [getLsbD_syncedControl, getLsbD_syncedControl]
  split
  · rfl
  · split
    · rfl
    · split
      · rfl
      · rename_i self sacl dacl
        exact h i hi dacl sacl self

/-- The control word of a descriptor has its derived bits already. -/
theorem syncedControl_self (d : Descriptor) :
    syncedControl d.control d.sacl d.dacl = d.control := by
  have self := putBit_getLsbD d.control selfRelativeBit
  rw [d.self_bit] at self
  rw [syncedControl, ← d.dacl_bit, putBit_getLsbD, ← d.sacl_bit, putBit_getLsbD, self]

/-! ### The fields -/

/-- The offsets of a header. -/
structure Offsets where
  owner : Nat
  group : Nat
  sacl : Nat
  dacl : Nat

/-- The header with a control word and offsets; the second byte of it is not looked into. -/
def header (second : UInt8) (control : BitVec 16) (o : Offsets) : Bytes :=
  revision :: second :: (leBytes 2 control.toNat ++ (leBytes 4 o.owner ++ (leBytes 4 o.group ++
    (leBytes 4 o.sacl ++ leBytes 4 o.dacl))))

theorem length_header (second : UInt8) (control : BitVec 16) (o : Offsets) :
    (header second control o).length = headerLen := by
  simp [header, headerLen]

/-- The control word in the header of a byte string. -/
def controlAt (b : Bytes) : BitVec 16 := .ofNat 16 (numberAt b 2 2)

/-- The offsets in the header of a byte string. -/
def offsetsAt (b : Bytes) : Offsets :=
  ⟨numberAt b 4 4, numberAt b 8 4, numberAt b 12 4, numberAt b 16 4⟩

theorem toNat_controlAt (b : Bytes) : (controlAt b).toNat = numberAt b 2 2 := by
  rw [controlAt, BitVec.toNat_ofNat]
  exact Nat.mod_eq_of_lt (numberAt_lt b 2 2)

theorem controlAt_header (second : UInt8) (control : BitVec 16) (o : Offsets) (w : Bytes) :
    controlAt (header second control o ++ w) = control := by
  have word : numberAt (header second control o ++ w) 2 2 = control.toNat := by
    simp only [header, List.cons_append, List.append_assoc]
    exact numberAt_append [revision, second] control.isLt _
  rw [controlAt, word, BitVec.ofNat_toNat, BitVec.setWidth_eq]

theorem offsetsAt_header {second : UInt8} {control : BitVec 16} {o : Offsets}
    (fits : o.owner < 256 ^ 4 ∧ o.group < 256 ^ 4 ∧ o.sacl < 256 ^ 4 ∧ o.dacl < 256 ^ 4)
    (w : Bytes) : offsetsAt (header second control o ++ w) = o := by
  obtain ⟨owner, group, sacl, dacl⟩ := fits
  have atOwner : numberAt (header second control o ++ w) 4 4 = o.owner := by
    simp only [header, List.cons_append, List.append_assoc]
    exact numberAt_append (revision :: second :: leBytes 2 control.toNat) owner _
  have atGroup : numberAt (header second control o ++ w) 8 4 = o.group := by
    simp only [header, List.cons_append, List.append_assoc]
    exact numberAt_append
      (revision :: second :: (leBytes 2 control.toNat ++ leBytes 4 o.owner)) group _
  have atSacl : numberAt (header second control o ++ w) 12 4 = o.sacl := by
    simp only [header, List.cons_append, List.append_assoc]
    exact numberAt_append (revision :: second :: (leBytes 2 control.toNat ++
      (leBytes 4 o.owner ++ leBytes 4 o.group))) sacl _
  have atDacl : numberAt (header second control o ++ w) 16 4 = o.dacl := by
    simp only [header, List.cons_append, List.append_assoc]
    exact numberAt_append (revision :: second :: (leBytes 2 control.toNat ++
      (leBytes 4 o.owner ++ (leBytes 4 o.group ++ leBytes 4 o.sacl)))) dacl _
  simp only [offsetsAt, atOwner, atGroup, atSacl, atDacl]

theorem offsetsAt_take (b : Bytes) {n : Nat} (h : headerLen ≤ n) :
    offsetsAt (b.take n) = offsetsAt b := by
  have size : 20 ≤ n := h
  rw [offsetsAt, numberAt_take b (by omega), numberAt_take b (by omega), numberAt_take b (by omega),
    numberAt_take b size, offsetsAt]

/-- A byte string of the right length and revision starts with the header of its fields. -/
theorem exists_header_append (long : headerLen ≤ b.length) (first : b[0]? = some revision) :
    ∃ second, b = header second (controlAt b) (offsetsAt b) ++ b.drop headerLen := by
  match b with
  | x :: second :: r =>
    obtain rfl : x = revision := Option.some.inj first
    refine ⟨second, ?_⟩
    generalize hb : revision :: second :: r = b at long ⊢
    have size : 20 ≤ b.length := long
    have control := leBytes_numberAt b 2 2 (by omega)
    have owner := leBytes_numberAt b 4 4 (by omega)
    have group := leBytes_numberAt b 8 4 (by omega)
    have sacl := leBytes_numberAt b 12 4 (by omega)
    have dacl := leBytes_numberAt b 16 4 size
    simp only [header, offsetsAt, toNat_controlAt, List.cons_append, List.append_assoc, headerLen]
    rw [dacl, sacl, group, owner, control, ← hb]
    rfl

/-! ### The reader -/

/-- After the header, the parts are read at its offsets. -/
theorem decode_header {second : UInt8} {control : BitVec 16} {o : Offsets}
    (hb : b = header second control o ++ w)
    (fits : o.owner < 256 ^ 4 ∧ o.group < 256 ^ 4 ∧ o.sacl < 256 ^ 4 ∧ o.dacl < 256 ^ 4) :
    decode b = (do
      if control.getLsbD selfRelativeBit = false then throw .notSelfRelative
      let owner ← decodePart Sid.cutFront .ownerSid b o.owner
      let group ← decodePart Sid.cutFront .groupSid b o.group
      let sacl ← decodePart Acl.cutFront .sacl b o.sacl
      let dacl ← decodePart Acl.cutFront .dacl b o.dacl
      return make control owner group sacl dacl) := by
  have long : ¬ b.length < 4 := by
    rw [hb, List.length_append, length_header, headerLen]
    omega
  -- the header is opened field by field while the parts are still looked up in the whole of `b`
  have first : ∀ short, cutNat short 1 b = .ok (revision.toNat, second ::
      (leBytes 2 control.toNat ++ (leBytes 4 o.owner ++ (leBytes 4 o.group ++
        (leBytes 4 o.sacl ++ (leBytes 4 o.dacl ++ w)))))) := by
    intro short
    rw [hb, header, List.cons_append, cutNat_one_cons]
    simp only [List.cons_append, List.append_assoc]
  have word : control.toNat < 256 ^ 2 := control.isLt
  obtain ⟨owner, group, sacl, dacl⟩ := fits
  simp only [decode, if_neg long, first, cutNat_one_cons, cutNat_leBytes word,
    cutNat_leBytes owner, cutNat_leBytes group, cutNat_leBytes sacl, cutNat_leBytes dacl, ok_bind,
    ne_eq, not_true_eq_false, if_false, BitVec.ofNat_toNat, BitVec.setWidth_eq]

/-- Whatever is read as a descriptor is long enough for a header, and of the only revision. -/
theorem headerLen_le_of_decode (h : decode b = .ok d) :
    headerLen ≤ b.length ∧ b[0]? = some revision := by
  simp only [decode, throw_error, error_bind, bind_eq_ok, Prod.exists, check_eq_ok,
    cutNat_one_eq_ok_iff, cutNat_eq_ok_iff (n := 2), cutNat_eq_ok_iff (n := 4)] at h
  obtain ⟨-, _, _, ⟨first, rfl, rfl⟩, one, _, _, ⟨_, -, rfl⟩, _, _, ⟨-, rfl⟩, -, _, _, ⟨-, rfl⟩,
    _, _, ⟨-, rfl⟩, _, _, ⟨-, rfl⟩, _, _, ⟨-, rfl⟩, -⟩ := h
  obtain rfl : first = revision := UInt8.toNat_inj.1 (not_not.1 one)
  refine ⟨?_, rfl⟩
  simp only [headerLen, List.length_cons, List.length_append, length_leBytes]
  omega

/-- A descriptor is read exactly from the parts at the offsets in the header. -/
theorem decode_eq_ok_iff : decode b = .ok d ↔
    (headerLen ≤ b.length ∧ b[0]? = some revision ∧
      (controlAt b).getLsbD selfRelativeBit = true) ∧
    ∃ owner group sacl dacl,
      decodePart Sid.cutFront .ownerSid b (numberAt b 4 4) = .ok owner ∧
      decodePart Sid.cutFront .groupSid b (numberAt b 8 4) = .ok group ∧
      decodePart Acl.cutFront .sacl b (numberAt b 12 4) = .ok sacl ∧
      decodePart Acl.cutFront .dacl b (numberAt b 16 4) = .ok dacl ∧
      d = make (controlAt b) owner group sacl dacl := by
  have fits : (offsetsAt b).owner < 256 ^ 4 ∧ (offsetsAt b).group < 256 ^ 4 ∧
      (offsetsAt b).sacl < 256 ^ 4 ∧ (offsetsAt b).dacl < 256 ^ 4 :=
    ⟨numberAt_lt .., numberAt_lt .., numberAt_lt .., numberAt_lt ..⟩
  constructor
  · intro h
    obtain ⟨long, first⟩ := headerLen_le_of_decode h
    obtain ⟨second, hb⟩ := exists_header_append long first
    rw [decode_header hb fits] at h
    simp only [throw_error, error_bind, bind_eq_ok, check_eq_ok, pure_ok, Except.ok.injEq,
      Bool.not_eq_false] at h
    obtain ⟨self, owner, howner, group, hgroup, sacl, hsacl, dacl, hdacl, rfl⟩ := h
    exact ⟨⟨long, first, self⟩, owner, group, sacl, dacl, howner, hgroup, hsacl, hdacl, rfl⟩
  · rintro ⟨⟨long, first, self⟩, owner, group, sacl, dacl, howner, hgroup, hsacl, hdacl, rfl⟩
    obtain ⟨second, hb⟩ := exists_header_append long first
    rw [decode_header hb fits]
    simp only [self, offsetsAt, howner, hgroup, hsacl, hdacl, Bool.true_eq_false, if_false, ok_bind,
      pure_ok]

end AccessControl.Descriptor
