import AccessControl.Acl
import AccessControl.Bitset
import AccessControl.Meaning.Tables

/-!
# Security descriptors

A descriptor has an owner, a group, a list for auditing (SACL) and one for access (DACL), all of
which may be absent, and a control word. Two bits of the word say whether the lists are present
and one that the descriptor is in self-relative form; that they are right is part of the type, and
so is that the word has the table of the names of its bits. Every change of the word or of the lists
goes through `Descriptor.make`, which derives these bits, keeps the others and names them all.
-/

namespace AccessControl

/-- The control bit for the presence of a DACL. -/
def Descriptor.daclPresentBit : Nat := 2

/-- The control bit for the presence of a SACL. -/
def Descriptor.saclPresentBit : Nat := 4

/-- The control bit for the self-relative form. -/
def Descriptor.selfRelativeBit : Nat := 15

/-- A security descriptor. -/
structure Descriptor where
  /-- The control word, with the names of its bits. -/
  controlWord : Bitset 16
  owner : Option Sid
  group : Option Sid
  sacl : Option Acl
  dacl : Option Acl
  dacl_bit : controlWord.bits.getLsbD Descriptor.daclPresentBit = dacl.isSome
  sacl_bit : controlWord.bits.getLsbD Descriptor.saclPresentBit = sacl.isSome
  self_bit : controlWord.bits.getLsbD Descriptor.selfRelativeBit = true
  table_eq : controlWord.table = some Meaning.control

namespace Descriptor

/-- The bits of the control word. -/
abbrev control (d : Descriptor) : BitVec 16 := d.controlWord.bits

theorem eq_of_parts {d e : Descriptor} (control : d.control = e.control)
    (owner : d.owner = e.owner) (group : d.group = e.group) (sacl : d.sacl = e.sacl)
    (dacl : d.dacl = e.dacl) : d = e := by
  have word : d.controlWord = e.controlWord :=
    Bitset.ext control (d.table_eq.trans e.table_eq.symm)
  cases d
  cases e
  cases word
  cases owner
  cases group
  cases sacl
  cases dacl
  rfl

/-- Descriptors are equal when their parts and the bits of their control words are. -/
instance : DecidableEq Descriptor := fun d e =>
  decidable_of_iff
    (d.control = e.control ∧ d.owner = e.owner ∧ d.group = e.group ∧ d.sacl = e.sacl ∧
      d.dacl = e.dacl)
    ⟨fun h => eq_of_parts h.1 h.2.1 h.2.2.1 h.2.2.2.1 h.2.2.2.2, by rintro rfl; simp⟩

/-! ### Control words -/

/-- A control word with the derived bits. -/
def syncedControl (control : BitVec 16) (sacl dacl : Option Acl) : BitVec 16 :=
  putBit (putBit (putBit control daclPresentBit dacl.isSome) saclPresentBit sacl.isSome)
    selfRelativeBit true

/-- A control word with the derived bits and with the names of all bits, or without names should
their table not fit the word. -/
def syncedWord (control : BitVec 16) (sacl dacl : Option Acl) : Bitset 16 :=
  let word : Bitset 16 := ⟨syncedControl control sacl dacl, none, by simp⟩
  match word.withMeaning Meaning.control with
  | .ok named => named
  | .error _ => word

/-- The table fits, so the names are there. -/
theorem syncedWord_eq (control : BitVec 16) (sacl dacl : Option Acl) :
    syncedWord control sacl dacl =
      ⟨syncedControl control sacl dacl, some Meaning.control, by simp; decide⟩ := by
  have fits : Meaning.control.Fits 16 := by decide
  simp only [syncedWord, Bitset.withMeaning_of_fits _ fits]

@[simp] theorem bits_syncedWord (control : BitVec 16) (sacl dacl : Option Acl) :
    (syncedWord control sacl dacl).bits = syncedControl control sacl dacl := by
  rw [syncedWord_eq]

/-- The descriptor of the parts, with the other bits of a control word. -/
def make (control : BitVec 16) (owner group : Option Sid) (sacl dacl : Option Acl) :
    Descriptor where
  controlWord := syncedWord control sacl dacl
  owner
  group
  sacl
  dacl
  dacl_bit := by
    rw [bits_syncedWord]
    simp only [syncedControl, getLsbD_putBit, daclPresentBit, saclPresentBit, selfRelativeBit]; rfl
  sacl_bit := by
    rw [bits_syncedWord]
    simp only [syncedControl, getLsbD_putBit, saclPresentBit, selfRelativeBit]; rfl
  self_bit := by
    rw [bits_syncedWord]
    simp only [syncedControl, getLsbD_putBit, selfRelativeBit]; rfl
  table_eq := by rw [syncedWord_eq]

@[simp] theorem control_make (control : BitVec 16) (owner group : Option Sid)
    (sacl dacl : Option Acl) :
    (make control owner group sacl dacl).control = syncedControl control sacl dacl :=
  bits_syncedWord control sacl dacl

/-- The descriptor in which all is absent. -/
def empty : Descriptor := make 0 none none none none

/-- Whether the descriptor is in self-relative form, which every descriptor is. -/
def isSelfRelative (d : Descriptor) : Bool := d.control.getLsbD selfRelativeBit

/-- The descriptor with the bits of another control word, whatever names they had there. -/
def setControl (d : Descriptor) (word : Bitset 16) : Descriptor :=
  make word.bits d.owner d.group d.sacl d.dacl

/-- The descriptor with another owner, or none. -/
def setOwner (d : Descriptor) (owner : Option Sid) : Descriptor := { d with owner }

/-- The descriptor with another group, or none. -/
def setGroup (d : Descriptor) (group : Option Sid) : Descriptor := { d with group }

/-- The descriptor with another SACL, or none. -/
def setSacl (d : Descriptor) (sacl : Option Acl) : Descriptor :=
  make d.control d.owner d.group sacl d.dacl

/-- The descriptor with another DACL, or none. -/
def setDacl (d : Descriptor) (dacl : Option Acl) : Descriptor :=
  make d.control d.owner d.group d.sacl dacl

/-- The DACL, or an empty one. -/
def daclOrEmpty (d : Descriptor) : Acl := d.dacl.getD .empty

/-- The descriptor with a grant of rights to a SID in its DACL. -/
def addAllowed (d : Descriptor) (sid : Sid) (mask : BitVec 32) : Descriptor :=
  d.setDacl (some (d.daclOrEmpty.addAllowed sid mask))

/-- The descriptor with a denial of rights to a SID in its DACL. -/
def addDenied (d : Descriptor) (sid : Sid) (mask : BitVec 32) : Descriptor :=
  d.setDacl (some (d.daclOrEmpty.addDenied sid mask))

end Descriptor
end AccessControl
