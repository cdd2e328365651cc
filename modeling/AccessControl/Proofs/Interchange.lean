import AccessControl.Interchange
import AccessControl.Proofs.Guid.Text
import AccessControl.Proofs.Sid.Canonical

/-!
# Values in other data formats, written and read

The forms that values have inside other data are held against the wire format. A composite value
has a form exactly when it has bytes, and is read from a form exactly when it is read from the bytes
that the form spells; a number that is no byte spells none (`WireForm.agrees`). Identifiers are read
back from either form, and a bit word is read from a number exactly when it has room for it. All
this is put together in `forms_agree_with_wire`.
-/

namespace AccessControl

variable {α : Type} {b : Bytes} {n : Int}

/-! ### Bytes in documents -/

namespace Document

variable {d : Document} {items : List Document}

/-- A byte as a number. -/
def ofByte (byte : UInt8) : Document := .integer byte.toNat

/-- A byte string as a sequence of numbers. -/
def ofBytes (b : Bytes) : Document := .sequence (b.map ofByte)

/-- A byte is read exactly from the number that it is. -/
theorem toByte_eq_ok_iff {byte : UInt8} : d.toByte = .ok byte ↔ d = ofByte byte := by
  constructor
  · intro h
    cases d with
    | integer value =>
      by_cases inside : 0 ≤ value ∧ value < 256
      · rw [toByte, if_pos inside] at h
        cases h
        have kept : (UInt8.ofNat value.toNat).toNat = value.toNat := by
          rw [UInt8.toNat_ofNat']
          omega
        rw [ofByte, kept, Int.toNat_of_nonneg inside.1]
      · rw [toByte, if_neg inside] at h
        cases h
    | _ => cases h
  · rintro rfl
    have bound : byte.toNat < 256 := byte.toNat_lt
    simp only [ofByte, toByte, Int.toNat_natCast, UInt8.ofNat_toNat]
    exact if_pos (by omega)

theorem toByte_of_outside (h : n < 0 ∨ 256 ≤ n) :
    (integer n).toByte = .error (.wrongValue (.integer n) .byte) := if_neg (by omega)

/-- Bytes are read exactly from the numbers that they are. -/
theorem toBytes_eq_ok_iff : toBytes items = .ok b ↔ items = b.map ofByte := by
  induction items generalizing b with
  | nil => cases b <;> simp [toBytes]
  | cons d ds ih =>
    simp only [toBytes, bind_eq_ok, toByte_eq_ok_iff, ih, pure_ok, Except.ok.injEq]
    constructor
    · rintro ⟨byte, rfl, bytes, rfl, rfl⟩
      rfl
    · intro h
      obtain ⟨byte, bytes, rfl, rfl, rfl⟩ := List.map_eq_cons_iff.1 h.symm
      exact ⟨byte, rfl, bytes, rfl, rfl⟩

/-- The first document that is no byte is reported, whatever follows it. -/
theorem toBytes_of_refused {r : Refusal} (front : Bytes) (h : d.toByte = .error r)
    (back : List Document) : toBytes (front.map ofByte ++ d :: back) = .error r := by
  induction front with
  | nil => simp only [List.map_nil, List.nil_append, toBytes, h, error_bind]
  | cons byte front ih =>
    have first : (ofByte byte).toByte = .ok byte := toByte_eq_ok_iff.2 rfl
    simp only [List.map_cons, List.cons_append, toBytes, first, ok_bind, ih, error_bind]

theorem toBytes_of_mem_outside (h : n < 0 ∨ 256 ≤ n) (mem : integer n ∈ items) :
    ∃ r, toBytes items = .error r := by
  cases read : toBytes items with
  | error r => exact ⟨r, rfl⟩
  | ok b =>
    rw [toBytes_eq_ok_iff.1 read] at mem
    obtain ⟨byte, -, same⟩ := List.mem_map.1 mem
    have bound : byte.toNat < 256 := byte.toNat_lt
    injection same with value
    omega

end Document

/-! ### Composite values -/

namespace WireForm

variable {f : WireForm α} {x : α}

/-- Values are written as the bytes that a writer makes of them, and read as the values that a
reader takes these bytes for. A number outside the bytes is refused wherever it stands, and reported
unless something else is wrong in front of it. -/
structure Agrees (f : WireForm α) (encode : α → Except Error Bytes)
    (decode : Bytes → Except Error α) : Prop where
  writesDocument : ∀ x d,
    f.toDocument x = .ok d ↔ ∃ b, encode x = .ok b ∧ d = Document.ofBytes b
  writesCompact : ∀ x b, f.toCompact x = .ok b ↔ encode x = .ok b
  readsDocument : ∀ items x,
    f.ofDocument (.sequence items) = .ok x ↔
      ∃ b, Document.sequence items = .ofBytes b ∧ decode b = .ok x
  readsCompact : ∀ b x, f.ofCompact b = .ok x ↔ decode b = .ok x
  refuses : ∀ items (n : Int), n < 0 ∨ 256 ≤ n → .integer n ∈ items →
    ∃ r, f.ofDocument (.sequence items) = .error r
  reports : ∀ (front : Bytes) (n : Int) back, n < 0 ∨ 256 ≤ n →
    f.ofDocument (.sequence (front.map Document.ofByte ++ .integer n :: back)) =
      .error (.wrongValue (.integer n) .byte)

theorem ofCompact_eq_ok_iff : f.ofCompact b = .ok x ↔ f.decode b = .ok x := by
  rw [ofCompact]
  cases f.decode b <;> simp

/-- Every form whose values are written and read as wire bytes agrees with its writer and reader. -/
theorem agrees (f : WireForm α) : f.Agrees f.encode f.decode where
  writesDocument x d := by
    simp only [toDocument, bind_eq_ok, pure_ok, Except.ok.injEq, eq_comm (a := d)]
    rfl
  writesCompact x b := Iff.rfl
  readsDocument items x := by
    simp only [ofDocument, bind_eq_ok, Document.toBytes_eq_ok_iff, ofCompact_eq_ok_iff,
      Document.ofBytes, Document.sequence.injEq]
  readsCompact b x := ofCompact_eq_ok_iff
  refuses items n outside mem := by
    obtain ⟨r, refused⟩ := Document.toBytes_of_mem_outside outside mem
    exact ⟨r, by rw [ofDocument, refused, error_bind]⟩
  reports front n back outside := by
    have refused := Document.toBytes_of_refused front (Document.toByte_of_outside outside) back
    rw [ofDocument, refused, error_bind]

end WireForm

/-! ### Identifiers -/

namespace IdentifierForm

/-- An identifier is written as its text in documents and as its bytes in compact data, and is read
back from both. -/
structure RoundTrips (f : IdentifierForm α) (text : α → String) (bytes : α → Bytes) : Prop where
  writesDocument : ∀ x, f.toDocument x = .text (text x)
  readsDocument : ∀ x, f.ofDocument (.text (text x)) = .ok x
  writesCompact : ∀ x, f.toCompact x = bytes x
  readsCompact : ∀ x, f.ofCompact (bytes x) = .ok x

theorem roundTrips {f : IdentifierForm α} (text : ∀ x, f.ofText? (f.text x) = some x)
    (bytes : ∀ x, f.ofBytes? (f.bytes x) = some x) : f.RoundTrips f.text f.bytes where
  writesDocument _ := rfl
  readsDocument x := by simp only [ofDocument, text]
  writesCompact _ := rfl
  readsCompact x := by simp only [ofCompact, bytes]

end IdentifierForm

theorem Sid.form_roundTrips : Sid.form.RoundTrips Sid.text Sid.encode := by
  refine IdentifierForm.roundTrips (fun s => ?_) fun s => ?_
  · have parsed : Sid.parse s.text = .ok s :=
      Sid.parse_of_canonical (Sid.canonical_iff.2 String.toList_ofList)
    simp only [Sid.form, parsed, Except.toOption]
  · have decoded : Sid.decode s.encode = .ok s := Sid.decode_eq_ok_iff.2 rfl
    simp only [Sid.form, decoded, Except.toOption]

theorem Guid.form_roundTrips : Guid.form.RoundTrips Guid.text Guid.bytes := by
  refine IdentifierForm.roundTrips (fun g => ?_) fun g => ?_
  · simp only [Guid.form, Guid.parse_text, Except.toOption]
  · exact dif_pos g.length_bytes

/-! ### Bit words -/

namespace Bitset

variable {k v : Nat} {s : Bitset k}

/-- No bit of a number is lost in a word exactly when the number is below the power of the width. -/
theorem toNat_ofNat_eq_iff : (ofNat k v).toNat = v ↔ v < 2 ^ k := by
  rw [toNat, ofNat, BitVec.toNat_ofNat, Nat.mod_eq_iff_lt (Nat.two_pow_pos k).ne']

/-- A number is read as a word when the word has room for it, and no bit of it is lost. -/
theorem ofWord_eq_ok_iff : ofWord k v = .ok s ↔ v < 2 ^ k ∧ s = ofNat k v := by
  rw [ofWord, ← toNat_ofNat_eq_iff]
  by_cases h : (ofNat k v).toNat = v
  · simp [h, eq_comm]
  · simp [h]

theorem ofDocument_integer (x : UInt32) :
    ofDocument k (.integer x.toNat) = ofWord k x.toNat := by
  have bound : x.toNat < 2 ^ 32 := x.toNat_lt
  simp only [ofDocument, Int.toNat_natCast]
  exact if_pos (by omega)

theorem ofCompact_leBytes (x : UInt32) : ofCompact k (leBytes 4 x.toNat) = ofWord k x.toNat := by
  have read : cutNat (.short .flags 4) 4 (leBytes 4 x.toNat ++ []) = .ok (x.toNat, []) :=
    cutNat_leBytes x.toNat_lt
  rw [List.append_nil] at read
  simp only [ofCompact, read]

end Bitset

/-! ### All of them -/

/-- The five composite values have the forms of their wire bytes and are read from the forms of what
their decoders accept; SIDs and GUIDs are read back from text and from bytes; and a number of 32
bits is read as a word of any width exactly when no bit of it lies beyond the width. -/
theorem forms_agree_with_wire :
    Condition.form.Agrees Condition.encode Condition.decode ∧
      ClaimAttribute.form.Agrees ClaimAttribute.encode ClaimAttribute.decode ∧
      Ace.form.Agrees Ace.encode Ace.decode ∧
      Acl.form.Agrees Acl.encode Acl.decode ∧
      Descriptor.form.Agrees Descriptor.encode Descriptor.decode ∧
      Sid.form.RoundTrips Sid.text Sid.encode ∧
      Guid.form.RoundTrips Guid.text Guid.bytes ∧
      ∀ k (x : UInt32) (s : Bitset k),
        (Bitset.ofDocument k (.integer x.toNat) = .ok s ↔
          x.toNat < 2 ^ k ∧ s = .ofNat k x.toNat) ∧
        (Bitset.ofCompact k (leBytes 4 x.toNat) = .ok s ↔
          x.toNat < 2 ^ k ∧ s = .ofNat k x.toNat) ∧
        (x.toNat < 2 ^ k → (Bitset.ofNat k x.toNat).toNat = x.toNat) := by
  refine ⟨Condition.form.agrees, ClaimAttribute.form.agrees, Ace.form.agrees, Acl.form.agrees,
    Descriptor.form.agrees, Sid.form_roundTrips, Guid.form_roundTrips, fun k x s => ⟨?_, ?_, ?_⟩⟩
  · rw [Bitset.ofDocument_integer, Bitset.ofWord_eq_ok_iff]
  · rw [Bitset.ofCompact_leBytes, Bitset.ofWord_eq_ok_iff]
  · exact Bitset.toNat_ofNat_eq_iff.2

/-- A list without entries, with a byte behind it that is ignored in either form; a sequence with a
number that is no byte; and the least number that is too large for a word of eight bits. -/
theorem forms_agree_with_wire_empty_list :
    let b : Bytes := [2, 0, 8, 0, 0, 0, 0, 0, 7]
    let fits : UInt32 := 0xFF
    let exceeds : UInt32 := 0x100
    Acl.form.ofDocument (.ofBytes b) = .ok .empty ∧ Acl.form.ofCompact b = .ok .empty ∧
      Acl.form.toCompact .empty = .ok (b.take 8) ∧
      Acl.form.ofDocument (.sequence [.integer 2, .integer 256, .null]) =
        .error (.wrongValue (.integer 256) .byte) ∧
      (∀ s, Bitset.ofDocument 8 (.integer exceeds.toNat) ≠ .ok s) ∧
      (∀ s, Bitset.ofCompact 8 (leBytes 4 exceeds.toNat) ≠ .ok s) ∧
      Bitset.ofDocument 8 (.integer fits.toNat) = .ok (.ofNat 8 fits.toNat) ∧
      (Bitset.ofNat 8 fits.toNat).toNat = fits.toNat := by
  intro b fits exceeds
  obtain ⟨-, -, -, lists, -, -, -, words⟩ := forms_agree_with_wire
  have decoded : Acl.decode b = .ok .empty := rfl
  have room : fits.toNat < 2 ^ 8 := by decide
  have tooLarge : ¬ exceeds.toNat < 2 ^ 8 := by decide
  refine ⟨(lists.readsDocument _ _).2 ⟨b, rfl, decoded⟩, (lists.readsCompact _ _).2 decoded,
    (lists.writesCompact _ _).2 rfl, lists.reports [2] 256 [.null] (.inr (by decide)), ?_, ?_,
    (words 8 fits _).1.2 ⟨room, rfl⟩, (words 8 fits (.ofNat 8 fits.toNat)).2.2 room⟩
  · intro s read
    exact tooLarge ((words 8 exceeds s).1.1 read).1
  · intro s read
    exact tooLarge ((words 8 exceeds s).2.1.1 read).1

end AccessControl
