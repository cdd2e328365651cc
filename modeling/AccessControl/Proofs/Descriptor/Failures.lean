import AccessControl.Descriptor.Wire
import AccessControl.Proofs.Ace.Failures

/-!
# Causes that no byte string has

Several causes are checked for again where a byte string is read, although nothing that was read can
have them. No descriptor, list or entry is refused for one of these; an entry whose payload was read
is refused for the number of its values alone; and no subtraction of sizes or places takes more than
there is (`no_foreign_cause_of_decode`). The last is said of the readers with their subtraction left
open: whatever it gives where it would go below zero, nothing changes.
-/

namespace AccessControl

variable {len : Nat} {b : Bytes}

/-! ### Lists -/

namespace Acl

theorem yields_decodeEntries (n : Nat) (within : b.length ≤ len) :
    Yields len (fun _ => True) (decodeEntries n b) := by
  induction n generalizing b with
  | zero => trivial
  | succ n ih =>
    refine (Ace.consumes_cutFront len b within).andThen fun a r hr => ?_
    exact (ih (Nat.le_trans hr within)).bind fun _ _ => trivial

theorem consumes_cutFront (len : Nat) : Consumes len cutFront := by
  intro b within
  have missing := Error.credible_shortRecord within .aclHeader headerLen
  simp only [cutFront, throw_error, error_bind]
  refine (yields_cutNat fun _ => missing _).andThen fun revision r hr => ?_
  refine yields_check (fun _ => id) fun _ => ?_
  refine (yields_cutNat fun _ => missing _).andThen fun _ s hs => ?_
  refine (yields_cutNat fun _ => missing _).andThen fun size t ht => ?_
  refine yields_check (fun _ => id) fun _ => ?_
  refine (yields_cutNat fun _ => missing _).andThen fun count u hu => ?_
  refine (yields_cutNat fun _ => missing _).andThen fun _ v hv => ?_
  dsimp only at hr hs ht hu hv ⊢
  refine (yields_cut (Error.credible_short (by omega))).andThen fun body rest hbody => ?_
  dsimp only at hbody ⊢
  refine (yields_decodeEntries count (by omega)).bind fun entries _ => ?_
  change rest.length ≤ b.length
  omega

theorem yields_decode (within : b.length ≤ len) : Yields len (fun _ => True) (decode b) :=
  (consumes_cutFront len b within).bind fun _ _ => trivial

end Acl

/-! ### Descriptors -/

namespace Descriptor

/-- A part is read from its offset on, so it is given no more bytes than the whole has. -/
theorem yields_decodePart {α : Type} {decode : Bytes → Except Error (α × Bytes)}
    (consumes : Consumes len decode) (within : b.length ≤ len) (item : Item) (offset : Nat) :
    Yields len (fun _ => True) (decodePart decode item b offset) := by
  unfold decodePart
  split
  · trivial
  · refine (yields_cut (Error.credible_short within)).andThen fun _ block hblock => ?_
    dsimp only at hblock ⊢
    exact (consumes block (by omega)).bind fun _ _ => trivial

theorem yields_decode (within : b.length ≤ len) : Yields len (fun _ => True) (decode b) := by
  have missing := Error.credible_shortRecord within .descriptorHeader headerLen
  have sid := yields_decodePart (Sid.consumes_cutFront len) within
  have list := yields_decodePart (Acl.consumes_cutFront len) within
  simp only [decode, throw_error, error_bind]
  refine yields_check (fun _ => id) fun _ => ?_
  refine (yields_cutNat fun _ => missing _).andThen fun rev _ _ => ?_
  refine yields_check (fun _ => id) fun _ => ?_
  refine (yields_cutNat fun _ => missing _).bind fun _ _ => ?_
  refine (yields_cutNat fun _ => missing _).andThen fun word _ _ => ?_
  refine yields_check (fun _ => id) fun _ => ?_
  refine (yields_cutNat fun _ => missing _).andThen fun ownerOffset _ _ => ?_
  refine (yields_cutNat fun _ => missing _).andThen fun groupOffset _ _ => ?_
  refine (yields_cutNat fun _ => missing _).andThen fun saclOffset _ _ => ?_
  refine (yields_cutNat fun _ => missing _).andThen fun daclOffset _ _ => ?_
  refine (sid .ownerSid ownerOffset).bind fun owner _ => ?_
  refine (sid .groupSid groupOffset).bind fun group _ => ?_
  refine (list .sacl saclOffset).bind fun sacl _ => ?_
  exact (list .dacl daclOffset).bind fun dacl _ => trivial

end Descriptor

/-! ### Subtractions -/

section Subtraction

variable (sub : Nat → Nat → Except Error Nat)

/-- The reader of claim attributes with its subtraction left open. How far a reader has come is the
difference of the bytes that it had and those that are left. The values may end inside the header,
in which case nothing lies beyond it; that difference is meant to stop at zero. -/
def ClaimAttribute.cutFrontBy (b : Bytes) : Except Error (ClaimAttribute × Bytes) := do
  let short := Error.shortRecord .claimAttribute headerLen b
  let (nameOffset, r) ← cutNat short 4 b
  let (code, r) ← cutNat short 2 r
  let (_, r) ← cutNat short 2 r
  let (flags, r) ← cutNat short 4 r
  let (count, r) ← cutNat short 4 r
  let (valuesOffset, afterHeader) ← cutNat short 4 r
  match ClaimType.ofCode? (.ofNat code) with
  | none => throw (.unknownClaimType (.ofNat code))
  | some type =>
    let (_, atName) ← cut (.short .claimName nameOffset) nameOffset b
    let (name, _) ← Utf16.decodeTerminated atName
    let (_, atValues) ← cut (.short .claimValues valuesOffset) valuesOffset b
    let (values, afterValues) ← ClaimValue.cutMany type count atValues
    let headerRead ← sub b.length afterHeader.length
    let valuesEnd ← sub b.length afterValues.length
    let beyond := valuesEnd - headerRead
    let (_, rest) ← cut (.short .claimAttribute beyond) beyond (b.drop headerLen)
    return (← make name type (.ofNat 32 flags) values, rest)

/-- The reader of entries with its subtraction left open. -/
def Ace.cutFrontBy (b : Bytes) : Except Error (Ace × Bytes) := do
  let short := Error.shortRecord .aceHeader headerLen b
  let (code, r) ← cutNat short 1 b
  let (flags, r) ← cutNat short 1 r
  let (size, r) ← cutNat short 2 r
  if size < headerLen then throw (.invalidSize .ace size)
  let bodyLen ← sub size headerLen
  let (body, rest) ← cut (fun _ => .truncatedAce size b.length) bodyLen r
  let type : AceType := ⟨.ofNat code⟩
  let payload ← Payload.decode type.shape? type.dataKind body
  return (← make type (.ofNat 8 flags) payload, rest)

/-- The reader of lists with its subtraction left open. -/
def Acl.cutFrontBy (b : Bytes) : Except Error (Acl × Bytes) := do
  let short := Error.shortRecord .aclHeader headerLen b
  let (revision, r) ← cutNat short 1 b
  if revision < leastRevision ∨ greatestRevision < revision then
    throw (.invalidRevision .acl (.ofNat revision))
  let (_, r) ← cutNat short 1 r
  let (size, r) ← cutNat short 2 r
  if size < headerLen then throw (.invalidSize .acl size)
  let (count, r) ← cutNat short 2 r
  let (_, r) ← cutNat short 2 r
  let bodyLen ← sub size headerLen
  let (body, rest) ← cut (.short .acl bodyLen) bodyLen r
  return (⟨← decodeEntries count body⟩, rest)

variable {sub} (subtracts : ∀ m n, n ≤ m → sub m n = .ok (m - n))

include subtracts

theorem ClaimAttribute.cutFrontBy_eq (b : Bytes) : cutFrontBy sub b = cutFront b := by
  have missing := Error.credible_shortRecord (Nat.le_refl b.length) .claimAttribute headerLen
  unfold cutFrontBy cutFront
  refine (yields_cutNat fun _ => missing _).andThen_congr fun nameOffset r hr => ?_
  refine (yields_cutNat fun _ => missing _).andThen_congr fun code s hs => ?_
  refine (yields_cutNat fun _ => missing _).andThen_congr fun _ t ht => ?_
  refine (yields_cutNat fun _ => missing _).andThen_congr fun flags u hu => ?_
  refine (yields_cutNat fun _ => missing _).andThen_congr fun count v hv => ?_
  refine (yields_cutNat fun _ => missing _).andThen_congr fun valuesOffset w hw => ?_
  dsimp only at hr hs ht hu hv hw ⊢
  have header : b.length - w.length = headerLen := by
    change b.length - w.length = 20
    omega
  cases ClaimType.ofCode? (.ofNat code) with
  | none => rfl
  | some type =>
    refine andThen_congr fun _ atName => andThen_congr fun name _ => ?_
    refine (yields_cut (Error.credible_short (Nat.le_refl b.length))).andThen_congr
      fun _ atValues hat => ?_
    have within : atValues.length ≤ b.length := Nat.le.intro hat.2
    refine (ClaimValue.consumes_cutMany _ type count _ within).andThen_congr fun values x hx => ?_
    dsimp only at hx ⊢
    rw [subtracts _ w.length (by omega), subtracts _ x.length (by omega), header]
    rfl

theorem Ace.cutFrontBy_eq (b : Bytes) : cutFrontBy sub b = cutFront b := by
  unfold cutFrontBy cutFront
  refine andThen_congr fun code _ => andThen_congr fun flags _ => andThen_congr fun size _ => ?_
  by_cases short : size < headerLen
  · simp only [if_pos short]
    rfl
  · dsimp only
    rw [if_neg short, if_neg short, subtracts size headerLen (Nat.not_lt.1 short)]
    rfl

theorem Acl.cutFrontBy_eq (b : Bytes) : cutFrontBy sub b = cutFront b := by
  unfold cutFrontBy cutFront
  refine andThen_congr fun revision _ => ?_
  by_cases unsupported : revision < leastRevision ∨ greatestRevision < revision
  · simp only [if_pos unsupported]
    rfl
  · dsimp only
    rw [if_neg unsupported, if_neg unsupported]
    refine andThen_congr fun _ _ => andThen_congr fun size _ => ?_
    by_cases short : size < headerLen
    · simp only [if_pos short]
      rfl
    · dsimp only
      rw [if_neg short, if_neg short]
      refine andThen_congr fun count _ => andThen_congr fun _ _ => ?_
      rw [subtracts size headerLen (Nat.not_lt.1 short)]
      rfl

end Subtraction

/-! ### What is never reached -/

/-- No byte string is refused as a descriptor, a list or an entry for a cause that is foreign to
reading. The constructor has nothing to object to a payload that was read for its type, except that
an attribute has another number of values than one. A subtraction that only works where it does not
go below zero gives the same readers. -/
theorem no_foreign_cause_of_decode :
    (∀ b e, Descriptor.decode b = .error e ∨ Acl.decode b = .error e ∨ Ace.decode b = .error e →
      ¬ e.Foreign) ∧
    (∀ (type : AceType) flags body p e,
      Payload.decode type.shape? type.dataKind body = .ok p → Ace.make type flags p = .error e →
      ∃ a, p.data = .attribute a ∧ a.values.length ≠ 1 ∧ e = .tooManyValues a.values.length) ∧
    ∀ sub : Nat → Nat → Except Error Nat, (∀ m n, n ≤ m → sub m n = .ok (m - n)) → ∀ b,
      ClaimAttribute.cutFrontBy sub b = ClaimAttribute.cutFront b ∧
        Ace.cutFrontBy sub b = Ace.cutFront b ∧ Acl.cutFrontBy sub b = Acl.cutFront b := by
  refine ⟨?_, ?_, ?_⟩
  · intro b e failed
    have credible : e.Credible b.length := by
      rcases failed with h | h | h
      · have yields := Descriptor.yields_decode (Nat.le_refl b.length)
        rwa [h] at yields
      · have yields := Acl.yields_decode (Nat.le_refl b.length)
        rwa [h] at yields
      · have yields := Ace.yields_decode (Nat.le_refl b.length)
        rwa [h] at yields
    exact credible.not_foreign
  · intro type flags body p e read refused
    have yields := Payload.yields_decode type (Nat.le_refl body.length)
    rw [read] at yields
    exact Ace.tooManyValues_of_make yields.1 yields.2 refused
  · intro sub subtracts b
    exact ⟨ClaimAttribute.cutFrontBy_eq subtracts b, Ace.cutFrontBy_eq subtracts b,
      Acl.cutFrontBy_eq subtracts b⟩

/-- A resource attribute with two values, which is read and then refused for their number. The
subtraction fails where it would go below zero, and reads an entry without a body. -/
theorem no_foreign_cause_of_decode_two_values :
    let type := AceKind.systemResourceAttribute.type
    let body : Bytes := [0, 0, 0, 0, 1, 1, 0, 0, 0, 0, 0, 1, 0, 0, 0, 0] ++
      [20, 0, 0, 0, 6, 0, 0, 0, 0, 0, 0, 0, 2, 0, 0, 0, 24, 0, 0, 0, 0x41, 0, 0, 0] ++
      [1, 0, 0, 0, 0, 0, 0, 0] ++ [0, 0, 0, 0, 0, 0, 0, 0]
    let two : ClaimAttribute := ⟨"A", .boolean, 0, [.boolean true, .boolean false], by decide⟩
    let p : Payload := .basicWithData ⟨0, WellKnown.everyone.toSid⟩ (.attribute two)
    let sub (m n : Nat) : Except Error Nat := if n ≤ m then .ok (m - n) else .error .missingControl
    Payload.decode type.shape? type.dataKind body = .ok p ∧
      Ace.make type 0 p = .error (.tooManyValues 2) ∧
      Ace.decode (0x12 :: 0 :: leBytes 2 60 ++ body) = .error (.tooManyValues 2) ∧
      ¬ (Error.tooManyValues 2).Foreign ∧
      (∃ a, p.data = .attribute a ∧ a.values.length ≠ 1) ∧
      sub 3 4 = .error .missingControl ∧
      (∃ a, Ace.cutFrontBy sub [0xFF, 0, 4, 0] = .ok (a, [])) := by
  intro type body two p sub
  obtain ⟨causes, payloads, readers⟩ := no_foreign_cause_of_decode
  have read : Payload.decode type.shape? type.dataKind body = .ok p := rfl
  have refused : Ace.make type 0 p = .error (.tooManyValues 2) := rfl
  have failed : Ace.decode (0x12 :: 0 :: leBytes 2 60 ++ body) = .error (.tooManyValues 2) := by
    decide +kernel
  obtain ⟨a, hdata, many, -⟩ := payloads type 0 body p _ read refused
  have subtracts (m n : Nat) (h : n ≤ m) : sub m n = .ok (m - n) := if_pos h
  have native : ¬ (Error.tooManyValues 2).Foreign := causes _ _ (.inr (.inr failed))
  have below : sub 3 4 = .error .missingControl := rfl
  have bodyless : ∃ a, Ace.cutFrontBy sub [0xFF, 0, 4, 0] = .ok (a, []) := by
    rw [(readers sub subtracts [0xFF, 0, 4, 0]).2.1]
    exact ⟨_, rfl⟩
  exact ⟨read, refused, failed, native, ⟨a, hdata, many⟩, below, bodyless⟩

end AccessControl
