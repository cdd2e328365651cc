import AccessControl.Proofs.Ace.Routes

/-!
# Entries built from drafts

The checks on a draft are spread over the builder, the general constructor and the normal form that
it makes in between. Taken together they are one list of objections, of which the first one that
applies is reported (`AceDraft.objection?`). A draft without objections is built as the entry that
the general constructor makes of the payload of its parts (`AceDraft.Assembles`), and no part is
lost on the way, the application data least of all (`AceDraft.build_iff_no_objection`).
-/

namespace AccessControl

/-! ### Objections -/

namespace AppData

/-- There is no data, or raw data of nothing but zeros. -/
def isBlank : AppData → Bool
  | .none => true
  | .raw bytes => bytes.all (· == 0)
  | _ => false

/-- The number of values of an attribute; other data has none. -/
def valueCount : AppData → Nat
  | .attribute a => a.values.length
  | _ => 0

end AppData

/-- Whether the body of an entry of the type ends with application data. -/
def AceType.hasData (t : AceType) : Bool := t.shape?.any AceShape.hasData

theorem AceType.isKnown_eq (t : AceType) : t.isKnown = t.shape?.isSome := Option.isSome_map.symm

/-- The presence bits are taken from the object types, and the other bits stay as they are. -/
theorem ObjectBody.getLsbD_syncedFlags (o : ObjectBody) (i : Nat) : o.syncedFlags.getLsbD i =
    if i = 0 then o.objectType.isSome
    else if i = 1 then o.inheritedType.isSome
    else o.flags.getLsbD i := by
  simp only [syncedFlags, getLsbD_putBit]
  by_cases first : i = 0
  · simp [first]
  · by_cases second : i = 1
    · simp [second]
    · simp [first, second]

namespace AceDraft

/-- What may be said against a draft, in the order in which it is looked for: the type is not
assigned, the SID or the rights are missing, there is data where the shape has none, an attribute
does not have one value, or there is data of another kind than the type has. -/
def objections (d : AceDraft) : List (Bool × Error) :=
  [(!d.type.isKnown, .payloadShape d.type.code),
    (d.sid.isNone, .missingPart .aceSid),
    (d.mask.isNone, .missingPart .aceMask),
    (!d.type.hasData && !d.data.isNone, .payloadShape d.type.code),
    (d.type.dataKind == .attribute && d.data.kind == .attribute && d.data.valueCount != 1,
      .tooManyValues d.data.valueCount),
    (!d.data.isBlank && d.data.kind != d.type.dataKind, .payloadShape d.type.code)]

/-- The first objection that applies. -/
def objection? (d : AceDraft) : Option Error := (d.objections.find? (·.1)).map (·.2)

variable {d : AceDraft} {e : Error} {a : Ace} {shape : AceShape} {sid : Sid} {mask : BitVec 32}

theorem find?_cons_map (c : Bool) (e : Error) (l : List (Bool × Error)) :
    (((c, e) :: l).find? (·.1)).map (·.2) = if c then some e else (l.find? (·.1)).map (·.2) := by
  cases c <;> rfl

/-- The objections to data are those of the general constructor to its normal form. -/
theorem objection?_data (data : AppData) (type : AceType) :
    (if type.dataKind == .attribute && data.kind == .attribute && data.valueCount != 1
        then some (.tooManyValues data.valueCount)
      else if !data.isBlank && data.kind != type.dataKind then some (.payloadShape type.code)
      else none) =
    if data.normalized.Fits type.dataKind then none
      else some (data.normalized.refusal type) := by
  cases data with
  | none => simp [AppData.normalized, AppData.isBlank, AppData.Fits, AppData.kind]
  | condition c =>
    cases hkind : type.dataKind <;>
      simp [AppData.normalized, AppData.isBlank, AppData.Fits, AppData.kind, AppData.refusal]
  | «attribute» a =>
    cases hkind : type.dataKind <;>
      simp [AppData.normalized, AppData.isBlank, AppData.Fits, AppData.kind, AppData.refusal,
        AppData.valueCount, hkind]
  | raw bytes =>
    have same : bytes.all (· == 0) = allZero bytes := rfl
    cases blank : allZero bytes with
    | true => simp [AppData.normalized, AppData.isBlank, AppData.Fits, AppData.kind, same, blank]
    | false =>
      cases hkind : type.dataKind <;>
        simp [AppData.normalized, AppData.isBlank, AppData.Fits, AppData.kind, AppData.refusal,
          same, blank]

/-- Once the parts are there, only the data is left to object to. -/
theorem objection?_of_parts (hshape : d.type.shape? = some shape) (hsid : d.sid = some sid)
    (hmask : d.mask = some mask) : d.objection? =
      if !shape.hasData && !d.data.isNone then some (.payloadShape d.type.code)
      else if d.data.normalized.Fits d.type.dataKind then none
      else some (d.data.normalized.refusal d.type) := by
  have known : d.type.isKnown = true := by rw [AceType.isKnown_eq, hshape]; rfl
  have hasData : d.type.hasData = shape.hasData := by rw [AceType.hasData, hshape]; rfl
  rw [← objection?_data]
  simp only [objection?, objections, find?_cons_map, known, hsid, hmask, hasData, Bool.not_true,
    Option.isNone_some, Bool.false_eq_true, if_false, List.find?_nil, Option.map_none]

/-! ### Building -/

/-- The payload has the shape and all the parts that belong to it: the rights and the SID, in an
object shape the object types and their flags, and the application data where the shape has any. -/
inductive Assembles (d : AceDraft) (sid : Sid) (mask : BitVec 32) : AceShape → Payload → Prop
  | basic : Assembles d sid mask .basic (.basic ⟨mask, sid⟩)
  | object : Assembles d sid mask .object
    (.object ⟨mask, d.objectFlags, d.objectType, d.inheritedType, sid⟩)
  | objectWithData : Assembles d sid mask .objectWithData
    (.objectWithData ⟨mask, d.objectFlags, d.objectType, d.inheritedType, sid⟩ d.data)
  | basicWithData : Assembles d sid mask .basicWithData (.basicWithData ⟨mask, sid⟩ d.data)

theorem assembles_payload (d : AceDraft) (shape : AceShape) (sid : Sid) (mask : BitVec 32) :
    d.Assembles sid mask shape (d.payload shape sid mask) := by
  cases shape with
  | basic => exact .basic
  | object => exact .object
  | objectWithData => exact .objectWithData
  | basicWithData => exact .basicWithData

theorem shape?_payload (d : AceDraft) (shape : AceShape) (sid : Sid) (mask : BitVec 32) :
    (d.payload shape sid mask).shape? = some shape := by
  cases shape <;> rfl

/-- The payload has the data of the draft, unless it has no room for it. -/
theorem data_payload (room : ¬ (!shape.hasData && !d.data.isNone) = true) (sid : Sid)
    (mask : BitVec 32) : (d.payload shape sid mask).normalized.data = d.data.normalized := by
  cases shape with
  | objectWithData | basicWithData => rfl
  | basic | object =>
    cases hdata : d.data with
    | none => rfl
    | _ =>
      rw [hdata] at room
      exact absurd rfl room

/-- Data in a shape that has none is refused before a payload is made. -/
theorem build_of_parts (hshape : d.type.shape? = some shape) (hsid : d.sid = some sid)
    (hmask : d.mask = some mask) : d.build =
      if !shape.hasData && !d.data.isNone then .error (.payloadShape d.type.code)
      else Ace.make d.type d.flags (d.payload shape sid mask) := by
  simp only [build, hshape, hsid, hmask]

theorem build_eq_error_iff : d.build = .error e ↔ d.objection? = some e := by
  cases hshape : d.type.shape? with
  | none =>
    have unknown : d.type.isKnown = false := by rw [AceType.isKnown_eq, hshape]; rfl
    simp [build, hshape, objection?, objections, unknown]
  | some shape =>
    have known : d.type.isKnown = true := by rw [AceType.isKnown_eq, hshape]; rfl
    cases hsid : d.sid with
    | none => simp [build, hshape, hsid, objection?, objections, known]
    | some sid =>
      cases hmask : d.mask with
      | none => simp [build, hshape, hsid, hmask, objection?, objections, known]
      | some mask =>
        rw [build_of_parts hshape hsid hmask, objection?_of_parts hshape hsid hmask]
        split
        · simp
        next room =>
          have same : (d.payload shape sid mask).shape? = d.type.shape? := by
            rw [shape?_payload, hshape]
          rw [Ace.make_eq_error_iff same, data_payload room]
          split
          next fits => simp [fits]
          next misfit => simp [misfit]

theorem object?_payload (hobject : shape.isObject = true) (d : AceDraft) (sid : Sid)
    (mask : BitVec 32) : (d.payload shape sid mask).normalized.object? =
      some (ObjectBody.normalized ⟨mask, d.objectFlags, d.objectType, d.inheritedType, sid⟩) := by
  cases shape with
  | object | objectWithData => rfl
  | basic | basicWithData => cases hobject

/-- A draft without objections has all its parts, its shape has room for its data, and the general
constructor makes an entry of them. -/
theorem exists_make_of_no_objection (h : d.objection? = none) : ∃ shape sid mask a,
    (d.type.shape? = some shape ∧ d.sid = some sid ∧ d.mask = some mask) ∧
      ¬ (!shape.hasData && !d.data.isNone) = true ∧
      d.build = .ok a ∧ Ace.make d.type d.flags (d.payload shape sid mask) = .ok a := by
  cases hbuild : d.build with
  | error e =>
    rw [build_eq_error_iff.1 hbuild] at h
    cases h
  | ok a =>
    have built := hbuild
    unfold build at built
    split at built
    · cases built
    · cases built
    · cases built
    next shape sid mask hshape hsid hmask =>
      obtain ⟨room, made⟩ := check_eq_ok.1 built
      exact ⟨shape, sid, mask, a, ⟨hshape, hsid, hmask⟩, room, rfl, made⟩

/-- A draft is refused with the first objection that applies to it. Without any it is built as the
entry that the general constructor makes of the payload of its shape with all the parts of the
draft. This entry has the type, the flags, the rights and the SID of the draft, the application
data as it is read back, and the object types and the object flags, but for the presence bits. -/
theorem build_iff_no_objection (d : AceDraft) :
    (∀ e, d.build = .error e ↔ d.objection? = some e) ∧
    (d.objection? = none → ∃ shape sid mask p a,
      (d.type.shape? = some shape ∧ d.sid = some sid ∧ d.mask = some mask) ∧
      d.Assembles sid mask shape p ∧
      d.build = .ok a ∧ Ace.make d.type d.flags p = .ok a ∧
      (a.type = d.type ∧ a.flags = d.flags ∧ a.payload.shape? = some shape) ∧
      a.sid? = some sid ∧ a.mask? = some mask ∧ a.payload.data = d.data.normalized ∧
      (shape.isObject = true → ∃ o, a.payload.object? = some o ∧
        o.objectType = d.objectType ∧ o.inheritedType = d.inheritedType ∧
        ∀ i, o.flags.getLsbD i =
          if i = 0 then d.objectType.isSome
          else if i = 1 then d.inheritedType.isSome
          else d.objectFlags.getLsbD i)) := by
  refine ⟨fun e => build_eq_error_iff, fun h => ?_⟩
  obtain ⟨shape, sid, mask, a, parts, room, built, made⟩ := exists_make_of_no_objection h
  obtain ⟨htype, hflags, hpayload, -, -⟩ := Ace.make_eq_ok_iff.1 made
  refine ⟨shape, sid, mask, _, a, parts, d.assembles_payload shape sid mask, built, made,
    ⟨htype, hflags, ?_⟩, ?_, ?_, ?_, ?_⟩
  · rw [hpayload, Payload.shape?_normalized, shape?_payload]
  · rw [Ace.sid?, hpayload]
    cases shape <;> rfl
  · rw [Ace.mask?, hpayload]
    cases shape <;> rfl
  · rw [hpayload, data_payload room]
  · intro hobject
    rw [hpayload, object?_payload hobject]
    exact ⟨_, rfl, rfl, rfl, ObjectBody.getLsbD_syncedFlags _⟩

/-- The first draft has blank data and object flags that contradict its object types. The data of
the second is as blank, but its shape has no room for any. The third has two values, which is not
looked at before the rights are there. The condition of the fourth is kept as it is. -/
theorem build_iff_no_objection_blank :
    let everyone := WellKnown.everyone.toSid
    let g : Guid := ⟨zeros 16, length_zeros 16⟩
    let audit : AceDraft := ⟨AceKind.systemAuditObject.type, 0x40, some 1, some everyone,
      0xFFFFFFFD, none, some g, .raw [0, 0, 0]⟩
    let grant : AceDraft := ⟨AceKind.accessAllowed.type, 0, some 1, some everyone, 0, none, none,
      .raw [0, 0, 0]⟩
    let two : ClaimAttribute := ⟨"A", .boolean, 0, [.boolean true, .boolean false], by decide⟩
    let label : AceDraft := ⟨AceKind.systemResourceAttribute.type, 0, none, some everyone, 0, none,
      none, .attribute two⟩
    let condition := Condition.sid everyone
    let guarded : AceDraft := ⟨AceKind.accessDeniedCallback.type, 0, some 1, some everyone, 0, none,
      none, .condition condition⟩
    audit.objection? = none ∧
      (∃ a o, audit.build = .ok a ∧ a.sid? = some everyone ∧ a.mask? = some 1 ∧
        a.payload.data = .none ∧
        a.payload.object? = some o ∧ o.objectType = none ∧ o.inheritedType = some g ∧
        o.flags.getLsbD 0 = false ∧ o.flags.getLsbD 1 = true ∧ o.flags.getLsbD 31 = true) ∧
      grant.build = .error (.payloadShape 0x00) ∧
      label.build = .error (.missingPart .aceMask) ∧
      AceDraft.build { label with mask := some 0 } = .error (.tooManyValues 2) ∧
      guarded.objection? = none ∧
      ∃ a, guarded.build = .ok a ∧ a.payload.data = .condition condition := by
  intro everyone g audit grant two label condition guarded
  have free : audit.objection? = none := rfl
  have free' : guarded.objection? = none := rfl
  obtain ⟨-, made⟩ := build_iff_no_objection audit
  obtain ⟨-, made'⟩ := build_iff_no_objection guarded
  obtain ⟨shape, sid, mask, -, a, ⟨hshape, hsid, hmask⟩, -, built, -, -, trustee, rights, data,
    object⟩ := made free
  obtain ⟨-, -, -, -, a', -, -, built', -, -, -, -, data', -⟩ := made' free'
  cases hshape
  cases hsid
  cases hmask
  obtain ⟨o, hobject, hg, hi, flags⟩ := object rfl
  have kept : audit.objectFlags.getLsbD 31 = true := by decide
  obtain ⟨refusedGrant, -⟩ := build_iff_no_objection grant
  obtain ⟨refusedLabel, -⟩ := build_iff_no_objection label
  obtain ⟨refusedTwo, -⟩ := build_iff_no_objection { label with mask := some 0 }
  have flag : o.flags.getLsbD 31 = true := (flags 31).trans kept
  exact ⟨free, ⟨a, o, built, trustee, rights, data, hobject, hg, hi, flags 0, flags 1, flag⟩,
    (refusedGrant _).2 rfl, (refusedLabel _).2 rfl, (refusedTwo _).2 rfl, free', a', built', data'⟩

end AceDraft
end AccessControl
