import AccessControl.Ace.Builder
import AccessControl.Proofs.Ace.Wire

/-!
# Entries by all routes

An entry comes from one of eight constructors, some of which take their parts unchecked, one reads
bytes that may hold anything, and its flags may be replaced later on. All of them amount to the
general constructor on some parts (`Route.exists_make`), which gives payloads that agree with their
type and with themselves (`coherent_of_make`), and takes such payloads as they are
(`make_of_coherent`). So these are the payloads that entries have (`coherent_iff_exists_route`).
-/

namespace AccessControl

/-! ### Coherent payloads -/

/-- The kind of application data. -/
def AppData.kind : AppData → DataKind
  | .none => .none
  | .condition _ => .condition
  | .attribute _ => .attribute
  | .raw _ => .raw

/-- What an entry promises about its payload: the shape and the data are of its type, an attribute
has one value, raw data is not all zero and fills groups of four bytes, the presence bits say which
object types there are, and the body of an unassigned type fills groups of four bytes. -/
structure Payload.Coherent (type : AceType) (p : Payload) : Prop where
  shape : p.shape? = type.shape?
  kind : ∀ d, p.data? = some d → d = .none ∨ d.kind = type.dataKind
  single : ∀ a, p.data? = some (.attribute a) → ∃ v, a.values = [v]
  rawData : ∀ bytes, p.data? = some (.raw bytes) → (∃ x ∈ bytes, x ≠ 0) ∧ 4 ∣ bytes.length
  presence : ∀ o, p.object? = some o →
    o.flags.getLsbD 0 = o.objectType.isSome ∧ o.flags.getLsbD 1 = o.inheritedType.isSome
  body : ∀ bytes, p = .unknown bytes → 4 ∣ bytes.length

theorem allZero_eq_false_iff {b : Bytes} : allZero b = false ↔ ∃ x ∈ b, x ≠ 0 := by
  simp [allZero]

namespace AppData

variable {d : AppData}

theorem fits_iff {kind : DataKind} : d.Fits kind ↔
    (d = .none ∨ d.kind = kind) ∧ ∀ a, d = .attribute a → ∃ v, a.values = [v] := by
  cases d <;> cases kind <;> simp [Fits, AppData.kind, List.length_eq_one_iff]

theorem isNormal_iff : d.IsNormal ↔
    ∀ bytes, d = .raw bytes → (∃ x ∈ bytes, x ≠ 0) ∧ 4 ∣ bytes.length := by
  cases d with
  | raw bytes => simp [IsNormal, allZero_eq_false_iff]
  | _ => simp [IsNormal]

end AppData

namespace Payload

variable {type : AceType} {p : Payload}

theorem fits_data_iff {kind : DataKind} : p.data.Fits kind ↔
    (∀ d, p.data? = some d → d = .none ∨ d.kind = kind) ∧
      ∀ a, p.data? = some (.attribute a) → ∃ v, a.values = [v] := by
  rw [data]
  cases p.data? with
  | none => simp [AppData.Fits]
  | some d =>
    simp only [Option.getD_some, AppData.fits_iff, Option.some.injEq]
    constructor
    · rintro ⟨hkind, single⟩
      exact ⟨fun e he => he ▸ hkind, fun a ha => single a ha⟩
    · rintro ⟨hkind, single⟩
      exact ⟨hkind d rfl, fun a ha => single a ha⟩

theorem isNormal_iff : p.IsNormal ↔
    (∀ bytes, p.data? = some (.raw bytes) → (∃ x ∈ bytes, x ≠ 0) ∧ 4 ∣ bytes.length) ∧
      (∀ o, p.object? = some o → o.IsNormal) ∧ ∀ bytes, p = .unknown bytes → 4 ∣ bytes.length := by
  cases p with
  | basic => simp [IsNormal, data?, object?]
  | object o => simp [IsNormal, data?, object?]
  | unknown body => simp [IsNormal, data?, object?]
  | objectWithData o d => simp [IsNormal, data?, object?, AppData.isNormal_iff, and_comm]
  | basicWithData x d => simp [IsNormal, data?, object?, AppData.isNormal_iff]

/-- A payload is coherent with a type exactly when its shape and its data belong to the type and it
is in normal form. -/
theorem coherent_iff :
    p.Coherent type ↔ p.shape? = type.shape? ∧ p.data.Fits type.dataKind ∧ p.IsNormal := by
  rw [fits_data_iff, isNormal_iff]
  constructor
  · rintro ⟨shape, kind, single, rawData, presence, body⟩
    exact ⟨shape, ⟨kind, single⟩, rawData, presence, body⟩
  · rintro ⟨shape, ⟨kind, single⟩, rawData, presence, body⟩
    exact ⟨shape, kind, single, rawData, presence, body⟩

end Payload

namespace Ace

variable {a : Ace} {type : AceType} {flags : BitVec 8} {p : Payload}

/-! ### The general constructor -/

/-- Whatever payload the constructor is given, the one that it stores is coherent with the type. -/
theorem coherent_of_make (h : make type flags p = .ok a) : a.payload.Coherent a.type := by
  obtain ⟨rfl, -, hpayload, shape, fits⟩ := make_eq_ok_iff.1 h
  rw [hpayload]
  exact Payload.coherent_iff.2 ⟨p.shape?_normalized.trans shape, fits, p.normalized_isNormal⟩

/-- A payload that is coherent with a type is taken as it is. -/
theorem make_of_coherent (h : p.Coherent type) (flags : BitVec 8) :
    ∃ a, make type flags p = .ok a ∧ a.type = type ∧ a.flags = flags ∧ a.payload = p := by
  obtain ⟨shape, fits, normal⟩ := Payload.coherent_iff.1 h
  exact ⟨_, make_self ⟨type, flags, p, ⟨shape, fits, normal⟩⟩, rfl, rfl, rfl⟩

/-! ### Routes -/

/-- The constructors of entries, each with what it is given. -/
inductive Route where
  | parts (type : AceType) (flags : BitVec 8) (payload : Payload)
  | allowed (sid : Sid) (mask : BitVec 32)
  | denied (sid : Sid) (mask : BitVec 32)
  | mandatoryLabel (level : Sid) (policy : BitVec 32)
  | allowedIf (sid : Sid) (mask : BitVec 32) (condition : Condition)
  | resourceAttribute (claim : ClaimAttribute)
  | draft (d : AceDraft)
  | bytes (b : Bytes)

/-- What comes out of a constructor. -/
def Route.ace : Route → Except Error Ace
  | .parts type flags payload => make type flags payload
  | .allowed sid mask => .ok (.allowed sid mask)
  | .denied sid mask => .ok (.denied sid mask)
  | .mandatoryLabel level policy => .ok (.mandatoryLabel level policy)
  | .allowedIf sid mask condition => .ok (.allowedIf sid mask condition)
  | .resourceAttribute claim => Ace.resourceAttribute claim
  | .draft d => d.build
  | .bytes b => decode b

theorem exists_make_of_build {d : AceDraft} (h : d.build = .ok a) :
    ∃ p, make d.type d.flags p = .ok a := by
  unfold AceDraft.build at h
  split at h
  · cases h
  · cases h
  · cases h
  · split at h
    · cases h
    · exact ⟨_, h⟩

theorem exists_make_of_decode {b : Bytes} (h : decode b = .ok a) :
    ∃ type flags p, make type flags p = .ok a := by
  obtain ⟨t, h⟩ := fst_eq_ok.1 h
  obtain ⟨type, flags, body, p, -, -, made, -⟩ := cutFront_eq_ok_iff.1 h
  exact ⟨type, flags, p, made⟩

/-- Whatever comes out of a constructor, the general one makes of some parts. -/
theorem Route.exists_make {r : Route} (h : r.ace = .ok a) :
    ∃ type flags p, make type flags p = .ok a := by
  cases r with
  | parts type flags p => exact ⟨type, flags, p, h⟩
  | allowed sid mask | denied sid mask | mandatoryLabel sid mask =>
    cases h
    exact ⟨_, _, .basic ⟨mask, sid⟩, make_eq_ok_iff.2 ⟨rfl, rfl, rfl, rfl, trivial⟩⟩
  | allowedIf sid mask condition =>
    cases h
    exact ⟨_, _, .basicWithData ⟨mask, sid⟩ (.condition condition),
      make_eq_ok_iff.2 ⟨rfl, rfl, rfl, rfl, trivial⟩⟩
  | resourceAttribute claim =>
    rw [Route.ace, Ace.resourceAttribute] at h
    exact ⟨_, 0, .basicWithData ⟨0, WellKnown.everyone.toSid⟩ (.attribute claim), h⟩
  | draft d =>
    obtain ⟨p, made⟩ := exists_make_of_build h
    exact ⟨_, _, p, made⟩
  | bytes b => exact exists_make_of_decode h

/-! ### Later flags -/

/-- New flags leave the type and the payload as they were. -/
theorem parts_foldl_withFlags (a : Ace) (changes : List (BitVec 8)) :
    (changes.foldl withFlags a).type = a.type ∧
      (changes.foldl withFlags a).payload = a.payload := by
  induction changes generalizing a with
  | nil => exact ⟨rfl, rfl⟩
  | cons flags changes ih => exact ih (a.withFlags flags)

/-- The payloads that constructors make are the coherent ones: no promise about them is left out. -/
theorem coherent_iff_exists_route :
    p.Coherent type ↔ ∃ r a, Route.ace r = .ok a ∧ a.type = type ∧ a.payload = p := by
  constructor
  · intro h
    obtain ⟨a, made, htype, -, hpayload⟩ := make_of_coherent h 0
    exact ⟨.parts type 0 p, a, made, htype, hpayload⟩
  · rintro ⟨r, a, h, rfl, rfl⟩
    obtain ⟨_, _, _, made⟩ := r.exists_make h
    exact coherent_of_make made

/-- Whatever constructor an entry comes from and whatever flags it got later, its payload is
coherent with its type, and the general constructor gives back the entry for its own parts. -/
theorem coherent_of_route {r : Route} (h : r.ace = .ok a) (changes : List (BitVec 8)) :
    let later := changes.foldl withFlags a
    later.payload.Coherent later.type ∧
      make later.type later.flags later.payload = .ok later := by
  intro later
  obtain ⟨_, _, _, made⟩ := r.exists_make h
  obtain ⟨type, payload⟩ := a.parts_foldl_withFlags changes
  refine ⟨?_, later.make_self⟩
  rw [type, payload]
  exact coherent_of_make made

/-- The flags of the body say the opposite of which object types it has, and its data lacks a byte
to a whole group. -/
theorem coherent_of_route_contradictory :
    let everyone := WellKnown.everyone.toSid
    let g : Guid := ⟨zeros 16, length_zeros 16⟩
    let r : Route := .parts AceKind.systemAuditObject.type 0x40
      (.objectWithData ⟨1, 2, some g, none, everyone⟩ (.raw [0xAA, 0, 0xBB]))
    let later : Ace := ⟨AceKind.systemAuditObject.type, 0x10,
      .objectWithData ⟨1, 1, some g, none, everyone⟩ (.raw [0xAA, 0, 0xBB, 0]),
      ⟨rfl, trivial, ⟨by decide, by decide⟩, rfl, ⟨1, rfl⟩⟩⟩
    (∃ a, r.ace = .ok a ∧ [0xFF, 0x10].foldl withFlags a = later) ∧
      later.payload.Coherent AceKind.systemAuditObject.type ∧
      make later.type later.flags later.payload = .ok later := by
  intro everyone g r later
  have made : r.ace = .ok (later.withFlags 0x40) := by
    simp only [r, later, everyone, g]
    rfl
  exact ⟨⟨_, made, rfl⟩, coherent_of_route made [0xFF, 0x10]⟩

end Ace

end AccessControl
