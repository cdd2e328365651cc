import AccessControl.Proofs.Ace.Routes
import AccessControl.Proofs.Condition.Failures

/-!
# What the reader of entries says of byte strings it refuses

The payload that is read for a type has the shape of the type and data of its kind, so the
constructor of entries has nothing to object but the number of values (`Payload.yields_decode`,
`Ace.tooManyValues_of_make`). All other causes are those of the fields.
-/

namespace AccessControl

variable {len : Nat} {b : Bytes}

/-! ### Claim attributes -/

namespace ClaimValue

theorem consumes_cutFront (len : Nat) (type : ClaimType) : Consumes len (cutFront type) := by
  intro b within
  cases type with
  | int64 | uint64 | boolean =>
    exact (yields_cutNat (Error.credible_short within)).bind fun _ h => Nat.le.intro h
  | string => exact (Utf16.yields_decodeTerminated len b).bind fun _ h => h
  | fqbn =>
    refine (yields_cutNat (Error.credible_short within)).andThen fun units r hr => ?_
    dsimp only at hr ⊢
    refine (yields_cut (Error.credible_short (by omega))).andThen fun name t ht => ?_
    dsimp only at ht ⊢
    refine (Utf16.yields_decode len name).bind fun _ _ => ?_
    change t.length ≤ b.length
    omega
  | sid =>
    refine (yields_cutPrefixed within).andThen fun bytes r hr => ?_
    dsimp only at hr ⊢
    refine (Sid.yields_decode (by omega)).bind fun s _ => ?_
    change r.length ≤ b.length
    omega
  | octetString =>
    exact (yields_cutPrefixed within).bind fun _ h => Nat.le_trans (Nat.le_add_left ..) h

theorem consumes_cutMany (len : Nat) (type : ClaimType) (n : Nat) :
    Consumes len (cutMany type n) := by
  induction n with
  | zero => exact fun _ _ => Nat.le_refl _
  | succ n ih =>
    intro b within
    refine (consumes_cutFront len type b within).andThen fun v r hr => ?_
    refine (ih r (Nat.le_trans hr within)).andThen fun vs t ht => ?_
    exact Nat.le_trans ht hr

end ClaimValue

namespace ClaimAttribute

theorem yields_make (len : Nat) (name : String) (type : ClaimType) (flags : BitVec 32)
    (values : List ClaimValue) : Yields len (fun _ => True) (make name type flags values) := by
  unfold make
  split
  · exact id
  · trivial

/-- The offsets may point anywhere, so the name and the values are cut off from the whole again. -/
theorem consumes_cutFront (len : Nat) : Consumes len cutFront := by
  intro b within
  have missing := Error.credible_shortRecord within .claimAttribute headerLen
  simp only [cutFront, throw_error]
  refine (yields_cutNat fun _ => missing _).andThen fun nameOffset _ _ => ?_
  refine (yields_cutNat fun _ => missing _).andThen fun code _ _ => ?_
  refine (yields_cutNat fun _ => missing _).bind fun _ _ => ?_
  refine (yields_cutNat fun _ => missing _).andThen fun flags _ _ => ?_
  refine (yields_cutNat fun _ => missing _).andThen fun count _ _ => ?_
  refine (yields_cutNat fun _ => missing _).andThen fun valuesOffset _ _ => ?_
  split
  · exact id
  · refine (yields_cut (Error.credible_short within)).andThen fun _ atName _ => ?_
    refine (Utf16.yields_decodeTerminated len atName).andThen fun name _ _ => ?_
    refine (yields_cut (Error.credible_short within)).andThen fun _ atValues hv => ?_
    dsimp only at hv ⊢
    refine (ClaimValue.consumes_cutMany len _ count _ (by omega)).andThen fun values _ _ => ?_
    have shorter : (b.drop headerLen).length ≤ b.length := (List.drop_sublist ..).length_le
    refine (yields_cut (Error.credible_short (Nat.le_trans shorter within))).andThen
      fun _ rest hrest => ?_
    refine (yields_make len name _ _ values).bind fun _ _ => ?_
    exact Nat.le_trans (Nat.le.intro hrest.2) shorter

theorem yields_decode (within : b.length ≤ len) : Yields len (fun _ => True) (decode b) :=
  (consumes_cutFront len b within).bind fun _ _ => trivial

end ClaimAttribute

/-! ### Payloads -/

theorem BasicBody.consumes_cutFront (len : Nat) : Consumes len cutFront := by
  intro b within
  have missing := Error.credible_shortRecord within .aceBody (4 + Sid.leastLen)
  refine (yields_cutNat fun _ => missing _).andThen fun mask r hr => ?_
  refine (Sid.yields_cutField missing r).andThen fun sid t ht => ?_
  exact Nat.le_trans ht (Nat.le.intro hr)

namespace ObjectBody

theorem yields_cutType {short : Bytes → Error} (missing : ∀ r, (short r).Credible len)
    (present : Bool) (b : Bytes) :
    Yields len (fun p => p.2.length ≤ b.length) (cutType short present b) := by
  cases present with
  | false => exact Nat.le_refl _
  | true =>
    simp only [cutType, if_true, Guid.cutField]
    split
    · exact (List.drop_sublist ..).length_le
    · exact missing b

theorem consumes_cutFront (len : Nat) : Consumes len cutFront := by
  intro b within
  have missing := Error.credible_shortRecord within .objectAceBody (8 + Sid.leastLen)
  refine (yields_cutNat fun _ => missing _).andThen fun mask r hr => ?_
  refine (yields_cutNat fun _ => missing _).andThen fun word s hs => ?_
  refine (yields_cutType missing _ s).andThen fun objectType t ht => ?_
  refine (yields_cutType missing _ t).andThen fun inheritedType u hu => ?_
  refine (Sid.yields_cutField missing u).andThen fun sid v hv => ?_
  dsimp only at hr hs ht hu hv
  change v.length ≤ b.length
  omega

end ObjectBody

/-- The kinds that are assigned to shapes with data are never that of no data. -/
theorem AceType.dataKind_ne_none {type : AceType} {shape : AceShape} (h : type.shape? = some shape)
    (hasData : shape.hasData = true) : type.dataKind ≠ .none := by
  unfold shape? at h
  unfold dataKind
  cases known : type.kind? with
  | none =>
    rw [known] at h
    cases h
  | some k =>
    rw [known] at h
    cases h
    cases k with
    | accessAllowed | accessDenied | systemAudit | systemAlarm | accessAllowedObject
    | accessDeniedObject | systemAlarmObject | systemMandatoryLabel | systemScopedPolicyId
    | systemProcessTrustLabel => cases hasData
    | _ => exact fun same => nomatch same

/-- Data that is read for a kind is of the kind. -/
theorem AppData.yields_decode {kind : DataKind} (hkind : kind ≠ .none) (within : b.length ≤ len) :
    Yields len (fun d => d = .none ∨ d.kind = kind) (decode kind b) := by
  unfold decode
  split
  · exact .inl rfl
  · cases kind with
    | none => exact absurd rfl hkind
    | condition => exact (Condition.yields_decode within).bind fun _ _ => .inr rfl
    | «attribute» => exact (ClaimAttribute.yields_decode within).bind fun _ _ => .inr rfl
    | raw => exact .inr rfl

/-- The payload that is read for a type has its shape and data of its kind. -/
theorem Payload.yields_decode (type : AceType) (within : b.length ≤ len) :
    Yields len
      (fun p => p.shape? = type.shape? ∧ (p.data = .none ∨ p.data.kind = type.dataKind))
      (decode type.shape? type.dataKind b) := by
  cases hshape : type.shape? with
  | none => exact ⟨rfl, .inl rfl⟩
  | some shape =>
    cases shape with
    | basic => exact (BasicBody.consumes_cutFront len b within).bind fun _ _ => ⟨rfl, .inl rfl⟩
    | object => exact (ObjectBody.consumes_cutFront len b within).bind fun _ _ => ⟨rfl, .inl rfl⟩
    | objectWithData =>
      refine (ObjectBody.consumes_cutFront len b within).andThen fun body rest hrest => ?_
      have data := AppData.yields_decode (AceType.dataKind_ne_none hshape rfl)
        (Nat.le_trans hrest within)
      exact data.bind fun _ hkind => ⟨rfl, hkind⟩
    | basicWithData =>
      refine (BasicBody.consumes_cutFront len b within).andThen fun body rest hrest => ?_
      have data := AppData.yields_decode (AceType.dataKind_ne_none hshape rfl)
        (Nat.le_trans hrest within)
      exact data.bind fun _ hkind => ⟨rfl, hkind⟩

/-! ### Entries -/

/-- Data of the kind of a type that is refused is an attribute, and its values are counted. -/
theorem AppData.refusal_of_kind {d : AppData} {type : AceType}
    (hkind : d = .none ∨ d.kind = type.dataKind) (refused : ¬ d.normalized.Fits type.dataKind) :
    ∃ a, d = .attribute a ∧ a.values.length ≠ 1 ∧
      d.normalized.refusal type = .tooManyValues a.values.length := by
  have same : d ≠ .none → type.dataKind = d.kind := fun some => (hkind.resolve_left some).symm
  cases d with
  | none => exact absurd trivial refused
  | condition c =>
    rw [same nofun] at refused
    exact absurd trivial refused
  | «attribute» a =>
    have values : type.dataKind = .attribute := same nofun
    rw [values] at refused
    exact ⟨a, rfl, refused, if_pos values⟩
  | raw bytes =>
    rw [same nofun, normalized] at refused
    split at refused <;> exact absurd trivial refused

theorem Payload.data_normalized (p : Payload) : p.normalized.data = p.data.normalized := by
  cases p <;> rfl

namespace Ace

/-- A payload of the right shape, with data of the right kind, is refused for the number of values
alone. -/
theorem tooManyValues_of_make {type : AceType} {flags : BitVec 8} {p : Payload} {e : Error}
    (shape : p.shape? = type.shape?) (hkind : p.data = .none ∨ p.data.kind = type.dataKind)
    (h : make type flags p = .error e) :
    ∃ a, p.data = .attribute a ∧ a.values.length ≠ 1 ∧ e = .tooManyValues a.values.length := by
  obtain ⟨refused, rfl⟩ := (make_eq_error_iff shape).1 h
  rw [Payload.data_normalized] at refused ⊢
  exact AppData.refusal_of_kind hkind refused

theorem consumes_cutFront (len : Nat) : Consumes len cutFront := by
  intro b within
  have missing := Error.credible_shortRecord within .aceHeader headerLen
  simp only [cutFront, throw_error, error_bind]
  refine (yields_cutNat fun _ => missing _).andThen fun code r hr => ?_
  refine (yields_cutNat fun _ => missing _).andThen fun flags s hs => ?_
  refine (yields_cutNat fun _ => missing _).andThen fun size t ht => ?_
  refine yields_check (fun _ => id) fun hsize => ?_
  dsimp only [headerLen] at hr hs ht hsize ⊢
  have missingBody (_ : t.length < size - 4) : b.length < size ∧ b.length ≤ len := by omega
  refine (yields_cut missingBody).andThen fun body rest hrest => ?_
  dsimp only at hrest ⊢
  refine (Payload.yields_decode ⟨.ofNat code⟩ (by omega)).bind ?_
  rintro p ⟨shape, hkind⟩
  cases made : make ⟨.ofNat code⟩ (.ofNat 8 flags) p with
  | error e =>
    obtain ⟨a, -, -, rfl⟩ := tooManyValues_of_make shape hkind made
    exact id
  | ok a =>
    change rest.length ≤ b.length
    omega

theorem yields_decode (within : b.length ≤ len) : Yields len (fun _ => True) (decode b) :=
  (consumes_cutFront len b within).bind fun _ _ => trivial

end Ace
end AccessControl
