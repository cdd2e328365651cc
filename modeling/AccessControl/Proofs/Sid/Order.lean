import AccessControl.Proofs.Sid.Routes
import AccessControl.Proofs.Text.Hex

/-!
# The order of SIDs

SIDs are compared by the bytes of their authorities and then by their sub-authorities. The most
significant byte of an authority comes first, so this is the order of authorities as numbers
(`Sid.lt_iff`). A domain comes before its SIDs, and between two SIDs of a domain there
are only others of it (`Sid.inDomain_of_between`).
-/

namespace AccessControl

/-! ### Lists and numbers -/

/-- Lists are compared from the left, a shorter one coming first. -/
theorem compare_eq_lt_iff_lt {α : Type} [Ord α] [LT α] [LE α] [Std.LawfulOrderOrd α]
    [Std.LawfulOrderLT α] [Std.LawfulEqOrd α] {xs ys : List α} :
    compare xs ys = .lt ↔ xs < ys := by
  induction xs generalizing ys with
  | nil =>
    cases ys with
    | nil => simp [List.not_lt_nil]
    | cons y ys => simp [List.compare_nil_cons, List.nil_lt_cons]
  | cons x xs ih =>
    cases ys with
    | nil => simp [List.compare_cons_nil, List.not_lt_nil]
    | cons y ys =>
      rw [List.compare_cons_cons, Ordering.then_eq_lt, List.cons_lt_cons_iff, Std.compare_eq_lt,
        Std.compare_eq_iff_eq, ih]

/-- What stands between two lists that start alike starts like them. -/
theorem prefix_of_between {front xs ys zs : List UInt32} (lower : ¬ ys < front ++ xs)
    (upper : ¬ front ++ zs < ys) : front <+: ys := by
  induction front generalizing ys with
  | nil => exact List.nil_prefix
  | cons n front ih =>
    cases ys with
    | nil => exact absurd (List.nil_lt_cons _ _) lower
    | cons m ys =>
      rw [List.cons_append, List.cons_lt_cons_iff, not_or, not_and] at lower upper
      obtain rfl : m = n := UInt32.le_antisymm (UInt32.not_lt.1 upper.1) (UInt32.not_lt.1 lower.1)
      exact List.cons_prefix_cons.2 ⟨rfl, ih (lower.2 rfl) (upper.2 rfl)⟩

theorem append_lt_append_iff {front xs ys : List UInt32} :
    front ++ xs < front ++ ys ↔ xs < ys := by
  induction front with
  | nil => exact Iff.rfl
  | cons n front ih => rw [List.cons_append, List.cons_append, List.cons_lt_cons_self, ih]

/-- The leading digits decide, and the last one where they are the same. -/
theorem add_mul_lt_add_mul_iff {base m n x y : Nat} (hx : x < base) (hy : y < base) :
    x + base * m < y + base * n ↔ m < n ∨ m = n ∧ x < y := by
  rcases Nat.lt_trichotomy m n with h | rfl | h
  · have step : base * m + base ≤ base * n := Nat.mul_le_mul_left base h
    omega
  · omega
  · have step : base * n + base ≤ base * m := Nat.mul_le_mul_left base h
    omega

/-- Byte strings of one length, most significant byte first, are ordered as their numbers. -/
theorem lt_iff_leNat_reverse_lt {b c : Bytes} (length : b.length = c.length) :
    b < c ↔ leNat b.reverse < leNat c.reverse := by
  induction b generalizing c with
  | nil =>
    obtain rfl := List.length_eq_zero_iff.1 length.symm
    simp [List.not_lt_nil]
  | cons x b ih =>
    obtain ⟨y, c, rfl⟩ := List.exists_cons_of_length_eq_add_one length.symm
    have same : b.length = c.length := Nat.succ.inj length
    have hb := leNat_lt b.reverse
    have hc := leNat_lt c.reverse
    rw [List.length_reverse] at hb hc
    rw [← same] at hc
    rw [List.reverse_cons, List.reverse_cons, leNat_append, leNat_append, List.length_reverse,
      List.length_reverse, ← same, List.cons_lt_cons_iff, ih same, UInt8.lt_iff_toNat_lt,
      ← UInt8.toNat_inj]
    exact (add_mul_lt_add_mul_iff hb hc).symm

theorem Authority.toNat_inj {a b : Authority} : a.toNat = b.toNat ↔ a = b := by
  refine ⟨fun h => ?_, congrArg toNat⟩
  rw [← a.ofNat_toNat, h, b.ofNat_toNat]

theorem Authority.bytes_inj {a b : Authority} : a.bytes = b.bytes ↔ a = b := by
  cases a
  cases b
  rw [mk.injEq]

namespace Sid

variable {d s t x : Sid} {rid : UInt32}

/-- SIDs are ordered by their authorities as numbers, and then by their sub-authorities. -/
theorem lt_iff : s < t ↔ s.authority.toNat < t.authority.toNat ∨
    s.authority = t.authority ∧ s.subAuthorities < t.subAuthorities := by
  have length : s.authority.bytes.length = t.authority.bytes.length :=
    s.authority.length_bytes.trans t.authority.length_bytes.symm
  change Sid.compare s t = .lt ↔ _
  rw [Sid.compare, s.revision_eq, t.revision_eq, Std.compare_self, Ordering.then,
    Ordering.then_eq_lt, compare_eq_lt_iff_lt, compare_eq_lt_iff_lt, Std.compare_eq_iff_eq,
    lt_iff_leNat_reverse_lt length, Authority.bytes_inj]
  rfl

instance : Std.OrientedOrd Sid :=
  inferInstanceAs (Std.OrientedCmp
    (compareLex (compareOn revision)
      (compareLex (compareOn fun s : Sid => s.authority.bytes) (compareOn subAuthorities))))

theorem le_iff : s ≤ t ↔ ¬ t < s := by
  change compare s t ≠ .gt ↔ ¬ compare t s = .lt
  rw [ne_eq, Std.OrientedCmp.gt_iff_lt]

/-! ### Domains -/

/-- A SID of a domain has its authority and starts with its sub-authorities. The domain itself
counts. -/
def InDomain (s d : Sid) : Prop :=
  s.authority = d.authority ∧ d.subAuthorities <+: s.subAuthorities

theorem inDomain_self (d : Sid) : d.InDomain d := ⟨rfl, List.prefix_rfl⟩

/-- Between two SIDs of a domain there are only SIDs of the domain. -/
theorem inDomain_of_between (hs : s.InDomain d) (ht : t.InDomain d) (lower : s ≤ x)
    (upper : x ≤ t) : x.InDomain d := by
  obtain ⟨hs, xs, hxs⟩ := hs
  obtain ⟨ht, zs, hzs⟩ := ht
  rw [le_iff, lt_iff, not_or, not_and, hs, ← hxs] at lower
  rw [le_iff, lt_iff, not_or, not_and, ht, ← hzs] at upper
  have authority : x.authority = d.authority :=
    Authority.toNat_inj.1 (Nat.le_antisymm (Nat.not_lt.1 upper.1) (Nat.not_lt.1 lower.1))
  exact ⟨authority, prefix_of_between (lower.2 authority) (upper.2 authority.symm)⟩

theorem inDomain_of_withRid (h : d.withRid rid = .ok s) : s.InDomain d := by
  obtain ⟨authority, subs⟩ := make_eq_ok_iff.1 h
  exact ⟨authority, subs ▸ List.prefix_append ..⟩

theorem lt_of_withRid (h : d.withRid rid = .ok s) : d < s := by
  obtain ⟨authority, subs⟩ := make_eq_ok_iff.1 h
  have longer : d.subAuthorities ++ [] < d.subAuthorities ++ [rid] :=
    append_lt_append_iff.2 (List.nil_lt_cons _ _)
  rw [List.append_nil] at longer
  exact lt_iff.2 (.inr ⟨authority.symm, subs ▸ longer⟩)

theorem withRid_lt_withRid_iff {rid' : UInt32} (hs : d.withRid rid = .ok s)
    (ht : d.withRid rid' = .ok t) : s < t ↔ rid < rid' := by
  obtain ⟨hs, subs⟩ := make_eq_ok_iff.1 hs
  obtain ⟨ht, subs'⟩ := make_eq_ok_iff.1 ht
  have same : s.authority = t.authority := hs.trans ht.symm
  rw [lt_iff, same, subs, subs', append_lt_append_iff]
  simp [List.cons_lt_cons_iff]

/-- SIDs are ordered as the pairs of their authority, as a number of 48 bits, and the list of their
sub-authorities. A domain comes before the SIDs that it is extended to, these are ordered as their
relative identifiers, and whatever stands between the domain and one of them is of the domain. -/
theorem order_keeps_domains :
    (∀ s : Sid, s.authority.toNat < 0x1000000000000) ∧
    (∀ s t : Sid, s < t ↔ Prod.Lex (· < ·) (· < ·)
      (s.authority.toNat, s.subAuthorities) (t.authority.toNat, t.subAuthorities)) ∧
    ∀ (d : Sid) rid s, d.withRid rid = .ok s →
      d < s ∧
      (∀ rid' t, d.withRid rid' = .ok t → (s < t ↔ rid < rid')) ∧
      ∀ x, d ≤ x → x ≤ s → x.authority = d.authority ∧ d.subAuthorities <+: x.subAuthorities := by
  refine ⟨fun s => s.authority.toNat_lt, fun s t => ?_, fun d rid s h => ⟨lt_of_withRid h, ?_, ?_⟩⟩
  · rw [lt_iff, Prod.lex_def, Authority.toNat_inj]
  · exact fun rid' t h' => withRid_lt_withRid_iff h h'
  · exact fun x => inDomain_of_between d.inDomain_self (inDomain_of_withRid h)

/-- Between the domain of built-in aliases and the administrators there is an alias that is extended
once more; users come after administrators. -/
theorem order_keeps_domains_builtin :
    let d : Sid := ⟨1, WellKnown.ntAuthority, [32], rfl, by decide⟩
    let x : Sid := ⟨1, WellKnown.ntAuthority, [32, 300, 7], rfl, by decide⟩
    let administrators := WellKnown.builtinAdministrators.toSid
    let users := WellKnown.builtinUsers.toSid
    d.withRid 544 = .ok administrators ∧ d.withRid 545 = .ok users ∧
      d < administrators ∧ administrators < users ∧
      (d ≤ x ∧ x ≤ administrators) ∧ x.authority = d.authority ∧
      d.subAuthorities <+: x.subAuthorities := by
  intro d x administrators users
  obtain ⟨-, -, domains⟩ := order_keeps_domains
  have first : d.withRid 544 = .ok administrators := rfl
  have second : d.withRid 545 = .ok users := rfl
  obtain ⟨behind, increasing, within⟩ := domains d 544 administrators first
  have lower : d ≤ x := by
    change compare d x ≠ .gt
    decide
  have upper : x ≤ administrators := by
    change compare x administrators ≠ .gt
    decide
  obtain ⟨authority, front⟩ := within x lower upper
  exact ⟨first, second, behind, (increasing 545 users second).2 (by decide), ⟨lower, upper⟩,
    authority, front⟩

end Sid
end AccessControl
