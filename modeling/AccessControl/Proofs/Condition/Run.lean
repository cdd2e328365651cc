import AccessControl.Proofs.Condition.Literals

/-!
# Reading trees

The reader of a tree runs over its tokens with a stack. Forwards, running over the tokens of a tree
puts the tree on the stack, or ends with one of the two failures for trees that are too deep
(`run_emits`). Backwards, whatever the stack holds, the bytes behind the reader are the tokens of
its trees (`consumed_of_run`).
-/

namespace AccessControl.Condition

/-- The tree is within the bounds of a reader. -/
structure Node.Shallow (n : Node) : Prop where
  nesting_le : n.nesting ≤ 32
  height_le : n.height ≤ 256

namespace Node

variable {l r a : Node}

theorem shallow_membership {op : MembershipOp} :
    (membership op a).Shallow ↔ a.Shallow ∧ (membership op a).height ≤ 256 :=
  ⟨fun h => ⟨⟨h.nesting_le, Nat.le_of_succ_le h.height_le⟩, h.height_le⟩,
    fun h => ⟨h.1.nesting_le, h.2⟩⟩

theorem shallow_unary {op : UnaryOp} :
    (unary op a).Shallow ↔ a.Shallow ∧ (unary op a).height ≤ 256 :=
  ⟨fun h => ⟨⟨h.nesting_le, Nat.le_of_succ_le h.height_le⟩, h.height_le⟩,
    fun h => ⟨h.1.nesting_le, h.2⟩⟩

theorem shallow_comparison {op : ComparisonOp} :
    (comparison op l r).Shallow ↔
      (l.Shallow ∧ r.Shallow) ∧ (comparison op l r).height ≤ 256 := by
  constructor
  · intro h
    obtain ⟨nl, nr⟩ := Nat.max_le.1 h.nesting_le
    obtain ⟨hl, hr⟩ := Nat.max_le.1 (Nat.le_of_succ_le h.height_le)
    exact ⟨⟨⟨nl, hl⟩, ⟨nr, hr⟩⟩, h.height_le⟩
  · rintro ⟨⟨hl, hr⟩, height⟩
    exact ⟨Nat.max_le.2 ⟨hl.nesting_le, hr.nesting_le⟩, height⟩

theorem shallow_logical {op : LogicalOp} :
    (logical op l r).Shallow ↔ (l.Shallow ∧ r.Shallow) ∧ (logical op l r).height ≤ 256 := by
  constructor
  · intro h
    obtain ⟨nl, nr⟩ := Nat.max_le.1 h.nesting_le
    obtain ⟨hl, hr⟩ := Nat.max_le.1 (Nat.le_of_succ_le h.height_le)
    exact ⟨⟨⟨nl, hl⟩, ⟨nr, hr⟩⟩, h.height_le⟩
  · rintro ⟨⟨hl, hr⟩, height⟩
    exact ⟨Nat.max_le.2 ⟨hl.nesting_le, hr.nesting_le⟩, height⟩

end Node

/-! ### Operators -/

section Operators

variable {a l r c : Condition} {stack rest : List Condition} {code : UInt8}

theorem membership_eq_ok_iff {op : MembershipOp} :
    membership op a = .ok c ↔ a.node.isGroups = true ∧ c.node = .membership op a.node := by
  rw [membership]
  by_cases h : a.node.isGroups = true
  · rw [dif_pos h, Except.ok.injEq]
    exact ⟨fun hc => hc ▸ ⟨h, rfl⟩, fun hc => eq_of_node_eq hc.2.symm⟩
  · rw [dif_neg h]
    simp [h]

theorem comparison_eq_ok_iff {op : ComparisonOp} :
    comparison op l r = .ok c ↔ l.node.isAttribute = true ∧ op.takes r.node = true ∧
      c.node = .comparison op l.node r.node := by
  rw [comparison]
  by_cases hl : l.node.isAttribute = true
  · rw [dif_pos hl]
    by_cases hr : op.takes r.node = true
    · rw [dif_pos hr, Except.ok.injEq]
      exact ⟨fun hc => hc ▸ ⟨hl, hr, rfl⟩, fun hc => eq_of_node_eq hc.2.2.symm⟩
    · rw [dif_neg hr]
      simp [hr]
  · rw [dif_neg hl]
    simp [hl]

theorem unary_eq_ok_iff {op : UnaryOp} :
    unary op a = .ok c ↔ op.takes a.node = true ∧ c.node = .unary op a.node := by
  rw [unary]
  by_cases h : op.takes a.node = true
  · rw [dif_pos h, Except.ok.injEq]
    exact ⟨fun hc => hc ▸ ⟨h, rfl⟩, fun hc => eq_of_node_eq hc.2.symm⟩
  · rw [dif_neg h]
    simp [h]

/-- The code is that of an operator: it neither is padding nor announces a literal. -/
def IsOperator (code : UInt8) : Prop :=
  code ≠ paddingCode ∧ ∀ nested b, literal? nested code b = none

theorem MembershipOp.isOperator (op : MembershipOp) : IsOperator op.code := by
  cases op <;> exact ⟨by decide, fun _ _ => rfl⟩

theorem ComparisonOp.isOperator (op : ComparisonOp) : IsOperator op.code := by
  cases op <;> exact ⟨by decide, fun _ _ => rfl⟩

theorem UnaryOp.isOperator (op : UnaryOp) : IsOperator op.code := by
  cases op <;> exact ⟨by decide, fun _ _ => rfl⟩

theorem LogicalOp.isOperator (op : LogicalOp) : IsOperator op.code := by
  cases op <;> exact ⟨by decide, fun _ _ => rfl⟩

theorem reduce_membership {op : MembershipOp} (h : membership op a = .ok c) :
    reduce op.code (a :: rest) = .ok (c, rest) := by
  have step : reduce op.code (a :: rest) = do return (← membership op a, rest) := by
    cases op <;> rfl
  rw [step, h]
  rfl

theorem reduce_comparison {op : ComparisonOp} (h : comparison op l r = .ok c) :
    reduce op.code (r :: l :: rest) = .ok (c, rest) := by
  have step : reduce op.code (r :: l :: rest) = do return (← comparison op l r, rest) := by
    cases op <;> rfl
  rw [step, h]
  rfl

theorem reduce_unary {op : UnaryOp} (h : unary op a = .ok c) :
    reduce op.code (a :: rest) = .ok (c, rest) := by
  have step : reduce op.code (a :: rest) = do return (← unary op a, rest) := by
    cases op <;> rfl
  rw [step, h]
  rfl

theorem reduce_logical (op : LogicalOp) :
    reduce op.code (r :: l :: rest) = .ok (logical op l r, rest) := by
  cases op <;> rfl

/-- What reducing the stack can have done. -/
theorem reduce_cases (h : reduce code stack = .ok (c, rest)) :
    (∃ (op : MembershipOp) (a : Condition), code = op.code ∧ stack = a :: rest ∧
      c.node = .membership op a.node) ∨
    (∃ (op : ComparisonOp) (l r : Condition), code = op.code ∧ stack = r :: l :: rest ∧
      c.node = .comparison op l.node r.node) ∨
    (∃ (op : UnaryOp) (a : Condition), code = op.code ∧ stack = a :: rest ∧
      c.node = .unary op a.node) ∨
    (∃ (op : LogicalOp) (l r : Condition), code = op.code ∧ stack = r :: l :: rest ∧
      c.node = .logical op l.node r.node) := by
  unfold reduce at h
  split at h
  · next op hop =>
    split at h
    · next a stack' =>
      obtain ⟨c', hc, h⟩ := bind_eq_ok.1 h
      cases h
      exact .inl ⟨op, a, (MembershipOp.ofCode?_eq_some.1 hop).symm, rfl,
        (membership_eq_ok_iff.1 hc).2⟩
    · cases h
  · next op hop _ =>
    split at h
    · next r l stack' =>
      obtain ⟨c', hc, h⟩ := bind_eq_ok.1 h
      cases h
      exact .inr (.inl ⟨op, l, r, (ComparisonOp.ofCode?_eq_some.1 hop).symm, rfl,
        (comparison_eq_ok_iff.1 hc).2.2⟩)
    · cases h
  · next op hop _ _ =>
    split at h
    · next a stack' =>
      obtain ⟨c', hc, h⟩ := bind_eq_ok.1 h
      cases h
      exact .inr (.inr (.inl ⟨op, a, (UnaryOp.ofCode?_eq_some.1 hop).symm, rfl,
        (unary_eq_ok_iff.1 hc).2⟩))
    · cases h
  · next op hop _ _ _ =>
    split at h
    · next r l stack' =>
      cases h
      exact .inr (.inr (.inr ⟨op, l, r, (LogicalOp.ofCode?_eq_some.1 hop).symm, rfl, rfl⟩))
    · cases h
  · cases h

end Operators

/-! ### Forwards -/

theorem run_zeros (stack : List Condition) {b : Bytes} :
    ∀ {p k : Nat}, (zeros p ++ b).length ≤ k →
      ∃ m, b.length ≤ m ∧ run k (zeros p ++ b) stack = run m b stack
  | 0, k, hk => ⟨k, by simpa using hk, by rw [zeros_zero, List.nil_append]⟩
  | p + 1, 0, hk => by simp [zeros_succ] at hk
  | p + 1, k + 1, hk => by
    have hk' : (zeros p ++ b).length ≤ k := by simpa [zeros_succ] using hk
    obtain ⟨m, hm, h⟩ := run_zeros stack hk'
    refine ⟨m, hm, ?_⟩
    rw [zeros_succ, List.cons_append, run, if_pos (by rfl), h]

/-- Running over the bytes puts the conditions on the stack, whatever follows them. -/
def Pushes (x : Bytes) (cs : List Condition) : Prop :=
  ∀ (t : Bytes) (stack : List Condition) (k : Nat), (x ++ t).length ≤ k →
    ∃ m, t.length ≤ m ∧ run k (x ++ t) stack = run m t (cs ++ stack)

/-- Running over the bytes ends with a failure for trees that are too deep, whatever follows. -/
def Exceeds (x : Bytes) : Prop :=
  ∀ (t : Bytes) (stack : List Condition) (k : Nat), (x ++ t).length ≤ k →
    ∃ f : Fault, (f = .compositeTooDeep ∨ f = .tooDeep) ∧
      run k (x ++ t) stack = .error (.malformedCondition f)

theorem Exceeds.append {x : Bytes} (h : Exceeds x) (y : Bytes) : Exceeds (x ++ y) := by
  intro t stack k hk
  rw [List.append_assoc] at hk ⊢
  exact h (y ++ t) stack k hk

theorem Pushes.exceeds {x y : Bytes} {cs : List Condition} (hx : Pushes x cs) (hy : Exceeds y) :
    Exceeds (x ++ y) := by
  intro t stack k hk
  rw [List.append_assoc] at hk ⊢
  obtain ⟨m, hm, h⟩ := hx (y ++ t) stack k hk
  rw [h]
  exact hy t (cs ++ stack) m hm

theorem Pushes.append {x y : Bytes} {cs ds : List Condition} (hx : Pushes x cs)
    (hy : Pushes y ds) : Pushes (x ++ y) (ds ++ cs) := by
  intro t stack k hk
  rw [List.append_assoc] at hk ⊢
  obtain ⟨m, hm, h⟩ := hx (y ++ t) stack k hk
  obtain ⟨m', hm', h'⟩ := hy t (cs ++ stack) m hm
  exact ⟨m', hm', by rw [h, h', List.append_assoc]⟩

/-- An operator replaces its operands by its tree, unless the tree is too high. -/
theorem run_operator {code : UInt8} (hop : IsOperator code) {stack rest : List Condition}
    {c : Condition} (hr : reduce code stack = .ok (c, rest)) {p k : Nat} {t : Bytes}
    (hk : (zeros p ++ [code] ++ t).length ≤ k) :
    ∃ m, t.length ≤ m ∧ run k (zeros p ++ [code] ++ t) stack =
      if maxHeight < c.node.height then .error (.malformedCondition .tooDeep)
      else run m t (c :: rest) := by
  rw [List.append_assoc] at hk ⊢
  obtain ⟨m, hm, h⟩ := run_zeros stack hk
  rw [h]
  cases m with
  | zero => simp at hm
  | succ m =>
    refine ⟨m, by simpa using hm, ?_⟩
    rw [List.singleton_append, run, if_neg hop.1, hop.2, hr]
    rfl

/-- Running over the bytes pushes the conditions, or fails because one of them is too deep. -/
def Runs (x : Bytes) (cs : List Condition) : Prop :=
  ((∀ c ∈ cs, c.node.Shallow) ∧ Pushes x cs) ∨ (¬ (∀ c ∈ cs, c.node.Shallow) ∧ Exceeds x)

theorem Runs.append {x y : Bytes} {cs ds : List Condition} (hx : Runs x cs) (hy : Runs y ds) :
    Runs (x ++ y) (ds ++ cs) := by
  rw [Runs, List.forall_mem_append]
  rcases hx with ⟨shallowX, pushesX⟩ | ⟨deepX, exceedsX⟩
  · rcases hy with ⟨shallowY, pushesY⟩ | ⟨deepY, exceedsY⟩
    · exact .inl ⟨⟨shallowY, shallowX⟩, pushesX.append pushesY⟩
    · exact .inr ⟨fun h => deepY h.1, pushesX.exceeds exceedsY⟩
  · exact .inr ⟨fun h => deepX h.2, exceedsX.append y⟩

/-- An operator after its operands is pushed in their place, or is refused for its height. -/
theorem Runs.operator {x : Bytes} {cs : List Condition} {c : Condition} (hx : Runs x cs)
    {code : UInt8} (hop : IsOperator code) (hr : ∀ rest, reduce code (cs ++ rest) = .ok (c, rest))
    (hs : c.node.Shallow ↔ (∀ a ∈ cs, a.node.Shallow) ∧ c.node.height ≤ 256) (p : Nat) :
    Runs (x ++ (zeros p ++ [code])) [c] := by
  rw [Runs, List.forall_mem_singleton, hs]
  rcases hx with ⟨shallow, pushes⟩ | ⟨deep, exceeds⟩
  · rcases Nat.lt_or_ge maxHeight c.node.height with hc | hc
    · refine .inr ⟨fun h => Nat.not_le.2 hc h.2, fun t stack k hk => ⟨.tooDeep, .inr rfl, ?_⟩⟩
      rw [List.append_assoc] at hk ⊢
      obtain ⟨m, hm, h⟩ := pushes _ stack k hk
      obtain ⟨m', -, h'⟩ := run_operator hop (hr stack) hm
      rw [h, h', if_pos hc]
    · refine .inl ⟨⟨shallow, hc⟩, fun t stack k hk => ?_⟩
      rw [List.append_assoc] at hk ⊢
      obtain ⟨m, hm, h⟩ := pushes _ stack k hk
      obtain ⟨m', hm', h'⟩ := run_operator hop (hr stack) hm
      exact ⟨m', hm', by rw [h, h', if_neg (Nat.not_lt.2 hc)]; rfl⟩
  · exact .inr ⟨fun h => deep h.1, exceeds.append _⟩

/-- A token is pushed, or is refused for the nesting of its composites. -/
theorem run_token {n : Node} (lawful : n.Lawful) {code : UInt8} {r : Bytes} (h : Token n code r)
    (p : Nat) : Runs (zeros p ++ code :: r) [⟨n, lawful⟩] := by
  rw [Runs, List.forall_mem_singleton]
  have height : n.height ≤ 256 := by cases h <;> simp [Node.height]
  have step : ∀ (t : Bytes) (stack : List Condition) (k : Nat),
      (zeros p ++ code :: r ++ t).length ≤ k →
      ∃ m, t.length ≤ m ∧ run k (zeros p ++ code :: r ++ t) stack =
        outcome maxNesting ⟨n, lawful⟩ t >>= fun out => run m out.2 (out.1 :: stack) := by
    intro t stack k hk
    rw [List.append_assoc] at hk ⊢
    obtain ⟨m, hm, hrun⟩ := run_zeros stack hk
    rw [hrun]
    cases m with
    | zero => simp at hm
    | succ m =>
      refine ⟨m, by simp at hm; omega, ?_⟩
      rw [List.cons_append, run, if_neg h.code_ne_padding, literal?_token lawful h]
  by_cases hn : n.nesting ≤ maxNesting
  · refine .inl ⟨⟨hn, height⟩, fun t stack k hk => ?_⟩
    obtain ⟨m, hm, hrun⟩ := step t stack k hk
    refine ⟨m, hm, ?_⟩
    rw [hrun, outcome, if_pos hn]
    rfl
  · refine .inr ⟨fun shallow => hn shallow.nesting_le, fun t stack k hk => ?_⟩
    obtain ⟨m, hm, hrun⟩ := step t stack k hk
    refine ⟨.compositeTooDeep, .inl rfl, ?_⟩
    rw [hrun, outcome, if_neg hn]
    rfl

/-- The tokens of a tree are pushed as the tree, or are refused because it is too deep. -/
theorem run_emits {n : Node} {x : Bytes} (h : Emits n x) (lawful : n.Lawful) :
    Runs x [⟨n, lawful⟩] := by
  induction h with
  | token p head => exact run_token lawful head p
  | @membership p op a x operand ih =>
    cases lawful with
    | membership groups lawful =>
      refine (ih lawful).operator op.isOperator (fun rest => ?_) ?_ p
      · exact reduce_membership (membership_eq_ok_iff.2 ⟨groups, rfl⟩)
      · rw [List.forall_mem_singleton]
        exact Node.shallow_membership
  | @unary p op a x operand ih =>
    cases lawful with
    | unary takes lawful =>
      refine (ih lawful).operator op.isOperator (fun rest => ?_) ?_ p
      · exact reduce_unary (unary_eq_ok_iff.2 ⟨takes, rfl⟩)
      · rw [List.forall_mem_singleton]
        exact Node.shallow_unary
  | @comparison p op l r x y lhs rhs ihl ihr =>
    cases lawful with
    | comparison attr value lawfulL lawfulR =>
      -- the right operand is pushed last, so it is the first one on the stack
      rw [← List.append_assoc]
      refine ((ihl lawfulL).append (ihr lawfulR)).operator op.isOperator (fun rest => ?_) ?_ p
      · exact reduce_comparison (comparison_eq_ok_iff.2 ⟨attr, value, rfl⟩)
      · rw [List.forall_mem_append, List.forall_mem_singleton, List.forall_mem_singleton,
          and_comm (a := r.Shallow)]
        exact Node.shallow_comparison
  | @logical p op l r x y lhs rhs ihl ihr =>
    cases lawful with
    | logical lawfulL lawfulR =>
      rw [← List.append_assoc]
      refine ((ihl lawfulL).append (ihr lawfulR)).operator op.isOperator (fun rest => ?_) ?_ p
      · exact reduce_logical op
      · rw [List.forall_mem_append, List.forall_mem_singleton, List.forall_mem_singleton,
          and_comm (a := r.Shallow)]
        exact Node.shallow_logical

/-! ### Backwards -/

/-- The bytes are the tokens of the trees on a stack, from the bottom to the top. -/
inductive Consumed : List Condition → Bytes → Prop
  | nil : Consumed [] []
  | cons {c : Condition} {stack : List Condition} {w x : Bytes} (below : Consumed stack w)
      (top : Emits c.node x) (shallow : c.node.Shallow) : Consumed (c :: stack) (w ++ x)

/-- An operator that is reduced takes the bytes of its operands as its own. -/
theorem Consumed.reduce {stack rest : List Condition} {w : Bytes} (h : Consumed stack w)
    {code : UInt8} {c : Condition} (hr : reduce code stack = .ok (c, rest))
    (height : c.node.height ≤ 256) (p : Nat) :
    Consumed (c :: rest) (w ++ (zeros p ++ [code])) := by
  rcases reduce_cases hr with ⟨op, a, rfl, rfl, hc⟩ | ⟨op, l, r, rfl, rfl, hc⟩ |
    ⟨op, a, rfl, rfl, hc⟩ | ⟨op, l, r, rfl, rfl, hc⟩
  · obtain _ | ⟨below, operand, shallow⟩ := h
    rw [List.append_assoc]
    refine .cons below (hc ▸ .membership p operand) ?_
    rw [hc] at height ⊢
    exact Node.shallow_membership.2 ⟨shallow, height⟩
  · obtain _ | ⟨_ | ⟨below, lhs, shallowL⟩, rhs, shallowR⟩ := h
    rw [List.append_assoc, List.append_assoc]
    refine .cons below (hc ▸ .comparison p lhs rhs) ?_
    rw [hc] at height ⊢
    exact Node.shallow_comparison.2 ⟨⟨shallowL, shallowR⟩, height⟩
  · obtain _ | ⟨below, operand, shallow⟩ := h
    rw [List.append_assoc]
    refine .cons below (hc ▸ .unary p operand) ?_
    rw [hc] at height ⊢
    exact Node.shallow_unary.2 ⟨shallow, height⟩
  · obtain _ | ⟨_ | ⟨below, lhs, shallowL⟩, rhs, shallowR⟩ := h
    rw [List.append_assoc, List.append_assoc]
    refine .cons below (hc ▸ .logical p lhs rhs) ?_
    rw [hc] at height ⊢
    exact Node.shallow_logical.2 ⟨⟨shallowL, shallowR⟩, height⟩

/-- However a run ends, the bytes behind it are the tokens of the trees on its stack. The zero
bytes that were skipped last belong to the token that comes next. -/
theorem consumed_of_run {k : Nat} {b w : Bytes} {stack out : List Condition}
    (h : Consumed stack w) (hb : b.length ≤ k) (hrun : run k b stack = .ok out) (p : Nat) :
    ∃ w' q, Consumed out w' ∧ w ++ (zeros p ++ b) = w' ++ zeros q := by
  induction k generalizing b w stack p with
  | zero =>
    obtain rfl := List.length_eq_zero_iff.1 (Nat.le_zero.1 hb)
    cases hrun
    exact ⟨w, p, h, by rw [List.append_nil]⟩
  | succ k ih =>
    cases b with
    | nil =>
      cases hrun
      exact ⟨w, p, h, by rw [List.append_nil]⟩
    | cons code b =>
      have hb' : b.length ≤ k := Nat.le_of_succ_le_succ hb
      rw [run] at hrun
      by_cases hc : code = paddingCode
      · rw [if_pos hc] at hrun
        -- the stack stays as it is, and the next token gets one zero byte more in front of it
        obtain ⟨w', q, h', heq⟩ := ih h hb' hrun (p + 1)
        refine ⟨w', q, h', ?_⟩
        rw [← heq, ← zeros_append_zeros, hc, List.append_assoc]
        rfl
      · rw [if_neg hc] at hrun
        split at hrun
        · next read hread =>
          simp only [bind_eq_ok, Prod.exists] at hrun
          obtain ⟨c, t, rfl, hrun⟩ := hrun
          obtain ⟨r, rfl, head, nesting⟩ := token_of_literal? hread
          have height : c.node.height ≤ 256 := by
            generalize c.node = n at head
            cases head <;> simp [Node.height]
          have ht : t.length ≤ k := by
            rw [List.length_append] at hb'
            omega
          obtain ⟨w', q, h', heq⟩ := ih (h.cons (.token p head) ⟨nesting, height⟩) ht hrun 0
          refine ⟨w', q, h', ?_⟩
          rw [← heq]
          simp only [zeros_zero, List.nil_append, List.append_assoc, List.cons_append]
        · simp only [bind_eq_ok, Prod.exists, throw_error, error_bind, check_eq_ok] at hrun
          obtain ⟨c, rest, hreduce, hheight, hrun⟩ := hrun
          obtain ⟨w', q, h', heq⟩ := ih (h.reduce hreduce (Nat.not_lt.1 hheight) p) hb' hrun 0
          refine ⟨w', q, h', ?_⟩
          rw [← heq]
          simp only [zeros_zero, List.nil_append, List.append_assoc, List.cons_append]

end AccessControl.Condition
