import AccessControl.Proofs.Ace.Wire
import AccessControl.Proofs.Bitset.Names
import AccessControl.Proofs.Descriptor.Control

/-!
# Words under a run of calls

A bit word is kept in a register of 32 bits. A call loads a number through the mask of the word, or
sets and clears single bits; one that fails does nothing (`kept_after`). No step sets a bit beyond
the word, so whatever the run, the register narrows to the width of the word without loss
(`bits_run`).
-/

namespace AccessControl

/-! ### Registers -/

namespace Register

variable {n : Nat} {w : BitVec 32}

/-- The low `n` bits. -/
def mask (n : Nat) : BitVec 32 := if 32 ≤ n then .allOnes 32 else 1#32 <<< n - 1#32

/-- What can happen to a register that keeps a word. -/
inductive Step
  | load (value : BitVec 32)
  | put (i : Nat) (value : Bool)

/-- The register that keeps a word of `n` bits, after a step. -/
def Step.apply (n : Nat) (w : BitVec 32) : Step → BitVec 32
  | .load value => value &&& mask n
  | .put i value => if n ≤ i then w else putBit w i value

/-- The register as a number of `k` bits; one that is too large turns into zero. -/
def narrowed (k : Nat) (w : BitVec 32) : Nat := if w.toNat < 2 ^ k then w.toNat else 0

theorem toNat_mask (hn : n ≤ 32) : (mask n).toNat = 2 ^ n - 1 := by
  unfold mask
  split
  next full =>
    obtain rfl : n = 32 := Nat.le_antisymm hn full
    rfl
  next small =>
    have fits : 2 ^ n < 2 ^ 32 := Nat.pow_lt_pow_right (by decide) (Nat.not_le.1 small)
    have pos : 0 < 2 ^ n := Nat.two_pow_pos n
    simp only [BitVec.toNat_sub, BitVec.toNat_shiftLeft, BitVec.toNat_ofNat, Nat.shiftLeft_eq]
    omega

theorem toNat_putBit_lt {i : Nat} (hi : i < n) (h : w.toNat < 2 ^ n) (value : Bool) :
    (putBit w i value).toNat < 2 ^ n := by
  cases value with
  | true =>
    have bit : (BitVec.twoPow 32 i).toNat < 2 ^ n := by
      rw [BitVec.toNat_twoPow]
      exact Nat.lt_of_le_of_lt (Nat.mod_le ..) (Nat.pow_lt_pow_right (by decide) hi)
    exact Nat.or_lt_two_pow h bit
  | false => exact Nat.lt_of_le_of_lt Nat.and_le_left h

/-- A step sets no bit beyond the word. -/
theorem Step.toNat_apply_lt (hn : n ≤ 32) (h : w.toNat < 2 ^ n) (step : Step) :
    (step.apply n w).toNat < 2 ^ n := by
  cases step with
  | load value =>
    have bound : (mask n).toNat < 2 ^ n := by
      rw [toNat_mask hn]
      exact Nat.sub_one_lt (Nat.ne_of_gt (Nat.two_pow_pos n))
    exact Nat.and_lt_two_pow _ bound
  | put i value =>
    rw [apply]
    split
    next => exact h
    next room => exact toNat_putBit_lt (Nat.not_le.1 room) h value

theorem toNat_foldl_lt (hn : n ≤ 32) (h : w.toNat < 2 ^ n) (steps : List Step) :
    (steps.foldl (Step.apply n) w).toNat < 2 ^ n := by
  induction steps generalizing w with
  | nil => exact h
  | cons step steps ih => exact ih (step.toNat_apply_lt hn h)

theorem narrowed_of_lt (h : w.toNat < 2 ^ n) : narrowed n w = w.toNat := if_pos h

theorem narrowed_setWidth (hn : n ≤ 32) (v : BitVec n) : narrowed n (v.setWidth 32) = v.toNat := by
  have number : (v.setWidth 32).toNat = v.toNat := BitVec.toNat_setWidth_of_le hn
  rw [narrowed, number, if_pos v.isLt]

end Register

/-! ### Calls -/

namespace Bitset

open Register

variable {n i j : Nat} {s t : Bitset n} {m : Meaning} {names : List String}

/-- What makes or changes a word. -/
inductive Call
  | blank
  | ofBits (value : BitVec 32)
  | ofBytes (b : Bytes)
  | ofNames (m : Meaning) (names : List String)
  | withMeaning (m : Meaning)
  | set (i : Nat) (value : Bool)
  | setNamed (name : String) (value : Bool)

namespace Call

/-- The word after a call, unless the call fails. -/
def after? (s : Bitset n) : Call → Option (Bitset n)
  | .blank => some (.ofNat n 0)
  | .ofBits value => some (.ofNat n value.toNat)
  | .ofBytes b => (decode n b).toOption
  | .ofNames m names => (Bitset.ofNames n m names).toOption
  | .withMeaning m => (s.withMeaning m).toOption
  | .set i value => s.set? i value
  | .setNamed name value => s.setNamed? name value

/-- The word after a call; a call that fails leaves it as it is. -/
def after (s : Bitset n) (c : Call) : Bitset n := (c.after? s).getD s

/-- What a call does to the register of the word. -/
def steps (s : Bitset n) : Call → List Step
  | .blank => [.load 0]
  | .ofBits value => [.load value]
  | .ofBytes b => if n / 8 ≤ b.length then [.load (.ofNat 32 (numberAt b 0 (n / 8)))] else []
  | .ofNames m names =>
    if m.Fits n ∧ ∀ a ∈ names, (m.indexOf? a).isSome then
      .load 0 :: (names.filterMap m.indexOf?).map (.put · true)
    else []
  | .withMeaning _ => []
  | .set i value => [.put i value]
  | .setNamed name value => (s.indexOf? name).toList.map (.put · value)

end Call

/-- The word after some calls. -/
def run (s : Bitset n) (calls : List Call) : Bitset n := calls.foldl Call.after s

/-- Which of some calls succeed, each on the word that the calls before it leave. -/
def answers (s : Bitset n) : List Call → List Bool
  | [] => []
  | c :: calls => (c.after? s).isSome :: answers (c.after s) calls

/-- What some calls do to the register of the word. -/
def steps (s : Bitset n) : List Call → List Step
  | [] => []
  | c :: calls => c.steps s ++ steps (c.after s) calls

/-- The register of a word. -/
def kept (s : Bitset n) : BitVec 32 := s.bits.setWidth 32

theorem toNat_kept (hn : n ≤ 32) (s : Bitset n) : (kept s).toNat = s.toNat :=
  BitVec.toNat_setWidth_of_le hn

/-! ### What a call does -/

theorem kept_blank (hn : n ≤ 32) : kept (ofNat n 0) = 0 :=
  BitVec.eq_of_toNat_eq ((toNat_kept hn _).trans (BitVec.toNat_ofNat ..))

theorem kept_ofNat (hn : n ≤ 32) (w : BitVec 32) (value : Nat) :
    kept (ofNat n value) = (Step.load (.ofNat 32 value)).apply n w := by
  refine BitVec.eq_of_toNat_eq ?_
  rw [toNat_kept hn, Step.apply, BitVec.toNat_and, toNat_mask hn, Nat.and_two_pow_sub_one_eq_mod,
    BitVec.toNat_ofNat, Nat.mod_mod_of_dvd _ (Nat.pow_dvd_pow 2 hn)]
  exact BitVec.toNat_ofNat ..

theorem setWidth_putBit (hn : n ≤ 32) (hi : i < n) (w : BitVec n) (value : Bool) :
    (putBit w i value).setWidth 32 = putBit (w.setWidth 32) i value := by
  refine BitVec.eq_of_getLsbD_eq fun j hj => ?_
  have room : i < 32 := Nat.lt_of_lt_of_le hi hn
  simp only [BitVec.getLsbD_setWidth, getLsbD_putBit, hj, hi, room, decide_true, Bool.true_and]

theorem kept_set? (hn : n ≤ 32) (s : Bitset n) (i : Nat) (value : Bool) :
    kept ((s.set? i value).getD s) = (Step.put i value).apply n (kept s) := by
  rw [set?, Step.apply]
  by_cases room : i < n
  · rw [if_pos room, if_neg (Nat.not_le.2 room)]
    exact setWidth_putBit hn room s.bits value
  · rw [if_neg room, if_pos (Nat.not_lt.1 room), Option.getD_none]

theorem kept_setNamed? (hn : n ≤ 32) (s : Bitset n) (a : String) (value : Bool) :
    kept ((s.setNamed? a value).getD s) =
      ((s.indexOf? a).toList.map (Step.put · value)).foldl (Step.apply n) (kept s) := by
  rw [setNamed?]
  cases s.indexOf? a with
  | none => rfl
  | some i => exact kept_set? hn s i value

theorem table_setNamed? {a : String} {value : Bool} (h : s.setNamed? a value = some t) :
    t.table = s.table := by
  obtain ⟨i, -, h⟩ := Option.bind_eq_some_iff.1 h
  rw [set?] at h
  split at h <;> cases h
  rfl

/-- Names that are all known set their bits one after another. -/
theorem kept_setAll (hn : n ≤ 32) (table : s.table = some m) (h : setAll m s names = .ok t) :
    (∀ a ∈ names, (m.indexOf? a).isSome) ∧
      kept t = ((names.filterMap m.indexOf?).map (Step.put · true)).foldl (Step.apply n)
        (kept s) := by
  -- setting a bit keeps the table, so the names that remain are looked up as before
  induction names generalizing s with
  | nil =>
    cases h
    exact ⟨by simp, rfl⟩
  | cons a names ih =>
    rw [setAll] at h
    cases named : s.setNamed? a true with
    | none => simp [named] at h
    | some s' =>
      rw [named] at h
      obtain ⟨known, rest⟩ := ih ((table_setNamed? named).trans table) h
      obtain ⟨i, index, -⟩ := Option.bind_eq_some_iff.1 named
      have first := kept_setNamed? hn s a true
      rw [named, index] at first
      rw [indexOf?_eq table] at index
      refine ⟨List.forall_mem_cons.2 ⟨by rw [index, Option.isSome_some], known⟩, ?_⟩
      rw [rest, List.filterMap_cons_some index, List.map_cons, List.foldl_cons]
      exact congrArg (List.foldl (Step.apply n) · _) first

theorem kept_ofNames (hn : n ≤ 32) (w : BitVec 32) (h : ofNames n m names = .ok t) :
    (m.Fits n ∧ ∀ a ∈ names, (m.indexOf? a).isSome) ∧
      kept t = (.load 0 :: (names.filterMap m.indexOf?).map (Step.put · true)).foldl
        (Step.apply n) w := by
  obtain ⟨z, blank, all⟩ := bind_eq_ok.1 h
  obtain ⟨fits, bits, table⟩ := withMeaning_eq_ok_iff.1 blank
  obtain ⟨known, rest⟩ := kept_setAll hn table all
  have zero : kept z = (Step.load 0).apply n w := by
    rw [kept, bits]
    exact kept_ofNat hn w 0
  exact ⟨⟨fits, known⟩, by rw [rest, zero, List.foldl_cons]⟩

theorem decode_eq (n : Nat) (b : Bytes) :
    (decode n b).toOption =
      if n / 8 ≤ b.length then some (ofNat n (numberAt b 0 (n / 8))) else none := by
  rw [decode]
  by_cases long : n / 8 ≤ b.length
  · rw [cutNat_of_le long, if_pos long]
    rfl
  · rw [cutNat, cut_eq, if_neg long, if_neg long]
    rfl

/-- A call takes its steps in the register, and none when it fails. -/
theorem kept_after (hn : n ≤ 32) (s : Bitset n) (c : Call) :
    kept (c.after s) = (c.steps s).foldl (Step.apply n) (kept s) := by
  cases c with
  | blank => exact kept_ofNat hn (kept s) 0
  | ofBits value =>
    refine (kept_ofNat hn (kept s) _).trans ?_
    rw [BitVec.ofNat_toNat, BitVec.setWidth_eq]
    rfl
  | ofBytes b =>
    rw [Call.after, Call.after?, decode_eq, Call.steps]
    split
    next => exact kept_ofNat hn (kept s) _
    next => rfl
  | ofNames m names =>
    rw [Call.after, Call.after?, Call.steps]
    cases made : ofNames n m names with
    | ok t =>
      obtain ⟨known, steps⟩ := kept_ofNames hn (kept s) made
      rw [if_pos known]
      exact steps
    | error e =>
      rw [if_neg]
      · rfl
      · rintro ⟨fits, known⟩
        obtain ⟨t, made', -⟩ := exists_ofNames fits fun a ha => by
          obtain ⟨i, index⟩ := Option.isSome_iff_exists.1 (known a ha)
          exact Meaning.exists_indexOf?_iff.1 ⟨i, index⟩
        rw [made] at made'
        cases made'
  | withMeaning m =>
    rw [Call.after, Call.after?, Call.steps]
    cases given : s.withMeaning m with
    | ok t =>
      exact congrArg (BitVec.setWidth 32) (withMeaning_eq_ok_iff.1 given).2.1
    | error e => rfl
  | set i value => exact kept_set? hn s i value
  | setNamed a value => exact kept_setNamed? hn s a value

/-- Calls take their steps one after another. -/
theorem kept_run (hn : n ≤ 32) (s : Bitset n) (calls : List Call) :
    kept (run s calls) = (steps s calls).foldl (Step.apply n) (kept s) := by
  induction calls generalizing s with
  | nil => rfl
  | cons c calls ih =>
    rw [steps, List.foldl_append, ← kept_after hn]
    exact ih (c.after s)

/-! ### Bytes -/

/-- The bytes of a word are the low ones of its register. -/
theorem encode_eq (hn : n ≤ 32) (s : Bitset n) :
    s.encode = (leBytes 4 (kept s).toNat).take (n / 8) := by
  rw [toNat_kept hn, take_leBytes (by omega)]
  rfl

theorem decode_encode_bits (whole : 8 ∣ n) (s : Bitset n) :
    ∃ t, decode n s.encode = .ok t ∧ t.bits = s.bits := by
  obtain ⟨k, rfl⟩ := whole
  have fits : s.toNat < 256 ^ (8 * k / 8) := by
    rw [Nat.mul_div_cancel_left k (by decide), show 256 = 2 ^ 8 from rfl, ← Nat.pow_mul]
    exact s.bits.isLt
  have read : cutNat (.short .flags (8 * k / 8)) (8 * k / 8) (leBytes (8 * k / 8) s.toNat) =
      .ok (s.toNat, []) := cutNat_eq_ok_iff.2 ⟨fits, (List.append_nil _).symm⟩
  refine ⟨ofNat (8 * k) s.toNat, ?_, (BitVec.ofNat_toNat _ _).trans (BitVec.setWidth_eq _)⟩
  rw [decode, encode, read]
  rfl

/-! ### Runs that set bits -/

/-- The calls that write values to bits. -/
def sets (writes : List (Nat × Bool)) : List Call := writes.map fun w => .set w.1 w.2

theorem isSome_set? (s : Bitset n) (i : Nat) (value : Bool) :
    (s.set? i value).isSome = decide (i < n) := by
  rw [set?]
  by_cases room : i < n
  · simp [room]
  · simp [room]

theorem after_set_of_le (h : n ≤ i) (s : Bitset n) (value : Bool) :
    (Call.set i value).after s = s := by
  rw [Call.after, Call.after?, set?, if_neg (Nat.not_lt.2 h), Option.getD_none]

theorem get_after_set (s : Bitset n) (i j : Nat) (value : Bool) :
    ((Call.set i value).after s).get j = if j = i ∧ i < n then value else s.get j := by
  rw [Call.after, Call.after?, set?]
  by_cases room : i < n
  · rw [if_pos room]
    exact getLsbD_putBit ..
  · simp [room]

theorem answers_sets (s : Bitset n) (writes : List (Nat × Bool)) :
    answers s (sets writes) = writes.map fun w => decide (w.1 < n) := by
  induction writes generalizing s with
  | nil => rfl
  | cons w writes ih =>
    rw [List.map_cons, ← ih ((Call.set w.1 w.2).after s), ← isSome_set? s w.1 w.2]
    rfl

/-- A bit has the value that was written to it last. -/
theorem get_run_sets (s : Bitset n) (writes : List (Nat × Bool)) (hj : j < n) :
    (run s (sets writes)).get j = (writes.reverse.lookup j).getD (s.get j) := by
  induction writes generalizing s with
  | nil => rfl
  | cons w writes ih =>
    obtain ⟨i, value⟩ := w
    have step : run s (sets ((i, value) :: writes)) =
      run ((Call.set i value).after s) (sets writes) := rfl
    rw [step, ih, get_after_set, List.reverse_cons, List.lookup_append, Option.getD_or]
    by_cases same : j = i
    · subst same
      simp [hj]
    · simp [same, beq_eq_false_iff_ne.2 same, List.lookup_cons]

theorem get_of_le (h : n ≤ j) (s : Bitset n) : s.get j = false := BitVec.getLsbD_of_ge _ _ h

/-! ### Any run -/

/-- A word of 8, 16 or 32 bits that any calls have made, whether they failed or not, stays within
its register: what the calls do there leaves the bits beyond the word clear, and the register
narrows to the width of the word without loss, as it does where the flags of an entry and the
control word of a descriptor are written. The word is read back from its bytes. Written to bit by
bit, it takes each write to a bit that it has and no other, and each bit ends with the value that
was written to it last, or the one it had. -/
theorem bits_run (hn : n = 8 ∨ n = 16 ∨ n = 32) (calls : List Call) :
    let s := run (ofNat n 0) calls
    (kept s = (steps (ofNat n 0) calls).foldl (Step.apply n) 0 ∧ (kept s).toNat = s.toNat ∧
        s.toNat < 2 ^ n ∧ narrowed n (kept s) = s.toNat) ∧
      ((∀ (a : Ace) b, a.encode = .ok b →
          numberAt b 1 1 = narrowed 8 (a.flags.setWidth 32) ∧ numberAt b 1 1 = a.flags.toNat) ∧
        ∀ (d : Descriptor) b, d.encode = .ok b →
          numberAt b 2 2 = narrowed 16 (d.control.setWidth 32) ∧
            numberAt b 2 2 = d.control.toNat) ∧
      (s.encode = (leBytes 4 (kept s).toNat).take (n / 8) ∧
        ∃ t, decode n s.encode = .ok t ∧ t.bits = s.bits) ∧
      ∀ writes, answers s (sets writes) = writes.map (fun w => decide (w.1 < n)) ∧
        (∀ i value, n ≤ i → run s (sets (writes ++ [(i, value)])) = run s (sets writes)) ∧
        (∀ j, j < n →
          (run s (sets writes)).get j = (writes.reverse.lookup j).getD (s.get j)) ∧
        ∀ j, n ≤ j → (run s (sets writes)).get j = false := by
  intro s
  have narrow : n ≤ 32 := by omega
  have whole : 8 ∣ n := by omega
  have same : kept s = (steps (ofNat n 0) calls).foldl (Step.apply n) 0 := by
    rw [kept_run narrow, kept_blank narrow]
  have clear : (kept s).toNat < 2 ^ n := by
    rw [same]
    exact toNat_foldl_lt (w := 0) narrow (Nat.two_pow_pos n) _
  refine ⟨⟨same, toNat_kept narrow s, ?_, ?_⟩, ⟨fun a b h => ?_, fun d b h => ?_⟩,
    ⟨encode_eq narrow s, decode_encode_bits whole s⟩,
    fun writes => ⟨answers_sets s writes, fun i value beyond => ?_,
      fun j hj => get_run_sets s writes hj, fun j hj => get_of_le hj _⟩⟩
  · rwa [toNat_kept narrow] at clear
  · rw [narrowed_of_lt clear, toNat_kept narrow]
  · rw [Ace.flagsAt_of_encode h, narrowed_setWidth (by decide)]
    exact ⟨rfl, rfl⟩
  · rw [← Descriptor.toNat_controlAt, Descriptor.controlAt_of_encode h,
      narrowed_setWidth (by decide)]
    exact ⟨rfl, rfl⟩
  · rw [sets, List.map_append, run, List.foldl_append]
    exact after_set_of_le beyond _ value

/-- The highest bit of a byte is cleared and written to twice more, among calls that fail. -/
theorem bits_run_top_bit :
    let calls : List Call := [.ofBits 0x1FF, .set 7 false, .set 8 true, .ofBytes []]
    let s := run (ofNat 8 0) calls
    let writes := [(7, true), (8, true), (7, false), (0, false)]
    answers (ofNat 8 0) calls = [true, true, false, false] ∧ s.toNat = 0x7F ∧ s.toNat < 2 ^ 8 ∧
      (∃ t, decode 8 s.encode = .ok t ∧ t.bits = s.bits) ∧
      answers s (sets writes) = [true, false, true, true] ∧
      (run s (sets writes)).get 7 = false ∧ (run s (sets writes)).get 6 = true := by
  intro calls s writes
  obtain ⟨⟨-, -, bound, -⟩, -, ⟨-, back⟩, written⟩ := bits_run (.inl rfl) calls
  obtain ⟨taken, -, last, -⟩ := written writes
  exact ⟨by decide, by decide, bound, back, taken, last 7 (by decide),
    (last 6 (by decide)).trans (by decide)⟩

end Bitset
end AccessControl
