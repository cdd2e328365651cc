import Mathlib.Data.List.Forall2
import AccessControl.Proofs.Ace.Extent
import AccessControl.Proofs.Acl.Size

/-!
# What a list is read from

A list declares its size and the number of its entries, and each of those declares its own size.
The declared sizes cut the bytes of a list into slices (`entrySlices`). A reader makes every entry
of its own slice alone, and looks at no byte behind the declared size of the list, whether it
succeeds or not (`decode_confined`). What is written of a list is not read when it breaks off
(`refusesPrefixes`).
-/

namespace AccessControl.Acl

variable {l : Acl} {as : List Ace} {b t : Bytes} {n : Nat}

/-! ### The declared bytes -/

/-- The size that the list at the start of a byte string declares. -/
def declaredSize (b : Bytes) : Nat := numberAt b 2 2

/-- Of a byte string that has as many bytes as its list declares, the list is what the entries in
them make, if it is of a revision that is read. -/
theorem cutFront_of_declared (least : headerLen ≤ declaredSize b)
    (fits : declaredSize b ≤ b.length) : cutFront b =
      if numberAt b 0 1 < leastRevision ∨ greatestRevision < numberAt b 0 1 then
        .error (.invalidRevision .acl (.ofNat (numberAt b 0 1)))
      else do
        return (⟨← decodeEntries (entryCount b) (entryBytes b)⟩, b.drop (declaredSize b)) := by
  have long : 8 ≤ b.length := Nat.le_trans least fits
  have revision : ∀ short, cutNat short 1 b = .ok (numberAt b 0 1, b.drop 1) :=
    fun short => cutNat_of_le (by omega)
  have second : ∀ short, cutNat short 1 (b.drop 1) = .ok (numberAt b 1 1, b.drop 2) :=
    fun short => cutNat_drop (by omega)
  have size : ∀ short, cutNat short 2 (b.drop 2) = .ok (declaredSize b, b.drop 4) :=
    fun short => cutNat_drop (by omega)
  have count : ∀ short, cutNat short 2 (b.drop 4) = .ok (entryCount b, b.drop 6) :=
    fun short => cutNat_drop (by omega)
  have pad : ∀ short, cutNat short 2 (b.drop 6) = .ok (numberAt b 6 2, b.drop headerLen) :=
    fun short => cutNat_drop long
  have body : ∀ short, cut short (declaredSize b - headerLen) (b.drop headerLen) =
      .ok (entryBytes b, b.drop (declaredSize b)) :=
    fun short => cut_drop least fits
  simp only [cutFront, revision, second, size, count, pad, body, ok_bind,
    if_neg (Nat.not_lt.2 least), throw_error, error_bind]

theorem headerLen_le_of_decode (h : decode b = .ok l) : headerLen ≤ declaredSize b := by
  obtain ⟨t, ht⟩ := fst_eq_ok.1 h
  obtain ⟨revision, second, _, _, body, -, fits, -, -, -, rfl⟩ := cutFront_eq_ok_iff.1 ht
  refine Nat.le_trans (Nat.le_add_right headerLen body.length) (Nat.le_of_eq ?_)
  exact (numberAt_append [revision, second] fits _).symm

/-- The bytes behind the declared ones do not matter, neither to the list nor to the error. -/
theorem decode_take_declared (least : headerLen ≤ declaredSize b)
    (fits : declaredSize b ≤ b.length) : decode (b.take (declaredSize b)) = decode b := by
  generalize hw : b.take (declaredSize b) = w
  have size : declaredSize w = declaredSize b := by
    rw [← hw]
    exact numberAt_take b (Nat.le_trans (by decide) least)
  have least' : headerLen ≤ declaredSize w := size ▸ least
  have fits' : declaredSize w ≤ w.length := by rw [size, ← hw, List.length_take_of_le fits]
  have revision : numberAt w 0 1 = numberAt b 0 1 := by
    rw [← hw]
    exact numberAt_take b (Nat.le_trans (by decide) least)
  have count : entryCount w = entryCount b := by
    rw [← hw]
    exact numberAt_take b (Nat.le_trans (by decide) least)
  have body : entryBytes w = entryBytes b := by
    have sizes : numberAt w 2 2 = declaredSize b := size
    rw [entryBytes, sizes, ← hw]
    exact take_drop_take b headerLen (declaredSize b)
  rw [decode, decode, cutFront_of_declared least' fits', cutFront_of_declared least fits, revision,
    count, body]
  split
  · rfl
  · cases decodeEntries (entryCount b) (entryBytes b) with
    | error e => rfl
    | ok as => rfl

/-! ### Lists that break off -/

theorem stable_cutFront : Stable cutFront := by
  intro b l t h u
  obtain ⟨revision, second, count, pad, body, known, fits, counts, hpad, entries, rfl⟩ :=
    cutFront_eq_ok_iff.1 h
  refine cutFront_eq_ok_iff.2 ⟨revision, second, count, pad, body, known, fits, counts, hpad,
    entries, ?_⟩
  simp only [List.cons_append, List.append_assoc]

theorem declaredSize_of_encode (h : l.encode = .ok b) : declaredSize b = b.length := by
  rw [length_of_encode h]
  obtain ⟨fits, -, x, -, rfl⟩ := encode_eq_ok_iff.1 h
  exact numberAt_append [l.revision, 0] fits _

/-- Of what is written of a list, no part that breaks off is read. -/
theorem refusesPrefixes (h : l.encode = .ok b) : RefusesPrefixes cutFront b := by
  have size := declaredSize_of_encode h
  have least : headerLen ≤ declaredSize b := by
    rw [size, length_of_encode h]
    exact Nat.le_add_right ..
  refine stable_cutFront.refusesPrefixes ?_
  intro l' t ht
  rw [cutFront_of_declared least (Nat.le_of_eq size)] at ht
  obtain ⟨-, ht⟩ := check_eq_ok.1 ht
  obtain ⟨_, -, ht⟩ := bind_eq_ok.1 ht
  cases ht
  rw [size, List.drop_length]

/-! ### Slices -/

/-- So many slices at the start of a byte string, cut where each of them declares its size. -/
def entrySlices : Nat → Bytes → List Bytes
  | 0, _ => []
  | n + 1, b => b.take (Ace.declaredSize b) :: entrySlices n (b.drop (Ace.declaredSize b))

theorem length_entrySlices (n : Nat) (b : Bytes) : (entrySlices n b).length = n := by
  induction n generalizing b with
  | zero => rfl
  | succ n ih => rw [entrySlices, List.length_cons, ih]

/-- Entries that are read one after another each fill their own slice, whatever follows. -/
theorem forall₂_entrySlices (h : decodeEntries n b = .ok as) (t : Bytes) :
    List.Forall₂ (fun slice a => a.Fills slice) (entrySlices n (b ++ t)) as := by
  induction n generalizing b as with
  | zero =>
    cases h
    exact .nil
  | succ n ih =>
    simp only [decodeEntries, bind_eq_ok, Prod.exists] at h
    obtain ⟨a, r, ha, as', has, h⟩ := h
    cases h
    have goesOn := Ace.stable_cutFront ha t
    obtain ⟨-, rest⟩ := Ace.drop_of_cutFront goesOn
    rw [entrySlices, ← rest]
    exact .cons (Ace.fills_take_of_cutFront goesOn).2 (ih has)

theorem sum_declaredSize_le (h : decodeEntries n b = .ok as) (t : Bytes) :
    ((entrySlices n (b ++ t)).map Ace.declaredSize).sum ≤ b.length := by
  induction n generalizing b as with
  | zero => exact Nat.zero_le _
  | succ n ih =>
    simp only [decodeEntries, bind_eq_ok, Prod.exists] at h
    obtain ⟨a, r, ha, as', has, h⟩ := h
    have goesOn := Ace.stable_cutFront ha t
    obtain ⟨room, rest⟩ := Ace.drop_of_cutFront goesOn
    have lengths := congrArg List.length rest
    rw [List.length_drop, List.length_append, List.length_append] at lengths
    rw [List.length_append] at room
    have others := ih has
    rw [entrySlices, ← rest, List.map_cons, List.sum_cons, (Ace.fills_take_of_cutFront goesOn).1]
    omega

/-- The entries of a list that is read fill its slices, for all of which it has room. -/
theorem slices_of_decode (h : decode b = .ok l) :
    List.Forall₂ (fun slice a => a.Fills slice)
        (entrySlices (entryCount b) (b.drop headerLen)) l.entries ∧
      ((entrySlices (entryCount b) (b.drop headerLen)).map Ace.declaredSize).sum ≤
        declaredSize b - headerLen := by
  obtain ⟨t, ht⟩ := fst_eq_ok.1 h
  have entries := decodeEntries_of_cutFront ht
  have behind : b.drop headerLen =
      entryBytes b ++ (b.drop headerLen).drop (declaredSize b - headerLen) :=
    (List.take_append_drop ..).symm
  have room : (entryBytes b).length ≤ declaredSize b - headerLen := List.length_take_le ..
  rw [behind]
  exact ⟨forall₂_entrySlices entries _, Nat.le_trans (sum_declaredSize_le entries _) room⟩

/-- A reader of entries and of lists looks at the declared bytes only, for what it makes and for its
errors. A list that is read has as many entries as it counts, whose declared sizes it has room for,
and each of them is what is read from its own slice. -/
theorem decode_confined :
    (∀ b, 4 ≤ Ace.declaredSize b → Ace.declaredSize b ≤ b.length →
      Ace.decode b = Ace.decode (b.take (Ace.declaredSize b))) ∧
    ∀ b, 8 ≤ declaredSize b → declaredSize b ≤ b.length →
      decode b = decode (b.take (declaredSize b)) ∧
      ∀ l, decode b = .ok l →
        let slices := entrySlices (numberAt b 4 2) (b.drop 8)
        l.entries.length = numberAt b 4 2 ∧
        (slices.map Ace.declaredSize).sum ≤ declaredSize b - 8 ∧
        List.Forall₂ (fun slice a => Ace.decode slice = .ok a) slices l.entries := by
  constructor
  · intro b least fits
    exact (Ace.decode_take_declared least fits).symm
  · intro b least fits
    refine ⟨(decode_take_declared least fits).symm, ?_⟩
    intro l h slices
    obtain ⟨filled, sizes⟩ := slices_of_decode h
    refine ⟨?_, sizes, filled.imp fun slice a ha => ha.read⟩
    rw [← filled.length_eq]
    exact length_entrySlices ..

/-- A SID lacks a sub-authority that the next entry would supply. A list has an entry of five bytes,
one of four, a byte that is left over and two that are not its own. -/
theorem decode_confined_neighbours :
    let lacking : Bytes := [0x00, 0x00, 16, 0, 1, 0, 0, 0, 0x01, 0x01, 0, 0, 0, 0, 0, 0x01]
    let first : Bytes := [0x20, 0x00, 5, 0, 0xAA]
    let second : Bytes := [0x21, 0x00, 4, 0]
    let b : Bytes :=
      [0x02, 0x00, 18, 0, 0x02, 0, 0, 0] ++ (first ++ (second ++ ([0x55] ++ [0xFF, 0xFF])))
    let l : Acl :=
      ⟨[⟨⟨0x20⟩, 0, .unknown [0xAA, 0, 0, 0], ⟨rfl, trivial, ⟨1, rfl⟩⟩⟩,
        ⟨⟨0x21⟩, 0, .unknown [], ⟨rfl, trivial, ⟨0, rfl⟩⟩⟩]⟩
    Ace.decode (lacking ++ [0, 0, 0, 0]) = Ace.decode lacking ∧
      Ace.decode lacking = .error (.truncated .aceBody 13 12) ∧
      decode b = .ok l ∧ decode (b.take 18) = .ok l ∧
      entrySlices 2 (b.drop 8) = [first, second] ∧ [5, 4].sum ≤ 18 - 8 ∧
      List.Forall₂ (fun slice a => Ace.decode slice = .ok a) [first, second] l.entries := by
  intro lacking first second b l
  obtain ⟨entry, list⟩ := decode_confined
  obtain ⟨same, read⟩ := list b (by decide) (by decide)
  have made : decode b = .ok l := by
    simp only [b, l, first, second]
    rfl
  obtain ⟨-, sizes, slices⟩ := read l made
  exact ⟨entry (lacking ++ [0, 0, 0, 0]) (by decide) (by decide), rfl, made, same.symm.trans made,
    rfl, sizes, slices⟩

end AccessControl.Acl
