import AccessControl.Proofs.Descriptor.Writing
import AccessControl.Transfer

/-!
# Storing what was loaded

A descriptor that is read is written again unless one of its lists has grown beyond the 65535 bytes
that its size can count (`encode_of_decode_iff_lists_fit`): nothing else in it can fail. The entries
of a list are filled up to groups of four bytes, so a list just below the bound may be read and not
be written (`encode_of_decode_rounded_up`).
-/

namespace AccessControl.Descriptor

variable {σ ε : Type} {d : Descriptor} {b : Bytes}

/-! ### Storing what was read -/

/-- The lists of a descriptor are read at the offsets for them in the header. -/
theorem exists_cutFront_of_decode (h : decode b = .ok d) {l : Acl} (hl : l ∈ d.lists) :
    ∃ offset ∈ [numberAt b 12 4, numberAt b 16 4], offset ≠ 0 ∧
      ∃ rest, Acl.cutFront (b.drop offset) = .ok (l, rest) := by
  obtain ⟨-, _, _, sacl, dacl, -, -, hsacl, hdacl, rfl⟩ := decode_eq_ok_iff.1 h
  rcases mem_lists.1 hl with hl | hl
  · exact ⟨_, List.mem_cons_self, decode_drop_of_decodePart hsacl l hl⟩
  · exact ⟨_, List.mem_cons_of_mem _ List.mem_cons_self, decode_drop_of_decodePart hdacl l hl⟩

theorem offsetsFit_of_decode (h : decode b = .ok d) : d.OffsetsFit := by
  refine offsetsFit_of_sacl_le (partLen_le fun l hl => ?_)
  obtain ⟨_, -, -, rest, read⟩ := exists_cutFront_of_decode h (mem_lists.2 (.inl hl))
  exact Nat.le_trans (Acl.encodedLen_le_sizeBound read)
    (Nat.le_of_lt (Acl.sizeBound_lt_of_cutFront read))

theorem load_of_decode (ε : Type) (h : decode b = .ok d) :
    load (.ok b : Except ε Bytes) = .ok d := by
  simp only [load, h]

/-- The bytes that there are go to the sink, and what it does with them is all that happens. -/
theorem store_of_encode {write : Bytes → σ → Except ε Unit × σ} {sink : σ} (h : d.encode = .ok b) :
    d.store write sink = (write b sink).map (Except.mapError .refused) id := by
  simp only [store, h]

/-- Where there are no bytes, the sink is not asked. -/
theorem store_of_encode_error {write : Bytes → σ → Except ε Unit × σ} {sink : σ} {e : Error}
    (h : d.encode = .error e) : d.store write sink = (.error (.codec e), sink) := by
  simp only [store, h]

/-- A codec error of storing is one of writing, whatever the sink is; its own reasons to refuse are
no such errors. -/
theorem store_eq_codec_iff {write : Bytes → σ → Except ε Unit × σ} {sink : σ} {e : Error} :
    (d.store write sink).1 = .error (.codec e) ↔ d.encode = .error e := by
  cases hd : d.encode with
  | error cause => simp [store_of_encode_error hd]
  | ok c =>
    rw [store_of_encode hd]
    cases hwrite : write c sink with
    | mk result after => cases result <;> simp [Prod.map, Except.mapError]

/-- A descriptor that is read is written again exactly when the size of each of its lists can be
counted in two bytes. Otherwise, it is refused for the size of the first list for which it cannot,
and storing a descriptor that was loaded fails with that error and no other, whatever the sink does
with bytes, and leaves the sink alone. All lists fit if the sizes that their entries declare do,
rounded up to multiples of four and counted three times for attributes. -/
theorem encode_of_decode_iff_lists_fit (h : decode b = .ok d) :
    ((∃ c, d.encode = .ok c) ↔ ∀ l ∈ d.lists, l.encodedLen ≤ 65535) ∧
      (∀ e, d.encode = .error e ↔ ∃ l, d.lists.find? (65535 < ·.encodedLen) = some l ∧
        e = .invalidSize .acl l.encodedLen) ∧
      (∀ (σ ε : Type) (write : Bytes → σ → Except ε Unit × σ) (sink : σ),
        load (.ok b : Except ε Bytes) = .ok d ∧
          ∀ e, ((d.store write sink).1 = .error (.codec e) ↔
              ∃ l, d.lists.find? (65535 < ·.encodedLen) = some l ∧
                e = .invalidSize .acl l.encodedLen) ∧
            ((d.store write sink).1 = .error (.codec e) → (d.store write sink).2 = sink)) ∧
      ((∀ offset ∈ [numberAt b 12 4, numberAt b 16 4], offset ≠ 0 →
          Acl.sizeBound (b.drop offset) ≤ 65535) → ∃ c, d.encode = .ok c) := by
  have placed := offsetsFit_of_decode h
  have refused : ∀ e, d.encode = .error e ↔
      ∃ l, d.lists.find? (65535 < ·.encodedLen) = some l ∧ e = .invalidSize .acl l.encodedLen := by
    intro e
    constructor
    · intro failed
      cases hl : d.lists.find? (65535 < ·.encodedLen) with
      | none =>
        obtain ⟨c, written⟩ := exists_encode_of_lists placed hl
        rw [written] at failed
        cases failed
      | some l =>
        rw [encode_of_large_list placed hl] at failed
        cases failed
        exact ⟨l, rfl, rfl⟩
    · rintro ⟨l, hl, rfl⟩
      exact encode_of_large_list placed hl
  have written : (∃ c, d.encode = .ok c) ↔ ∀ l ∈ d.lists, l.encodedLen ≤ 65535 := by
    constructor
    · rintro ⟨c, written⟩ l hl
      by_contra large
      cases first : d.lists.find? (65535 < ·.encodedLen) with
      | none => exact List.find?_eq_none.1 first l hl (decide_eq_true (Nat.lt_of_not_le large))
      | some l' =>
        rw [encode_of_large_list placed first] at written
        cases written
    · intro fit
      refine exists_encode_of_lists placed (List.find?_eq_none.2 fun l hl large => ?_)
      exact Nat.not_lt.2 (fit l hl) (of_decide_eq_true large)
  refine ⟨written, refused, fun σ ε write sink => ⟨load_of_decode ε h, fun e => ⟨?_, ?_⟩⟩, ?_⟩
  · exact store_eq_codec_iff.trans (refused e)
  · intro failed
    rw [store_of_encode_error (store_eq_codec_iff.1 failed)]
  · intro bounded
    refine written.2 fun l hl => ?_
    obtain ⟨offset, place, present, rest, read⟩ := exists_cutFront_of_decode h hl
    exact Nat.le_trans (Acl.encodedLen_le_sizeBound read) (bounded offset place present)

/-- An entry of five bytes is filled up to eight, which its list has room for. So a buffer takes the
descriptor, and no sink gets to see a codec error. -/
theorem encode_of_decode_iff_lists_fit_five :
    let entry : Ace := ⟨⟨0x20⟩, 0, .unknown [0xAA, 0, 0, 0], ⟨rfl, trivial, ⟨1, rfl⟩⟩⟩
    let d := make 0x8000 none none none (some ⟨[entry]⟩)
    let source : Bytes :=
      [0x01, 0x00, 0x04, 0x80, 0, 0, 0, 0, 0, 0, 0, 0, 0, 0, 0, 0, 20, 0, 0, 0] ++
      [0x02, 0x00, 13, 0, 0x01, 0, 0, 0, 0x20, 0x00, 5, 0, 0xAA]
    decode source = .ok d ∧ Acl.sizeBound (source.drop 20) = 16 ∧
      (∃ c, d.encode = .ok c ∧ ∀ before, d.store fillBuffer before = (.ok (), c)) ∧
      ∀ (σ ε : Type) (write : Bytes → σ → Except ε Unit × σ) (sink : σ) (e : Error),
        (d.store write sink).1 ≠ .error (.codec e) := by
  intro entry d source
  have read : decode source = .ok d := by
    simp only [source, d, entry]
    rfl
  obtain ⟨-, -, stored, written⟩ := encode_of_decode_iff_lists_fit read
  have bound : Acl.sizeBound (source.drop 20) = 16 := by
    simp only [source]
    decide
  have exists_bytes : ∃ c, d.encode = .ok c := by
    refine written fun offset place present => ?_
    rcases List.mem_cons.1 place with rfl | place
    · exact absurd rfl present
    · obtain rfl := List.mem_singleton.1 place
      decide
  obtain ⟨c, hc⟩ := exists_bytes
  have fit : d.lists.find? (65535 < ·.encodedLen) = none := by decide
  refine ⟨read, bound, ⟨c, hc, fun before => ?_⟩, fun σ ε write sink e failed => ?_⟩
  · rw [store_of_encode hc]
    rfl
  · obtain ⟨l, first, -⟩ := ((stored σ ε write sink).2 e).1.1 failed
    rw [fit] at first
    cases first

/-- A header that points to a list right behind it gives a descriptor with that DACL. -/
theorem decode_of_dacl {w t : Bytes} {l : Acl} (h : Acl.cutFront w = .ok (l, t)) :
    decode (header 0 0x8004 ⟨0, 0, 0, 20⟩ ++ w) = .ok (make 0x8004 none none none (some l)) := by
  generalize hb : header 0 0x8004 ⟨0, 0, 0, 20⟩ ++ w = b
  have behind : ∀ short, cut short 20 b = .ok (header 0 0x8004 ⟨0, 0, 0, 20⟩, w) :=
    fun short => cut_eq_ok_iff.2 ⟨hb.symm, length_header ..⟩
  have dacl : decodePart Acl.cutFront .dacl b 20 = .ok (some l) := by
    simp only [decodePart, behind, ok_bind, h, pure_ok]
    rfl
  rw [decode_header hb.symm (by decide), dacl]
  rfl

/-- A list of one entry of an unassigned type is read whatever the body of the entry is, and fills
it up to groups of four. -/
theorem exists_cutFront_unassigned (x : Bytes) (fits : 12 + x.length < 256 ^ 2) :
    ∃ l : Acl, l.encodedLen = 8 + align4 (4 + x.length) ∧
      Acl.cutFront (2 :: 0 :: (leBytes 2 (12 + x.length) ++ (leBytes 2 1 ++ (leBytes 2 0 ++
        (0x20 :: 0 :: (leBytes 2 (4 + x.length) ++ x)))))) = .ok (l, []) := by
  have groups : 4 ∣ (padded x).length := by
    rw [length_padded]
    exact four_dvd_align4 _
  let a : Ace := ⟨⟨0x20⟩, 0, .unknown (padded x), ⟨rfl, trivial, groups⟩⟩
  generalize hy : (0x20 :: 0 :: (leBytes 2 (4 + x.length) ++ x) : Bytes) = y
  have entry : Ace.cutFront y = .ok (a, []) := by
    have made : Ace.make ⟨0x20⟩ 0 (.unknown x) = .ok a :=
      Ace.make_eq_ok_iff.2 ⟨rfl, rfl, rfl, rfl, trivial⟩
    refine Ace.cutFront_eq_ok_iff.2 ⟨⟨0x20⟩, 0, x, .unknown x, ?_, rfl, made, ?_⟩
    · rw [Ace.headerLen]
      omega
    · rw [← hy, List.append_nil]
      rfl
  have length : 12 + x.length = Acl.headerLen + y.length := by
    simp only [← hy, List.length_cons, List.length_append, length_leBytes, Acl.headerLen]
    omega
  refine ⟨⟨[a]⟩, ?_, ?_⟩
  · simp only [a, Acl.encodedLen, Acl.headerLen, Acl.entriesLen, Ace.size, Ace.headerLen,
      Payload.encodedLen, length_padded, align4_add (by decide : 4 ∣ 4),
      align4_eq_self (four_dvd_align4 x.length), Nat.add_zero]
  · rw [length] at fits ⊢
    refine Acl.cutFront_eq_ok_iff.2 ⟨2, 0, 1, 0, y, by decide, fits, by decide, by decide, ?_, ?_⟩
    · simp only [Acl.decodeEntries, entry, ok_bind, pure_ok]
    · rw [List.append_nil]

/-- A list of 65535 bytes with one entry of 65527 takes 65536 bytes when the entry is filled up,
which its size cannot count. -/
theorem encode_of_decode_rounded_up :
    let source : Bytes :=
      [0x01, 0x00, 0x04, 0x80, 0, 0, 0, 0, 0, 0, 0, 0, 0, 0, 0, 0, 20, 0, 0, 0] ++
      ([0x02, 0x00, 0xFF, 0xFF, 0x01, 0, 0, 0] ++ ([0x20, 0x00, 0xF7, 0xFF] ++ zeros 65523))
    ∃ d, decode source = .ok d ∧ load (.ok source : Except Empty Bytes) = .ok d ∧
      d.encode = .error (.invalidSize .acl 65536) ∧
      ∀ (σ ε : Type) (write : Bytes → σ → Except ε Unit × σ) (sink : σ),
        d.store write sink = (.error (.codec (.invalidSize .acl 65536)), sink) := by
  intro source
  have fits : 12 + (zeros 65523).length < 256 ^ 2 := by
    rw [length_zeros]
    decide
  obtain ⟨l, size, readList⟩ := exists_cutFront_unassigned (zeros 65523) fits
  rw [length_zeros] at size readList
  have size : l.encodedLen = 65536 := size
  have read : decode source = .ok (make 0x8004 none none none (some l)) := decode_of_dacl readList
  have refused : (make 0x8004 none none none (some l)).encode =
      .error (.invalidSize .acl 65536) := by
    rw [← size]
    refine encode_of_large_list (offsetsFit_of_decode read) ?_
    exact List.find?_cons_of_pos (by rw [size]; decide)
  exact ⟨_, read, load_of_decode Empty read, refused, fun _ _ _ _ => store_of_encode_error refused⟩

end AccessControl.Descriptor
