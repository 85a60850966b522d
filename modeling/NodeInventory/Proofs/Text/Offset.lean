import Mathlib.Data.List.Infix
import NodeInventory.Proofs.Text.Pieces
import NodeInventory.Proofs.Text.Utf8

/-!
# Offsets in bytes

A text can be cut at an offset in its bytes where a character starts or the text ends.  A marker
starts with a byte that continues no character, so that its bytes stand in those of a text only
between two such offsets.  So a search by bytes finds what a search by characters finds, and the
text can be cut behind it.  Main statements: `isBoundary_iff`, `exists_of_offset?` and
`behind?_eq_after?`.
-/

namespace NodeInventory.Text

/-- The least offset at which one sequence stands in another. -/
def offset? {α : Type _} [BEq α] (marker s : List α) : Option Nat :=
  s.tails.findIdx? marker.isPrefixOf

section Offset

variable {α : Type _} [BEq α] [LawfulBEq α] {marker s : List α} {offset : Nat}

theorem offset?_eq_some_iff :
    offset? marker s = some offset ↔ offset ≤ s.length ∧ marker <+: s.drop offset ∧
      ∀ n < offset, ¬marker <+: s.drop n := by
  rw [offset?, List.findIdx?_eq_some_iff_getElem]
  simp only [List.length_tails, Nat.lt_succ_iff, List.getElem_tails, List.isPrefixOf_iff_prefix,
    exists_prop]

theorem offset?_eq_none_iff :
    offset? marker s = none ↔ ∀ lead rest, s ≠ lead ++ (marker ++ rest) := by
  rw [offset?, List.findIdx?_eq_none_iff]
  constructor
  · rintro absent lead rest rfl
    have stands := absent (marker ++ rest) ((List.mem_tails ..).2 (List.suffix_append ..))
    rw [List.isPrefixOf_iff_prefix.2 (List.prefix_append ..)] at stands
    cases stands
  · intro absent tail mem
    obtain ⟨lead, eq⟩ := (List.mem_tails ..).1 mem
    refine eq_false_of_ne_true fun stands => ?_
    obtain ⟨rest, rfl⟩ := List.isPrefixOf_iff_prefix.1 stands
    exact absent lead rest eq.symm

end Offset

namespace Utf8

variable {marker s : List Char} {offset : Nat}

/-! ## Lengths -/

theorem length_encode (s : List Char) : (encode s).length = byteLength s := by
  induction s with
  | nil => rfl
  | cons c s ih =>
      rw [encode_cons, List.length_append, String.length_utf8EncodeChar, ih, byteLength_cons]

theorem drop_encode_append (front rest : List Char) :
    (encode (front ++ rest)).drop (byteLength front) = encode rest := by
  rw [encode_append, ← length_encode, List.drop_left]

/-! ## Boundaries -/

instance (b : UInt8) : Decidable (IsContinuation b) := inferInstanceAs (Decidable (_ ∧ _))

/-- Whether a byte at which a character starts stands at the offset, or the bytes end there. -/
def isBoundary (bytes : List UInt8) (offset : Nat) : Bool :=
  match bytes[offset]? with
  | some b => !decide (IsContinuation b)
  | none => offset == bytes.length

theorem isBoundary_of_getElem? {bytes : List UInt8} {b : UInt8} (here : bytes[offset]? = some b) :
    isBoundary bytes offset = true ↔ ¬IsContinuation b := by
  simp only [isBoundary, here, Bool.not_eq_true', decide_eq_false_iff_not]

theorem isBoundary_append_right (before bytes : List UInt8) (offset : Nat) :
    isBoundary (before ++ bytes) (before.length + offset) = isBoundary bytes offset := by
  simp only [isBoundary, List.getElem?_append_right (Nat.le_add_right ..), Nat.add_sub_cancel_left,
    List.length_append]
  split
  · rfl
  · rw [Bool.eq_iff_iff, beq_iff_eq, beq_iff_eq, Nat.add_left_cancel_iff]

/-- A text starts at a boundary. -/
theorem isBoundary_zero (s : List Char) : isBoundary (encode s) 0 = true := by
  cases s with
  | nil => rfl
  | cons c s =>
      obtain ⟨b, more, eq, starts, -⟩ := utf8EncodeChar_eq_cons c
      have here : (encode (c :: s))[0]? = some b := by rw [encode_cons, eq]; rfl
      exact (isBoundary_of_getElem? here).2 starts

/-- Within a character there is no boundary. -/
theorem le_of_isBoundary_cons {c : Char} (pos : 0 < offset)
    (boundary : isBoundary (encode (c :: s)) offset = true) : c.utf8Size ≤ offset := by
  by_contra within
  obtain ⟨b, more, eq, -, continues⟩ := utf8EncodeChar_eq_cons c
  have size : more.length + 1 = c.utf8Size := by
    rw [← String.length_utf8EncodeChar, eq, List.length_cons]
  obtain ⟨n, rfl⟩ := Nat.exists_eq_succ_of_ne_zero (Nat.ne_of_gt pos)
  have lt : n < more.length := by omega
  have here : (encode (c :: s))[n + 1]? = some more[n] := by
    rw [encode_cons, eq, List.cons_append, List.getElem?_cons_succ, List.getElem?_append_left lt,
      List.getElem?_eq_getElem lt]
  exact (isBoundary_of_getElem? here).1 boundary (continues _ (List.getElem_mem lt))

/-- A text falls into two texts at a boundary. -/
theorem exists_append_of_isBoundary (boundary : isBoundary (encode s) offset = true) :
    ∃ front rest, s = front ++ rest ∧ byteLength front = offset := by
  induction s generalizing offset with
  | nil =>
      refine ⟨[], [], rfl, ?_⟩
      exact (beq_iff_eq.1 boundary).symm
  | cons c s ih =>
      rcases Nat.eq_zero_or_pos offset with rfl | pos
      · exact ⟨[], c :: s, rfl, rfl⟩
      · obtain ⟨n, rfl⟩ := Nat.exists_eq_add_of_le (le_of_isBoundary_cons pos boundary)
        rw [encode_cons, ← String.length_utf8EncodeChar, isBoundary_append_right] at boundary
        obtain ⟨front, rest, rfl, length⟩ := ih boundary
        exact ⟨c :: front, rest, rfl, congrArg (c.utf8Size + ·) length⟩

theorem isBoundary_iff :
    isBoundary (encode s) offset = true ↔
      ∃ front rest, s = front ++ rest ∧ byteLength front = offset := by
  refine ⟨exists_append_of_isBoundary, ?_⟩
  rintro ⟨front, rest, rfl, rfl⟩
  have start := isBoundary_append_right (encode front) (encode rest) 0
  rwa [isBoundary_zero, Nat.add_zero, length_encode, ← encode_append] at start

/-! ## Slices -/

/-- The text from an offset in bytes on, which must be a boundary. -/
def slice? (s : List Char) (offset : Nat) : Option (List Char) :=
  if isBoundary (encode s) offset then decode? ((encode s).drop offset) else none

theorem slice?_append (front rest : List Char) :
    slice? (front ++ rest) (byteLength front) = some rest := by
  rw [slice?, if_pos (isBoundary_iff.2 ⟨front, rest, rfl, rfl⟩), drop_encode_append,
    decode?_encode]

/-! ## Markers -/

/-- Text that starts with the bytes of a marker starts with the marker. -/
theorem isPrefix_of_encode (stands : encode marker <+: encode s) : marker <+: s := by
  induction marker generalizing s with
  | nil => exact List.nil_prefix
  | cons c marker ih =>
      obtain ⟨bytes, eq⟩ := stands
      cases s with
      | nil =>
          obtain ⟨b, more, first, -⟩ := utf8EncodeChar_eq_cons c
          rw [encode_cons, first] at eq
          cases eq
      | cons d s =>
          rw [encode_cons, encode_cons, List.append_assoc] at eq
          obtain ⟨rfl, later⟩ := utf8EncodeChar_append_inj eq
          exact List.prefix_cons_inj c |>.2 (ih ⟨bytes, later⟩)

/-- The bytes of a marker stand only where the marker does. -/
theorem exists_append_of_stands (ne : marker ≠ [])
    (stands : encode marker <+: (encode s).drop offset) :
    ∃ lead rest, s = lead ++ (marker ++ rest) ∧ byteLength lead = offset := by
  obtain ⟨c, marker, rfl⟩ := List.exists_cons_of_ne_nil ne
  obtain ⟨b, more, first, starts, -⟩ := utf8EncodeChar_eq_cons c
  have here : (encode s)[offset]? = some b := by
    obtain ⟨bytes, eq⟩ := stands
    rw [← List.head?_drop, ← eq, encode_cons, first]
    rfl
  obtain ⟨lead, tail, rfl, rfl⟩ := isBoundary_iff.1 ((isBoundary_of_getElem? here).2 starts)
  rw [drop_encode_append] at stands
  obtain ⟨rest, rfl⟩ := isPrefix_of_encode stands
  exact ⟨lead, rest, rfl, rfl⟩

/-- A search by bytes finds the leftmost place of a marker, counted in characters too. -/
theorem exists_of_offset? (found : offset? (encode marker) (encode s) = some offset) :
    ∃ lead rest, s = lead ++ (marker ++ rest) ∧ (∀ n < lead.length, ¬marker <+: s.drop n) ∧
      byteLength lead = offset := by
  obtain ⟨-, stands, least⟩ := offset?_eq_some_iff.1 found
  have parts : ∃ lead rest, s = lead ++ (marker ++ rest) ∧ byteLength lead = offset := by
    rcases eq_or_ne marker [] with rfl | ne
    · -- the empty marker stands everywhere, so it is found at the start
      refine ⟨[], s, rfl, (Nat.eq_zero_of_not_pos fun pos => ?_).symm⟩
      exact least 0 pos List.nil_prefix
    · exact exists_append_of_stands ne stands
  obtain ⟨lead, rest, eq, rfl⟩ := parts
  refine ⟨lead, rest, eq, fun n lt earlier => ?_, rfl⟩
  obtain ⟨late, split⟩ := earlier
  have front : lead.take n = s.take n := by
    rw [eq, List.take_append_of_le_length (Nat.le_of_lt lt)]
  have whole : s = lead.take n ++ (marker ++ late) := by
    rw [front, split, List.take_append_drop]
  refine least _ (byteLength_take_lt lt) ?_
  rw [whole, drop_encode_append, encode_append]
  exact List.prefix_append ..

/-- The text behind a marker that is found, and cut off, by offsets in bytes. -/
def behind? (marker s : List Char) : Option (List Char) :=
  (offset? (encode marker) (encode s)).bind fun offset => slice? s (offset + byteLength marker)

theorem slice?_behind (lead marker rest : List Char) :
    slice? (lead ++ (marker ++ rest)) (byteLength lead + byteLength marker) = some rest := by
  rw [← byteLength_append, ← List.append_assoc]
  exact slice?_append ..

theorem behind?_eq_after? (marker s : List Char) : behind? marker s = after? marker s := by
  cases found : offset? (encode marker) (encode s) with
  | none =>
      rw [behind?, found, Option.bind_none, eq_comm, Option.eq_none_iff_forall_ne_some]
      intro rest eq
      obtain ⟨lead, rfl, -⟩ := after?_eq_some_iff.1 eq
      refine offset?_eq_none_iff.1 found (encode lead) (encode rest) ?_
      rw [encode_append, encode_append]
  | some offset =>
      obtain ⟨lead, rest, rfl, leftmost, rfl⟩ := exists_of_offset? found
      rw [behind?, found, Option.bind_some, slice?_behind, after?_append marker lead rest leftmost]

end Utf8

end NodeInventory.Text
