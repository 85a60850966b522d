import NodeInventory.Proofs.Banner.Phrase
import NodeInventory.Proofs.Text.Offset

/-!
# Versions behind a marker

A marker is looked up at its leftmost place.  Counted in bytes, this place starts and ends between
characters, so that the line can be cut behind the marker.  The version is the first word from there
on, less its punctuation, unless that leaves nothing or too much.
-/

namespace NodeInventory.Banner

open Text Utf8

variable {marker : String} {line word token : List Char}

/-- The word behind the leftmost place of the marker. -/
theorem word?_after_eq_some_iff :
    (TokenSelector.after marker).word? line = some word ↔
      ∃ lead rest, IsLeftmost marker.toList line lead rest ∧ IsFirstWord word rest := by
  simp only [TokenSelector.word?, Option.bind_eq_some_iff, exists_isLeftmost_iff, isFirstWord_iff]
  constructor
  · rintro ⟨rest, ⟨lead, found⟩, first⟩
    exact ⟨lead, rest, found, first⟩
  · rintro ⟨lead, rest, found, first⟩
    exact ⟨rest, ⟨lead, found⟩, first⟩

theorem tokenOfWord_eq_some_iff_isStripped :
    tokenOfWord word = some token ↔
      IsStripped isTrimmed word token ∧ 1 ≤ byteLength token ∧ byteLength token ≤ 64 := by
  rw [tokenOfWord_eq_some_iff, isStripped_iff, one_le_byteLength_iff, maxTokenBytes]

/-- The word of a marker, read by offsets in bytes. -/
theorem word?_after_eq_bind (marker : String) (line : List Char) :
    (TokenSelector.after marker).word? line =
      (offset? (encode marker.toList) (encode line)).bind fun offset =>
        (slice? line (offset + marker.utf8ByteSize)).bind fun rest => (words rest).head? := by
  rw [TokenSelector.word?, ← behind?_eq_after?, behind?, Option.bind_assoc, byteLength_toList]

/-- The bytes of a marker are found first at its leftmost place, and the line can be cut behind
them, which is where the selector goes on.  It captures a token exactly where the first word behind
the marker is this token with punctuation around it, and the token has 1 to 64 bytes. -/
theorem capture_behind_marker (marker : String) (line : List Char) :
    (∀ offset, offset? (encode marker.toList) (encode line) = some offset →
      isBoundary (encode line) (offset + marker.utf8ByteSize) = true ∧
      ∃ lead rest, IsLeftmost marker.toList line lead rest ∧ byteLength lead = offset ∧
        slice? line (offset + marker.utf8ByteSize) = some rest) ∧
    (TokenSelector.after marker).capture line =
      ((offset? (encode marker.toList) (encode line)).bind fun offset =>
        (slice? line (offset + marker.utf8ByteSize)).bind fun rest =>
          (words rest).head?).bind tokenOfWord ∧
    ∀ token, (TokenSelector.after marker).capture line = some token ↔
      ∃ lead rest word, IsLeftmost marker.toList line lead rest ∧ IsFirstWord word rest ∧
        IsStripped isTrimmed word token ∧ 1 ≤ byteLength token ∧ byteLength token ≤ 64 := by
  refine ⟨fun offset found => ?_, ?_, fun token => ?_⟩
  · obtain ⟨lead, rest, eq, first, rfl⟩ := exists_of_offset? found
    rw [← byteLength_toList]
    refine ⟨isBoundary_iff.2 ⟨lead ++ marker.toList, rest, ?_, byteLength_append ..⟩,
      lead, rest, ⟨eq, first⟩, rfl, ?_⟩
    · rw [eq, List.append_assoc]
    · rw [eq, slice?_behind]
  · rw [TokenSelector.capture, word?_after_eq_bind]
  · simp only [TokenSelector.capture, Option.bind_eq_some_iff, word?_after_eq_some_iff,
      tokenOfWord_eq_some_iff_isStripped]
    constructor
    · rintro ⟨word, ⟨lead, rest, found, first⟩, kept⟩
      exact ⟨lead, rest, word, found, first, kept⟩
    · rintro ⟨lead, rest, word, found, first, kept⟩
      exact ⟨word, ⟨lead, rest, found, first⟩, kept⟩

/-- Two places of the marker overlap, and the version comes right behind the first of them. -/
theorem capture_behind_marker_overlapping :
    let line := "µ:::v1), µ::v2".toList
    offset? (encode "::".toList) (encode line) = some 2 ∧
      isBoundary (encode line) (2 + "::".utf8ByteSize) = true ∧
      isBoundary (encode line) 1 = false ∧
      (TokenSelector.after "::").capture line = some ":v1".toList := by
  intro line
  have found : offset? (encode "::".toList) (encode line) = some 2 := by decide +kernel
  exact ⟨found, ((capture_behind_marker "::" line).1 2 found).1, by decide +kernel, by decide⟩

end NodeInventory.Banner
