import NodeInventory.Proofs.Banner.FirstLine

/-!
# The version that is read

What a rule reads is a version as `IsVersion` has it, whatever the rule and the text: one word, not
too long, without punctuation at its ends.  It stands in the line that the rule picks as it is read,
and reading the first word of the version alone gives it back.
-/

namespace NodeInventory.Banner

open Text

variable {selector : TokenSelector} {line word token : List Char}

/-! ## The word of a token -/

/-- The part of a line in which a selector counts words: the whole line, or what follows the marker
at its leftmost place. -/
inductive LooksIn : TokenSelector → (line part : List Char) → Prop
  | field {index line} : LooksIn (.field index) line line
  | after {marker line lead part} (eq : line = lead ++ (marker.toList ++ part))
      (leftmost : ∀ n < lead.length, ¬marker.toList <+: line.drop n) :
      LooksIn (.after marker) line part

theorem LooksIn.isSuffix {part : List Char} (looks : LooksIn selector line part) :
    part <:+ line := by
  cases looks with
  | field => exact List.suffix_refl _
  | after eq =>
      rw [eq, ← List.append_assoc]
      exact List.suffix_append ..

theorem exists_looksIn_of_word? (pointed : selector.word? line = some word) :
    ∃ part, LooksIn selector line part ∧ word ∈ words part := by
  cases selector with
  | field index => exact ⟨line, .field, List.mem_of_getElem? pointed⟩
  | after marker =>
      obtain ⟨part, found, first⟩ := Option.bind_eq_some_iff.1 pointed
      obtain ⟨lead, eq, leftmost⟩ := after?_eq_some_iff.1 found
      exact ⟨part, .after eq leftmost, List.mem_of_head? first⟩

theorem solid_of_word? (pointed : selector.word? line = some word) :
    ∀ c ∈ word, isBlank c = false := by
  obtain ⟨part, -, mem⟩ := exists_looksIn_of_word? pointed
  exact (solid_of_mem_words mem).2

/-! ## Tokens -/

theorem tokenOfWord_eq_some_iff :
    tokenOfWord word = some token ↔
      strip isTrimmed word = token ∧ token ≠ [] ∧ byteLength token ≤ maxTokenBytes := by
  rw [tokenOfWord]
  split
  next improper =>
    refine iff_of_false (Option.some_ne_none token).symm ?_
    rintro ⟨rfl, ne, le⟩
    exact improper.elim ne (Nat.not_lt.2 le)
  next proper =>
    rw [not_or, Nat.not_lt] at proper
    constructor
    · rintro ⟨⟩
      exact ⟨rfl, proper⟩
    · rintro ⟨rfl, -⟩
      rfl

/-- A token is a part of its word, and not empty. -/
theorem solid_of_capture (captured : selector.capture line = some token) :
    token ≠ [] ∧ ∀ c ∈ token, isBlank c = false := by
  obtain ⟨word, pointed, kept⟩ := Option.bind_eq_some_iff.1 captured
  obtain ⟨rfl, ne, -⟩ := tokenOfWord_eq_some_iff.1 kept
  exact ⟨ne, fun c mem => solid_of_word? pointed c (mem_of_mem_strip mem)⟩

theorem isVersion_of_capture (captured : selector.capture line = some token) :
    IsVersion token := by
  obtain ⟨word, -, kept⟩ := Option.bind_eq_some_iff.1 captured
  obtain ⟨rfl, ne, le⟩ := tokenOfWord_eq_some_iff.1 kept
  have bare : Bare isTrimmed (strip isTrimmed word) :=
    (strip_eq_nil_or_bare isTrimmed word).resolve_left ne
  exact ⟨le, (solid_of_capture captured).2, bare⟩

theorem isInfix_of_capture (captured : selector.capture line = some token) :
    ∃ part, LooksIn selector line part ∧ token <:+: part := by
  obtain ⟨word, pointed, kept⟩ := Option.bind_eq_some_iff.1 captured
  obtain ⟨rfl, -⟩ := tokenOfWord_eq_some_iff.1 kept
  obtain ⟨part, looks, mem⟩ := exists_looksIn_of_word? pointed
  exact ⟨part, looks, (strip_isInfix isTrimmed word).trans (isInfix_of_mem_words mem)⟩

/-- A version alone is a line that tells this version. -/
theorem IsVersion.versionLine (version : IsVersion token) (tool : String) :
    VersionLine ⟨tool, .first, .field 0⟩ token token where
  unbroken c mem := by
    have solid := version.solid c mem
    by_contra cut
    rw [isBlank_of_isLineBreak (Bool.not_eq_false _ ▸ cut)] at solid
    cases solid
  accepted := rfl
  parts := by
    refine ⟨[], [], (List.append_nil token).symm, .field, [], [], rfl, ?_, ?_⟩ <;> rintro _ ⟨⟩

/-! ## Versions -/

theorem Unread.isLineBreak_getLast {rule : Rule} {block : List Char} (unread : Unread rule block)
    (c : Char) (last : block.getLast? = some c) : isLineBreak c = true := by
  induction unread generalizing c with
  | nil => cases last
  | line _ ends _ _ ih => exact cut_of_getLast? ends ih c last

namespace Rule

variable {rule : Rule}

theorem Picks.isPiece {text : List Char} (picks : Picks rule text line) :
    IsPiece isLineBreak line text := by
  obtain ⟨block, after, eq, unread, ends⟩ := picks.parts
  exact ⟨block, after, eq, picks.unbroken, unread.isLineBreak_getLast, ends⟩

/-- How a version that a rule reads looks, and where it comes from. -/
structure Tells (rule : Rule) (raw version : String) : Prop where
  ne_empty : version ≠ ""
  size_le : version.utf8ByteSize ≤ 64
  solid : ∀ c ∈ version.toList, isBlank c = false
  bare : Bare isTrimmed version.toList
  /-- It stands in the picked line, and there behind the marker if the rule has one. -/
  verbatim : ∃ line part, rule.Picks raw.toList line ∧ IsPiece isLineBreak line raw.toList ∧
    version.toList <:+: line ∧ LooksIn rule.token (trim line) part ∧ version.toList <:+: part
  /-- It is its own first word. -/
  canonical : ∀ tool, isBlankMarker tool = false →
    Rule.extract ⟨tool, .first, .field 0⟩ version = .ok (some version)

theorem extract_eq_some_iff {raw version : String} :
    rule.extract raw = .ok (some version) ↔ rule.validate = .ok () ∧
      ∃ line, rule.Picks raw.toList line ∧
        rule.token.capture (trim line) = some version.toList := by
  constructor
  · intro read
    cases valid : rule.validate with
    | error fault =>
        rw [extract, valid] at read
        cases read
    | ok =>
        refine ⟨rfl, ?_⟩
        rw [extract_of_valid valid] at read
        obtain ⟨token, told, rfl⟩ := Option.map_eq_some_iff.1 (Except.ok.inj read)
        obtain ⟨found, first, captured⟩ := Option.bind_eq_some_iff.1 told
        obtain ⟨line, picks, rfl⟩ := line?_eq_some_iff.1 first
        exact ⟨line, picks, captured.trans (congrArg some String.toList_ofList.symm)⟩
  · rintro ⟨valid, line, picks, captured⟩
    rw [extract_of_valid valid, version?, picks.line?_eq, Option.bind_some, captured,
      Option.map_some, String.ofList_toList]

theorem extract_of_isVersion (version : IsVersion token) {tool : String}
    (named : isBlankMarker tool = false) :
    Rule.extract ⟨tool, .first, .field 0⟩ (String.ofList token) =
      .ok (some (String.ofList token)) := by
  have valid : Rule.validate ⟨tool, .first, .field 0⟩ = .ok () := by
    simp [Rule.validate, fault?, named, LineSelector.isBlank, TokenSelector.isBlank]
  have told : VersionLine ⟨tool, .first, .field 0⟩ token token := version.versionLine tool
  obtain ⟨captured, filled⟩ := told.capture_trim version nofun
  rw [extract_eq_some_iff, String.toList_ofList]
  exact ⟨valid, token, .of_unbroken told.unbroken filled told.accepted, captured⟩

/-- Every version that is read is a token of the picked line as it stands there, fit to be one, and
the same when it is read again. -/
theorem tells_of_extract {raw version : String} (read : rule.extract raw = .ok (some version)) :
    rule.Tells raw version := by
  obtain ⟨-, line, picks, captured⟩ := extract_eq_some_iff.1 read
  have token : IsVersion version.toList := isVersion_of_capture captured
  obtain ⟨part, looks, within⟩ := isInfix_of_capture captured
  have kept : trim line <:+: line := strip_isInfix isBlank line
  constructor
  case ne_empty => exact mt String.toList_eq_nil_iff.2 token.ne_nil
  case size_le =>
    have le := token.length_le
    rwa [byteLength_eq_utf8ByteSize, String.ofList_toList] at le
  case solid => exact token.solid
  case bare => exact token.bare
  case verbatim =>
    exact ⟨line, part, picks, picks.isPiece, (within.trans looks.isSuffix.isInfix).trans kept,
      looks, within⟩
  case canonical =>
    intro tool named
    have again := extract_of_isVersion token named
    rwa [String.ofList_toList] at again

/-- The second line is picked, and the comma is no part of its version. -/
theorem tells_of_extract_between_commas :
    Tool.iproute2.rule.extract "(no cache)\r\n ip utility, iproute2-5.15.0, libbpf 0.5.0" =
        .ok (some "iproute2-5.15.0") ∧
      Tool.iproute2.rule.Tells "(no cache)\r\n ip utility, iproute2-5.15.0, libbpf 0.5.0"
        "iproute2-5.15.0" := by
  have read : Tool.iproute2.rule.extract
      "(no cache)\r\n ip utility, iproute2-5.15.0, libbpf 0.5.0" =
        .ok (some "iproute2-5.15.0") := by decide
  exact ⟨read, tells_of_extract read⟩

end Rule

end NodeInventory.Banner
