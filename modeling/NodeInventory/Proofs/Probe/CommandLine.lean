import NodeInventory.Proofs.Probe.Parameters

/-!
# Command lines put together

The parameters of a command line are those of its parts, later parts first.  Only the arguments that
give a key a value count for it, so the arguments of different keys, and all others, may stand among
each other in any order.
-/

namespace NodeInventory.Probe

open Text

/-! ## Arguments that count -/

/-- An argument that gives a key a value. -/
def Sets (key word : List Char) : Prop := ∃ value, value ≠ [] ∧ word = key ++ '=' :: value

theorem isSome_valueOf?_iff {key word : List Char} :
    (BootParameters.valueOf? key word).isSome = true ↔ Sets key word := by
  rw [Option.isSome_iff_exists]
  exact exists_congr fun value => BootParameters.valueOf?_eq_some_iff.trans and_comm

instance (key word : List Char) : Decidable (Sets key word) :=
  decidable_of_iff _ isSome_valueOf?_iff

/-- Two command lines that differ in arguments without a value for a key, and in where the arguments
of the one key stand among those of the other. -/
structure ArgumentsMoved (text moved : List Char) : Prop where
  uuid : (words text).filter (Sets "uuid".toList ·) = (words moved).filter (Sets "uuid".toList ·)
  mac : (words text).filter (Sets "mac".toList ·) = (words moved).filter (Sets "mac".toList ·)

namespace BootParameters

variable {key : List Char}

theorem lastValue?_append (first later : List (List Char)) :
    lastValue? (first ++ later) key = (lastValue? later key).or (lastValue? first key) := by
  rw [lastValue?, List.filterMap_append, List.getLast?_append, ← lastValue?, ← lastValue?]

theorem lastValue?_filter (words : List (List Char)) :
    lastValue? (words.filter (Sets key ·)) key = lastValue? words key := by
  have skipped (word : List Char) (unset : decide (Sets key word) = false) :
      valueOf? key word = none := by
    rw [← Option.not_isSome_iff_eq_none, isSome_valueOf?_iff]
    exact of_decide_eq_false unset
  rw [lastValue?, filterMap_filter_of_none skipped, ← lastValue?]

/-! ## Command lines -/

/-- The parameters of two sources, of which the later one counts first. -/
def or (later earlier : BootParameters) : BootParameters :=
  ⟨later.uuid.or earlier.uuid, later.mac.or earlier.mac⟩

theorem ext {found found' : BootParameters} (uuid : found.uuid = found'.uuid)
    (mac : found.mac = found'.mac) : found = found' := by
  cases found
  cases found'
  cases uuid
  cases mac
  rfl

theorem parse_append_gap (a b : List Char) {gap : List Char} (ne : gap ≠ [])
    (blank : IsBlankText gap) : parse (a ++ gap ++ b) = (parse b).or (parse a) := by
  refine ext ?_ ?_
  · rw [uuid_parse, words_append_gap a ne blank, lastValue?_append, ← uuid_parse, ← uuid_parse, or]
  · rw [mac_parse, words_append_gap a ne blank, lastValue?_append, ← mac_parse, ← mac_parse, or]

theorem parse_eq_of_moved {text moved : List Char} (same : ArgumentsMoved text moved) :
    parse moved = parse text := by
  refine ext ?_ ?_
  · rw [uuid_parse, uuid_parse, ← lastValue?_filter, ← same.uuid, lastValue?_filter]
  · rw [mac_parse, mac_parse, ← lastValue?_filter, ← same.mac, lastValue?_filter]

/-- An argument that sets nothing, such as a key without a value, leaves all as it was. -/
theorem parse_insert (a b : List Char) {word gap : List Char} (unset : parse word = empty)
    (ne : gap ≠ []) (blank : IsBlankText gap) :
    parse (a ++ gap ++ word ++ gap ++ b) = parse (a ++ gap ++ b) := by
  rw [parse_append_gap _ b ne blank, parse_append_gap a word ne blank, unset,
    parse_append_gap a b ne blank]
  rfl

/-- A command line of two parts has the parameters of the second one, and those of the first one
where the second one has none.  A parameter is what follows the equality sign of the last argument
that gives its key a value; a key without a value takes none back, and only the order of the
arguments of one key matters. -/
theorem parse_composes (a b : List Char) {gap : List Char} (ne : gap ≠ [])
    (blank : IsBlankText gap) :
    parse (a ++ gap ++ b) = (parse b).or (parse a) ∧
    (∀ bare ∈ ["uuid=".toList, "mac=".toList],
      parse (a ++ gap ++ bare ++ gap ++ b) = parse (a ++ gap ++ b)) ∧
    ∀ text, Gives (words text) "uuid".toList (parse text).uuid ∧
      Gives (words text) "mac".toList (parse text).mac ∧
      ∀ moved, ArgumentsMoved text moved → parse moved = parse text := by
  refine ⟨parse_append_gap a b ne blank, fun bare mem => ?_, fun text =>
    ⟨gives_iff.2 (uuid_parse text).symm, gives_iff.2 (mac_parse text).symm,
      fun _ => parse_eq_of_moved⟩⟩
  have unset : parse bare = empty := by
    rcases List.mem_cons.1 mem with rfl | mem
    · rfl
    · cases List.mem_singleton.1 mem
      rfl
  exact parse_insert a b unset ne blank

/-- Keys without values, a value with an equality sign in it, and arguments in another order. -/
theorem parse_composes_of_repeated_keys :
    let a := "mac=00-AB uuid=1".toList
    let b := "uuid=2=3 mac= uuid= quiet".toList
    let gap := "\u2003\n".toList
    let moved := "xuuid=4 uuid=1 mac=00-AB".toList
    gap ≠ [] ∧ IsBlankText gap ∧ ArgumentsMoved a moved ∧
      parse (a ++ gap ++ b) = (parse b).or (parse a) ∧
      (parse b).or (parse a) = ⟨some "2=3".toList, some "00-AB".toList⟩ ∧
      parse moved = parse a := by
  intro a b gap moved
  have ne : gap ≠ [] := by decide
  have blank : IsBlankText gap := by decide
  have same : ArgumentsMoved a moved := ⟨by decide +kernel, by decide +kernel⟩
  have composed := parse_composes a b ne blank
  exact ⟨ne, blank, same, composed.1, by decide +kernel, (composed.2.2 a).2.2 moved same⟩

end BootParameters

end NodeInventory.Probe
