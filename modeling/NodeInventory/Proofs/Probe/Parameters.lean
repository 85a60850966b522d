import NodeInventory.Probe.Boot
import NodeInventory.Proofs.Text.Cutting

/-!
# The parameters of a command line

A key has the value of the last word that gives it one, and an empty value is none.  The keys are
read apart from each other: no word gives a value to both.
-/

namespace NodeInventory.Probe

open Text

/-! ## Keys -/

/-- What the words of a command line give a key: the last of its values, empty ones left out. -/
inductive Gives (words : List (List Char)) (key : List Char) : Option (List Char) → Prop
  | last {before behind : List (List Char)} {value : List Char} :
      words = before ++ (key ++ '=' :: value) :: behind → value ≠ [] →
      (∀ later, later ≠ [] → key ++ '=' :: later ∉ behind) → Gives words key (some value)
  | nothing : (∀ value, value ≠ [] → key ++ '=' :: value ∉ words) → Gives words key none

namespace BootParameters

variable {key word value : List Char} {words : List (List Char)}

/-! ## One word -/

theorem valueOf?_eq_some_iff :
    valueOf? key word = some value ↔ word = key ++ '=' :: value ∧ value ≠ [] := by
  have rest (value : List Char) : (key ++ '=' :: value).drop (key.length + 1) = value := by
    rw [List.drop_append]
    simp
  rw [valueOf?]
  constructor
  · intro h
    split at h
    next found =>
      obtain ⟨isPrefix, filled⟩ := found
      obtain ⟨value, rfl⟩ := List.isPrefixOf_iff_prefix.1 isPrefix
      rw [List.append_assoc, List.singleton_append, rest] at h filled
      cases h
      exact ⟨by rw [List.append_assoc, List.singleton_append], filled⟩
    next => cases h
  · rintro ⟨rfl, filled⟩
    have isPrefix := List.prefix_append (key ++ ['=']) value
    rw [List.append_assoc, List.singleton_append] at isPrefix
    rw [rest, if_pos ⟨List.isPrefixOf_iff_prefix.2 isPrefix, filled⟩]

theorem valueOf?_eq_none_iff :
    valueOf? key word = none ↔ ∀ value, value ≠ [] → word ≠ key ++ '=' :: value := by
  rw [Option.eq_none_iff_forall_ne_some]
  exact forall_congr' fun value =>
    ⟨fun h filled eq => h (valueOf?_eq_some_iff.2 ⟨eq, filled⟩),
      fun h found => h (valueOf?_eq_some_iff.1 found).2 (valueOf?_eq_some_iff.1 found).1⟩

/-- No word gives a value to both keys. -/
theorem valueOf?_mac_of_uuid (found : valueOf? "uuid".toList word = some value) :
    valueOf? "mac".toList word = none := by
  obtain ⟨rfl, -⟩ := valueOf?_eq_some_iff.1 found
  exact if_neg fun h => absurd h.1 Bool.false_ne_true

theorem uuid_take (found : BootParameters) (word : List Char) :
    (found.take word).uuid = (valueOf? "uuid".toList word).or found.uuid := by
  rw [take]
  split
  next eq => rw [eq]; rfl
  next eq => split <;> rw [eq] <;> rfl

theorem mac_take (found : BootParameters) (word : List Char) :
    (found.take word).mac = (valueOf? "mac".toList word).or found.mac := by
  rw [take]
  split
  next eq => rw [valueOf?_mac_of_uuid eq]; rfl
  next => split <;> rename_i eq <;> rw [eq] <;> rfl

/-! ## All words -/

/-- The value of the last word that has one under the key. -/
def lastValue? (words : List (List Char)) (key : List Char) : Option (List Char) :=
  (words.filterMap (valueOf? key)).getLast?

theorem lastValue?_cons :
    lastValue? (word :: words) key = (lastValue? words key).or (valueOf? key word) :=
  getLast?_filterMap_cons word words

theorem gives_iff {found : Option (List Char)} :
    Gives words key found ↔ lastValue? words key = found := by
  constructor
  · rintro (⟨rfl, filled, alone⟩ | alone)
    · refine getLast?_filterMap_eq_some_iff.2 ⟨_, _, _, rfl,
        valueOf?_eq_some_iff.2 ⟨rfl, filled⟩, fun word mem => ?_⟩
      exact valueOf?_eq_none_iff.2 fun later filled eq => alone later filled (eq ▸ mem)
    · exact getLast?_filterMap_eq_none_iff.2 fun word mem =>
        valueOf?_eq_none_iff.2 fun value filled eq => alone value filled (eq ▸ mem)
  · rintro rfl
    cases eq : lastValue? words key with
    | none =>
        have unread := getLast?_filterMap_eq_none_iff.1 eq
        exact .nothing fun value filled mem =>
          valueOf?_eq_none_iff.1 (unread _ mem) value filled rfl
    | some value =>
        obtain ⟨before, word, behind, rfl, here, none_later⟩ := getLast?_filterMap_eq_some_iff.1 eq
        obtain ⟨rfl, filled⟩ := valueOf?_eq_some_iff.1 here
        exact .last rfl filled fun later filled mem =>
          valueOf?_eq_none_iff.1 (none_later _ mem) later filled rfl

theorem foldl_take (words : List (List Char)) (found : BootParameters) :
    (words.foldl take found).uuid = (lastValue? words "uuid".toList).or found.uuid ∧
      (words.foldl take found).mac = (lastValue? words "mac".toList).or found.mac := by
  induction words generalizing found with
  | nil => exact ⟨rfl, rfl⟩
  | cons word words ih =>
      obtain ⟨uuid, mac⟩ := ih (found.take word)
      rw [List.foldl_cons, uuid, mac, uuid_take, mac_take, lastValue?_cons, lastValue?_cons,
        Option.or_assoc, Option.or_assoc]
      exact ⟨rfl, rfl⟩

theorem uuid_parse (commandLine : List Char) :
    (parse commandLine).uuid = lastValue? (Text.words commandLine) "uuid".toList :=
  (foldl_take _ empty).1.trans (Option.or_none ..)

theorem mac_parse (commandLine : List Char) :
    (parse commandLine).mac = lastValue? (Text.words commandLine) "mac".toList :=
  (foldl_take _ empty).2.trans (Option.or_none ..)

end BootParameters

end NodeInventory.Probe
