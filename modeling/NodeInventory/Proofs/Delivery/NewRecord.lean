import NodeInventory.Delivery
import NodeInventory.Proofs.Json.Printing
import NodeInventory.Proofs.Json.Range
import NodeInventory.Proofs.Json.Value

/-!
# What a reply says

A reply counts as a whole or not at all: it has to be one JSON value within the limits of the
decoder, and then its last member with the key decides.  Numbers are within these limits up to a
bound; beyond it that depends on how they are written, up to a second one from which on none is.
-/

namespace NodeInventory

open Json Binary64

namespace Json

/-- What the decoder takes: brackets up to its depth, and numerals that it judges in range. -/
def WithinLimits (v : Json) : Prop := v.Within (·.inRange = true) maxDepth

theorem Within.inRange {depth : Nat} {v : Json}
    (within : v.Within (·.magnitude ≤ finiteBound) depth) {text : List UInt8}
    (spelled : Spells (.part (.value v)) text) : v.Within (·.inRange = true) depth := by
  induction within generalizing text with
  | scalar eq small =>
      subst eq
      refine .scalar rfl fun n number => ?_
      subst number
      cases spells_ofScalar_iff.1 spelled with
      | number numeral => exact Numeral.inRange_of_le (.of_spelled numeral) (small n rfl)
  | array _ ih =>
      obtain ⟨pieces, -, all⟩ := spells_array_iff.1 spelled
      refine .array fun item mem => ?_
      obtain ⟨piece, -, spelled⟩ := exists_of_forall₂ all.flip mem
      exact ih item mem spelled
  | object _ ih =>
      obtain ⟨written, -, all⟩ := spells_object_iff.1 spelled
      refine .object fun member mem => ?_
      obtain ⟨part, -, -, spelled⟩ := exists_of_forall₂ all.flip mem
      exact ih member mem spelled

theorem Printed.isSpelledBy {v : Json} (printed : Printed v) :
    v.IsSpelledBy (String.ofList v.compact) := by
  refine ⟨[], Text.Utf8.encode v.compact, [], blanks_nil, printed.compact, blanks_nil, ?_⟩
  rw [String.toList_ofList, List.append_nil, List.nil_append]

end Json

theorem newRecord?_eq_some_iff {text : String} {b : Bool} :
    newRecord? text = some b ↔
      ∃ v : Json, v.IsSpelledBy text ∧ v.WithinLimits ∧ LastMember "new-discovery" (.bool b) v := by
  have flag (held : Json) : held.bool? = some b ↔ held = .bool b := by
    cases held <;> simp [bool?]
  simp only [newRecord?, Option.bind_eq_some_iff, parse?_eq_some_iff, get?_eq_some_iff, flag,
    exists_eq_right, and_assoc, WithinLimits]

/-- What a text says of the record: the truth value that its last member under the key holds, if it
is one value within the limits that has such a member. -/
def TellsOfRecord (text : String) (said : Option Bool) : Prop :=
  ∀ b, said = some b ↔
    ∃ v : Json, v.IsSpelledBy text ∧ v.WithinLimits ∧ LastMember "new-discovery" (.bool b) v

theorem tellsOfRecord_newRecord? (text : String) : TellsOfRecord text (newRecord? text) :=
  fun _ => newRecord?_eq_some_iff

/-- What the service says of a node, in a text of nothing else. -/
theorem TellsOfRecord.eq_some {text : String} {said : Option Bool} (told : TellsOfRecord text said)
    {b : Bool} (compact : text = String.ofList (object [("new-discovery", .bool b)]).compact) :
    said = some b := by
  have printed : Printed (object [("new-discovery", .bool b)]) :=
    printed_object fun member mem => by rw [List.mem_singleton.1 mem]; exact printed_bool b
  have within : (object [("new-discovery", .bool b)]).WithinLimits :=
    .object fun member mem => by
      rw [List.mem_singleton.1 mem]
      exact .scalar (s := .bool b) rfl nofun
  exact (told b).2 ⟨_, compact ▸ printed.isSpelledBy, within, @LastMember.last _ _ [] [] nofun⟩

/-- A text of one value within the limits says what the last member under the key holds, if it is an
object with one that is a truth value.  Every other text says nothing. -/
theorem newRecord?_of_isSpelledBy :
    (∀ (v : Json) (text : String) (b : Bool), v.IsSpelledBy text → v.WithinLimits →
        (newRecord? text = some b ↔ LastMember "new-discovery" (.bool b) v)) ∧
      (∀ text, (∀ v : Json, v.IsSpelledBy text → ¬v.WithinLimits) → newRecord? text = none) ∧
      (∀ (v : Json) (text : String), v.IsSpelledBy text →
        v.Within (·.magnitude ≤ finiteBound) maxDepth → v.WithinLimits) ∧
      ∀ (n : Numeral) (text : List UInt8), SpellsNumeral n text → infiniteBound ≤ n.magnitude →
        n.inRange = false := by
  refine ⟨fun v text b spelled within => ?one, fun text nothing => ?other, ?inside, ?outside⟩
  case one =>
    have read := parse?_eq_some_iff.2 ⟨spelled, within⟩
    rw [newRecord?_eq_some_iff]
    constructor
    · rintro ⟨v', spelled', within', last⟩
      cases read.symm.trans (parse?_eq_some_iff.2 ⟨spelled', within'⟩)
      exact last
    · exact fun last => ⟨v, spelled, within, last⟩
  case other =>
    refine Option.eq_none_iff_forall_ne_some.2 fun b found => ?_
    obtain ⟨v, spelled, within, -⟩ := newRecord?_eq_some_iff.1 found
    exact nothing v spelled within
  case inside =>
    rintro v text ⟨_, value, _, -, spelled, -⟩ within
    exact within.inRange spelled
  case outside => exact fun n text spelled le => Numeral.not_inRange_of_le (.of_spelled spelled) le

/-- Of two members the last one counts; with anything behind it the same value says nothing. -/
theorem newRecord?_of_repeated_member :
    newRecord? "\x7b\"new-discovery\":false,\"new-discovery\":true\x7d" = some true ∧
      newRecord? "\x7b\"new-discovery\":false,\"new-discovery\":true\x7d x" = none := by
  obtain ⟨one, other, inside, -⟩ := newRecord?_of_isSpelledBy
  constructor
  · let members := [("new-discovery", Json.bool false), ("new-discovery", Json.bool true)]
    have truth : ∀ member ∈ members, ∃ b, member.2 = .bool b := by
      simp [members]
    have spelled : (Json.object members).IsSpelledBy
        "\x7b\"new-discovery\":false,\"new-discovery\":true\x7d" := by
      refine (printed_object fun member mem => ?_).isSpelledBy
      obtain ⟨b, eq⟩ := truth member mem
      exact eq ▸ printed_bool b
    have within : (Json.object members).Within (·.magnitude ≤ finiteBound) maxDepth := by
      refine .object fun member mem => ?_
      obtain ⟨b, eq⟩ := truth member mem
      exact .scalar (s := .bool b) eq nofun
    exact (one _ _ true spelled (inside _ _ spelled within)).2
      (@LastMember.last _ _ [("new-discovery", .bool false)] [] nofun)
  · refine other _ fun v spelled within => ?_
    have unread :
        (parse? "\x7b\"new-discovery\":false,\"new-discovery\":true\x7d x").isNone = true := by
      decide +kernel
    rw [parse?_eq_some_iff.2 ⟨spelled, within⟩] at unread
    cases unread

/-- Some finite number is at least as great. -/
def Json.Numeral.BelowFinite (n : Numeral) : Prop :=
  ∃ u, Number.Representable u ∧ n.magnitude * Number.one ≤ u

/-- The numeral 1.797693134862315700e308. -/
def Json.Numeral.zeroEnded : Numeral :=
  ⟨false, "1".toList.map ascii, "797693134862315700".toList.map ascii,
    some (false, "308".toList.map ascii)⟩

theorem Json.Numeral.belowFinite_zeroEnded : zeroEnded.BelowFinite := by
  have value : valueOf (zeroEnded.whole ++ zeroEnded.fraction) = 1797693134862315700 := by
    decide +kernel
  have place : zeroEnded.exponentValue - zeroEnded.fraction.length = (290 : Nat) := by
    decide +kernel
  refine ⟨0x1fffffffffffff * Nat.pow 2 2045, by decide +kernel, ?_⟩
  have le : 1797693134862315700 * Nat.pow 10 290 * Number.one ≤
      0x1fffffffffffff * Nat.pow 2 2045 := by
    decide +kernel
  rw [magnitude, value, place, zpow_natCast]
  generalize Nat.pow 2 2045 = top at *
  generalize 290 = p at *
  exact_mod_cast le

theorem Json.Numeral.printed_zeroEnded : Printed (.number zeroEnded) := by
  have whole : Digits zeroEnded.whole := ⟨by decide +kernel, by decide +kernel⟩
  have fraction : Digits zeroEnded.fraction := ⟨by decide +kernel, by decide +kernel⟩
  have digits : Digits ("308".toList.map ascii) := ⟨by decide +kernel, by decide +kernel⟩
  have leading : zeroEnded.whole.head? ≠ some (ascii '0') := by decide +kernel
  have spelled : SpellsNumeral zeroEnded ([] ++ (zeroEnded.whole ++
      (ascii '.' :: zeroEnded.fraction ++ (ascii 'e' :: ([] ++ "308".toList.map ascii))))) :=
    .parts whole (absurd · leading) (.some fraction) (.some (.inl rfl) .none digits)
  exact printed_ofScalar (.number spelled)

/-- The number 1.7976931348623157·10³⁰⁸ is less than the greatest finite one.  With two zeros behind
its digits it is refused, and with it the reply. -/
theorem newRecord?_of_zero_ended :
    ∃ (v : Json) (text : String), v.IsSpelledBy text ∧ v.Within (·.BelowFinite) maxDepth ∧
      LastMember "new-discovery" (.bool true) v ∧ newRecord? text = none := by
  let v := Json.object [("x", .number .zeroEnded), ("new-discovery", .bool true)]
  refine ⟨v, "\x7b\"x\":1.797693134862315700e308,\"new-discovery\":true\x7d", ?_, ?_,
    @LastMember.last _ _ [("x", .number .zeroEnded)] [] nofun, by decide +kernel⟩
  · have printed : v.Printed := by
      refine printed_object ?_
      simp only [List.forall_mem_cons]
      exact ⟨Numeral.printed_zeroEnded, printed_bool true, nofun⟩
    exact printed.isSpelledBy
  · refine .object ?_
    simp only [List.forall_mem_cons]
    refine ⟨.scalar (s := .number .zeroEnded) rfl ?_, .scalar (s := .bool true) rfl nofun, nofun⟩
    rintro _ ⟨⟩
    exact Numeral.belowFinite_zeroEnded

end NodeInventory
