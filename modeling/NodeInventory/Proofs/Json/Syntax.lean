import NodeInventory.Proofs.Json.Token

/-!
# Texts that are JSON

`IsJson` is the grammar alone: a string may name lone surrogates, and nothing is asked of the size
of a number, of the keys of an object or of the depth of brackets.  `IsArray` and `IsObject` take
the brackets off a text and leave its parts as they are written.
-/

namespace NodeInventory.Json

open Text

/-! ## Strings -/

/-- A byte of a string as it is, or an escape, whatever character its digits name. -/
inductive IsStringPiece : List UInt8 → Prop
  | raw {b : UInt8} (printable : ¬b < 0x20) (no_quote : b ≠ ascii '"')
      (no_backslash : b ≠ ascii '\\') : IsStringPiece [b]
  | letter {b : UInt8} (escapes : (shortEscape? b).isSome = true) : IsStringPiece [ascii '\\', b]
  | unit {digits : List UInt8} (four : digits.length = 4)
      (hexadecimal : (hexValue? digits).isSome = true) :
      IsStringPiece (ascii '\\' :: ascii 'u' :: digits)

inductive IsStringBody : List UInt8 → Prop
  | nil : IsStringBody []
  | cons {piece rest : List UInt8} :
      IsStringPiece piece → IsStringBody rest → IsStringBody (piece ++ rest)

inductive IsString : List UInt8 → Prop
  | quoted {text : List UInt8} : IsStringBody text → IsString (ascii '"' :: (text ++ [ascii '"']))

theorem IsStringBody.append {text rest : List UInt8} (h : IsStringBody text)
    (h' : IsStringBody rest) : IsStringBody (text ++ rest) := by
  induction h with
  | nil => exact h'
  | cons piece _ ih =>
      rw [List.append_assoc]
      exact .cons piece ih

theorem isStringBody_raw {raw : List UInt8}
    (h : ∀ b ∈ raw, b ≠ ascii '"' ∧ b ≠ ascii '\\' ∧ ¬b < 0x20) : IsStringBody raw := by
  induction raw with
  | nil => exact .nil
  | cons b raw ih =>
      obtain ⟨no_quote, no_backslash, printable⟩ := h b List.mem_cons_self
      exact .cons (.raw printable no_quote no_backslash)
        (ih fun b mem => h b (List.mem_cons_of_mem _ mem))

theorem SpellsChar.isStringBody {c : Char} {text : List UInt8} (h : SpellsChar c text) :
    IsStringBody text := by
  have single {piece : List UInt8} (h : IsStringPiece piece) : IsStringBody piece := by
    have body := IsStringBody.cons h .nil
    rwa [List.append_nil] at body
  cases h with
  | raw printable no_quote no_backslash =>
      exact isStringBody_raw fun b mem => raw_of_mem printable no_quote no_backslash mem
  | letter escapes => exact single (.letter (Option.isSome_of_eq_some escapes))
  | unit four value => exact single (.unit four (Option.isSome_of_eq_some value))
  | surrogates four four' value value' =>
      exact IsStringBody.cons (.unit four (Option.isSome_of_eq_some value))
        (single (.unit four' (Option.isSome_of_eq_some value')))

theorem SpellsChars.isStringBody {s : List Char} {text : List UInt8} (h : SpellsChars s text) :
    IsStringBody text := by
  induction h with
  | nil => exact .nil
  | cons char _ ih => exact char.isStringBody.append ih

theorem SpellsString.isString {s : String} {text : List UInt8} (h : SpellsString s text) :
    IsString text := by
  cases h with
  | quoted chars => exact .quoted chars.isStringBody

/-! ## Brackets -/

/-- Pieces up to a closing bracket, parted by commas, with blanks around them; `more` says that
there are pieces before them. -/
inductive Enclosed (bracket : Bracket) : Bool → List (List UInt8) → List UInt8 → Prop
  | close {more : Bool} {before : List UInt8} :
      Blanks before → Enclosed bracket more [] (before ++ [bracket.close])
  | first {piece tail before : List UInt8} {pieces : List (List UInt8)} :
      Blanks before → Enclosed bracket true pieces tail →
      Enclosed bracket false (piece :: pieces) (before ++ (piece ++ tail))
  | next {piece tail before behind : List UInt8} {pieces : List (List UInt8)} :
      Blanks before → Blanks behind → Enclosed bracket true pieces tail →
      Enclosed bracket true (piece :: pieces) (before ++ ascii ',' :: (behind ++ (piece ++ tail)))

/-- A key, a colon and a value. -/
inductive IsMember (isKey : List UInt8 → Prop) (value : List UInt8) : List UInt8 → Prop
  | parts {key before behind : List UInt8} : isKey key → Blanks before → Blanks behind →
      IsMember isKey value (key ++ (before ++ ascii ':' :: (behind ++ value)))

/-- An array of the given items, as they are written. -/
inductive IsArray (items : List (List UInt8)) : List UInt8 → Prop
  | brackets {inner : List UInt8} : Enclosed .array false items inner →
      IsArray items (ascii '[' :: inner)

/-- An object with the given members: their keys as they are meant, and their values as they are
written. -/
inductive IsObject (members : List (String × List UInt8)) : List UInt8 → Prop
  | brackets {pieces : List (List UInt8)} {inner : List UInt8} :
      Enclosed .object false pieces inner →
      List.Forall₂ (fun member piece => IsMember (SpellsString member.1) member.2 piece)
        members pieces →
      IsObject members (ascii '{' :: inner)

/-! ## Values -/

inductive IsJson : List UInt8 → Prop
  | scalar {s : Scalar} {text : List UInt8} : SpellsScalar s text → IsJson text
  | string {text : List UInt8} : IsString text → IsJson text
  | array {items : List (List UInt8)} {text : List UInt8} :
      IsArray items text → (∀ item ∈ items, IsJson item) → IsJson text
  | object {values pieces : List (List UInt8)} {inner : List UInt8} :
      Enclosed .object false pieces inner → List.Forall₂ (IsMember IsString) values pieces →
      (∀ value ∈ values, IsJson value) → IsJson (ascii '{' :: inner)

theorem IsMember.imp {isKey isKey' : List UInt8 → Prop} (h : ∀ {key}, isKey key → isKey' key)
    {value piece : List UInt8} (member : IsMember isKey value piece) :
    IsMember isKey' value piece := by
  cases member with
  | parts key before behind => exact .parts (h key) before behind

theorem IsObject.isJson {members : List (String × List UInt8)} {text : List UInt8}
    (h : IsObject members text) (values : ∀ member ∈ members, IsJson member.2) : IsJson text := by
  cases h with
  | brackets enclosed keyed =>
      have keyed : List.Forall₂ (IsMember IsString) (members.map (·.2)) _ :=
        List.forall₂_map_left_iff.2
          (keyed.imp fun _ _ member => member.imp SpellsString.isString)
      exact .object enclosed keyed (List.forall_mem_map.2 values)

/-! ## First bytes -/

/-- The text starts with a byte that is neither a blank nor a closing bracket. -/
def Opens (text : List UInt8) : Prop :=
  ∃ b tail, text = b :: tail ∧ isBlank b = false ∧ ∀ bracket : Bracket, b ≠ bracket.close

theorem opens_cons {b : UInt8} (solid : isBlank b = false) (no_array : b ≠ ascii ']')
    (no_object : b ≠ ascii '}') (tail : List UInt8) : Opens (b :: tail) := by
  refine ⟨b, tail, rfl, solid, fun bracket => ?_⟩
  cases bracket
  · exact no_array
  · exact no_object

theorem IsString.opens {text : List UInt8} (h : IsString text) : Opens text := by
  cases h
  exact opens_cons (by decide) (by decide) (by decide) _

theorem IsArray.opens {items : List (List UInt8)} {text : List UInt8} (h : IsArray items text) :
    Opens text := by
  cases h
  exact opens_cons (by decide) (by decide) (by decide) _

theorem IsObject.opens {members : List (String × List UInt8)} {text : List UInt8}
    (h : IsObject members text) : Opens text := by
  cases h
  exact opens_cons (by decide) (by decide) (by decide) _

theorem IsJson.opens {text : List UInt8} (h : IsJson text) : Opens text := by
  cases h with
  | scalar spelled =>
      obtain ⟨b, tail, rfl, solid⟩ := scalar_head spelled
      simp only [isMark, Bool.or_eq_false_iff, decide_eq_false_iff_not] at solid
      exact opens_cons solid.1.1.1 solid.1.2 solid.2 tail
  | string spelled => exact spelled.opens
  | array isArray _ => exact isArray.opens
  | object _ _ _ => exact opens_cons (by decide) (by decide) (by decide) _

theorem IsMember.opens {value piece : List UInt8} (h : IsMember IsString value piece) :
    Opens piece := by
  cases h with
  | parts key _ _ =>
      obtain ⟨b, tail, rfl, solid⟩ := key.opens
      exact ⟨b, _, rfl, solid⟩

end NodeInventory.Json
