import NodeInventory.Json.Skip
import NodeInventory.Json.Value

/-!
# Texts that spell JSON values

The grammar of JSON over bytes.  One value has many spellings: blanks may stand between its tokens,
characters may be escaped, and an exponent may have a capital letter or a plus sign.
-/

namespace NodeInventory.Json

/-! ## Strings -/

/-- A character in a string: as it is, by the letter of its escape, by its code unit, or by two
surrogates. -/
inductive SpellsChar : Char → List UInt8 → Prop
  | raw {c : Char} (printable : 0x20 ≤ c.toNat) (no_quote : c ≠ '"') (no_backslash : c ≠ '\\') :
      SpellsChar c (String.utf8EncodeChar c)
  | letter {c : Char} {b : UInt8} (escapes : shortEscape? b = some c) :
      SpellsChar c [ascii '\\', b]
  | unit {c : Char} {digits : List UInt8} (four : digits.length = 4)
      (value : hexValue? digits = some c.toNat) :
      SpellsChar c (ascii '\\' :: ascii 'u' :: digits)
  | surrogates {c : Char} {highDigits lowDigits : List UInt8} {high low : Nat}
      (four : highDigits.length = 4) (four' : lowDigits.length = 4)
      (value : hexValue? highDigits = some high) (value' : hexValue? lowDigits = some low)
      (isHigh : isHighSurrogate high = true) (isLow : isLowSurrogate low = true)
      (code : c.toNat = 0x10000 + (high - 0xD800) * 0x400 + (low - 0xDC00)) :
      SpellsChar c (ascii '\\' :: ascii 'u' :: (highDigits ++
        ascii '\\' :: ascii 'u' :: lowDigits))

inductive SpellsChars : List Char → List UInt8 → Prop
  | nil : SpellsChars [] []
  | cons {c : Char} {s : List Char} {text rest : List UInt8} :
      SpellsChar c text → SpellsChars s rest → SpellsChars (c :: s) (text ++ rest)

/-- A string between its quotes. -/
inductive SpellsString : String → List UInt8 → Prop
  | quoted {s : String} {text : List UInt8} :
      SpellsChars s.toList text → SpellsString s (ascii '"' :: (text ++ [ascii '"']))

/-! ## Numbers -/

/-- Digits, at least one. -/
def Digits (digits : List UInt8) : Prop := digits ≠ [] ∧ ∀ b ∈ digits, isDigit b = true

inductive SpellsFraction : List UInt8 → List UInt8 → Prop
  | none : SpellsFraction [] []
  | some {digits : List UInt8} : Digits digits → SpellsFraction digits (ascii '.' :: digits)

/-- The sign of an exponent, which may be left out or be a plus where it is not negative. -/
inductive SpellsSign : Bool → List UInt8 → Prop
  | none : SpellsSign false []
  | plus : SpellsSign false [ascii '+']
  | minus : SpellsSign true [ascii '-']

inductive SpellsExponent : Option (Bool × List UInt8) → List UInt8 → Prop
  | none : SpellsExponent none []
  | some {letter : UInt8} {negative : Bool} {sign digits : List UInt8} :
      letter = ascii 'e' ∨ letter = ascii 'E' → SpellsSign negative sign → Digits digits →
      SpellsExponent (some (negative, digits)) (letter :: (sign ++ digits))

/-- A numeral; its whole part has no leading zero. -/
inductive SpellsNumeral : Numeral → List UInt8 → Prop
  | parts {negative : Bool} {whole fraction fractionText exponentText : List UInt8}
      {exponent : Option (Bool × List UInt8)} :
      Digits whole → (whole.head? = some (ascii '0') → whole = [ascii '0']) →
      SpellsFraction fraction fractionText → SpellsExponent exponent exponentText →
      SpellsNumeral ⟨negative, whole, fraction, exponent⟩
        ((if negative then [ascii '-'] else []) ++ (whole ++ (fractionText ++ exponentText)))

/-! ## Values -/

inductive SpellsScalar : Scalar → List UInt8 → Prop
  | null : SpellsScalar .null (ascii 'n' :: "ull".toList.map ascii)
  | true : SpellsScalar (.bool true) (ascii 't' :: "rue".toList.map ascii)
  | false : SpellsScalar (.bool false) (ascii 'f' :: "alse".toList.map ascii)
  | number {n : Numeral} {text : List UInt8} : SpellsNumeral n text → SpellsScalar (.number n) text
  | string {s : String} {text : List UInt8} : SpellsString s text → SpellsScalar (.string s) text

def Blanks (bytes : List UInt8) : Prop := ∀ b ∈ bytes, isBlank b = true

theorem blanks_nil : Blanks [] := fun _ mem => (by cases mem)

theorem blanks_append {blanks blanks' : List UInt8} (h : Blanks blanks) (h' : Blanks blanks') :
    Blanks (blanks ++ blanks') := by
  intro b mem
  rcases List.mem_append.1 mem with mem | mem
  · exact h b mem
  · exact h' b mem

/-- What brackets hold: values, or values under keys. -/
inductive Part
  | value (v : Json)
  | member (name : String) (v : Json)

/-- What stands at some place of a text: a part, or the parts from there on up to the closing
bracket; `more` says that there are parts before them. -/
inductive Form
  | part (part : Part)
  | rest (bracket : Bracket) (more : Bool) (parts : List Part)

inductive Spells : Form → List UInt8 → Prop
  | scalar {v : Json} {s : Scalar} {text : List UInt8} :
      v = ofScalar s → SpellsScalar s text → Spells (.part (.value v)) text
  | array {items : List Json} {text : List UInt8} :
      Spells (.rest .array false (items.map .value)) text →
      Spells (.part (.value (.array items))) (ascii '[' :: text)
  | object {members : List (String × Json)} {text : List UInt8} :
      Spells (.rest .object false (members.map fun m => .member m.1 m.2)) text →
      Spells (.part (.value (.object members))) (ascii '{' :: text)
  | member {name : String} {v : Json} {key before behind text : List UInt8} :
      SpellsString name key → Blanks before → Blanks behind → Spells (.part (.value v)) text →
      Spells (.part (.member name v)) (key ++ (before ++ ascii ':' :: (behind ++ text)))
  | close {bracket : Bracket} {more : Bool} {before : List UInt8} :
      Blanks before → Spells (.rest bracket more []) (before ++ [bracket.close])
  | first {bracket : Bracket} {part : Part} {parts : List Part} {before text tail : List UInt8} :
      Blanks before → Spells (.part part) text → Spells (.rest bracket true parts) tail →
      Spells (.rest bracket false (part :: parts)) (before ++ (text ++ tail))
  | next {bracket : Bracket} {part : Part} {parts : List Part}
      {before behind text tail : List UInt8} :
      Blanks before → Blanks behind → Spells (.part part) text →
      Spells (.rest bracket true parts) tail →
      Spells (.rest bracket true (part :: parts))
        (before ++ ascii ',' :: (behind ++ (text ++ tail)))

end NodeInventory.Json
