import NodeInventory.Proofs.Json.Reading
import NodeInventory.Proofs.Json.Taken

/-!
# Passing over values

`skipValue` passes over a value exactly where the text is JSON there.  What the open brackets still
demand of a text is written down as `Demands`; each step takes away a part of it.
-/

namespace NodeInventory.Json

/-! ## What is passed over is JSON -/

/-- A piece as the brackets around it ask for. -/
inductive Fits : Bracket → List UInt8 → Prop
  | item {piece : List UInt8} : IsJson piece → Fits .array piece
  | member {value piece : List UInt8} : IsMember IsString value piece → IsJson value →
      Fits .object piece

/-- The rest of a bracketed value, its closing bracket included. -/
def Ends (bracket : Bracket) (more : Bool) (text : List UInt8) : Prop :=
  ∃ pieces, Enclosed bracket more pieces text ∧ ∀ piece ∈ pieces, Fits bracket piece

def Bracket.opening : Bracket → UInt8
  | .array => ascii '['
  | .object => ascii '{'

theorem exists_values {pieces : List (List UInt8)} (fit : ∀ piece ∈ pieces, Fits .object piece) :
    ∃ values, List.Forall₂ (IsMember IsString) values pieces ∧ ∀ value ∈ values, IsJson value := by
  induction pieces with
  | nil => exact ⟨[], .nil, List.forall_mem_nil _⟩
  | cons piece pieces ih =>
      obtain ⟨head, tail⟩ := List.forall_mem_cons.1 fit
      obtain ⟨values, members, json⟩ := ih tail
      cases head with
      | @member value _ member value_json =>
          exact ⟨value :: values, .cons member members, List.forall_mem_cons.2 ⟨value_json, json⟩⟩

theorem isJson_of_ends {bracket : Bracket} {text : List UInt8} (h : Ends bracket false text) :
    IsJson (bracket.opening :: text) := by
  obtain ⟨pieces, enclosed, fit⟩ := h
  cases bracket with
  | array =>
      refine .array (.brackets enclosed) fun piece mem => ?_
      cases fit piece mem with
      | item json => exact json
  | object =>
      obtain ⟨values, members, json⟩ := exists_values fit
      exact .object enclosed members json

/-- What follows a value inside the given brackets. -/
inductive Closes : List Bracket → List UInt8 → Prop
  | nil : Closes [] []
  | cons {top : Bracket} {stack : List Bracket} {text tail : List UInt8} :
      Ends top true text → Closes stack tail → Closes (top :: stack) (text ++ tail)

/-- What a text has to go on with to satisfy all that is open. -/
inductive Demands : Awaited → List Bracket → List UInt8 → Prop
  | value {stack : List Bracket} {blanks text tail : List UInt8} :
      Blanks blanks → IsJson text → Closes stack tail →
      Demands .value stack (blanks ++ (text ++ tail))
  | opened {top : Bracket} {stack : List Bracket} {text tail : List UInt8} :
      Ends top false text → Closes stack tail → Demands (.item true) (top :: stack) (text ++ tail)
  | item {top : Bracket} {stack : List Bracket} {blanks piece tail : List UInt8} :
      Blanks blanks → Fits top piece → Closes (top :: stack) tail →
      Demands (.item false) (top :: stack) (blanks ++ (piece ++ tail))
  | separator {stack : List Bracket} {text : List UInt8} :
      Closes stack text → Demands .separator stack text

theorem Demands.of_piece (opened : Bool) {top : Bracket} {stack : List Bracket}
    {blanks piece tail : List UInt8} (before : Blanks blanks) (fits : Fits top piece)
    (closes : Closes (top :: stack) tail) :
    Demands (.item opened) (top :: stack) (blanks ++ (piece ++ tail)) := by
  cases opened with
  | false => exact .item before fits closes
  | true =>
      cases closes with
      | @cons _ _ text tail ends closes =>
          obtain ⟨pieces, enclosed, fit⟩ := ends
          have whole : Ends top false (blanks ++ (piece ++ text)) :=
            ⟨piece :: pieces, .first before enclosed, List.forall_mem_cons.2 ⟨fits, fit⟩⟩
          have demands := Demands.opened whole closes
          simpa only [List.append_assoc] using demands

/-- Whatever satisfies the demands after a step satisfies those before it, together with what the
step has taken. -/
def Meets (awaited : Awaited) (stack : List Bracket) (bytes : List UInt8) (step : Step) : Prop :=
  ∀ text, Demands step.1 step.2.1 text →
    ∃ taken, Demands awaited stack (taken ++ text) ∧ bytes = taken ++ step.2.2

section Steps

variable {stack : List Bracket} {blanks rest : List UInt8} {b : UInt8} {step : Step}

theorem meets_of_skipHead (before : Blanks blanks) (h : skipHead stack b rest = .ok step) :
    Meets .value stack (blanks ++ b :: rest) step := by
  intro text demands
  have bracketed (bracket : Bracket) (eq : b = bracket.opening)
      (demands : Demands (.item true) (bracket :: stack) text) :
      ∃ taken, Demands .value stack (taken ++ text) ∧ blanks ++ b :: rest = taken ++ rest := by
    refine ⟨blanks ++ [b], ?_, by simp⟩
    cases demands with
    | opened ends closes =>
        have json := isJson_of_ends ends
        rw [← eq] at json
        have := Demands.value before json closes
        simpa only [List.append_assoc, List.cons_append, List.nil_append] using this
  unfold skipHead at h
  split at h
  next array =>
    cases h
    exact bracketed .array array demands
  split at h
  next object =>
    cases h
    exact bracketed .object object demands
  next =>
    obtain ⟨rest, read, eq⟩ := map_eq_ok h
    cases eq
    obtain ⟨scalar, json, eq⟩ := skipScalar_eq_ok read
    refine ⟨blanks ++ scalar, ?_, by rw [eq, List.append_assoc]⟩
    cases demands with
    | separator closes =>
        rw [List.append_assoc]
        exact .value before json closes

theorem skipKey_eq_ok {bytes rest : List UInt8} (h : skipKey bytes = .ok rest) :
    ∃ blanks key before, Blanks blanks ∧ IsString key ∧ Blanks before ∧
      bytes = blanks ++ (key ++ (before ++ ascii ':' :: rest)) := by
  unfold skipKey at h
  split at h
  next => cases h
  next quote =>
  split at h
  next => cases h
  next read =>
    obtain ⟨blanks, before, rfl⟩ := mark_eq_ok quote
    obtain ⟨text, body, rfl⟩ := skipString_eq_ok read
    obtain ⟨behind, blank, rfl⟩ := mark_eq_ok h
    exact ⟨blanks, _, behind, before, .quoted body, blank, by simp⟩

theorem meets_of_skipItem (opened : Bool) {top : Bracket} (before : Blanks blanks)
    (h : skipItem top stack b rest = .ok step) :
    Meets (.item opened) (top :: stack) (blanks ++ b :: rest) step := by
  intro text demands
  cases top with
  | array =>
      obtain ⟨taken, demands, eq⟩ := meets_of_skipHead before h text demands
      refine ⟨taken, ?_, eq⟩
      generalize taken ++ text = whole at demands ⊢
      cases demands with
      | value before json closes => exact .of_piece opened before (.item json) closes
  | object =>
      obtain ⟨rest, read, eq⟩ := map_eq_ok h
      cases eq
      obtain ⟨blanks', key, behind, before', isString, blank, eq⟩ := skipKey_eq_ok read
      refine ⟨blanks ++ (blanks' ++ (key ++ (behind ++ [ascii ':']))), ?_, by simp [eq]⟩
      cases demands with
      | value before'' json closes =>
          have fits := Fits.member (.parts isString blank before'') json
          have := Demands.of_piece opened (blanks_append before before') fits closes
          simpa only [List.append_assoc, List.cons_append, List.nil_append] using this

theorem meets_of_close {awaited : Awaited} {top : Bracket} (before : Blanks blanks)
    (closed : awaited = .item true ∨ awaited = .separator) :
    Meets awaited (top :: stack) (blanks ++ top.close :: rest) (.separator, stack, rest) := by
  intro text demands
  refine ⟨blanks ++ [top.close], ?_, by simp⟩
  have ends (more : Bool) : Ends top more (blanks ++ [top.close]) :=
    ⟨[], .close before, List.forall_mem_nil _⟩
  cases demands with
  | separator closes =>
      rcases closed with rfl | rfl
      · exact .opened (ends false) closes
      · exact .separator (.cons (ends true) closes)

theorem meets_of_comma {top : Bracket} (before : Blanks blanks) :
    Meets .separator (top :: stack) (blanks ++ ascii ',' :: rest)
      (.item false, top :: stack, rest) := by
  intro text demands
  refine ⟨blanks ++ [ascii ','], ?_, by simp⟩
  cases demands with
  | item behind fits closes =>
      cases closes with
      | cons ends closes =>
          obtain ⟨pieces, enclosed, fit⟩ := ends
          have whole := Closes.cons ⟨_, .next before behind enclosed,
            List.forall_mem_cons.2 ⟨fits, fit⟩⟩ closes
          refine .separator ?_
          simpa only [List.append_assoc, List.cons_append, List.nil_append] using whole

theorem meets_of_skipStep {awaited : Awaited} {bytes : List UInt8}
    (h : skipStep awaited stack bytes = .ok step) : Meets awaited stack bytes step := by
  unfold skipStep at h
  cases found : skipBlank bytes with
  | nil =>
      rw [found] at h
      cases h
  | cons b rest =>
      rw [found] at h
      obtain ⟨blanks, before, -, rfl⟩ := skipBlank_eq_cons found
      cases awaited <;> cases stack
      case value.nil | value.cons => exact meets_of_skipHead before h
      case item.nil | separator.nil => cases h
      case item.cons opened top stack =>
        dsimp only at h
        split at h
        next closed =>
          cases h
          obtain ⟨rfl, same⟩ := (Bool.and_eq_true ..).mp closed
          rw [of_decide_eq_true same]
          exact meets_of_close before (.inl rfl)
        next => exact meets_of_skipItem opened before h
      case separator.cons top stack =>
        dsimp only at h
        split at h
        next same =>
          cases h
          rw [same]
          exact meets_of_close before (.inr rfl)
        split at h
        next comma =>
          cases h
          rw [comma]
          exact meets_of_comma before
        next => cases h

end Steps

theorem skipOpen_eq_ok {awaited : Awaited} {stack : List Bracket} {bytes rest : List UInt8}
    (h : skipOpen awaited stack bytes = .ok rest) :
    ∃ text, Demands awaited stack text ∧ bytes = text ++ rest := by
  fun_induction skipOpen awaited stack bytes with
  | case1 => cases h
  | case2 awaited stack bytes tail step =>
      cases h
      obtain ⟨taken, demands, eq⟩ := meets_of_skipStep step [] (.separator .nil)
      rw [List.append_nil] at demands
      exact ⟨taken, demands, eq⟩
  | case3 awaited stack bytes next brackets tail _ step ih =>
      obtain ⟨text, demands, rfl⟩ := ih h
      obtain ⟨taken, demands, eq⟩ := meets_of_skipStep step text demands
      exact ⟨taken ++ text, demands, by rw [eq, List.append_assoc]⟩

theorem skipValue_eq_ok {bytes rest : List UInt8} (h : skipValue bytes = .ok rest) :
    ∃ blanks text, Blanks blanks ∧ IsJson text ∧ bytes = blanks ++ (text ++ rest) := by
  obtain ⟨_, demands, eq⟩ := skipOpen_eq_ok h
  cases demands with
  | value before json closes =>
      cases closes
      exact ⟨_, _, before, json, by simpa using eq⟩

/-! ## What is JSON is passed over -/

theorem skipEscape_append {text : List UInt8} (h : IsStringPiece (ascii '\\' :: text))
    (rest : List UInt8) : skipEscape (text ++ rest) = .ok rest := by
  cases h with
  | raw _ _ no_backslash => exact absurd rfl no_backslash
  | @letter b escapes =>
      have not_unit : b ≠ ascii 'u' := by
        rintro rfl
        exact absurd escapes (by decide)
      rw [List.singleton_append, skipEscape, if_neg not_unit, if_pos escapes]
  | unit four hexadecimal =>
      obtain ⟨n, value⟩ := Option.isSome_iff_exists.1 hexadecimal
      rw [List.cons_append, skipEscape, if_pos rfl, codeUnit_append four value]
      rfl

theorem skipString_escape {bytes rest : List UInt8} (h : skipEscape bytes = .ok rest) :
    skipString (ascii '\\' :: bytes) = skipString rest := by
  rw [skipString, if_neg (by decide), if_pos rfl]
  split
  next failed => cases h.symm.trans failed
  next read =>
    cases h.symm.trans read
    rfl

theorem skipString_append {text : List UInt8} (h : IsStringBody text) (rest : List UInt8) :
    skipString (text ++ ascii '"' :: rest) = .ok rest := by
  induction h with
  | nil => rw [List.nil_append, skipString, if_pos rfl]
  | @cons piece text isPiece _ ih =>
      rw [List.append_assoc]
      cases isPiece with
      | raw printable no_quote no_backslash =>
          rw [List.singleton_append, skipString, if_neg no_quote, if_neg no_backslash,
            if_neg printable]
          exact ih
      | letter escapes =>
          exact (skipString_escape (skipEscape_append (.letter escapes) _)).trans ih
      | unit four hexadecimal =>
          exact (skipString_escape (skipEscape_append (.unit four hexadecimal) _)).trans ih

theorem skipKey_append {value piece : List UInt8} (member : IsMember IsString value piece) :
    ∃ behind, Blanks behind ∧
      ∀ rest, skipKey (piece ++ rest) = .ok (behind ++ (value ++ rest)) := by
  cases member with
  | @parts key before behind isString blank blank' =>
      cases isString with
      | quoted body =>
          refine ⟨behind, blank', fun rest => ?_⟩
          have opened (bytes : List UInt8) : mark (ascii '"') (ascii '"' :: bytes) = .ok bytes :=
            rfl
          have colon : mark (ascii ':') (before ++ ascii ':' :: (behind ++ (value ++ rest))) =
              .ok (behind ++ (value ++ rest)) := mark_append blank (by decide) _
          simp only [skipKey, List.cons_append, List.append_assoc, List.nil_append, opened,
            skipString_append body, colon]

theorem skipScalar_append {s : Scalar} {b : UInt8} {tail rest : List UInt8}
    (h : SpellsScalar s (b :: tail)) (delimited : Delimited rest) :
    skipScalar b (tail ++ rest) = .ok rest := by
  generalize eq : b :: tail = text at h
  cases h with
  | null =>
      cases eq
      rw [skipScalar, if_neg (by decide), if_pos rfl, keyword_append]
  | true =>
      cases eq
      rw [skipScalar, if_neg (by decide), if_neg (by decide), if_pos rfl, keyword_append]
  | false =>
      cases eq
      rw [skipScalar, if_neg (by decide), if_neg (by decide), if_neg (by decide), if_pos rfl,
        keyword_append]
  | @number n _ spelled =>
      subst eq
      have read : numeral .malformed ((b :: tail) ++ rest) = .ok (n, rest) :=
        numeral_append spelled delimited
      obtain ⟨_, _, eq, starts⟩ := numeral_head spelled
      cases eq
      rw [skipScalar, if_neg (ne_of_numeral_start starts (by decide) (by decide)),
        if_neg (ne_of_numeral_start starts (by decide) (by decide)),
        if_neg (ne_of_numeral_start starts (by decide) (by decide)),
        if_neg (ne_of_numeral_start starts (by decide) (by decide)), if_pos starts,
        ← List.cons_append, read]
      rfl
  | string spelled =>
      cases spelled with
      | quoted chars =>
          cases eq
          rw [skipScalar, if_pos rfl, List.append_assoc, List.singleton_append]
          exact skipString_append chars.isStringBody rest

/-- What comes after a step. -/
def onward : Step → Except Fault (List UInt8)
  | (.separator, [], rest) => .ok rest
  | (awaited, stack, rest) => skipOpen awaited stack rest

theorem skipOpen_eq (awaited : Awaited) (stack : List Bracket) (bytes : List UInt8) :
    skipOpen awaited stack bytes = (skipStep awaited stack bytes).bind onward := by
  rw [skipOpen]
  split
  next failed => rw [failed]; rfl
  next done => rw [done]; rfl
  next unfinished stepped =>
    rw [stepped, Except.bind, onward]
    exact unfinished

section Passed

variable {stack : List Bracket} {blanks rest : List UInt8} {b : UInt8}

theorem skipStep_value (before : Blanks blanks) (solid : isBlank b = false) :
    skipStep .value stack (blanks ++ b :: rest) = skipHead stack b rest := by
  rw [skipStep, skipBlank_append before solid]

theorem skipStep_item {opened : Bool} {top : Bracket} (before : Blanks blanks)
    (solid : isBlank b = false) (no_close : b ≠ top.close) :
    skipStep (.item opened) (top :: stack) (blanks ++ b :: rest) = skipItem top stack b rest := by
  rw [skipStep, skipBlank_append before solid]
  simp [no_close]

theorem skipStep_close (more : Bool) {top : Bracket} (before : Blanks blanks) :
    skipStep (if more then .separator else .item true) (top :: stack)
      (blanks ++ top.close :: rest) = .ok (.separator, stack, rest) := by
  have solid : isBlank top.close = false := by cases top <;> decide
  cases more <;> simp [skipStep, skipBlank_append before solid]

theorem skipStep_comma {top : Bracket} (before : Blanks blanks) :
    skipStep .separator (top :: stack) (blanks ++ ascii ',' :: rest) =
      .ok (.item false, top :: stack, rest) := by
  have no_close : ascii ',' ≠ top.close := by cases top <;> decide
  rw [skipStep, skipBlank_append before (by decide)]
  simp [no_close]

/-- Where a value is awaited, the text is passed over. -/
def Passed (text : List UInt8) : Prop :=
  ∀ {stack blanks rest}, Blanks blanks → Delimited rest →
    skipOpen .value stack (blanks ++ (text ++ rest)) = onward (.separator, stack, rest)

/-- Where an item of the brackets is awaited, the text is passed over. -/
def PassedIn (top : Bracket) (piece : List UInt8) : Prop :=
  ∀ {opened stack blanks rest}, Blanks blanks → Delimited rest →
    skipOpen (.item opened) (top :: stack) (blanks ++ (piece ++ rest)) =
      skipOpen .separator (top :: stack) rest

theorem passedIn_array {piece : List UInt8} (opens : Opens piece) (passed : Passed piece) :
    PassedIn .array piece := by
  intro opened stack blanks rest before delimited
  have passed : skipOpen .value (.array :: stack) (blanks ++ (piece ++ rest)) = _ :=
    passed before delimited
  obtain ⟨b, tail, rfl, solid, no_close⟩ := opens
  rw [List.cons_append] at passed ⊢
  rw [skipOpen_eq, skipStep_value before solid] at passed
  rw [skipOpen_eq, skipStep_item before solid (no_close .array)]
  exact passed

theorem passedIn_object {value piece : List UInt8} (member : IsMember IsString value piece)
    (passed : Passed value) : PassedIn .object piece := by
  intro opened stack blanks rest before delimited
  obtain ⟨behind, blank, read⟩ := skipKey_append member
  have read := read rest
  obtain ⟨b, tail, rfl, solid, no_close⟩ := member.opens
  rw [List.cons_append] at read ⊢
  rw [skipOpen_eq, skipStep_item before solid (no_close .object), skipItem, read]
  exact passed blank delimited

theorem delimited_enclosed {bracket : Bracket} {pieces : List (List UInt8)} {text : List UInt8}
    (h : Enclosed bracket true pieces text) (rest : List UInt8) : Delimited (text ++ rest) := by
  cases h with
  | close before =>
      rw [List.append_assoc]
      refine delimited_append before ?_ rest
      cases bracket <;> decide
  | next before _ _ =>
      rw [List.append_assoc]
      exact delimited_append before (by decide) _

theorem skipOpen_enclosed {top : Bracket} {more : Bool} {pieces : List (List UInt8)}
    {text : List UInt8} (enclosed : Enclosed top more pieces text)
    (passed : ∀ piece ∈ pieces, PassedIn top piece) :
    skipOpen (if more then .separator else .item true) (top :: stack) (text ++ rest) =
      onward (.separator, stack, rest) := by
  -- on the pieces, each of them passed over where the ones before it have been
  induction enclosed with
  | @close more before blank =>
      rw [List.append_assoc, List.singleton_append, skipOpen_eq, skipStep_close more blank]
      rfl
  | @first piece tail before pieces blank enclosed ih =>
      obtain ⟨first, later⟩ := List.forall_mem_cons.1 passed
      rw [List.append_assoc, List.append_assoc]
      exact (first blank (delimited_enclosed enclosed rest)).trans (ih later)
  | @next piece tail before behind pieces blank blank' enclosed ih =>
      obtain ⟨first, later⟩ := List.forall_mem_cons.1 passed
      rw [List.append_assoc, List.cons_append, List.append_assoc, List.append_assoc, if_pos rfl,
        skipOpen_eq, skipStep_comma blank]
      exact (first blank' (delimited_enclosed enclosed rest)).trans (ih later)

theorem passed_bracketed {bracket : Bracket} {pieces : List (List UInt8)} {inner : List UInt8}
    (enclosed : Enclosed bracket false pieces inner)
    (passed : ∀ piece ∈ pieces, PassedIn bracket piece) :
    Passed (bracket.opening :: inner) := by
  intro stack blanks rest before delimited
  have step : skipStep .value stack (blanks ++ bracket.opening :: (inner ++ rest)) =
      .ok (.item true, bracket :: stack, inner ++ rest) := by
    rw [skipStep_value before (by cases bracket <;> decide)]
    cases bracket <;> rfl
  rw [List.cons_append, skipOpen_eq, step]
  exact skipOpen_enclosed enclosed passed

theorem passed_of_skipScalar {tail : List UInt8} (solid : isBlank b = false)
    (no_bracket : isBracket b = false)
    (skipped : ∀ rest, Delimited rest → skipScalar b (tail ++ rest) = .ok rest) :
    Passed (b :: tail) := by
  intro stack blanks rest before delimited
  simp only [isBracket, Bool.or_eq_false_iff, decide_eq_false_iff_not] at no_bracket
  rw [List.cons_append, skipOpen_eq, skipStep_value before solid, skipHead, if_neg no_bracket.1,
    if_neg no_bracket.2, skipped rest delimited]
  rfl

theorem passed_of_isJson {text : List UInt8} (json : IsJson text) : Passed text := by
  induction json with
  | scalar spelled =>
      obtain ⟨b, tail, rfl, solid⟩ := scalar_head spelled
      simp only [isMark, Bool.or_eq_false_iff] at solid
      exact passed_of_skipScalar solid.1.1.1 solid.1.1.2 fun rest delimited =>
        skipScalar_append spelled delimited
  | string spelled =>
      cases spelled with
      | quoted body =>
          refine passed_of_skipScalar (by decide) (by decide) fun rest _ => ?_
          rw [skipScalar, if_pos rfl, List.append_assoc, List.singleton_append]
          exact skipString_append body rest
  | array isArray json ih =>
      cases isArray with
      | brackets enclosed =>
          exact passed_bracketed enclosed fun item mem =>
            passedIn_array (json item mem).opens (ih item mem)
  | @object values pieces inner enclosed members _ ih =>
      have passed : ∀ piece ∈ pieces, PassedIn .object piece := fun piece mem => by
        obtain ⟨value, mem, member⟩ := exists_of_forall₂ members mem
        exact passedIn_object member (ih value mem)
      show Passed (Bracket.object.opening :: inner)
      exact passed_bracketed enclosed passed

end Passed

theorem skipValue_append {text blanks rest : List UInt8} (before : Blanks blanks)
    (json : IsJson text) (delimited : Delimited rest) :
    skipValue (blanks ++ (text ++ rest)) = .ok rest :=
  passed_of_isJson json before delimited

end NodeInventory.Json
