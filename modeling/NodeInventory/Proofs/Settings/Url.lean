import NodeInventory.Proofs.Settings.Policy
import NodeInventory.Proofs.Text.Cutting

/-!
# The URL of an accepted address

An address is accepted for its scheme before the slashes at its end are dropped.  Where there is
more behind the scheme than slashes, the URL has the same scheme, something behind it, and the path.
Where there is not, the slashes of the scheme are dropped as well (`url_of_valid`).
-/

namespace NodeInventory

open Text

/-- The schemes that addresses are accepted for. -/
inductive Scheme
  | http
  | https
deriving DecidableEq, Repr

namespace Scheme

def name : Scheme → List Char
  | .http => "http".toList
  | .https => "https".toList

/-- The scheme at the front of an address. -/
def text (scheme : Scheme) : List Char := scheme.name ++ "://".toList

theorem exists_iff_isHttp {address : List Char} :
    Settings.isHttp address = true ↔ ∃ scheme : Scheme, scheme.text <+: address := by
  rw [Settings.isHttp, Bool.or_eq_true, List.isPrefixOf_iff_prefix, List.isPrefixOf_iff_prefix]
  constructor
  · rintro (plain | secure)
    · exact ⟨.http, plain⟩
    · exact ⟨.https, secure⟩
  · rintro ⟨scheme, found⟩
    cases scheme with
    | http => exact .inl found
    | https => exact .inr found

end Scheme

namespace Settings

def path : List Char := "/discovery".toList

/-- A URL under a scheme: between the scheme and the path there is something, and it does not end in
a slash. -/
inductive IsEndpoint (scheme : Scheme) (url : String) : Prop
  | parts {site : List Char} : site ≠ [] → site.getLast? ≠ some '/' →
      url.toList = scheme.text ++ (site ++ path) → IsEndpoint scheme url

variable {settings : Settings} {scheme : Scheme} {rest : List Char}

theorem toList_url (settings : Settings) :
    settings.url.toList = stripEnd (· = '/') settings.trimmedAddress ++ path := by
  rw [url, String.toList_ofList]
  rfl

theorem isEndpoint_url (eq : settings.trimmedAddress = scheme.text ++ rest)
    (more : ∃ c ∈ rest, c ≠ '/') : IsEndpoint scheme settings.url := by
  have more : ∃ c ∈ rest, decide (c = '/') = false := by simpa using more
  obtain ⟨c, last, refused⟩ := exists_last_of_stripEnd more
  have parts : settings.url.toList = scheme.text ++ (stripEnd (· = '/') rest ++ path) := by
    rw [toList_url, eq, stripEnd_append_of_exists _ more, List.append_assoc]
  refine .parts ?filled ?bare parts
  case filled =>
    intro empty
    rw [empty] at last
    cases last
  case bare =>
    rw [last]
    intro slash
    cases slash
    cases refused

/-- Slashes behind a scheme are dropped together with its own. -/
theorem toList_url_of_slashes (eq : settings.trimmedAddress = scheme.text ++ rest)
    (slashes : ∀ c ∈ rest, c = '/') :
    settings.url.toList = scheme.name ++ ":/discovery".toList := by
  have colon : ∃ c, (scheme.name ++ [':']).getLast? = some c ∧ decide (c = '/') = false :=
    ⟨':', List.getLast?_concat, rfl⟩
  have all : ∀ c ∈ '/' :: '/' :: rest, decide (c = '/') = true := by simpa using slashes
  have parts : settings.trimmedAddress = (scheme.name ++ [':']) ++ '/' :: '/' :: rest := by
    rw [eq, Scheme.text, List.append_assoc, List.append_assoc]
    rfl
  rw [toList_url, parts, stripEnd_append_of_last colon, stripEnd_eq_nil all, List.append_nil,
    List.append_assoc]
  rfl

/-- A scheme without its slashes is not at the front of a URL under any scheme. -/
theorem not_text_isPrefix (scheme other : Scheme) :
    ¬other.text <+: scheme.name ++ ":/discovery".toList := by
  cases scheme <;> cases other <;> decide

/-- An accepted address has a scheme.  Its URL is an endpoint under this scheme where something but
slashes stands behind the scheme; else the URL has a single slash and is under no scheme. -/
theorem url_of_valid (settings : Settings) (valid : settings.validate = .ok ()) :
    ∃ (scheme : Scheme) (rest : List Char), settings.trimmedAddress = scheme.text ++ rest ∧
      ((∃ c ∈ rest, c ≠ '/') → IsEndpoint scheme settings.url) ∧
      ((∀ c ∈ rest, c = '/') → settings.url.toList = scheme.name ++ ":/discovery".toList ∧
        ∀ other : Scheme, ¬other.text <+: settings.url.toList) := by
  obtain ⟨http, -⟩ := fault?_eq_none_iff.1 (validate_eq_ok_iff.1 valid)
  obtain ⟨scheme, rest, eq⟩ := Scheme.exists_iff_isHttp.1 http
  refine ⟨scheme, rest, eq.symm, isEndpoint_url eq.symm, fun slashes => ?_⟩
  have bare := toList_url_of_slashes eq.symm slashes
  refine ⟨bare, fun other => ?_⟩
  rw [bare]
  exact not_text_isPrefix scheme other

/-- Blanks around the address and slashes at its end are lost, a path inside it is kept. -/
theorem url_of_valid_with_base :
    { Settings.default with address := " http://h//base// " }.validate = .ok () ∧
      IsEndpoint .http { Settings.default with address := " http://h//base// " }.url := by
  have valid : { Settings.default with address := " http://h//base// " }.validate = .ok () :=
    validate_eq_ok_iff.2 (by decide +kernel)
  obtain ⟨scheme, rest, eq, endpoint, -⟩ := url_of_valid _ valid
  have trimmed : { Settings.default with address := " http://h//base// " }.trimmedAddress =
      Scheme.text .http ++ "h//base//".toList := by decide +kernel
  cases scheme with
  | http =>
      have same : rest = "h//base//".toList := List.append_cancel_left (eq.symm.trans trimmed)
      exact ⟨valid, endpoint ⟨'h', by rw [same]; decide, by decide⟩⟩
  | https => cases eq.symm.trans trimmed

/-- An address without a host is accepted, and its URL is under no scheme. -/
theorem url_of_bare_scheme :
    { Settings.default with address := "http://" }.validate = .ok () ∧
      { Settings.default with address := "http://" }.url = "http:/discovery" ∧
      ∀ scheme : Scheme,
        ¬scheme.text <+: { Settings.default with address := "http://" }.url.toList := by
  have url : { Settings.default with address := "http://" }.url = "http:/discovery" := by
    decide +kernel
  refine ⟨validate_eq_ok_iff.2 (by decide +kernel), url, fun scheme => ?_⟩
  rw [url]
  exact not_text_isPrefix .http scheme

end Settings

end NodeInventory
