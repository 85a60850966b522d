import NodeInventory.Proofs.Options.Settling

/-!
# Where settings come from

The command line goes before the environment, and the environment before the defaults.  The order
of the options and the way their values are written have no say, nor has a text of the environment
for a setting that the command line gives.  A text that counts and does not parse fails the whole.
-/

namespace NodeInventory

open CommandLine

/-! ## Settings -/

/-- A value that its text spells, or the default where there is no text. -/
inductive Field {α : Type} (spells : String → α → Prop) (default : α) : Option String → α → Prop
  | told {text value} (spelled : spells text value) : Field spells default (some text) value
  | untold : Field spells default none default

namespace Field

variable {α β : Type} {spells : String → α → Prop} {default : α} {text? : Option String}

theorem of_values_map {value? : Option β} {read? : String → Option β} (make : β → α)
    (values : text?.map read? = value?.map some)
    (spelled : ∀ text value, read? text = some value → spells text (make value)) :
    Field spells default text? ((value?.map make).getD default) := by
  cases text? with
  | none =>
      cases value? with
      | none => exact .untold
      | some value => cases values
  | some text =>
      obtain ⟨value, rfl, eq⟩ := Option.map_eq_some_iff.1 values.symm
      exact .told (spelled text value eq.symm)

theorem of_values {value? : Option α} {read? : String → Option α}
    (values : text?.map read? = value?.map some)
    (spelled : ∀ text value, read? text = some value → spells text value) :
    Field spells default text? (value?.getD default) := by
  have field : Field spells default text? ((value?.map id).getD default) :=
    of_values_map id values spelled
  rwa [Option.map_id] at field

end Field

/-- A number of milliseconds, as whole seconds and the nanoseconds beyond them. -/
def IsMillis (text : String) (duration : Duration) : Prop :=
  ∃ ms, SpellsWord64 ms text.toList ∧ duration.nanos / 1000000000 = ms / 1000 ∧
    duration.nanos % 1000000000 = ms % 1000 * 1000000

theorem isMillis_of_word64? {text : String} {ms : Nat}
    (read : Given.word64? text.toList = some ms) : IsMillis text (.ofMillis ms) := by
  refine ⟨ms, Given.word64?_eq_some_iff.1 read, ?_, ?_⟩ <;> rw [Duration.ofMillis_nanos] <;> omega

/-- Settings whose values the texts spell, with the defaults for those that have no text. -/
structure Settings.ComeFrom (settings : Settings) (texts : Texts) : Prop where
  address : Field (fun text address => address = text) "http://127.0.0.1:5000" (texts .address)
    settings.address
  maxAttempts : Field (fun text n => SpellsWord32 n text.toList) 10 (texts .maxAttempts)
    settings.maxAttempts
  retryDelay : Field IsMillis ⟨1000000000⟩ (texts .retryDelay) settings.retryDelay
  backoffFactor : Field (fun text x => x.Spells text.toList) 1 (texts .backoffFactor)
    settings.backoffFactor
  commandTimeout : Field IsMillis ⟨10000000000⟩ (texts .commandTimeout) settings.commandTimeout
  interval : Field
    (fun text period =>
      ∃ secs, SpellsWord64 secs text.toList ∧ period = some ⟨secs * 1000000000⟩)
    none (texts .interval) settings.interval

theorem Given.settings_comeFrom {given : Given} {texts : Texts}
    (values : ∀ setting, (texts setting).map setting.read? = (given.get setting).map some) :
    given.settings.ComeFrom texts := by
  constructor
  case address => exact .of_values (values .address) fun _ _ eq => (Option.some.inj eq).symm
  case maxAttempts =>
    exact .of_values (values .maxAttempts) fun _ _ => Given.word32?_eq_some_iff.1
  case retryDelay =>
    exact .of_values_map Duration.ofMillis (values .retryDelay) fun _ _ => isMillis_of_word64?
  case backoffFactor =>
    exact .of_values (values .backoffFactor) fun _ _ => Binary64.ofText?_eq_some_iff.1
  case commandTimeout =>
    exact .of_values_map Duration.ofMillis (values .commandTimeout) fun _ _ => isMillis_of_word64?
  case interval =>
    have present : (given.intervalSecs.map (some ∘ .ofSecs)).getD none =
        given.intervalSecs.map Duration.ofSecs := by
      cases given.intervalSecs <;> rfl
    show Field _ none _ (given.intervalSecs.map Duration.ofSecs)
    rw [← present]
    exact .of_values_map _ (values .interval) fun _ secs read =>
      ⟨secs, Given.word64?_eq_some_iff.1 read, rfl⟩

namespace CommandLine

variable {line : List Item}

/-! ## Command lines in any order -/

/-- A command line that gives no option twice, and no value that could be taken for an option. -/
structure IsProper (line : List Item) : Prop where
  once : (line.map Item.setting?).Nodup
  plain : ∀ item ∈ line, item.IsPlain

theorem IsProper.perm {line' : List Item} (proper : IsProper line) (perm : line'.Perm line) :
    IsProper line' where
  once := (perm.map Item.setting?).nodup_iff.2 proper.once
  plain item mem := proper.plain item (perm.mem_iff.1 mem)

theorem texts_eq_some_iff (once : (line.map Item.setting?).Nodup) {setting : Setting}
    {text : String} :
    texts line setting = some text ↔ ∃ spelling, .valued setting text spelling ∈ line := by
  induction line with
  | nil => simp [texts]
  | cons item line ih =>
      rw [List.map_cons, List.nodup_cons] at once
      rw [texts_cons, Texts.or]
      by_cases here : item.setting? = some setting
      · cases item with
        | dryRun => cases here
        | valued _ text' spelling =>
            cases here
            have absent (other : Spelling) : Item.valued setting text other ∉ line := fun mem =>
              once.1 (List.mem_map.2 ⟨_, mem, rfl⟩)
            simp [Item.texts, Texts.only, absent, eq_comm]
      · have elsewhere (spelling : Spelling) : Item.valued setting text spelling ≠ item := by
          rintro rfl
          exact here rfl
        simp only [Item.texts_eq_none here, Option.none_or, List.mem_cons, elsewhere, false_or]
        exact ih once.2

theorem texts_eq_of_perm {line' : List Item} (once : (line.map Item.setting?).Nodup)
    (perm : line'.Perm line) : texts line' = texts line := by
  have once' : (line'.map Item.setting?).Nodup := (perm.map Item.setting?).nodup_iff.2 once
  refine funext fun setting => Option.ext fun text => ?_
  rw [texts_eq_some_iff once, texts_eq_some_iff once']
  exact exists_congr fun spelling => perm.mem_iff

/-! ## The result -/

theorem exists_settled (proper : IsProper line) (environment : String → Option String) :
    ∃ result, Settled (consulted line environment) (decide (.dryRun ∈ line)) result ∧
      Options.parse (arguments line) environment =
        result >>= fun given => pure ⟨given.settings, given.dryRun⟩ := by
  have nothing : Settled Texts.none false (.ok Given.nothing) := by
    have values (setting : Setting) : (Texts.none setting).map setting.read? =
        (Given.nothing.get setting).map some := by
      rw [Given.get_nothing]
      rfl
    exact .read values
  have taken := nothing.foldlM_take proper.once (fun _ _ => rfl) fun _ => rfl
  have asked := taken.foldlM_ask environment Setting.all
  have whole : (Texts.none.or (texts line)).or (fun setting =>
      if setting ∈ Setting.all then environment setting.variableName else none) =
        consulted line environment := by
    funext setting
    rw [Texts.or, if_pos setting.mem_all, ← ofVariables_eq environment]
    rfl
  rw [whole, Bool.false_or] at asked
  refine ⟨_, asked, ?_⟩
  rw [parse_arguments proper.plain, bind_assoc]
  rfl

/-- Two command lines with the same texts and the same flag come to the same. -/
theorem parse_eq_of_consulted {line' : List Item} (proper : IsProper line)
    (proper' : IsProper line') {environment environment' : String → Option String}
    (same : consulted line environment = consulted line' environment')
    (flag : .dryRun ∈ line ↔ .dryRun ∈ line') :
    Options.parse (arguments line) environment = Options.parse (arguments line') environment' := by
  obtain ⟨result, settled, eq⟩ := exists_settled proper environment
  obtain ⟨result', settled', eq'⟩ := exists_settled proper' environment'
  rw [same, decide_eq_decide.2 flag] at settled
  rw [eq, eq', settled.unique settled']

/-- The command line goes before the environment, and the environment before the defaults.  Where
all texts that count parse, they spell the settings, and the flag is set where it is given; one that
does not parse fails the whole.  Neither a variable of a setting that the command line gives nor the
order of the options matters.  Every number of milliseconds in 64 bits has a text. -/
theorem parse_arguments_comeFrom (proper : IsProper line) (environment : String → Option String) :
    ((∀ setting text, consulted line environment setting = some text → setting.Parses text) →
      ∃ options, Options.parse (arguments line) environment = .ok options ∧
        options.settings.ComeFrom (consulted line environment) ∧
        (options.dryRun = true ↔ .dryRun ∈ line)) ∧
    ((∃ setting text, consulted line environment setting = some text ∧ ¬setting.Parses text) →
      Options.parse (arguments line) environment = .error .badValue) ∧
    (∀ environment', (∀ setting, texts line setting = none →
        ofVariables environment' setting = ofVariables environment setting) →
      Options.parse (arguments line) environment' =
        Options.parse (arguments line) environment) ∧
    (∀ line', line'.Perm line → Options.parse (arguments line') environment =
      Options.parse (arguments line) environment) ∧
    ∀ ms < UInt64.size, SpellsWord64 ms (toString ms).toList := by
  obtain ⟨result, settled, eq⟩ := exists_settled proper environment
  generalize flag : decide (.dryRun ∈ line) = seen at settled
  refine ⟨fun readable => ?_, fun ⟨setting, text, told, unread⟩ => ?_,
    fun environment' agree => ?_, fun line' perm => ?_, fun ms lt => ?_⟩
  · cases settled with
    | unreadable told unread => exact absurd (readable _ _ told) unread
    | read values =>
        refine ⟨_, eq, Given.settings_comeFrom values, ?_⟩
        rw [← flag]
        exact decide_eq_true_iff
  · cases settled with
    | read values => exact absurd (parses_of_values (values setting) told) unread
    | unreadable => exact eq
  · refine parse_eq_of_consulted proper proper (funext fun setting => ?_) Iff.rfl
    rw [consulted, consulted, Texts.or, Texts.or]
    cases told : texts line setting with
    | none => rw [agree setting told]
    | some text => rfl
  · refine parse_eq_of_consulted (proper.perm perm) proper (funext fun setting => ?_) perm.mem_iff
    rw [consulted, consulted, texts_eq_of_perm proper.once perm]
  · exact ⟨Number.spellsNatural_toString ms, lt⟩

/-- What the command line gives counts, though its variables do not even parse; the rest comes from
variables and defaults, the more so where there is no command line at all. -/
theorem parse_arguments_comeFrom_both :
    let line := [Item.valued .maxAttempts "3" .apart, .valued .backoffFactor "1.5" .joined, .dryRun,
      .valued .retryDelay "1500" .apart, .valued .address "http://10.0.0.1=a" .joined]
    let environment := fun name =>
      if name = "DISCOVERY_MAX_ATTEMPTS" then some "many"
      else if name = "DISCOVERY_BACKOFF_FACTOR" then some "1,5"
      else if name = "DISCOVERY_INTERVAL_SECS" then some "60" else none
    let environment' := fun name =>
      if name = "DISCOVERY_MAX_ATTEMPTS" then some "7"
      else if name = "DISCOVERY_BACKOFF_FACTOR" then some "2" else none
    (IsProper line ∧ ∃ options, Options.parse (arguments line) environment = .ok options ∧
      options.settings.ComeFrom (consulted line environment) ∧
      (options.dryRun = true ↔ .dryRun ∈ line) ∧
      options = ⟨⟨"http://10.0.0.1=a", 3, ⟨1500000000⟩, .ofRatio false (3 * Number.one) 2,
        ⟨10000000000⟩, some ⟨60000000000⟩⟩, true⟩) ∧
    (IsProper [] ∧ ∃ options, Options.parse (arguments []) environment' = .ok options ∧
      options.settings.ComeFrom (consulted [] environment') ∧
      (options.dryRun = true ↔ .dryRun ∈ ([] : List Item)) ∧
      options.settings.maxAttempts = 7 ∧ options.settings.backoffFactor = 2) := by
  intro line environment environment'
  have proper : IsProper line := ⟨by decide, by decide⟩
  have readable : ∀ setting text, consulted line environment setting = some text →
      setting.Parses text := by
    intro setting text told
    cases setting <;> cases told <;> decide +kernel
  have proper' : IsProper [] := ⟨by decide, by decide⟩
  have readable' : ∀ setting text, consulted [] environment' setting = some text →
      setting.Parses text := by
    intro setting text told
    cases setting <;> cases told <;> decide +kernel
  obtain ⟨options, eq, settings, flag⟩ := (parse_arguments_comeFrom proper environment).1 readable
  obtain ⟨options', eq', settings', flag'⟩ :=
    (parse_arguments_comeFrom proper' environment').1 readable'
  have run : Options.parse (arguments line) environment = .ok ⟨⟨"http://10.0.0.1=a", 3,
      ⟨1500000000⟩, .ofRatio false (3 * Number.one) 2, ⟨10000000000⟩,
      some ⟨60000000000⟩⟩, true⟩ := by
    decide +kernel
  have run' : Options.parse (arguments []) environment' = .ok ⟨⟨"http://127.0.0.1:5000", 7,
      ⟨1000000000⟩, 2, ⟨10000000000⟩, none⟩, false⟩ := by
    decide +kernel
  cases eq.symm.trans run
  cases eq'.symm.trans run'
  exact ⟨⟨proper, _, eq, settings, flag, rfl⟩, proper', _, eq', settings', flag', rfl, rfl⟩

end CommandLine

end NodeInventory
