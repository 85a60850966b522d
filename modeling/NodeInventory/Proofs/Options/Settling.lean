import Mathlib.Data.Option.Basic
import NodeInventory.Proofs.Options.CommandLine
import NodeInventory.Proofs.Options.Value

/-!
# Texts that settle options

Each setting has one text at most, from the command line or else from the environment.  `Settled`
says what the texts of all settings come to; one more text, one more option and one more question to
the environment keep it, and so do all of them together.  Nothing else has a say in the result.
-/

namespace NodeInventory

open CommandLine

theorem Setting.mem_all (setting : Setting) : setting ∈ all := by
  cases setting <;> decide

/-! ## Values that are given -/

namespace Given

variable {given : Given} {setting : Setting}

def get (given : Given) : (setting : Setting) → Option setting.Value
  | .address => given.address
  | .maxAttempts => given.maxAttempts
  | .retryDelay => given.retryDelayMs
  | .backoffFactor => given.backoffFactor
  | .commandTimeout => given.commandTimeoutMs
  | .interval => given.intervalSecs

def put (given : Given) : (setting : Setting) → setting.Value → Given
  | .address, text => { given with address := some text }
  | .maxAttempts, n => { given with maxAttempts := some n }
  | .retryDelay, ms => { given with retryDelayMs := some ms }
  | .backoffFactor, x => { given with backoffFactor := some x }
  | .commandTimeout, ms => { given with commandTimeoutMs := some ms }
  | .interval, secs => { given with intervalSecs := some secs }

theorem has_eq : given.has setting = (given.get setting).isSome := by
  cases setting <;> rfl

theorem set_eq (text : String) :
    given.set setting text = (setting.read? text).map (given.put setting) := by
  cases setting <;> rfl

@[simp] theorem get_put_self (value : setting.Value) :
    (given.put setting value).get setting = some value := by
  cases setting <;> rfl

theorem get_put_of_ne {other : Setting} (ne : other ≠ setting) (value : setting.Value) :
    (given.put setting value).get other = given.get other := by
  cases setting <;> cases other <;> first | rfl | exact absurd rfl ne

@[simp] theorem dryRun_put (value : setting.Value) :
    (given.put setting value).dryRun = given.dryRun := by
  cases setting <;> rfl

theorem get_nothing : nothing.get setting = none := by
  cases setting <;> rfl

theorem ext_get {other : Given} (get : ∀ setting, given.get setting = other.get setting)
    (dryRun : given.dryRun = other.dryRun) : given = other := by
  obtain ⟨address, maxAttempts, retryDelayMs, backoffFactor, commandTimeoutMs, intervalSecs,
    flag⟩ := given
  obtain rfl : address = _ := get .address
  obtain rfl : maxAttempts = _ := get .maxAttempts
  obtain rfl : retryDelayMs = _ := get .retryDelay
  obtain rfl : backoffFactor = _ := get .backoffFactor
  obtain rfl : commandTimeoutMs = _ := get .commandTimeout
  obtain rfl : intervalSecs = _ := get .interval
  obtain rfl : flag = _ := dryRun
  rfl

end Given

/-! ## Texts of settings -/

/-- The text of each setting that has one. -/
abbrev Texts := Setting → Option String

namespace Texts

/-- The later texts stand in where there are no earlier ones. -/
def or (earlier later : Texts) : Texts := fun setting => (earlier setting).or (later setting)

def none : Texts := fun _ => Option.none

/-- A text, if it is one, for one setting. -/
def only (setting : Setting) (text? : Option String) : Texts :=
  fun other => if other = setting then text? else Option.none

@[simp] theorem or_none (texts : Texts) : texts.or none = texts :=
  funext fun _ => Option.or_none ..

theorem or_assoc (a b c : Texts) : (a.or b).or c = a.or (b.or c) :=
  funext fun _ => Option.or_assoc ..

theorem or_of_some {texts : Texts} {setting : Setting} {text : String}
    (told : texts setting = some text) (later : Texts) : texts.or later setting = some text := by
  rw [or, told]
  rfl

theorem or_only_of_some {texts : Texts} {setting : Setting} {text : String}
    (told : texts setting = some text) (text? : Option String) :
    texts.or (only setting text?) = texts := by
  funext other
  by_cases same : other = setting
  · rw [or, same, told]
    rfl
  · rw [or, only, if_neg same, Option.or_none]

theorem only_none (setting : Setting) : only setting Option.none = none :=
  funext fun _ => ite_self _

end Texts

/-! ## What texts come to -/

/-- The outcome of reading texts, with or without the flag: each setting has the value that its text
spells, or some text does not parse. -/
inductive Settled (texts : Texts) : Bool → Except OptionError Given → Prop
  | read {given} (values : ∀ setting,
      (texts setting).map setting.read? = (given.get setting).map some) :
      Settled texts given.dryRun (.ok given)
  | unreadable {flag setting text} (told : texts setting = some text)
      (unread : ¬setting.Parses text) : Settled texts flag (.error .badValue)

section Values

variable {texts : Texts} {given : Given} {setting : Setting}

theorem parses_of_values (values : (texts setting).map setting.read? = (given.get setting).map some)
    {text : String} (told : texts setting = some text) : setting.Parses text := by
  rw [told] at values
  obtain ⟨value, -, eq⟩ := Option.map_eq_some_iff.1 values.symm
  rw [Setting.parses_iff, ← eq]
  rfl

theorem has_of_values
    (values : (texts setting).map setting.read? = (given.get setting).map some) :
    given.has setting = (texts setting).isSome := by
  rw [Given.has_eq, ← Option.isSome_map (f := some), ← values, Option.isSome_map]

end Values

namespace Settled

variable {texts : Texts} {flag : Bool} {result : Except OptionError Given} {setting : Setting}

/-- Texts and flag leave no choice. -/
theorem unique {other : Except OptionError Given} (settled : Settled texts flag result)
    (settled' : Settled texts flag other) : result = other := by
  cases settled with
  | @read given values =>
      generalize eq : given.dryRun = flag at settled'
      cases settled' with
      | read values' =>
          refine congrArg _ (Given.ext_get (fun setting => ?_) eq)
          exact Option.map_injective (Option.some_injective _)
            ((values setting).symm.trans (values' setting))
      | unreadable told unread => exact absurd (parses_of_values (values _) told) unread
  | unreadable told unread =>
      cases settled' with
      | read values => exact absurd (parses_of_values (values _) told) unread
      | unreadable => rfl

/-- A text that does not parse stays in the way, so that only what was read is left to look at. -/
theorem step {later : Texts} {flag' : Bool} {next : Given → Except OptionError Given}
    (settled : Settled texts flag result)
    (goes_on : ∀ given, given.dryRun = flag →
      (∀ setting, (texts setting).map setting.read? = (given.get setting).map some) →
        Settled (texts.or later) flag' (next given)) :
    Settled (texts.or later) flag' (result >>= next) := by
  cases settled with
  | read values => exact goes_on _ rfl values
  | unreadable told unread => exact .unreadable (Texts.or_of_some told later) unread

/-- A further text, for a setting that has none. -/
theorem assign (settled : Settled texts flag result) (free : texts setting = none) (text : String) :
    Settled (texts.or (.only setting (some text))) flag
      (result >>= fun given => Reading.assign given setting text) := by
  have told : texts.or (.only setting (some text)) setting = some text := by
    rw [Texts.or, free, Option.none_or, Texts.only, if_pos rfl]
  have kept {other : Setting} (ne : other ≠ setting) :
      texts.or (.only setting (some text)) other = texts other := by
    rw [Texts.or, Texts.only, if_neg ne, Option.or_none]
  refine settled.step fun given flagged values => ?_
  have vacant : given.has setting = false := by
    rw [has_of_values (values setting), free]
    rfl
  rw [Reading.assign, vacant, Given.set_eq]
  cases eq : setting.read? text with
  | none => exact .unreadable told (by rw [Setting.parses_iff, eq]; exact Bool.false_ne_true)
  | some value =>
      rw [← flagged, ← Given.dryRun_put value]
      refine .read fun other => ?_
      by_cases same : other = setting
      · subst same
        rw [Given.get_put_self, told, Option.map_some, eq]
        rfl
      · rw [Given.get_put_of_ne same, kept same, values]

/-- The environment is asked for a setting that has no text yet. -/
theorem ask (settled : Settled texts flag result) (environment : String → Option String)
    (setting : Setting) :
    Settled (texts.or (.only setting (environment setting.variableName))) flag
      (result >>= fun given => given.ask environment setting) := by
  refine settled.step fun given flagged values => ?_
  subst flagged
  have has := has_of_values (values setting)
  rw [Given.ask, has]
  cases told : texts setting with
  | some text =>
      rw [Texts.or_only_of_some told]
      exact .read values
  | none =>
      cases environment setting.variableName with
      | none =>
          rw [Texts.only_none, Texts.or_none]
          exact .read values
      | some text =>
          have assigned := (Settled.read values).assign told text
          rw [told] at has
          change Settled _ _ (Reading.assign given setting text) at assigned
          rw [Reading.assign, has] at assigned
          exact assigned

theorem foldlM_ask (settled : Settled texts flag result) (environment : String → Option String)
    (settings : List Setting) :
    Settled
      (texts.or fun setting =>
        if setting ∈ settings then environment setting.variableName else none) flag
      (result >>= fun given => settings.foldlM (Given.ask environment) given) := by
  induction settings generalizing texts result with
  | nil =>
      simp only [List.foldlM_nil, bind_pure]
      exact (Texts.or_none texts).symm ▸ settled
  | cons first later ih =>
      have asked := ih (settled.ask environment first)
      rw [Texts.or_assoc, bind_assoc] at asked
      have together : (Texts.only first (environment first.variableName)).or (fun setting =>
            if setting ∈ later then environment setting.variableName else none) =
          fun setting =>
            if setting ∈ first :: later then environment setting.variableName else none := by
        funext setting
        -- a setting that is asked for again answers as it did before
        by_cases same : setting = first
        · rw [Texts.or, Texts.only, if_pos same, same, if_pos List.mem_cons_self]
          split
          · exact Option.or_self
          · exact Option.or_none
        · simp only [Texts.or, Texts.only, same, if_false, Option.none_or, List.mem_cons, false_or]
      rwa [together] at asked

end Settled

/-! ## Command lines -/

namespace CommandLine

def Item.texts : Item → Texts
  | .dryRun => .none
  | .valued setting value _ => .only setting (some value)

/-- The text that a command line gives a setting. -/
def texts (line : List Item) : Texts := fun setting => line.findSome? (·.texts setting)

/-- The texts of the variables. -/
def ofVariables (environment : String → Option String) : Texts
  | .address => environment "DISCOVERY_ADDRESS"
  | .maxAttempts => environment "DISCOVERY_MAX_ATTEMPTS"
  | .retryDelay => environment "DISCOVERY_RETRY_DELAY_MS"
  | .backoffFactor => environment "DISCOVERY_BACKOFF_FACTOR"
  | .commandTimeout => environment "DISCOVERY_COMMAND_TIMEOUT_MS"
  | .interval => environment "DISCOVERY_INTERVAL_SECS"

theorem ofVariables_eq (environment : String → Option String) (setting : Setting) :
    ofVariables environment setting = environment setting.variableName := by
  cases setting <;> rfl

/-- The text that counts: the one of the command line, or else the one of the environment. -/
def consulted (line : List Item) (environment : String → Option String) : Texts :=
  (texts line).or (ofVariables environment)

theorem texts_cons (item : Item) (line : List Item) :
    texts (item :: line) = item.texts.or (texts line) := by
  funext setting
  rw [texts, List.findSome?_cons, Texts.or]
  cases item.texts setting <;> rfl

theorem Item.texts_eq_none {item : Item} {setting : Setting} (ne : item.setting? ≠ some setting) :
    item.texts setting = none := by
  cases item with
  | dryRun => rfl
  | valued other value spelling => exact if_neg fun same => ne (congrArg some same.symm)

end CommandLine

namespace Settled

variable {texts : Texts} {flag : Bool} {result : Except OptionError Given}

theorem take_item (settled : Settled texts flag result) {item : Item}
    (free : ∀ setting, item.setting? = some setting → texts setting = none)
    (unseen : item.setting? = none → flag = false) :
    Settled (texts.or item.texts) (flag || decide (item = .dryRun)) (result >>= item.take) := by
  cases item with
  | valued setting value spelling =>
      show Settled _ (flag || false) _
      rw [Bool.or_false]
      exact settled.assign (free setting rfl) value
  | dryRun =>
      refine settled.step fun given flagged values => ?_
      have first : Item.dryRun.take given = .ok { given with dryRun := true } :=
        if_neg (ne_true_of_eq_false (flagged.trans (unseen rfl)))
      have same (setting : Setting) :
          Given.get { given with dryRun := true } setting = given.get setting := by
        cases setting <;> rfl
      show Settled (texts.or .none) (flag || true) (Item.dryRun.take given)
      rw [Texts.or_none, Bool.or_true, first]
      exact .read fun setting => by rw [same, values]

/-- Options that are given once each leave their texts behind. -/
theorem foldlM_take (settled : Settled texts flag result) {line : List Item}
    (once : (line.map Item.setting?).Nodup)
    (free : ∀ setting, some setting ∈ line.map Item.setting? → texts setting = none)
    (unseen : none ∈ line.map Item.setting? → flag = false) :
    Settled (texts.or (CommandLine.texts line)) (flag || decide (.dryRun ∈ line))
      (result >>= line.foldlM fun given item => item.take given) := by
  induction line generalizing texts flag result with
  | nil =>
      have kept : texts.or (CommandLine.texts []) = texts := Texts.or_none texts
      have flag_kept : (flag || decide (Item.dryRun ∈ [])) = flag := Bool.or_false flag
      have unread : (result >>= [].foldlM fun given (item : Item) => item.take given) = result :=
        bind_pure result
      rwa [kept, flag_kept, unread]
  | cons item line ih =>
      rw [List.map_cons, List.nodup_cons] at once
      have taken : Settled (texts.or item.texts) (flag || decide (item = .dryRun))
          (result >>= item.take) :=
        settled.take_item (fun setting eq => free setting (List.mem_cons.2 (.inl eq.symm)))
          fun eq => unseen (List.mem_cons.2 (.inl eq.symm))
      -- no later item is for the setting of the first one, so the hypotheses carry over
      have later := ih taken once.2 ?_ ?_
      · have flags : (flag || decide (item = .dryRun) || decide (.dryRun ∈ line)) =
            (flag || decide (.dryRun ∈ item :: line)) := by
          simp [Bool.or_assoc, List.mem_cons, eq_comm]
        rw [Texts.or_assoc, ← texts_cons, bind_assoc, flags] at later
        exact later
      · intro setting mem
        rw [Texts.or, free setting (List.mem_cons_of_mem _ mem),
          Item.texts_eq_none fun eq => once.1 (eq ▸ mem)]
        rfl
      · intro mem
        rw [unseen (List.mem_cons_of_mem _ mem)]
        cases item with
        | dryRun => exact absurd mem once.1
        | valued => rfl

end Settled

end NodeInventory
