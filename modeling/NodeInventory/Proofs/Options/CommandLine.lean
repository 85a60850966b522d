import NodeInventory.Options

/-!
# Command lines of options

A command line as the options it gives.  A value stands in the argument of its option or in one of
its own behind it, and is looked at late in the second case.  This makes no difference to the
whole: reading the arguments comes to taking one option after the other.
-/

namespace NodeInventory.CommandLine

/-! ## Options as they are given -/

inductive Spelling
  | joined
  | apart
deriving DecidableEq, Repr

/-- An option of a command line. -/
inductive Item
  | dryRun
  | valued (setting : Setting) (value : String) (spelling : Spelling)
deriving DecidableEq, Repr

/-- The option of a setting as it is written. -/
def written : Setting → String
  | .address => "--discovery-address"
  | .maxAttempts => "--max-attempts"
  | .retryDelay => "--retry-delay-ms"
  | .backoffFactor => "--backoff-factor"
  | .commandTimeout => "--command-timeout-ms"
  | .interval => "--interval-secs"

namespace Item

def arguments : Item → List String
  | dryRun => ["--dry-run"]
  | valued setting value .joined => [written setting ++ "=" ++ value]
  | valued setting value .apart => [written setting, value]

/-- An argument of its own is not taken for an option where it starts without a dash. -/
def IsPlain : Item → Prop
  | valued _ value .apart => value.toList.head? ≠ some '-'
  | _ => True

instance : DecidablePred IsPlain
  | valued _ value .apart => inferInstanceAs (Decidable (value.toList.head? ≠ some '-'))
  | valued _ _ .joined | dryRun => isTrue trivial

/-- What an item sets; the flag sets nothing. -/
def setting? : Item → Option Setting
  | dryRun => none
  | valued setting _ _ => some setting

/-- One option after what is given already. -/
def take : Item → Given → Except OptionError Given
  | dryRun, given => if given.dryRun then .error .repeated else .ok { given with dryRun := true }
  | valued setting value _, given => Reading.assign given setting value

end Item

def arguments (line : List Item) : List String := line.flatMap Item.arguments

/-! ## Arguments -/

theorem find?_option (setting : Setting) :
    (Setting.all.find? fun other => other.option == setting.option) = some setting := by
  cases setting <;> rfl

theorem ofText_option (setting : Setting) :
    Argument.ofText (written setting) = .long setting.option none := by
  cases setting <;> decide

theorem ofText_joined (setting : Setting) (value : String) :
    Argument.ofText (written setting ++ "=" ++ value) =
      .long setting.option (some value) := by
  cases setting <;> simp [Argument.ofText, Setting.option, written]

theorem ofText_plain {text : String} (plain : text.toList.head? ≠ some '-') :
    Argument.ofText text = .plain text := by
  unfold Argument.ofText
  split <;> simp_all

/-! ## Reading -/

variable {reading : Reading}

theorem take_dryRun (undivided : reading.divided = false) :
    reading.take "--dry-run" =
      reading.settle >>= Item.dryRun.take >>= fun given => pure ⟨given, none, false⟩ := by
  have flag : Argument.ofText "--dry-run" = .long "dry-run" none := by decide
  have unvalued : (Setting.all.find? fun setting => setting.option == "dry-run") = none := by
    decide
  rw [Reading.take, undivided, flag]
  simp only [Reading.takeLong, unvalued, undivided]
  cases reading.settle with
  | error error => rfl
  | ok given =>
      simp only [Item.take, Except.bind, bind]
      cases given.dryRun <;> rfl

theorem take_joined (undivided : reading.divided = false) (setting : Setting) (value : String) :
    reading.take (written setting ++ "=" ++ value) =
      reading.settle >>= (Reading.assign · setting value) >>= fun given =>
        pure ⟨given, none, false⟩ := by
  rw [Reading.take, undivided, ofText_joined]
  simp only [Reading.takeLong, find?_option, undivided, bind_assoc]
  rfl

theorem foldlM_take_apart (undivided : reading.divided = false) (setting : Setting) {value : String}
    (plain : value.toList.head? ≠ some '-') :
    [written setting, value].foldlM Reading.take reading =
      reading.settle >>= fun given => pure ⟨given, some (setting, some value), false⟩ := by
  have first : reading.take (written setting) =
      reading.settle >>= fun given => pure ⟨given, some (setting, none), false⟩ := by
    rw [Reading.take, undivided, ofText_option]
    simp only [Reading.takeLong, find?_option, undivided]
    rfl
  have second (given : Given) : Reading.take ⟨given, some (setting, none), false⟩ value =
      pure ⟨given, some (setting, some value), false⟩ := by
    rw [Reading.take, ofText_plain plain]
    rfl
  simp only [List.foldlM_cons, List.foldlM_nil, first, bind_assoc, pure_bind, second, bind_pure]

/-- A reading goes on after an item, and comes to what the item makes of what it came to before. -/
structure Passes (item : Item) (reading : Reading) (result : Except OptionError Reading) :
    Prop where
  settle : result >>= Reading.settle = reading.settle >>= item.take
  undivided : ∀ next, result = .ok next → next.divided = false

theorem Passes.of_bind {item : Item} {result : Except OptionError Given} {next : Given → Reading}
    (settle : (result >>= fun given => (next given).settle) = reading.settle >>= item.take)
    (undivided : ∀ given, (next given).divided = false) :
    Passes item reading (result >>= fun given => pure (next given)) := by
  cases result with
  | error error => exact ⟨settle, fun _ eq => by cases eq⟩
  | ok given =>
      refine ⟨settle, fun _ eq => ?_⟩
      cases eq
      exact undivided given

theorem passes_of_isPlain (undivided : reading.divided = false) {item : Item}
    (plain : item.IsPlain) : Passes item reading (item.arguments.foldlM Reading.take reading) := by
  match item with
  | .dryRun =>
      rw [Item.arguments, List.foldlM_cons, take_dryRun undivided]
      simp only [List.foldlM_nil, bind_pure]
      exact .of_bind (bind_pure _) fun _ => rfl
  | .valued setting value .joined =>
      rw [Item.arguments, List.foldlM_cons, take_joined undivided]
      simp only [List.foldlM_nil, bind_pure]
      exact .of_bind (bind_pure _) fun _ => rfl
  | .valued setting value .apart =>
      rw [Item.arguments, foldlM_take_apart undivided setting plain]
      exact .of_bind rfl fun _ => rfl

/-- Reading the arguments of a command line is taking its items in order. -/
theorem foldlM_take_arguments (undivided : reading.divided = false) {line : List Item}
    (plain : ∀ item ∈ line, item.IsPlain) :
    (arguments line).foldlM Reading.take reading >>= Reading.settle =
      reading.settle >>= line.foldlM fun given item => item.take given := by
  induction line generalizing reading with
  | nil =>
      simp only [arguments, List.flatMap_nil, List.foldlM_nil, pure_bind]
      exact (bind_pure _).symm
  | cons item line ih =>
      have passes := passes_of_isPlain undivided (plain item List.mem_cons_self)
      simp only [arguments, List.flatMap_cons, List.foldlM_append, List.foldlM_cons]
      rw [← bind_assoc reading.settle, ← passes.settle]
      cases eq : item.arguments.foldlM Reading.take reading with
      | error error => rfl
      | ok next =>
          exact ih (passes.undivided next eq) fun later mem => plain later (.tail item mem)

theorem parse_arguments {line : List Item} (plain : ∀ item ∈ line, item.IsPlain)
    (environment : String → Option String) :
    Options.parse (arguments line) environment = do
      let given ← line.foldlM (fun given item => item.take given) .nothing
      let given ← Setting.all.foldlM (Given.ask environment) given
      return ⟨given.settings, given.dryRun⟩ := by
  have read : (arguments line).foldlM Reading.take .start >>= Reading.settle = _ :=
    foldlM_take_arguments rfl plain
  rw [Options.parse, ← bind_assoc, read]
  rfl

end NodeInventory.CommandLine
