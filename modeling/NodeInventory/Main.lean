import NodeInventory.Options
import NodeInventory.Probe.Boot
import NodeInventory.Tool

/-!
# The command line

Shows what a run would do: the commands it asks for versions, the boot identity of this node, and
where the report goes.
-/

open NodeInventory

namespace NodeInventory.CommandLine

def usage : String :=
  "Usage: node-inventory [--dry-run]"
    ++ String.join (Setting.all.map fun setting => " [--" ++ setting.option ++ " <value>]")

/-- What a wrong command line is answered with, and the exit code. -/
def answer : OptionError → String × UInt32
  | .helpRequested => (usage, 0)
  | .versionRequested => ("node-inventory 0.1.0", 0)
  | .badValue => ("a value is not valid\n" ++ usage, 2)
  | .missingValue => ("an option has no value\n" ++ usage, 2)
  | .unknownArgument => ("an argument is not known\n" ++ usage, 2)
  | .repeated => ("an option is given twice\n" ++ usage, 2)
  | .needlessValue => ("a flag takes no value\n" ++ usage, 2)

/-- The lines that describe a run. -/
def plan (options : Options) (boot : Except ProbeError BootRecord) : List String :=
  let identity := match boot with
    | .ok boot => "identity " ++ boot.identity.text
    | .error error => error.message
  let endpoint := "endpoint " ++ options.settings.url
    ++ (if options.dryRun then " (not contacted)" else "")
  Tool.all.map (fun tool => tool.name ++ ": " ++ tool.invocation.text) ++ [identity, endpoint]

end NodeInventory.CommandLine

/-- The bytes of a file that can be read. -/
def readFile? (path : String) : IO (Option (List UInt8)) := do
  try
    return some (← IO.FS.readBinFile path).toList
  catch _ => return none

def main (arguments : List String) : IO UInt32 := do
  let values ← Setting.all.mapM fun setting => do
    return (setting.variableName, ← IO.getEnv setting.variableName)
  let environment (name : String) : Option String :=
    (values.find? fun entry => entry.1 = name).bind (·.2)
  match Options.parse arguments environment with
  | .error error =>
      let (text, code) := CommandLine.answer error
      IO.println text
      return code
  | .ok options =>
      match options.settings.validate with
      | .error failure =>
          IO.eprintln ("Invalid configuration: " ++ failure.message)
          return 1
      | .ok () =>
          let files : Probe.BootFiles :=
            ⟨← readFile? "/proc/cmdline", ← readFile? "/sys/class/dmi/id/product_uuid"⟩
          for line in CommandLine.plan options (files.boot (.ok [])) do IO.println line
          return 0
