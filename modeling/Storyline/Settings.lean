import Storyline.Decimal.Text
import Storyline.Settings.Key

namespace Storyline

structure Settings where
  /-- The label of the entry node. -/
  start : String
  logLevel : String
  /-- A script with any mistake makes the run fail. -/
  denyDiagnostics : Bool
  /-- The story is written with one field a line. -/
  pretty : Bool
deriving DecidableEq, Repr, Inhabited

namespace Settings

/-- A value that the program gives to a setting itself. -/
inductive Given where
  | text (s : String)
  | flag (b : Bool)
deriving DecidableEq, Repr, Inhabited

/-- Where settings are looked up, the weakest source first. -/
structure Sources where
  defaults : List (String × Given)
  /-- The name of a configuration file. -/
  file : String
  /-- The file has to be there. -/
  required : Bool
  /-- What the names of variables in the environment begin with. -/
  environment : String
  overrides : List (String × Given)
deriving DecidableEq, Repr, Inhabited

/-- The configuration file that is looked for where none is named. -/
def defaultFile : String := "skein"

/-- Where the settings of a run are looked up, by its flags. -/
def sources (config start : Option String) (pretty : Bool) : Sources where
  defaults := [("start", .text "start"), ("log_level", .text "warn"),
    ("deny_diagnostics", .flag false), ("pretty", .flag false)]
  file := config.getD defaultFile
  required := config.isSome
  environment := "SKEIN"
  overrides := (start.map fun s => ("start", .text s)).toList ++
    if pretty then [("pretty", .flag true)] else []

/-- A value as text; lists and tables have none. -/
def text? : Toml.Value → Option String
  | .string s => some s
  | .integer n => some (toString n)
  | .float x => some (Decimal.Layout.display.write x)
  | .bool b => some (if b then "true" else "false")
  | .datetime s => some s
  | _ => none

/-- The small letter of a capital that has one in ASCII: beside the capitals of ASCII only the
Kelvin sign does. -/
def small (c : Char) : Char := if c = '\u212a' then 'k' else c.toLower

/-- The truth value of a word in any case. -/
def ofWord? (s : String) : Option Bool :=
  let word := String.ofList (s.toList.map small)
  if word ∈ ["1", "true", "on", "yes"] then some true
  else if word ∈ ["0", "false", "off", "no"] then some false
  else none

/-- A value as a truth value: numbers other than zero are true. -/
def truth? : Toml.Value → Option Bool
  | .bool b => some b
  | .integer n => some (n ≠ 0)
  | .float x => some (x != 0)
  | .string s => ofWord? s
  | .datetime s => ofWord? s
  | _ => none

/-- What one source says about settings. -/
abbrev Source := String → Option Toml.Value

def ofGiven (given : List (String × Given)) : Source := fun setting =>
  match given.lookup setting with
  | some (.text s) => some (.string s)
  | some (.flag b) => some (.bool b)
  | none => none

/-- The settings in an environment. Their variables have a common beginning, whose case does not
matter, nor does that of the rest; of two for the same setting the later counts. -/
def ofEnvironment (beginning : String) (env : List (String × String)) : Source := fun setting =>
  let wanted := beginning.toList.map small ++ '_' :: setting.toList
  env.reverse.findSome? fun (name, v) =>
    let key := name.toList.map small
    if key == wanted then some (.string v)
    else if leadsInto wanted key then some (.table [])
    else none

/-- The settings at the top of a document. -/
def ofDocument (doc : Toml.Document) : Source := fun setting =>
  if doc.keys.any fun key => leadsInto setting.toList key.toList then some (.table [])
  else doc.top? setting

/-- The value in the first source that has one. -/
def firstOf (sources : List Source) : Source := fun setting =>
  sources.findSome? fun source => source setting

/-- The settings that some sources, the strongest first, come to. Only the value that is taken has to
make sense. -/
def ofSources (sources : List Source) : Option Settings := do
  let source := firstOf sources
  let start ← (source "start").bind text?
  let logLevel ← (source "log_level").bind text?
  let denyDiagnostics ← (source "deny_diagnostics").bind truth?
  let pretty ← (source "pretty").bind truth?
  return { start, logLevel, denyDiagnostics, pretty }

end Settings

end Storyline
