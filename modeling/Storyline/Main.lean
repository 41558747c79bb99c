import Storyline.CommandLine.Run

namespace Storyline.CommandLine

/-- The wording of a failure to read a file. -/
def reason (e : IO.Error) : String :=
  match e with
  | .noFileOrDirectory .. => "No such file or directory (os error 2)"
  | .permissionDenied .. => "Permission denied (os error 13)"
  | .inappropriateType _ 20 _ => "Not a directory (os error 20)"
  | .inappropriateType .. => "Is a directory (os error 21)"
  | e => toString e

/-- The texts of files, or why they cannot be read. -/
def readFiles : List String → IO (List (String × Except String String))
  | [] => return []
  | name :: rest => do
    let found ← (IO.FS.readFile name).toBaseIO
    let text := match found with
      | .ok text => .ok text
      | .error e => .error (reason e)
    return (name, text) :: (← readFiles rest)

/-- The names under which a setting is looked up in the environment. -/
def variableNames : List String :=
  ["start", "log_level", "deny_diagnostics", "pretty"].flatMap fun setting =>
    ["SKEIN_" ++ String.ofList (setting.toList.map Char.toUpper), "SKEIN_" ++ setting,
      "skein_" ++ setting]

def readVariables : List String → IO (List (String × String))
  | [] => return []
  | name :: rest => do
    let found ← IO.getEnv name
    return (found.map (name, ·)).toList ++ (← readVariables rest)

/-- Files that were read. -/
def Files.ofList (found : List (String × Except String String)) : Files := fun name =>
  match found.lookup name with
  | some text => text
  | none => .error "not read"

end Storyline.CommandLine

open Storyline.CommandLine in
def main (args : List String) : IO UInt32 := do
  let invocation := Invocation.ofArguments args
  let files ← readFiles (fileNames invocation)
  let env ← readVariables variableNames
  let outcome := respond (.ofList files) env invocation
  for d in outcome.diagnostics do
    IO.eprintln d
  IO.print outcome.stdout
  for cause in outcome.causes do
    IO.eprintln cause
  return outcome.exit.toUInt32
