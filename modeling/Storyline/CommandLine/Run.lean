import Storyline.CommandLine.Arguments
import Storyline.Compile
import Storyline.Dump.Reading
import Storyline.Settings
import Storyline.Story.Json

namespace Storyline.CommandLine

/-- What is found under a file name: a text, or the reason why there is none. -/
abbrev Files := String → Except String String

structure Outcome where
  exit : Nat
  stdout : String
  /-- One entry for each mistake, with the file's name in front. -/
  diagnostics : List String
  /-- Why the run was given up, the outermost reason first. -/
  causes : List String
deriving DecidableEq, Repr, Inhabited

namespace Outcome

def failed (causes : List String) : Outcome := ⟨1, "", [], causes⟩

def misuse : Outcome := ⟨2, "", [], []⟩

end Outcome

def versionText : String := "skein 0.1.0\n"

/-- The part of a file name after its last dot, if the name has more before it. -/
def extension (name : String) : String :=
  let last := ((Text.split '/' name.toList).getLast?.getD []).reverse
  let tail := last.takeWhile (· ≠ '.')
  match last.dropWhile (· ≠ '.') with
  | _ :: _ :: _ => String.ofList tail.reverse
  | _ => ""

/-- The text of a configuration file. A file of that very name must be of the right kind;
otherwise the kind may be left out of the name. -/
def configText? (files : Files) (name : String) : Option String :=
  match files name with
  | .ok text => if extension name == "toml" then some text else none
  | .error _ => (files (name ++ ".toml")).toOption

/-- The settings in the configuration file. A mark of the byte order in front of the file is no part
of the document, which may have one too. -/
def configSource (files : Files) (sources : Settings.Sources) : Option Settings.Source :=
  match configText? files sources.file with
  | some text => (Toml.read (Toml.unmarked text)).map Settings.ofDocument
  | none => if sources.required then none else some fun _ => none

/-- What the program leaves to libraries: reading its arguments, and looking up its settings. -/
structure Libraries where
  arguments : List String → Invocation
  /-- The settings that the sources come to, or why there are none, the outermost reason first. -/
  settings : Settings.Sources → Except (List String) Settings

/-- The settings of a run that is given these files and this environment. -/
def lookUp (files : Files) (env : List (String × String)) (sources : Settings.Sources) :
    Option Settings := do
  let file ← configSource files sources
  Settings.ofSources [Settings.ofGiven sources.overrides,
    Settings.ofEnvironment sources.environment env, file, Settings.ofGiven sources.defaults]

/-- The libraries as they are documented. The wording of their reasons is left out. -/
def Libraries.documented (files : Files) (env : List (String × String)) : Libraries where
  arguments := .ofArguments
  settings := fun sources =>
    match lookUp files env sources with
    | some settings => .ok settings
    | none => .error []

/-- Where the settings for a request are looked up. -/
def Request.sources (request : Request) : Settings.Sources :=
  match request.command with
  | .compile pretty => Settings.sources request.config request.start pretty
  | .check => Settings.sources request.config request.start false

/-- The story in a file of tokens, or why there is none. -/
def compileFile (files : Files) (settings : Settings) (file : String) :
    Except (List String) Story :=
  match files file with
  | .error reason => .error ["failed to read " ++ file, reason]
  | .ok text =>
    match Dump.read text with
    | .error e => .error ["malformed token dump " ++ file, e.message]
    | .ok tokens =>
      match compile settings.start tokens with
      | .error e => .error ["failed to compile " ++ file, e.message]
      | .ok story => .ok story

def storyText (settings : Settings) (story : Story) : String :=
  if settings.pretty then story.json.pretty 0 else story.json.compact

/-- What a finished run shows. -/
def present (request : Request) (settings : Settings) (story : Story) : Outcome where
  exit := if settings.denyDiagnostics ∧ story.diagnostics.size ≠ 0 then 1 else 0
  stdout :=
    match request.command with
    | .compile _ => storyText settings story ++ "\n"
    | .check => ""
  diagnostics := story.diagnostics.toList.map fun d => request.file ++ ":" ++ d.text
  causes := []

def execute (libraries : Libraries) (files : Files) (request : Request) : Outcome :=
  match libraries.settings request.sources with
  | .error causes => .failed ("failed to load settings" :: causes)
  | .ok settings =>
    match compileFile files settings request.file with
    | .error causes => .failed causes
    | .ok story => present request settings story

def answer (libraries : Libraries) (files : Files) (invocation : Invocation) : Outcome :=
  match invocation with
  | .run request => execute libraries files request
  | .version => ⟨0, versionText, [], []⟩
  | .help => ⟨0, "", [], []⟩
  | .misuse => .misuse

/-- The whole program. -/
def run (libraries : Libraries) (files : Files) (args : List String) : Outcome :=
  answer libraries files (libraries.arguments args)

/-- What the program does with the libraries as documented. -/
def respond (files : Files) (env : List (String × String)) (invocation : Invocation) : Outcome :=
  answer (.documented files env) files invocation

/-- The names of all files an invocation may read. -/
def fileNames (invocation : Invocation) : List String :=
  match invocation with
  | .run request =>
    let config := request.config.getD Settings.defaultFile
    [config, config ++ ".toml", request.file]
  | _ => []

end Storyline.CommandLine
