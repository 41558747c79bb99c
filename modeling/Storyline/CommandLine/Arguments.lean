namespace Storyline.CommandLine

inductive Command where
  /-- Shows the mistakes and writes the story, with one field a line if that is asked for. -/
  | compile (pretty : Bool)
  /-- Only shows the mistakes. -/
  | check
deriving DecidableEq, Repr, Inhabited

/-- What is to be done. -/
structure Request where
  command : Command
  file : String
  start : Option String
  config : Option String
deriving DecidableEq, Repr, Inhabited

/-- What the arguments ask for. -/
inductive Invocation where
  | run (request : Request)
  | version
  | help
  /-- The arguments do not fit together. -/
  | misuse
deriving DecidableEq, Repr, Inhabited

/-- The form of one argument. -/
inductive Argument where
  /-- `--`. -/
  | escape
  /-- `--name` or `--name=value`. -/
  | long (name : String) (value : Option String)
  /-- `-abc`, three flags of one letter. -/
  | short (letters : List Char)
  | plain (text : String)
deriving DecidableEq, Repr

def Argument.ofString (s : String) : Argument :=
  match s.toList with
  | ['-', '-'] => .escape
  | '-' :: '-' :: rest =>
    match rest.dropWhile (· ≠ '=') with
    | [] => .long (String.ofList rest) none
    | _ :: value => .long (String.ofList (rest.takeWhile (· ≠ '='))) (some (String.ofList value))
  | ['-'] => .plain s
  | '-' :: letters => .short letters
  | _ => .plain s

/-- What the arguments of a command have said so far. -/
structure Draft where
  file : Option String
  start : Option String
  config : Option String
deriving DecidableEq, Repr, Inhabited

def Draft.empty : Draft := ⟨none, none, none⟩

/-- One more value for a flag or place that takes one. -/
inductive Slot where
  | file
  | start
  | config
deriving DecidableEq, Repr

/-- A value is given once; a path is not empty. -/
def Draft.put (draft : Draft) (slot : Slot) (value : String) : Option Draft :=
  match slot with
  | .file =>
    if draft.file.isSome || value == "" then none else some { draft with file := some value }
  | .start => if draft.start.isSome then none else some { draft with start := some value }
  | .config =>
    if draft.config.isSome || value == "" then none else some { draft with config := some value }

/-- The request of a command; its own flags win over those before it. -/
def Draft.request (draft : Draft) (command : Command) (config : Option String) : Invocation :=
  match draft.file with
  | some file => .run ⟨command, file, draft.start, draft.config.or config⟩
  | none => .misuse

/-- Flags of one letter after a command. -/
def shortFlags : List Char → Option Invocation
  | [] => none
  | 'v' :: rest => shortFlags rest
  | 'h' :: _ => some .help
  | _ => some .misuse

/-- The flag that takes a value and has this name. -/
def slotOf? (name : String) : Option Slot :=
  if name == "start" then some .start
  else if name == "config" then some .config
  else none

/-- A plain argument where a value is wanted. -/
def plain? (s : String) : Option String :=
  match Argument.ofString s with
  | .plain text => some text
  | _ => none

/-- All that is left are files. -/
def afterEscape (draft : Draft) : List String → Option Draft
  | [] => some draft
  | s :: rest => do afterEscape (← draft.put .file s) rest

/-- The arguments after a command. -/
def command (which : Command) (config : Option String) (draft : Draft) :
    List String → Invocation
  | [] => draft.request which config
  | s :: rest =>
    match Argument.ofString s with
    | .escape =>
      match afterEscape draft rest with
      | some draft => draft.request which config
      | none => .misuse
    | .plain text =>
      match draft.put .file text with
      | some draft => command which config draft rest
      | none => .misuse
    | .short letters =>
      match shortFlags letters with
      | none => command which config draft rest
      | some answer => answer
    | .long "verbose" none => command which config draft rest
    | .long "help" none => .help
    | .long "pretty" none =>
      if which = .compile false then command (.compile true) config draft rest else .misuse
    | .long name (some value) =>
      match (slotOf? name).bind (draft.put · value) with
      | some draft => command which config draft rest
      | none => .misuse
    | .long name none =>
      match rest with
      | [] => .misuse
      | v :: rest =>
        match (slotOf? name).bind fun slot => (plain? v).bind (draft.put slot) with
        | some draft => command which config draft rest
        | none => .misuse

/-- Flags of one letter before the command. -/
def leadingShortFlags : List Char → Option Invocation
  | [] => none
  | 'v' :: rest => leadingShortFlags rest
  | 'V' :: _ => some .version
  | 'h' :: _ => some .help
  | _ => some .misuse

/-- Help is asked for on the program or on one command. -/
def helpOn : List String → Invocation
  | [] => .help
  | [name] => if name ∈ ["compile", "check", "help"] then .help else .misuse
  | _ => .misuse

/-- The arguments from the first one on. -/
def leading (draft : Draft) : List String → Invocation
  | [] => .misuse
  | s :: rest =>
    match Argument.ofString s with
    | .escape => .misuse
    | .plain "compile" => command (.compile false) draft.config .empty rest
    | .plain "check" => command .check draft.config .empty rest
    | .plain "help" => helpOn rest
    | .plain _ => .misuse
    | .short letters =>
      match leadingShortFlags letters with
      | none => leading draft rest
      | some answer => answer
    | .long "verbose" none => leading draft rest
    | .long "version" none => .version
    | .long "help" none => .help
    | .long "config" (some value) =>
      match draft.put .config value with
      | some draft => leading draft rest
      | none => .misuse
    | .long "config" none =>
      match rest with
      | [] => .misuse
      | v :: rest =>
        match (plain? v).bind (draft.put .config) with
        | some draft => leading draft rest
        | none => .misuse
    | .long _ _ => .misuse

/-- Flags for every command stand before or after the command; `--` ends the flags. -/
def Invocation.ofArguments (args : List String) : Invocation := leading .empty args

end Storyline.CommandLine
