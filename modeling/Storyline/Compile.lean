import Storyline.Script.Linking
import Storyline.Script.Thread

namespace Storyline

inductive CompileError where
  | build (e : BuildError)
  /-- The tokens end, after the last of them at this position, without a final stop. -/
  | missingStop (last : Position)
  | tokenAfterStop (t : Token)
  /-- So many links of the story have no target, the first of them here. -/
  | dangling (name : String) (outlet : Outlet) (count : Nat)
deriving Repr, Inhabited

namespace CompileError

def place (pos : Position) : String :=
  "line " ++ toString pos.line.toNat ++ ", col " ++ toString pos.col.toNat ++ ": "

def message : CompileError → String
  | build e => e.message
  | missingStop last => place last ++ "token stream ended without a final stop"
  | tokenAfterStop t => place t.pos ++ t.describe ++ " after the final stop"
  | dangling name outlet count =>
    toString count ++ " unresolved link(s), first " ++ outlet.text ++ " of " ++ name

end CompileError

def defaultStart : String := "start"

/-- The position of the last token. -/
def lastPosition (tokens : List Token) : Position :=
  match tokens.getLast? with
  | some t => t.pos
  | none => default

namespace Build

/-- The nodes of a script, from the entry node of the start label on. -/
def whole (start : String) (pos : Position) (items : Script) : Build Front := do
  let entry ← createPlaceholder (.root start) pos
  thread items (entering (.root start) (nextEnd entry))

/-- Ends the story where the script ends. -/
def close (front : Front) : Build Unit := do
  tie .ret front.ends.rets
  tie .esc front.ends.escs
  check

end Build

/-- A story is complete once each of its links has a target. -/
def complete (story : Story) : Except CompileError Story :=
  match story.dangling with
  | [] => .ok story
  | (name, outlet) :: rest => .error (.dangling name outlet (rest.length + 1))

/-- A script has one final stop and nothing after it; every other mistake in it is recorded in the
story. -/
def compile (start : String) (tokens : List Token) : Except CompileError Story :=
  let read := Script.script tokens
  match Build.whole start (here tokens) read.value (.empty start) with
  | .error .unfinished _ => .error (.missingStop (lastPosition tokens))
  | .error e _ => .error (.build e)
  | .ok front story =>
    match read.rest with
    | t :: _ => .error (.tokenAfterStop t)
    | [] =>
      match Build.close front story with
      | .error e _ => .error (.build e)
      | .ok () story => complete story

end Storyline
