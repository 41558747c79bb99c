import Storyline.Text.Blank
import Storyline.Token

namespace Storyline.Dump

/-- What is wrong with a line of a listing. -/
inductive LineMistake where
  | position
  | kind
  | unknownKind
  | quoted
  | malformed
deriving DecidableEq, Repr, Inhabited

def LineMistake.message : LineMistake → String
  | position => "invalid position"
  | kind => "invalid token kind"
  | unknownKind => "invalid token kind\nMatching variant not found"
  | quoted => "expected quoted string"
  | malformed => "malformed token"

/-- A mistake and the part of the line that was still unread there. -/
structure Failure where
  mistake : LineMistake
  rest : List Char
deriving DecidableEq, Repr

abbrev LineReader (α : Type) := List Char → Except Failure (α × List Char)

def fail {α : Type} (mistake : LineMistake) (rest : List Char) : Except Failure α :=
  .error ⟨mistake, rest⟩

def digitsValue (cs : List Char) : Nat :=
  cs.foldl (fun n c => 10 * n + (c.toNat - '0'.toNat)) 0

/-- A number of at most 64 bits without a zero in front. -/
def readNumber : LineReader UInt64 := fun cs =>
  match cs with
  | [] => fail .position cs
  | c :: rest =>
    if c = '0' then .ok (0, rest)
    else if c.isDigit then
      let n := digitsValue (cs.takeWhile Char.isDigit)
      if n < UInt64.size then .ok (n.toUInt64, cs.dropWhile Char.isDigit) else fail .position cs
    else fail .position cs

def readPosition : LineReader Position := fun cs => do
  let (line, cs) ← readNumber cs
  match cs with
  | ':' :: cs =>
    let (col, cs) ← readNumber cs
    return (⟨line, col⟩, cs)
  | cs => fail .position cs

def isSpace (c : Char) : Bool := c = ' ' || c = '\t'

def readSpaces : LineReader Unit := fun cs =>
  if cs.head?.any isSpace then .ok ((), cs.dropWhile isSpace) else fail .malformed cs

def readKind : LineReader Kind := fun cs =>
  match cs.takeWhile Char.isLower with
  | [] => fail .kind cs
  | run =>
    match Kind.ofSpelling? (String.ofList run) with
    | some kind => .ok (kind, cs.dropWhile Char.isLower)
    | none => fail .unknownKind cs

def unescape? (c : Char) : Option Char :=
  if c = 'n' then some '\n'
  else if c = 't' then some '\t'
  else if c = '"' then some '"'
  else if c = '\\' then some '\\'
  else none

/-- The inside of a quoted string and its closing quote. -/
def readInside : LineReader (List Char)
  | [] => fail .quoted []
  | '"' :: cs => .ok ([], cs)
  | ['\\'] => fail .quoted ['\\']
  | '\\' :: c :: cs =>
    match unescape? c with
    | none => fail .quoted ('\\' :: c :: cs)
    | some d => do
      let (inside, rest) ← readInside cs
      return (d :: inside, rest)
  | c :: cs => do
    let (inside, rest) ← readInside cs
    return (c :: inside, rest)

def readQuoted : LineReader String := fun cs =>
  match cs with
  | '"' :: cs => do
    let (inside, rest) ← readInside cs
    return (String.ofList inside, rest)
  | cs => fail .quoted cs

/-- A whole line without the blanks around it. -/
def readLine (cs : List Char) : Except Failure Token := do
  let (pos, cs) ← readPosition cs
  let ((), cs) ← readSpaces cs
  let (kind, cs) ← readKind cs
  let ((), cs) ← readSpaces cs
  let (space, cs) ← readQuoted cs
  let ((), cs) ← readSpaces cs
  let (text, cs) ← readQuoted cs
  match cs with
  | [] => return ⟨kind, space, text, pos⟩
  | cs => fail .malformed cs

/-- Where and why a listing cannot be read; both numbers count from one, columns in bytes. -/
structure Error where
  line : Nat
  col : Nat
  mistake : LineMistake
deriving DecidableEq, Repr

def Error.message (e : Error) : String :=
  "line " ++ toString e.line ++ ", col " ++ toString e.col ++ ": " ++ e.mistake.message

/-- The column in an untrimmed line of a place in the trimmed one. -/
def column (line rest : List Char) : Nat :=
  Text.bytes (Text.margin line) + (Text.bytes (Text.trim line) - Text.bytes rest) + 1

/-- The line stands for no token. -/
def isSkipped (trimmed : List Char) : Bool :=
  match trimmed with
  | [] => true
  | c :: _ => c = '#'

/-- The tokens of lines, the first of which is line `n`. -/
def readLines (n : Nat) : List (List Char) → Except Error (List Token)
  | [] => .ok []
  | line :: rest =>
    if isSkipped (Text.trim line) then readLines (n + 1) rest
    else
      match readLine (Text.trim line) with
      | .error failure => .error ⟨n, column line failure.rest, failure.mistake⟩
      | .ok t => do
        let ts ← readLines (n + 1) rest
        return t :: ts

/-- Blank lines and lines that start with `#` are passed over; each other line is a position, a kind
and two quoted strings with blanks between them. -/
def read (text : String) : Except Error (List Token) :=
  readLines 1 (Text.split '\n' text.toList)

end Storyline.Dump
