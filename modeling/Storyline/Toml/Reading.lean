import Storyline.Toml.Document
import Storyline.Toml.Text
import Storyline.Toml.Word

namespace Storyline.Toml

def isBare (c : Char) : Bool :=
  c.isAlphanum || c = '_' || c = '-'

/-- A character of a word. -/
def isWord (c : Char) : Bool := isBare c || c = '+' || c = '.' || c = ':'

/-- The first characters that pass a test. -/
def run (test : Char → Bool) (cs : List Char) : Span (List Char) cs :=
  ⟨cs.takeWhile test, cs.dropWhile test, List.dropWhile_suffix test⟩

/-- One part of a key. -/
def keyPart (cs : List Char) : Scan String cs :=
  match cs with
  | '"' :: rest => (basicTail rest).past.map String.ofList
  | '\'' :: rest => (literalTail rest).past.map String.ofList
  | c :: rest => if isBare c then some ((run isBare (c :: rest)).map String.ofList) else none
  | [] => none

/-- The parts of a key and the blanks after it. -/
def keyParts (cs : List Char) : Scan Key cs :=
  (keyPart cs).andThen fun part us _h =>
    Scan.andThen (some (blanks us)) fun _ vs _h' =>
      match vs with
      | [] => .stay [part] []
      | v :: ws =>
        if v = '.' then
          Scan.past <| Scan.andThen (some (blanks ws)) fun _ xs _h'' =>
            (keyParts xs).map (part :: ·)
        else .stay [part] (v :: ws)
termination_by cs.length
decreasing_by all_goals grind

/-- How many parts a key may have, and how deep arrays and tables in braces may lie in each
other. -/
def depth : Nat := 80

def key (cs : List Char) : Scan Key cs :=
  (keyParts cs).andThen fun parts us _ => if parts.length ≤ depth then .stay parts us else none

/-- The value of a word that was read, if it has one. -/
def scalar (text rest : List Char) : Scan Value rest :=
  match word? text with
  | some v => .stay v rest
  | none => none

/-- A date and, after a blank, a time, or a value of one word. -/
def word (cs : List Char) : Scan Value cs :=
  Scan.andThen (some (run isWord cs)) fun first us _ =>
    match us with
    | ' ' :: c :: vs =>
      if (date? first).any (·.2 = []) && c.isDigit then
        Scan.past <| Scan.andThen (some (run isWord (c :: vs))) fun second ws _ =>
          scalar (first ++ ' ' :: second) ws
      else scalar first (' ' :: c :: vs)
    | us => scalar first us

mutual

/-- A value, which may hold arrays and tables lying in each other `room` deep. -/
def value (room : Nat) (cs : List Char) : Scan Value cs :=
  match cs with
  | '"' :: '"' :: '"' :: rest =>
    Scan.past <| Scan.past <| Scan.past <|
      (multiline '"' rest).map fun s => .string (String.ofList s)
  | '\'' :: '\'' :: '\'' :: rest =>
    Scan.past <| Scan.past <| Scan.past <|
      (multiline '\'' rest).map fun s => .string (String.ofList s)
  | '"' :: rest => (basicTail rest).past.map fun s => .string (String.ofList s)
  | '\'' :: rest => (literalTail rest).past.map fun s => .string (String.ofList s)
  | '[' :: rest => if room = 0 then none else (items (room - 1) rest).past.map .array
  | '\x7b' :: rest => if room = 0 then none else (table (room - 1) rest).past.map .table
  | cs => word cs
termination_by 5 * cs.length + 1
decreasing_by all_goals grind

/-- The items of an array after its opening bracket or a comma. -/
def items (room : Nat) (cs : List Char) : Scan (List Value) cs :=
  (spacing cs).andThen fun _ us _h =>
    match us with
    | [] => none
    | u :: vs =>
      if u = ']' then Scan.past <| .stay [] vs
      else
        (value room (u :: vs)).andThen fun item ws _h' =>
          (spacing ws).andThen fun _ xs _h'' =>
            match xs with
            | [] => none
            | x :: ys =>
              if x = ',' then Scan.past <| (items room ys).map (item :: ·)
              else if x = ']' then Scan.past <| .stay [item] ys
              else none
termination_by 5 * cs.length + 2
decreasing_by all_goals grind

/-- A table in braces, after its opening brace. -/
def table (room : Nat) (cs : List Char) : Scan (List (Key × Value)) cs :=
  (members room cs).andThen fun found us _ =>
    if (defineAll found).isSome then .stay found us else none
termination_by 5 * cs.length + 4
decreasing_by all_goals grind

/-- The members of a table after its opening brace or a comma. -/
def members (room : Nat) (cs : List Char) : Scan (List (Key × Value)) cs :=
  (spacing cs).andThen fun _ us _h =>
    match us with
    | [] => none
    | u :: vs =>
      if u = '\x7d' then Scan.past <| .stay [] vs
      else
        (member room (u :: vs)).andThen fun m ws _h' =>
          (spacing ws).andThen fun _ xs _h'' =>
            match xs with
            | [] => none
            | x :: ys =>
              if x = ',' then Scan.past <| (members room ys).map (m :: ·)
              else if x = '\x7d' then Scan.past <| .stay [m] ys
              else none
termination_by 5 * cs.length + 3
decreasing_by all_goals grind

/-- A key and its value in braces, where line breaks may stand between them. -/
def member (room : Nat) (cs : List Char) : Scan (Key × Value) cs :=
  (key cs).andThen fun k us _h =>
    (spacing us).andThen fun _ vs _h' =>
      match vs with
      | [] => none
      | v :: ws =>
        if v = '=' then
          Scan.past <| (spacing ws).andThen fun _ xs _h'' => (value room xs).map fun v => (k, v)
        else none
termination_by 5 * cs.length + 2
decreasing_by all_goals grind

end

/-- A key and its value on a line of their own. -/
def entry (cs : List Char) : Scan (Key × Value) cs :=
  (key cs).andThen fun k us _ =>
    match us with
    | '=' :: vs =>
      Scan.past <| Scan.andThen (some (blanks vs)) fun _ ws _ =>
        (value depth ws).map fun v => (k, v)
    | _ => none

/-- The key of a table heading, after its opening bracket. -/
def heading (cs : List Char) : Scan Key cs :=
  Scan.andThen (some (blanks cs)) fun _ us _ =>
    (key us).andThen fun k vs _ =>
      match vs with
      | ']' :: ws => Scan.past <| .stay k ws
      | _ => none

/-- The statement at the start of a line, if the line has one. -/
def statement (cs : List Char) : Scan (Option Statement) cs :=
  match cs with
  | '[' :: '[' :: rest =>
    Scan.past <| Scan.past <| (heading rest).andThen fun k us _ =>
      match us with
      | ']' :: vs => Scan.past <| .stay (some (.element k)) vs
      | _ => none
  | '[' :: rest => (heading rest).past.map fun k => some (.heading k)
  | [] => .stay none []
  | c :: rest =>
    if c = '#' ∨ c = '\n' ∨ c = '\r' then .stay none (c :: rest)
    else (entry (c :: rest)).map fun (k, v) => some (.entry k v)

/-- All statements in order; `fuel` bounds the number of lines. -/
def statements : Nat → List Char → Option (List Statement)
  | 0, _ => some []
  | fuel + 1, cs => do
    let first ← Scan.andThen (some (blanks cs)) fun _ us _ =>
      (statement us).andThen fun s vs _ => (lineEnd vs).map fun _ => s
    let rest ← if first.rest = [] then some [] else statements fuel first.rest
    return first.value.toList ++ rest

/-- A text without the mark of its byte order. -/
def unmarked (text : String) : String :=
  match text.toList with
  | '\ufeff' :: rest => String.ofList rest
  | _ => text

def read (text : String) : Option Document := do
  let cs := (unmarked text).toList
  let found ← statements (cs.length + 1) cs
  Document.ofStatements found

end Storyline.Toml
