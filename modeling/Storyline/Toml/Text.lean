import Storyline.Span

namespace Storyline.Toml

/-- A control character other than tab, which no string and no comment may hold. -/
def isControl (c : Char) : Bool := (c.toNat < 32 && c ≠ '\t') || c.toNat = 127

def isBlank (c : Char) : Bool := c = ' ' || c = '\t'

/-- The blanks in front of a text. -/
def blanks (cs : List Char) : Span Unit cs :=
  match cs with
  | [] => .stay () []
  | c :: rest => if isBlank c then (blanks rest).past else .stay () (c :: rest)

/-- A line break, if one stands here. -/
def newline? (cs : List Char) : Scan Unit cs :=
  match cs with
  | '\n' :: rest => Scan.past <| .stay () rest
  | '\r' :: '\n' :: rest => Scan.past <| Scan.past <| .stay () rest
  | _ => none

/-- The rest of a comment, up to the line break. -/
def commentTail (cs : List Char) : Scan Unit cs :=
  match cs with
  | [] => .stay () []
  | '\n' :: rest => .stay () ('\n' :: rest)
  | '\r' :: '\n' :: rest => .stay () ('\r' :: '\n' :: rest)
  | c :: rest => if isControl c then none else (commentTail rest).past

/-- Blanks and a comment, which may both be missing. -/
def lineTail (cs : List Char) : Scan Unit cs :=
  Scan.andThen (some (blanks cs)) fun _ us _ =>
    match us with
    | '#' :: vs => (commentTail vs).past
    | us => .stay () us

/-- The end of a line or of the text. -/
def lineEnd (cs : List Char) : Scan Unit cs :=
  (lineTail cs).andThen fun _ us _ =>
    match us with
    | [] => .stay () []
    | us => newline? us

/-- Blanks, comments and line breaks. -/
def spacing (cs : List Char) : Scan Unit cs :=
  (lineTail cs).andThen fun _ us _h =>
    match us with
    | [] => .stay () []
    | c :: vs =>
      if c = '\n' then (spacing vs).past
      else if c = '\r' then
        match vs with
        | [] => .stay () [c]
        | d :: ws => if d = '\n' then (spacing ws).past.past else .stay () (c :: d :: ws)
      else .stay () (c :: vs)
termination_by cs.length
decreasing_by all_goals grind

def hexValue? (c : Char) : Option Nat :=
  if c.isDigit then some (c.toNat - '0'.toNat)
  else if 'a' ≤ c ∧ c ≤ 'f' then some (c.toNat - 'a'.toNat + 10)
  else if 'A' ≤ c ∧ c ≤ 'F' then some (c.toNat - 'A'.toNat + 10)
  else none

/-- The number of some hexadecimal digits after those already read. -/
def hexNumber? (value : Nat) : List Char → Option Nat
  | [] => some value
  | c :: rest =>
    match hexValue? c with
    | some d => hexNumber? (16 * value + d) rest
    | none => none

/-- The character with a code, if there is one. -/
def scalar? (digits : List Char) : Option Char :=
  match hexNumber? 0 digits with
  | some n => if h : n.isValidChar then some (Char.ofNatAux n h) else none
  | none => none

/-- The character with a code, and the text after it. -/
def scalarBefore (digits rest : List Char) : Scan Char rest :=
  match scalar? digits with
  | some c => .stay c rest
  | none => none

/-- The character of an escape, after its backslash. -/
def escape (cs : List Char) : Scan Char cs :=
  match cs with
  | 'b' :: rest => Scan.past <| .stay '\x08' rest
  | 't' :: rest => Scan.past <| .stay '\t' rest
  | 'n' :: rest => Scan.past <| .stay '\n' rest
  | 'f' :: rest => Scan.past <| .stay '\x0c' rest
  | 'r' :: rest => Scan.past <| .stay '\r' rest
  | 'e' :: rest => Scan.past <| .stay '\x1b' rest
  | '"' :: rest => Scan.past <| .stay '"' rest
  | '\\' :: rest => Scan.past <| .stay '\\' rest
  | 'x' :: a :: b :: rest => (scalarBefore [a, b] rest).past.past.past
  | 'u' :: a :: b :: c :: d :: rest =>
    (scalarBefore [a, b, c, d] rest).past.past.past.past.past
  | 'U' :: a :: b :: c :: d :: e :: f :: g :: h :: rest =>
    (scalarBefore [a, b, c, d, e, f, g, h] rest).past.past.past.past.past.past.past.past.past
  | _ => none

/-- The inside of a string in double quotes, and its closing quote. -/
def basicTail (cs : List Char) : Scan (List Char) cs :=
  match cs with
  | [] => none
  | '"' :: rest => Scan.past <| .stay [] rest
  | '\\' :: rest =>
    Scan.past <| (escape rest).andThen fun c us _h => (basicTail us).map (c :: ·)
  | c :: rest => if isControl c then none else (basicTail rest).past.map (c :: ·)
termination_by cs.length

/-- The inside of a string in single quotes, and its closing quote. -/
def literalTail (cs : List Char) : Scan (List Char) cs :=
  match cs with
  | [] => none
  | '\'' :: rest => Scan.past <| .stay [] rest
  | c :: rest => if isControl c then none else (literalTail rest).past.map (c :: ·)

/-- Blanks and line breaks after a backslash at the end of a line. -/
def joinedLines (cs : List Char) : Span Unit cs :=
  match cs with
  | ' ' :: rest => (joinedLines rest).past
  | '\t' :: rest => (joinedLines rest).past
  | '\n' :: rest => (joinedLines rest).past
  | '\r' :: '\n' :: rest => (joinedLines rest).past.past
  | cs => .stay () cs

/-- Nothing but blanks stands on the rest of the line. -/
def endsLine (cs : List Char) : Bool := (newline? (blanks cs).rest).isSome

/-- The inside of a string in triple quotes, and those that close it. Up to two more quotes may
stand right before them. Line breaks are kept as they are, and a string in double quotes has
escapes. -/
def multilineTail (quote : Char) (cs : List Char) : Scan (List Char) cs :=
  match cs with
  | [] => none
  | a :: rest =>
    if a = quote then
      let run := ((a :: rest).takeWhile (· == quote)).length
      if run < 3 then (multilineTail quote rest).past.map (a :: ·)
      else if run < 6 then
        some (.skip run (List.replicate (run - 3) quote) (a :: rest))
      else none
    else if a = '\\' ∧ quote = '"' then
      if endsLine rest then
        Scan.past <| Scan.andThen (some (joinedLines rest)) fun _ us _h => multilineTail quote us
      else
        Scan.past <| (escape rest).andThen fun c us _h => (multilineTail quote us).map (c :: ·)
    else if isControl a ∧ a ≠ '\n' ∧ ¬(a = '\r' ∧ rest.head? = some '\n') then none
    else (multilineTail quote rest).past.map (a :: ·)
termination_by cs.length
decreasing_by all_goals grind

/-- A line break right after the opening quotes is no part of the string. -/
def multiline (quote : Char) (cs : List Char) : Scan (List Char) cs :=
  match cs with
  | '\n' :: rest => (multilineTail quote rest).past
  | '\r' :: '\n' :: rest => (multilineTail quote rest).past.past
  | cs => multilineTail quote cs

end Storyline.Toml
