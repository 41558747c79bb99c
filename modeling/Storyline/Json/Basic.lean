import Storyline.Decimal.Text

namespace Storyline

/-- The order of an object's fields is kept. -/
inductive Json where
  | null
  | bool (b : Bool)
  /-- A whole number, written in full. -/
  | count (n : Nat)
  | number (x : Float)
  | string (s : String)
  | array (items : List Json)
  | object (fields : List (String × Json))
deriving Inhabited

namespace Json

/-- A character inside quotes: quotes, backslashes and control characters are escaped. -/
def escape (c : Char) : String :=
  if c = '"' then "\\\""
  else if c = '\\' then "\\\\"
  else if c = '\n' then "\\n"
  else if c = '\r' then "\\r"
  else if c = '\t' then "\\t"
  else if c.toNat = 8 then "\\b"
  else if c.toNat = 12 then "\\f"
  else if c.toNat < 32 then
    "\\u00" ++ String.ofList [Nat.digitChar (c.toNat / 16), Nat.digitChar (c.toNat % 16)]
  else c.toString

def quote (s : String) : String := "\"" ++ String.join (s.toList.map escape) ++ "\""

/-- A value without parts. -/
def scalar : Json → String
  | bool true => "true"
  | bool false => "false"
  | count n => toString n
  | number x => Decimal.Layout.json.write x
  | string s => quote s
  | _ => "null"

mutual

/-- The whole value on one line, without spaces. -/
def compact : Json → String
  | array items => "[" ++ ",".intercalate (compactItems items) ++ "]"
  | object fields => "\x7b" ++ ",".intercalate (compactFields fields) ++ "\x7d"
  | v => v.scalar

def compactItems : List Json → List String
  | [] => []
  | v :: vs => v.compact :: compactItems vs

def compactFields : List (String × Json) → List String
  | [] => []
  | (key, v) :: rest => (quote key ++ ":" ++ v.compact) :: compactFields rest

end

/-- Lines between brackets, indented one step more than the brackets. -/
def enclosed (opening closing : String) (depth : Nat) : List String → String
  | [] => opening ++ closing
  | lines =>
    let margin := "\n" ++ "".pushn ' ' (2 * depth)
    opening ++ margin ++ "  " ++ ("," ++ margin ++ "  ").intercalate lines ++ margin ++ closing

mutual

/-- One item or field a line, indented by two spaces for every open bracket. -/
def pretty (depth : Nat) : Json → String
  | array items => enclosed "[" "]" depth (prettyItems (depth + 1) items)
  | object fields => enclosed "\x7b" "\x7d" depth (prettyFields (depth + 1) fields)
  | v => v.scalar

def prettyItems (depth : Nat) : List Json → List String
  | [] => []
  | v :: vs => v.pretty depth :: prettyItems depth vs

def prettyFields (depth : Nat) : List (String × Json) → List String
  | [] => []
  | (key, v) :: rest => (quote key ++ ": " ++ v.pretty depth) :: prettyFields depth rest

end

end Json

end Storyline
