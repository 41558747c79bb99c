import Storyline.Toml.Reading

namespace Storyline.Settings

/-- A whole number of 64 bits in decimal digits. -/
def isPosition (cs : List Char) : Bool :=
  let (negative, digits) := Toml.signed cs
  let limit := if negative then 9223372036854775808 else 9223372036854775807
  digits ≠ [] && digits.all Char.isDigit && Toml.valueIn 10 digits ≤ limit

/-- A position in a list, after its opening bracket. -/
def position (cs : List Char) : Scan Unit cs :=
  Scan.andThen (some (Toml.blanks cs)) fun _ us _ =>
    Scan.andThen (some (Toml.run (fun c => c.isDigit || c = '-') us)) fun digits vs _ =>
      Scan.andThen (some (Toml.blanks vs)) fun _ ws _ =>
        match ws with
        | ']' :: xs => if isPosition digits then Scan.past <| .stay () xs else none
        | _ => none

/-- The rest of a step into a value: a name after a dot, or a position in brackets. -/
def step (first : Char) (cs : List Char) : Scan Unit cs :=
  if first = '.' then
    Scan.andThen (some (Toml.run Toml.isBare cs)) fun name us _ =>
      if name = [] then none else .stay () us
  else if first = '[' then position cs
  else none

/-- Nothing but steps into a value. -/
def isSteps (cs : List Char) : Bool :=
  match cs with
  | [] => true
  | c :: rest =>
    match step c rest with
    | none => false
    | some s => isSteps s.rest
termination_by cs.length
decreasing_by exact Nat.lt_succ_of_le s.length_rest_le

/-- Whether a key leads into a setting. -/
def leadsInto (setting key : List Char) : Bool :=
  key.take setting.length == setting && key.length ≠ setting.length &&
    isSteps (key.drop setting.length)

end Storyline.Settings
