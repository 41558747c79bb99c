import Storyline.Script.Expression

namespace Storyline.Script

/-- The rest of a name: words, numbers and dots that adjoin it. -/
def nameTail (ts : List Token) : Read String ts :=
  match ts with
  | [] => none
  | t :: us =>
    if joins t then Read.past <| (nameTail us).map (t.text ++ ·) else .stay "" (t :: us)

/-- A dotted name, if one stands here. -/
def name (ts : List Token) : Read (Option String) ts :=
  match ts with
  | [] => none
  | t :: us =>
    if t.kind = .word then Read.past <| (nameTail us).map fun tail => some (t.text ++ tail)
    else .stay none (t :: us)

/-- A name, or nothing and the mistake that it is missing. -/
def wantedName (wanted : Wanted) (ts : List Token) : Read (Option String) ts :=
  match ts with
  | [] => none
  | t :: us =>
    if t.kind = .word then name (t :: us) else .miss ⟨t.pos, .missing wanted t⟩ none (t :: us)

/-- Parameters up to the first that is no name. -/
def params (ts : List Token) : Read (List String) ts :=
  (wantedName .parameterName ts).andThen fun first us _h =>
    match first with
    | none => .stay [] us
    | some param =>
      match us with
      | [] => none
      | u :: vs =>
        if u.is "," then Read.past <| (params vs).map (param :: ·) else .stay [param] (u :: vs)
termination_by ts.length
decreasing_by all_goals grind

/-- Parameters after their opening parenthesis. -/
def paramList (ts : List Token) : Read (List String) ts :=
  match ts with
  | [] => none
  | t :: us =>
    if t.is ")" then Read.past <| .stay [] us
    else (params (t :: us)).andThen fun ps vs _ => (expect ")" vs).map fun _ => ps

/-- The texts of all tokens up to a delimiter, with the space between them, after those in
`before`. The end of a line or block ends them too, and is a mistake. -/
def words (delimiter before : String) (ts : List Token) : Read String ts :=
  match ts with
  | [] => none
  | t :: us =>
    if t.is delimiter then Read.past <| .stay before us
    else if t.kind = .stop ∨ t.kind = .start ∨ t.kind = .blank then
      .miss ⟨t.pos, .unclosed delimiter t⟩ before (t :: us)
    else
      let space := if before = "" then "" else t.space
      Read.past <| words delimiter (before ++ space ++ t.text) us

/-- Drops what is left of a malformed brace. -/
def skipBrace (ts : List Token) : Read Unit ts :=
  match ts with
  | [] => none
  | t :: us =>
    if t.is "\x7d" then Read.past <| .stay () us
    else if t.kind = .stop ∨ t.kind = .start then .stay () (t :: us)
    else Read.past <| skipBrace us

end Storyline.Script
