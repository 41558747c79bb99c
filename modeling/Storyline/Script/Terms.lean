import Storyline.Script.Assignment

namespace Storyline.Script

/-- Taking something away needs it to be there. -/
def changeTerms (op : BinaryOp) (target : Expr) (n : Float) : Terms where
  guards := if op = .sub then [.binary .ge target (.number n)] else []
  consequences := [⟨target, .binary op target (.number n)⟩]
  keywords := []

def putTerms (target : Expr) (value : Float) : Terms :=
  ⟨[], [⟨target, .number value⟩], []⟩

/-- The closing brace after a term, or the end of a malformed one. -/
def closeTerm (found : Option Terms) (ts : List Token) : Read Terms ts :=
  match found with
  | some terms => (expect "\x7d" ts).map fun _ => terms
  | none => (skipBrace ts).map fun _ => .none

/-- A guard may end in a question mark. -/
def guardTerm (ts : List Token) : Read Terms ts :=
  (expression ts).andThen fun guard us _ =>
    match us with
    | [] => none
    | u :: vs =>
      if u.isOp "?" then Read.past <| closeTerm (some ⟨[guard], [], []⟩) vs
      else closeTerm (some ⟨[guard], [], []⟩) (u :: vs)

/-- A term after its opening brace. -/
def braceTerm (ts : List Token) : Read Terms ts :=
  match ts with
  | [] => none
  | t :: us =>
    match braceForm t with
    | .change op =>
      Read.past <| (mutation us).andThen fun found vs _ =>
        closeTerm (found.map fun (target, n) => changeTerms op target n) vs
    | .put value =>
      Read.past <| (assignable us).andThen fun found vs _ =>
        closeTerm (found.map fun target => putTerms target value) vs
    | .other => guardTerm (t :: us)

/-- A keyword after its opening bracket. -/
def keywordTerm (ts : List Token) : Read Terms ts :=
  (words ">" "" ts).andThen fun keyword us _ =>
    if keyword = "" then .miss ⟨here us, .emptyKeyword⟩ .none us
    else .stay ⟨[], [], [keyword]⟩ us

/-- All terms that stand here. -/
def terms (ts : List Token) : Read Terms ts :=
  match ts with
  | [] => none
  | t :: us =>
    if t.is "<" then
      Read.past <| (keywordTerm us).andThen fun first vs _h => (terms vs).map (first ++ ·)
    else if t.is "\x7b" then
      Read.past <| (braceTerm us).andThen fun first vs _h => (terms vs).map (first ++ ·)
    else .stay .none (t :: us)
termination_by ts.length
decreasing_by all_goals grind

end Storyline.Script
