import Storyline.Script.Name

namespace Storyline.Script

/-- The variable that starts with `t`. -/
def assignedTo (t : Token) (ts : List Token) : Read (Option Expr) ts :=
  (reference t ts).andThen fun target us _ =>
    if target.isVariable then .stay (some target) us
    else .miss ⟨here us, .notAssignable target⟩ none us

/-- A variable, or nothing and the mistake that none stands here. -/
def assignable (ts : List Token) : Read (Option Expr) ts :=
  match ts with
  | [] => none
  | t :: us =>
    if startsReference t then Read.past <| assignedTo t us
    else .miss ⟨t.pos, .missing .variableName t⟩ none (t :: us)

/-- An amount, which is one if none stands here. -/
def amount (ts : List Token) : Read Float ts :=
  match ts with
  | [] => none
  | t :: us =>
    if t.kind = .number then Read.past <| number t.text 1 us else .stay 1 (t :: us)

/-- What the first token in a brace makes of it. -/
inductive BraceForm where
  | change (op : BinaryOp)
  | put (value : Float)
  | other
deriving Repr, Inhabited

def braceForm (t : Token) : BraceForm :=
  if t.isOp "+" then .change .add
  else if t.isOp "-" then .change .sub
  else if t.isOp "!" then .put 1
  else if t.isOp "?" then .put 0
  else .other

/-- An amount and the variable it changes. -/
def mutation (ts : List Token) : Read (Option (Expr × Float)) ts :=
  (amount ts).andThen fun n us _ => (assignable us).map fun target => target.map (·, n)

/-- The operator folded into an assignment, and `none` for a plain one. -/
def assignmentOp? (t : Token) : Option (Option BinaryOp) :=
  if t.isOp "=" then some none
  else if t.isOp "+=" then some (some .add)
  else if t.isOp "-=" then some (some .sub)
  else if t.isOp "*=" then some (some .mul)
  else if t.isOp "/=" then some (some .div)
  else if t.isOp "%=" then some (some .mod)
  else none

def assign (target : Expr) (op : Option BinaryOp) (value : Expr) : Content :=
  match op with
  | some op => .move target (.binary op target value)
  | none => .move target value

/-- The assignments of a program block. A token that starts no variable is passed over, and so is
the one after something that cannot be assigned to. -/
def program (ts : List Token) : Span (List Item) ts :=
  match ts with
  | [] => .finish [.cut] []
  | t :: us =>
    if t.kind = .stop ∨ t.kind = .start then .stay [] (t :: us)
    else if t.is "," ∨ t.kind = .blank then (program us).past
    else if startsReference t then
      Span.past <| (assignedTo t us).items fun target vs _h =>
        match vs with
        | [] => .finish [.cut] []
        | v :: ws =>
          match target with
          | none => Span.past <| .after [.passed ws.length] (program ws)
          | some target =>
            match assignmentOp? v with
            | none =>
              .after [.report ⟨v.pos, .missing .assignment v⟩] (program (v :: ws))
            | some op =>
              Span.past <| (expression ws).items fun value xs _h' =>
                .after [.content t.pos (assign target op value)] (program xs)
    else
      Span.past <| .after [.report ⟨t.pos, .missing .variableName t⟩] (program us)
termination_by ts.length
decreasing_by all_goals grind

end Storyline.Script
