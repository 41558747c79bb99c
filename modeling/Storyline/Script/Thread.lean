import Storyline.Script.Flat

namespace Storyline.Script

/-- The case chosen by the sign that opens a brace. -/
def sigil? (t : Token) : Option Selection :=
  if t.isOp "|" then some .walk
  else if t.isOp "&" then some .loop
  else if t.isOp "~" then some .rand
  else none

/-- The weight of a case in parentheses, where cases can have one, and the mistakes in it. -/
def weight (weighted : Bool) (ts : List Token) : Span (Option Expr × List Item) ts :=
  match ts with
  | [] => .stay (none, []) []
  | t :: us =>
    if weighted && t.is "(" then
      Span.past <| Read.lead none <| (expression us).andThen fun e vs _ =>
        (expect ")" vs).map fun _ => some e
    else .stay (none, []) (t :: us)

/-- A value always has a case to go by when it is zero and one when it is not. -/
def padded : List Case → List Case
  | [] => [.mk none [], .mk none []]
  | [one] => [one, .mk none []]
  | cases => cases

def Selection.padded : Selection → List Case → List Case
  | .index _, cases => Script.padded cases
  | _, cases => cases

/-- The brackets of an option's body and what they set apart. -/
structure Form where
  opening : String
  closing : String
  outer : Role
  inner : Role
deriving Repr

/-- `answer [question] answer`. -/
def forward : Form := ⟨"[", "]", .answer, .question⟩

/-- `question ] answer [ question`. -/
def reversed : Form := ⟨"]", "[", .question, .answer⟩

/-- What a part between brackets belongs to, by the token after it. -/
def Form.role (form : Form) (nested first : Bool) (after : Token) : Role :=
  if nested then form.inner
  else if first then if after.is form.opening then form.outer else form.inner
  else .both

/-- The part of an option after its last bracket. -/
def Form.last {ts : List Token} (form : Form) (lead : List Item) (s : Span (List Item) ts) :
    Span (List Segment) ts :=
  s.map fun body => [.mk (here ts) form.outer (lead ++ body)]

def closeBrace (ts : List Token) : Span (List Item) ts :=
  (expect "\x7d" ts).items fun _ us _ => .stay [] us

mutual

/-- The items up to a token that belongs to the construct around them. -/
def thread (ts : List Token) : Span (List Item) ts :=
  match ts with
  | [] => .finish [.cut] []
  | t :: us =>
    match t.sign with
    | .close => .stay [] (t :: us)
    | .blank => (thread us).past
    | .error => Span.past <| .after [.report ⟨t.pos, .scanner t.text⟩] (thread us)
    | .content c => Span.past <| .after [.content t.pos c] (thread us)
    | .leave => Span.past <| .after [.leave] (thread us)
    | .text => Span.past <| (textRun t us).andThen fun vs _h => thread vs
    | .cue => Span.past <| (cue t.pos us).andThen fun vs _h => thread vs
    | .goto => Span.past <| (destination t.pos us).andThen fun vs _h => thread vs
    | .start => Span.past <| (block t us).andThen fun vs _h => thread vs
    | .brace => Span.past <| (brace t.pos us).andThen fun vs _h => thread vs
    | .label => Span.past <| (label t.pos us).andThen fun vs _h => thread vs
termination_by 7 * ts.length
decreasing_by all_goals grind

/-- An indented block after its bullet. -/
def block (t : Token) (ts : List Token) : Span (List Item) ts :=
  let inside : Span (List Item) ts :=
    match t.text with
    | "+" => option t.pos .repeated ts
    | "*" => option t.pos .once ts
    | "-" => thread ts
    | ">" => .after [.ask t.pos] (thread ts)
    | "!" => program ts
    | bullet => .after [.report ⟨here ts, .unknownBlock bullet⟩] (thread ts)
  inside.andThen fun us _ => endBlock us
termination_by 7 * ts.length + 6
decreasing_by all_goals grind

/-- What follows the opening of a brace. -/
def brace (pos : Position) (ts : List Token) : Span (List Item) ts :=
  match ts with
  | [] => .finish [.cut] []
  | t :: us =>
    match braceForm t with
    | .change op => (change pos op us).past
    | .put value => (put pos value us).past
    | .other =>
      if t.isOp "$" then (echo pos us).past
      else
        match sigil? t with
        | some selection => (switch pos selection us).past
        | none =>
          (selector (t :: us)).items fun e vs _h =>
            match vs with
            | [] => .finish [.cut] []
            | v :: ws =>
              if v.is "\x7d" then Span.past <| .stay [.content pos (.echo e)] ws
              else if v.isOp "?" then (jump pos e ws).past
              else if v.is "|" then (switch pos (.index e) ws).past
              else if v.isOp "~" then (switch pos (.pick e) ws).past
              else .stay [.report ⟨v.pos, .unclosed "\x7d" v⟩, .content pos (.echo e)] (v :: ws)
termination_by 7 * ts.length + 5
decreasing_by all_goals grind

/-- The two sides of a condition. -/
def jump (pos : Position) (condition : Expr) (ts : List Token) : Span (List Item) ts :=
  (thread ts).bind fun yes us _h =>
    match us with
    | [] => .finish [.jump pos condition yes []] []
    | u :: vs =>
      if u.is "|" then
        Span.past <| (thread vs).bind fun no ws _ =>
          .after [.jump pos condition yes no] (closeBrace ws)
      else .after [.jump pos condition yes []] (closeBrace (u :: vs))
termination_by 7 * ts.length + 3
decreasing_by all_goals grind

def switch (pos : Position) (selection : Selection) (ts : List Token) : Span (List Item) ts :=
  (cases selection.isWeighted ts).bind fun found us _ =>
    .after [.switch pos selection (Selection.padded selection found)] (closeBrace us)
termination_by 7 * ts.length + 3
decreasing_by all_goals grind

/-- The cases of a switch, with bars between them. -/
def cases (weighted : Bool) (ts : List Token) : Span (List Case) ts :=
  (weight weighted ts).bind fun (w, lead) us _h =>
    (thread us).bind fun body vs _h' =>
      match vs with
      | [] => .finish [.mk w (lead ++ body)] []
      | v :: ws =>
        if v.is "|" then Span.past <| (cases weighted ws).map (.mk w (lead ++ body) :: ·)
        else .stay [.mk w (lead ++ body)] (v :: ws)
termination_by 7 * ts.length + 2
decreasing_by all_goals grind

/-- A label, a loop or a subroutine after its sign. -/
def label (pos : Position) (ts : List Token) : Span (List Item) ts :=
  match ts with
  | [] => .finish [.cut] []
  | t :: us =>
    if t.is "..." then Span.past <| (thread us).map fun body => [.loop pos body]
    else
      (wantedName .labelName (t :: us)).items fun found vs _h =>
        match found with
        | none => .stay [] vs
        | some name =>
          match vs with
          | [] => .finish [.cut] []
          | v :: ws =>
            if opensArguments v then
              Span.past <| (paramList ws).items fun params xs _h' =>
                (thread xs).map fun body => [.define pos name params (here xs) body]
            else .stay [.label pos name v.pos] (v :: ws)
termination_by 7 * ts.length + 5
decreasing_by all_goals grind

/-- An option after its bullet. -/
def option (pos : Position) (leader : Leader) (ts : List Token) : Span (List Item) ts :=
  (terms ts).items fun found us _h =>
    (segments us).map fun parts => [.option pos leader found parts]
termination_by 7 * ts.length + 5
decreasing_by all_goals grind

/-- The body of an option. -/
def segments (ts : List Token) : Span (List Segment) ts :=
  (thread ts).bind fun body us _h =>
    match us with
    | [] => .finish [.mk (here ts) .both body] []
    | u :: vs =>
      if u.is "[" then
        Span.past <| (inside forward false true [] vs).map (.mk (here ts) forward.outer body :: ·)
      else if u.is "]" then
        Span.past <| (inside reversed false true [] vs).map (.mk (here ts) reversed.outer body :: ·)
      else .stay [.mk (here ts) .both body] (u :: vs)
termination_by 7 * ts.length + 4
decreasing_by all_goals grind

/-- The parts of an option from inside its brackets on. `nested` inside a second pair of brackets,
`first` at the first part; `lead` holds the mistakes in front of the part. -/
def inside (form : Form) (nested first : Bool) (lead : List Item) (ts : List Token) :
    Span (List Segment) ts :=
  (thread ts).bind fun body us _h =>
    match us with
    | [] => .finish [.mk (here ts) .both (lead ++ body)] []
    | u :: vs =>
      let part := .mk (here ts) (form.role nested first u) (lead ++ body)
      if u.is form.closing then
        if nested then Span.past <| (inside form false false [] vs).map (part :: ·)
        else Span.past <| (form.last [] (trailing vs)).map (part :: ·)
      else if u.is form.opening then
        let deeper := if nested then [.report ⟨here vs, .tooDeep form.opening⟩] else []
        Span.past <| (inside form true false deeper vs).map (part :: ·)
      else
        let mistake := .report ⟨u.pos, .unclosed form.closing u⟩
        (form.last [mistake] (trailing (u :: vs))).map (part :: ·)
termination_by 7 * ts.length + 2
decreasing_by all_goals grind

/-- The thread after the last bracket; more brackets are mistakes. -/
def trailing (ts : List Token) : Span (List Item) ts :=
  (thread ts).andThen fun us _h =>
    match us with
    | [] => .finish [] []
    | u :: vs =>
      if u.is "[" || u.is "]" then
        Span.past <| .after [.report ⟨u.pos, .afterBracket u⟩] (trailing vs)
      else .stay [] (u :: vs)
termination_by 7 * ts.length + 1
decreasing_by all_goals grind

end

/-- A whole script up to its final stop. Tokens that close nothing are mistakes. -/
def script (ts : List Token) : Span Script ts :=
  (thread ts).andThen fun us _h =>
    match us with
    | [] => .finish [] []
    | u :: vs =>
      if u.kind = .stop then Span.past <| .stay [] vs
      else Span.past <| .after [.report ⟨u.pos, .unexpected u⟩] (script vs)
termination_by ts.length
decreasing_by all_goals grind

end Storyline.Script
