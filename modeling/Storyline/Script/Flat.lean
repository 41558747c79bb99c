import Storyline.Script.Sign
import Storyline.Script.Terms

namespace Storyline.Script

/-- The rest of a run of text, and the space after it. -/
def textTail (ts : List Token) : Read (String × String) ts :=
  match ts with
  | [] => none
  | t :: us =>
    if t.isText then
      Read.past <| (textTail us).map fun (tail, drop) => (t.space ++ t.printed ++ tail, drop)
    else .stay ("", t.space) (t :: us)

/-- The run of text that starts with `t`. -/
def textRun (t : Token) (ts : List Token) : Span (List Item) ts :=
  (textTail ts).items fun (tail, drop) us _ =>
    .stay [.content t.pos (.text (t.printed ++ tail) t.space drop)] us

/-- A cue after its opening bracket. -/
def cue (pos : Position) (ts : List Token) : Span (List Item) ts :=
  (words ">" "" ts).items fun name us _ =>
    if name = "" then .stay [.report ⟨here us, .emptyCue⟩] us
    else .stay [.content pos (.cue name)] us

/-- A label to go to, or a call, after its arrow. -/
def destination (pos : Position) (ts : List Token) : Span (List Item) ts :=
  (wantedName .labelName ts).items fun found us _ =>
    match found with
    | none => .stay [] us
    | some label =>
      match us with
      | [] => .finish [.cut] []
      | u :: vs =>
        if opensArguments u then
          Span.past <| (arguments vs).items fun args ws _ => .stay [.call pos label args] ws
        else .stay [.goto label] (u :: vs)

/-- Some content and the brace that closes it. -/
def braced (pos : Position) (content : Content) (ts : List Token) : Span (List Item) ts :=
  (expect "\x7d" ts).items fun _ us _ => .stay [.content pos content] us

/-- A brace that turned out malformed leaves nothing. -/
def malformed (ts : List Token) : Span (List Item) ts :=
  (skipBrace ts).items fun _ us _ => .stay [] us

/-- A variable changed by an amount, after its sign. -/
def change (pos : Position) (op : BinaryOp) (ts : List Token) : Span (List Item) ts :=
  (mutation ts).items fun found us _ =>
    match found with
    | none => malformed us
    | some (target, n) => braced pos (.move target (.binary op target (.number n))) us

/-- A variable set to a value, after the sign for the value. -/
def put (pos : Position) (value : Float) (ts : List Token) : Span (List Item) ts :=
  (assignable ts).items fun found us _ =>
    match found with
    | none => malformed us
    | some target => braced pos (.move target (.number value)) us

def echo (pos : Position) (ts : List Token) : Span (List Item) ts :=
  (expression ts).items fun e us _ => braced pos (.echo e) us

/-- The rest of a block with `depth` blocks open inside it. -/
def skipBlock (depth : Nat) (ts : List Token) : Span (List Item) ts :=
  match ts with
  | [] => .finish [.cut] []
  | t :: us =>
    match t.kind, depth with
    | .stop, 0 => Span.past <| .stay [] us
    | .stop, depth + 1 => (skipBlock depth us).past
    | .start, depth => (skipBlock (depth + 1) us).past
    | _, depth => (skipBlock depth us).past

/-- The stop of a block. Anything before it is a mistake and passed over. -/
def endBlock (ts : List Token) : Span (List Item) ts :=
  match ts with
  | [] => .finish [.cut] []
  | t :: us =>
    if t.kind = .stop then Span.past <| .stay [] us
    else .after [.report ⟨t.pos, .missing .endOfBlock t⟩] (skipBlock 0 (t :: us))

end Storyline.Script
