import Storyline.Decimal.Reading
import Storyline.Script.Reading

namespace Storyline.Script

/-- The operators of each tier, the loosest first. -/
def expressionTiers : List (List BinaryOp) :=
  [[.or], [.and], [.lt, .le, .eq, .ne, .ge, .gt], [.add, .sub],
    [.mul, .div, .mod, .rem, .random], [.pow]]

theorem length_expressionTiers : expressionTiers.length = 6 := rfl

/-- What binds tighter stands in a later tier, and the operators of one tier bind alike. -/
theorem spelling_expressionTiers : expressionTiers.map (List.map BinaryOp.spelling) =
    [["or"], ["and"], ["<", "<=", "==", "<>", ">=", ">"], ["+", "-"],
      ["*", "/", "%", "rem", "~"], ["**"]] := rfl

/-- A selector leaves `~` to the switch around it. -/
def selectorTiers : List (List BinaryOp) :=
  [[.or], [.and], [.lt, .le, .eq, .ne, .ge, .gt], [.add, .sub],
    [.mul, .div, .mod, .rem], [.pow]]

theorem spelling_selectorTiers : selectorTiers.map (List.map BinaryOp.spelling) =
    [["or"], ["and"], ["<", "<=", "==", "<>", ">=", ">"], ["+", "-"],
      ["*", "/", "%", "rem"], ["**"]] := rfl

/-- Operators may be punctuation, symbols or words. -/
def canSpell (t : Token) : Bool :=
  t.kind == .mark || t.kind == .symbol || t.kind == .word

def infixOp? (ops : List BinaryOp) (t : Token) : Option BinaryOp :=
  if canSpell t then ops.find? fun op => op.spelling == t.text else none

def prefixOp? (t : Token) : Option UnaryOp :=
  if canSpell t then UnaryOp.ofSpelling? t.text else none

/-- A variable can start with the token. -/
def startsReference (t : Token) : Bool := t.kind == .word || t.is "\x7b"

/-- The token goes on with a name. -/
def joins (t : Token) : Bool :=
  t.adjoins && (t.kind == .word || t.kind == .number || t.isOp ".")

/-- An argument list follows directly. -/
def opensArguments (t : Token) : Bool := t.is "(" && t.adjoins

/-- A name in pieces: a literal part, and then splices with a literal part after each. -/
structure Pieces where
  head : String
  splices : List (Expr × String)
deriving Repr, Inhabited

def Pieces.none : Pieces := ⟨"", []⟩

/-- The pieces after a literal text. -/
def Pieces.afterText (text : String) (p : Pieces) : Pieces := ⟨text ++ p.head, p.splices⟩

/-- The pieces after a splice. -/
def Pieces.afterSplice (e : Expr) (p : Pieces) : Pieces := ⟨"", (e, p.head) :: p.splices⟩

def Pieces.spliced (p : Pieces) : Expr :=
  .spliced (p.head :: p.splices.map Prod.snd) (p.splices.map Prod.fst)

/-- A number; one that cannot be read counts as `otherwise`. -/
def number (text : String) (otherwise : Float) (ts : List Token) : Read Float ts :=
  match Decimal.number? text with
  | some x => .stay x ts
  | none => .miss ⟨here ts, .invalidNumber text⟩ otherwise ts

mutual

/-- An expression of the operators of some tiers. -/
def climb (tiers : List (List BinaryOp)) (ts : List Token) : Read Expr ts :=
  match tiers with
  | [] => operand ts
  | ops :: tighter => (climb tighter ts).andThen fun left us _ => climbOn ops tighter left us
termination_by 16 * ts.length + tiers.length + 3

/-- Goes on after a left operand, as long as operators of the tier follow. -/
def climbOn (ops : List BinaryOp) (tighter : List (List BinaryOp)) (left : Expr)
    (ts : List Token) : Read Expr ts :=
  match ts with
  | [] => none
  | t :: us =>
    match infixOp? ops t with
    | none => .stay left (t :: us)
    | some op =>
      Read.past <| (climb tighter us).andThen fun right vs _ =>
        climbOn ops tighter (.binary op left right) vs
termination_by 16 * ts.length + tighter.length + 3

/-- Prefix operators and what they apply to. -/
def operand (ts : List Token) : Read Expr ts :=
  match ts with
  | [] => none
  | t :: us =>
    match prefixOp? t with
    | some op => Read.past <| (operand us).map (.unary op)
    | none => primary t us
termination_by 16 * ts.length + 2

/-- A number, an expression in parentheses, or a variable or call that starts with `t`. -/
def primary (t : Token) (ts : List Token) : Read Expr (t :: ts) :=
  if t.kind = .number then Read.past <| (number t.text 0 ts).map .number
  else if t.is "(" then
    Read.past <| (climb expressionTiers ts).andThen fun e us _ => (expect ")" us).map fun _ => e
  else if startsReference t then Read.past <| reference t ts
  else .miss ⟨t.pos, .missing .expression t⟩ (.number 0) (t :: ts)
termination_by 16 * ts.length + 17
decreasing_by all_goals grind [length_expressionTiers]

/-- The variable or call that starts with `t`. -/
def reference (t : Token) (ts : List Token) : Read Expr ts :=
  (firstPiece t ts).andThen fun p us _h =>
    if p.splices ≠ [] then .stay p.spliced us
    else
      match us with
      | [] => none
      | u :: vs =>
        if opensArguments u then Read.past <| (arguments vs).map (.call p.head)
        else .stay (.var p.head) (u :: vs)
termination_by 16 * ts.length + 16
decreasing_by all_goals grind

/-- A piece of a name that starts with `t`, and those that adjoin it. -/
def firstPiece (t : Token) (ts : List Token) : Read Pieces ts :=
  if t.is "\x7b" then
    (climb expressionTiers ts).andThen fun e us _h =>
      (expect "\x7d" us).andThen fun _ vs _h' => (pieces vs).map (.afterSplice e)
  else (pieces ts).map (.afterText t.text)
termination_by 16 * ts.length + 12
decreasing_by all_goals grind [length_expressionTiers]

/-- The pieces of a name that adjoin what was read before. -/
def pieces (ts : List Token) : Read Pieces ts :=
  match ts with
  | [] => none
  | t :: us =>
    if joins t || (t.adjoins && t.is "\x7b") then Read.past <| firstPiece t us
    else .stay .none (t :: us)
termination_by 16 * ts.length + 1

/-- Arguments after their opening parenthesis. -/
def arguments (ts : List Token) : Read (List Expr) ts :=
  match ts with
  | [] => none
  | t :: us =>
    if t.is ")" then Read.past <| .stay [] us else argumentsOn (t :: us)
termination_by 16 * ts.length + 11

/-- One argument at least, up to the closing parenthesis. -/
def argumentsOn (ts : List Token) : Read (List Expr) ts :=
  (climb expressionTiers ts).andThen fun e us _h =>
    match us with
    | [] => none
    | u :: vs =>
      if u.is "," then Read.past <| (argumentsOn vs).map (e :: ·)
      else (expect ")" (u :: vs)).map fun _ => [e]
termination_by 16 * ts.length + 10
decreasing_by all_goals grind [length_expressionTiers]

end

def expression (ts : List Token) : Read Expr ts := climb expressionTiers ts

def selector (ts : List Token) : Read Expr ts := climb selectorTiers ts

end Storyline.Script
