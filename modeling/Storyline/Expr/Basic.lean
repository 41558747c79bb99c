namespace Storyline

inductive UnaryOp where
  | not
  | negate
  /-- A random whole number below the operand. -/
  | random
  /-- The size of the operand. -/
  | count
deriving DecidableEq, Repr, Inhabited

namespace UnaryOp

def all : List UnaryOp := [not, negate, random, count]

def spelling : UnaryOp → String
  | not => "not"
  | negate => "-"
  | random => "~"
  | count => "#"

def ofSpelling? (s : String) : Option UnaryOp :=
  all.find? fun op => op.spelling == s

theorem ofSpelling?_spelling (op : UnaryOp) : ofSpelling? op.spelling = some op := by
  cases op <;> decide

end UnaryOp

inductive BinaryOp where
  | or
  | and
  | lt
  | le
  | eq
  | ne
  | ge
  | gt
  | add
  | sub
  | mul
  | div
  | mod
  | rem
  /-- A random draw of so many dice with so many sides. -/
  | random
  | pow
deriving DecidableEq, Repr, Inhabited

namespace BinaryOp

def all : List BinaryOp :=
  [or, and, lt, le, eq, ne, ge, gt, add, sub, mul, div, mod, rem, random, pow]

def spelling : BinaryOp → String
  | or => "or"
  | and => "and"
  | lt => "<"
  | le => "<="
  | eq => "=="
  | ne => "<>"
  | ge => ">="
  | gt => ">"
  | add => "+"
  | sub => "-"
  | mul => "*"
  | div => "/"
  | mod => "%"
  | rem => "rem"
  | random => "~"
  | pow => "**"

def ofSpelling? (s : String) : Option BinaryOp :=
  all.find? fun op => op.spelling == s

theorem ofSpelling?_spelling (op : BinaryOp) : ofSpelling? op.spelling = some op := by
  cases op <;> decide

/-- The comparison that holds exactly when this one fails. -/
def complement? : BinaryOp → Option BinaryOp
  | eq => some ne
  | ne => some eq
  | gt => some le
  | le => some gt
  | lt => some ge
  | ge => some lt
  | _ => none

theorem complement?_eq_some_iff {a b : BinaryOp} : a.complement? = some b ↔
    (a.spelling, b.spelling) ∈ [("==", "<>"), ("<>", "=="), ("<", ">="), (">=", "<"), (">", "<="),
      ("<=", ">")] := by
  cases a <;> cases b <;> decide

theorem complement?_complement? {a b : BinaryOp} (h : a.complement? = some b) :
    b.complement? = some a := by
  cases a <;> simp_all [complement?] <;> subst h <;> rfl

end BinaryOp

inductive Expr where
  | number (x : Float)
  | var (name : String)
  /-- A variable whose name is put together when the story runs: the parts stand around the
  splices, so there is one part more than there are splices. -/
  | spliced (parts : List String) (splices : List Expr)
  | call (callee : String) (args : List Expr)
  | unary (op : UnaryOp) (operand : Expr)
  | binary (op : BinaryOp) (left right : Expr)
deriving Repr, Inhabited

namespace Expr

/-- A value can be assigned to it. -/
def isVariable : Expr → Bool
  | var _ => true
  | spliced _ _ => true
  | _ => false

/-- The opposite condition; a comparison becomes its complement. -/
def inverted : Expr → Expr
  | binary op left right =>
    match op.complement? with
    | some opposite => binary opposite left right
    | none => unary .not (binary op left right)
  | e => unary .not e

theorem inverted_inverted {op : BinaryOp} (h : op.complement? ≠ none) (left right : Expr) :
    (binary op left right).inverted.inverted = binary op left right := by
  cases op <;> simp_all [inverted, BinaryOp.complement?]

end Expr

end Storyline
