import Storyline.Decimal.Text
import Storyline.Expr.Basic

namespace Storyline.Expr

/-- The parts in order, each followed by the splice of the same index if there is one. -/
def interleave : List String → List String → String
  | [], _ => ""
  | part :: parts, [] => part ++ interleave parts []
  | part :: parts, splice :: splices =>
    part ++ "\x7b" ++ splice ++ "\x7d" ++ interleave parts splices

mutual

/-- Operators stand in front of their operands, as in `+(a, *(b, 2))`, and a spliced variable shows
its splices in braces. -/
def text : Expr → String
  | number x => Decimal.Layout.display.write x
  | var name => name
  | spliced parts splices => interleave parts (texts splices)
  | call callee args => callee ++ "(" ++ ", ".intercalate (texts args) ++ ")"
  | unary op operand => op.spelling ++ "(" ++ operand.text ++ ")"
  | binary op left right => op.spelling ++ "(" ++ left.text ++ ", " ++ right.text ++ ")"

def texts : List Expr → List String
  | [] => []
  | e :: es => e.text :: texts es

end

end Storyline.Expr
