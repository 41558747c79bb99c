import Storyline.Expr.Basic
import Storyline.Json.Basic

namespace Storyline.Expr

mutual

def json : Expr → Json
  | number x => .object [("val", .number x)]
  | var name => .object [("get", .string name)]
  | spliced parts splices =>
    .object [("var",
      .object [("parts", .array (parts.map .string)), ("exprs", .array (jsons splices))])]
  | call callee args =>
    .object [("call", .object [("callee", .string callee), ("args", .array (jsons args))])]
  | unary op operand =>
    .object [("unary", .object [("op", .string op.spelling), ("operand", operand.json)])]
  | binary op left right =>
    .object [("binary",
      .object [("op", .string op.spelling), ("left", left.json), ("right", right.json)])]

def jsons : List Expr → List Json
  | [] => []
  | e :: es => e.json :: jsons es

end

end Storyline.Expr
