import Storyline.Expr.Json
import Storyline.Story.Basic

namespace Storyline

def Target.json (target : Target) : Json := .string target.text

def Link.json : Link → Json
  | some target => target.json
  | none => .null

def strings (items : List String) : Json := .array (items.map .string)

/-- The fields of a node that shows or does something, without its link. -/
def Content.fields : Content → List (String × Json)
  | text run lift drop =>
    [("text", .string run), ("lift", .string lift), ("drop", .string drop)]
  | move target source => [("target", target.json), ("source", source.json)]
  | echo expr => [("expr", expr.json)]
  | cue name => [("cue", .string name)]
  | _ => []

def weightJson : Option Expr → Json
  | some e => e.json
  | none => .null

def counterJson : Option String → Json
  | some name => .string name
  | none => .null

/-- The fields of a body after its type. -/
def Body.fields : Body → List (String × Json)
  | content c next => c.fields ++ [("next", next.json)]
  | ask => []
  | jump condition branch next =>
    [("condition", condition.json), ("branch", branch.json), ("next", next.json)]
  | switch mode counter value branches weights next =>
    [("mode", .string mode.spelling), ("variable", counterJson counter), ("value", value.json),
      ("branches", .array (branches.map Link.json)),
      ("weights", .array (weights.map weightJson))] ++
      if next.isSome then [("next", next.json)] else []
  | goto next => [("next", next.json)]
  | call label args next branch =>
    [("label", .string label), ("args", .array (args.map Expr.json)), ("next", next.json),
      ("branch", branch.json)]
  | define params next => [("params", strings params), ("next", next.json)]
  | option question answer keywords next =>
    [("question", strings question), ("answer", strings answer), ("keywords", strings keywords),
      ("next", next.json)]

def Node.json (node : Node) : Json :=
  .object (("name", .string node.name) :: ("type", .string node.body.kind.spelling) ::
    node.body.fields)

/-- From the names of the nodes, in order, to the nodes. Links are always written, but for the
fall-through of a switch, which only a pick has. -/
def Story.json (story : Story) : Json :=
  .object (story.sorted.map fun node => (node.name, node.json))

def Token.json (t : Token) : Json :=
  .object [("kind", .string t.kind.spelling), ("space", .string t.space), ("text", .string t.text)]

def Diagnostic.json (d : Diagnostic) : Json :=
  let pos := .object [("line", .count d.pos.line.toNat), ("col", .count d.pos.col.toNat)]
  .object [("position", pos), ("message", .string d.mistake.message)]

end Storyline
