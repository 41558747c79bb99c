import Storyline.Token

namespace Storyline.Dump

def escape (c : Char) : List Char :=
  if c = '"' then ['\\', '"']
  else if c = '\\' then ['\\', '\\']
  else if c = '\n' then ['\\', 'n']
  else if c = '\t' then ['\\', 't']
  else [c]

def quote (s : String) : String :=
  String.ofList ('"' :: s.toList.flatMap escape ++ ['"'])

/-- As in `1:4 alphanum " " "Look"`. Nothing inside the strings spreads a token over two lines. -/
def writeToken (t : Token) : String :=
  t.pos.text ++ " " ++ t.kind.spelling ++ " " ++ quote t.space ++ " " ++ quote t.text ++ "\n"

def write (tokens : List Token) : String := String.join (tokens.map writeToken)

end Storyline.Dump
