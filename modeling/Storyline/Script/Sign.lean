import Storyline.Node

namespace Storyline

/-- What a token opens in a thread. -/
inductive Sign where
  /-- Belongs to the construct around the thread, which ends here. -/
  | close
  | start
  | blank
  | error
  | content (content : Content)
  | brace
  | label
  | goto
  | leave
  | cue
  | text
deriving Repr, Inhabited

/-- The sign of structural punctuation. -/
def Sign.ofMark (text : String) : Sign :=
  match text with
  | "|" | "]" | "[" | "\x7d" => .close
  | "\x7b" => .brace
  | "@" => .label
  | "->" => .goto
  | "<-" => .leave
  | "<" => .cue
  | "/" => .content .lineBreak
  | "//" => .content .paragraph
  | _ => .text

def Token.sign (t : Token) : Sign :=
  match t.kind with
  | .stop => .close
  | .start => .start
  | .blank => .blank
  | .rule => .content .rule
  | .error => .error
  | .mark => Sign.ofMark t.text
  | _ => .text

/-- The token runs together with text before it. -/
def Token.isText (t : Token) : Bool :=
  match t.sign with
  | .text => true
  | _ => false

/-- Quotation marks and dashes as they are printed. -/
def typographic (text : String) : String :=
  match text with
  | "\x7b\"" => "“"
  | "\"\x7d" => "”"
  | "\x7b'" => "‘"
  | "'\x7d" => "’"
  | "--" => "–"
  | "---" => "—"
  | _ => text

/-- The text a token stands for inside a run of text. -/
def Token.printed (t : Token) : String :=
  if t.kind = .mark then typographic t.text else t.text

end Storyline
