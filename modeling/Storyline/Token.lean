namespace Storyline

/-- A line and a column; positions are ordered by line first. -/
structure Position where
  line : UInt64
  col : UInt64
deriving DecidableEq, Repr, Inhabited, Ord

def Position.text (p : Position) : String :=
  toString p.line.toNat ++ ":" ++ toString p.col.toNat

/-- What the scanner took a token for. -/
inductive Kind where
  | text
  | word
  | number
  /-- Escaped text, which is never read as structure. -/
  | literal
  | symbol
  /-- Structural punctuation such as a brace, a bar or an arrow. -/
  | mark
  /-- Opens an indented block; the text is its bullet. -/
  | start
  /-- Closes the innermost block, or the whole script. -/
  | stop
  /-- A blank line. -/
  | blank
  /-- A horizontal rule. -/
  | rule
  /-- A scanning mistake. -/
  | error
deriving DecidableEq, Repr, Inhabited

namespace Kind

def all : List Kind :=
  [text, word, number, literal, symbol, mark, start, stop, blank, rule, error]

def spelling : Kind → String
  | text => "text"
  | word => "alphanum"
  | number => "number"
  | literal => "literal"
  | symbol => "symbol"
  | mark => "token"
  | start => "start"
  | stop => "stop"
  | blank => "break"
  | rule => "dash"
  | error => "error"

def ofSpelling? (s : String) : Option Kind :=
  all.find? fun kind => kind.spelling == s

theorem mem_all (kind : Kind) : kind ∈ all := by
  cases kind <;> simp [all]

theorem ofSpelling?_spelling (kind : Kind) : ofSpelling? kind.spelling = some kind := by
  cases kind <;> decide

/-- The kinds that run together into one text. -/
def isContent : Kind → Bool
  | text | word | number | literal | symbol => true
  | _ => false

end Kind

/-- As a scanner delivers it: a kind, the white space in front, the text, and the position it was
scanned at. -/
structure Token where
  kind : Kind
  /-- White space between the token before and this one. -/
  space : String
  text : String
  pos : Position
deriving DecidableEq, Repr, Inhabited

namespace Token

/-- The token that ends a block or a script. -/
def stop (pos : Position) : Token := ⟨.stop, "", "", pos⟩

/-- Structural punctuation with this text. -/
def is (t : Token) (text : String) : Bool :=
  t.kind == .mark && t.text == text

/-- An operator with this text; scanners disagree on which of them are punctuation. -/
def isOp (t : Token) (text : String) : Bool :=
  (t.kind == .mark || t.kind == .symbol) && t.text == text

/-- Nothing stands between this token and the one before. -/
def adjoins (t : Token) : Bool :=
  t.space == ""

def describe (t : Token) : String :=
  match t.kind with
  | .stop => "end of block"
  | .blank => "blank line"
  | .start => "'" ++ t.text ++ "' block"
  | kind => kind.spelling ++ " \"" ++ t.text ++ "\""

end Token

end Storyline
