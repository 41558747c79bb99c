import Storyline.Expr.Text
import Storyline.Token

namespace Storyline

/-- What should have stood in the script. -/
inductive Wanted where
  | expression
  | variableName
  | assignment
  | labelName
  | parameterName
  | endOfBlock
deriving DecidableEq, Repr, Inhabited

def Wanted.text : Wanted → String
  | expression => "expression"
  | variableName => "variable"
  | assignment => "assignment"
  | labelName => "label name"
  | parameterName => "parameter name"
  | endOfBlock => "end of block"

/-- What can be wrong with a script. A mistake never stops the compilation. -/
inductive Mistake where
  | missing (wanted : Wanted) (found : Token)
  /-- A delimiter is missing. -/
  | unclosed (delimiter : String) (found : Token)
  | unexpected (found : Token)
  | afterBracket (found : Token)
  | tooDeep (delimiter : String)
  | scanner (text : String)
  | unknownBlock (bullet : String)
  | invalidNumber (text : String)
  | notAssignable (target : Expr)
  | numericLabel (label : String)
  | definedTwice (label : String)
  | emptyCue
  | emptyKeyword
  /-- A link or a call names a label the story does not have. -/
  | noLabel (label : String)
  | note (text : String)
deriving Repr, Inhabited

def Mistake.message : Mistake → String
  | missing wanted found => "expected " ++ wanted.text ++ ", found " ++ found.describe
  | unclosed delimiter found => "expected '" ++ delimiter ++ "', found " ++ found.describe
  | unexpected found => "unexpected " ++ found.describe
  | afterBracket found => "unexpected " ++ found.describe ++ " after the closing bracket"
  | tooDeep delimiter => "'" ++ delimiter ++ "' nested too deeply"
  | scanner text => "scanner error: " ++ text
  | unknownBlock bullet => "unknown block '" ++ bullet ++ "'"
  | invalidNumber text => "invalid number '" ++ text ++ "'"
  | notAssignable target => "cannot assign to " ++ target.text
  | numericLabel label => "label '" ++ label ++ "' has a numeric part"
  | definedTwice label => "label '" ++ label ++ "' is already defined"
  | emptyCue => "empty cue"
  | emptyKeyword => "empty keyword"
  | noLabel label => "no label named '" ++ label ++ "'"
  | note text => text

structure Diagnostic where
  pos : Position
  mistake : Mistake
deriving Repr, Inhabited

def Diagnostic.text (d : Diagnostic) : String :=
  d.pos.text ++ ": " ++ d.mistake.message

end Storyline
