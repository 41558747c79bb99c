import Storyline.Diagnostic
import Storyline.Node

namespace Storyline

/-- What opens an option. -/
inductive Leader where
  /-- Offered every time. -/
  | repeated
  /-- Offered until it was chosen once. -/
  | once
deriving DecidableEq, Repr, Inhabited

/-- What a part of an option belongs to: what is shown, what is answered, or both. -/
inductive Role where
  | question
  | answer
  | both
deriving DecidableEq, Repr, Inhabited

structure Assignment where
  target : Expr
  source : Expr
deriving Repr, Inhabited

/-- What stands in front of an option. -/
structure Terms where
  /-- The option is offered only where all of these hold. -/
  guards : List Expr
  /-- What choosing the option does first. -/
  consequences : List Assignment
  keywords : List String
deriving Repr, Inhabited

def Terms.none : Terms := ⟨[], [], []⟩

def Terms.append (a b : Terms) : Terms :=
  ⟨a.guards ++ b.guards, a.consequences ++ b.consequences, a.keywords ++ b.keywords⟩

instance : Append Terms := ⟨Terms.append⟩

/-- What a switch goes by. -/
inductive Selection where
  | walk
  | loop
  | rand
  /-- The case whose index is the value. -/
  | index (value : Expr)
  /-- A case by weight. -/
  | pick (value : Expr)
deriving Repr, Inhabited

def Selection.mode : Selection → SwitchMode
  | walk => .walk
  | loop => .loop
  | rand => .rand
  | index _ => .walk
  | pick _ => .pick

def Selection.isWeighted : Selection → Bool
  | pick _ => true
  | _ => false

mutual

/-- Items follow one another in a thread; some hold threads of their own. Mistakes stand where they
were noticed, and `cut` stands where the tokens ran out. -/
inductive Item where
  | report (diagnostic : Diagnostic)
  /-- The tokens end here, inside the script. -/
  | cut
  /-- A token was passed over unread, with so many tokens after it. -/
  | passed (left : Nat)
  | content (pos : Position) (content : Content)
  | ask (pos : Position)
  /-- Nothing follows; the flow goes back to where it came from. -/
  | leave
  | goto (label : String)
  | call (pos : Position) (label : String) (args : List Expr)
  /-- `seen` is where a mistake in the name is reported. -/
  | label (pos : Position) (name : String) (seen : Position)
  /-- Starts over whenever its end is reached. -/
  | loop (pos : Position) (body : List Item)
  | define (pos : Position) (name : String) (params : List String) (seen : Position)
      (body : List Item)
  | jump (pos : Position) (condition : Expr) (yes no : List Item)
  | switch (pos : Position) (selection : Selection) (cases : List Case)
  /-- The last segment goes on after the next prompt if it is for the answer alone. -/
  | option (pos : Position) (leader : Leader) (terms : Terms) (segments : List Segment)

inductive Case where
  | mk (weight : Option Expr) (body : List Item)

inductive Segment where
  | mk (pos : Position) (role : Role) (body : List Item)

end

instance : Inhabited Item := ⟨.leave⟩

/-- A whole script is a thread. -/
abbrev Script := List Item

end Storyline
