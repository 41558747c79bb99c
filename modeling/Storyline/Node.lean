import Storyline.Expr.Basic
import Storyline.Token

namespace Storyline

/-- Where a link leads. -/
inductive Target where
  | node (name : String)
  /-- Back to the caller, or the end of the story. -/
  | ret
  /-- Back to the caller, past its next prompt. -/
  | esc
deriving DecidableEq, Repr, Inhabited

def Target.text : Target → String
  | node name => name
  | ret => "RET"
  | esc => "ESC"

/-- A link is open until it has a target. -/
abbrev Link := Option Target

/-- Which of a node's links is meant. -/
inductive Outlet where
  | next
  | branch
  | case (index : Nat)
deriving DecidableEq, Repr, Inhabited

def Outlet.text : Outlet → String
  | next => "Next"
  | branch => "Branch"
  | case index => "Case(" ++ toString index ++ ")"

/-- How a switch chooses its case. -/
inductive SwitchMode where
  /-- The next case each time, staying at the last. -/
  | walk
  /-- The next case each time, starting over after the last. -/
  | loop
  /-- Any case, all equally likely. -/
  | rand
  /-- Any case by weight, or none. -/
  | pick
deriving DecidableEq, Repr, Inhabited

namespace SwitchMode

def all : List SwitchMode := [walk, loop, rand, pick]

def spelling : SwitchMode → String
  | walk => "walk"
  | loop => "loop"
  | rand => "rand"
  | pick => "pick"

def ofSpelling? (s : String) : Option SwitchMode :=
  all.find? fun mode => mode.spelling == s

end SwitchMode

inductive NodeKind where
  | text
  | lineBreak
  | paragraph
  | rule
  | ask
  | jump
  | switch
  | move
  | echo
  | cue
  | goto
  | call
  | define
  | option
deriving DecidableEq, Repr, Inhabited

namespace NodeKind

def all : List NodeKind :=
  [text, lineBreak, paragraph, rule, ask, jump, switch, move, echo, cue, goto, call, define, option]

def spelling : NodeKind → String
  | text => "text"
  | lineBreak => "break"
  | paragraph => "paragraph"
  | rule => "rule"
  | ask => "ask"
  | jump => "jump"
  | switch => "switch"
  | move => "move"
  | echo => "echo"
  | cue => "cue"
  | goto => "goto"
  | call => "call"
  | define => "def"
  | option => "option"

end NodeKind

/-- What a node shows or does before it goes on to the one node after it. -/
inductive Content where
  /-- A run of text with the space before and after it. -/
  | text (text lift drop : String)
  | lineBreak
  | paragraph
  | rule
  | move (target source : Expr)
  | echo (expr : Expr)
  | cue (name : String)
deriving Repr, Inhabited

def Content.kind : Content → NodeKind
  | text .. => .text
  | lineBreak => .lineBreak
  | paragraph => .paragraph
  | rule => .rule
  | move .. => .move
  | echo _ => .echo
  | cue _ => .cue

inductive Body where
  | content (content : Content) (next : Link)
  /-- Offers the options met so far; the chosen answer goes on. -/
  | ask
  /-- Takes `branch` where the condition holds and `next` where it fails. -/
  | jump (condition : Expr) (branch next : Link)
  /-- `counter` names the variable that holds the index of a walk or loop; `next` is there for a
  pick that chooses no case. -/
  | switch (mode : SwitchMode) (counter : Option String) (value : Expr) (branches : List Link)
      (weights : List (Option Expr)) (next : Link)
  | goto (next : Link)
  /-- Goes on at `next` after a plain return and at `branch` after an escape. -/
  | call (label : String) (args : List Expr) (next branch : Link)
  | define (params : List String) (next : Link)
  /-- The threads that show the option and those that answer it. -/
  | option (question answer keywords : List String) (next : Link)
deriving Repr, Inhabited

namespace Body

def kind : Body → NodeKind
  | content c _ => c.kind
  | ask => .ask
  | jump .. => .jump
  | switch .. => .switch
  | goto _ => .goto
  | call .. => .call
  | define .. => .define
  | option .. => .option

/-- The links of a switch's cases, counted from `index`. -/
def caseLinks (index : Nat) : List Link → List (Outlet × Link)
  | [] => []
  | link :: links => (.case index, link) :: caseLinks (index + 1) links

/-- Every link the node must have a target for. -/
def links : Body → List (Outlet × Link)
  | content _ next => [(.next, next)]
  | ask => []
  | jump _ branch next => [(.next, next), (.branch, branch)]
  | switch mode _ _ branches _ next =>
    caseLinks 0 branches ++ if mode = .pick then [(.next, next)] else []
  | goto next => [(.next, next)]
  | call _ _ next branch => [(.next, next), (.branch, branch)]
  | define _ next => [(.next, next)]
  | option _ _ _ next => [(.next, next)]

/-- The link at an outlet, if the node has such an outlet. -/
def link? : Body → Outlet → Option Link
  | content _ next, .next => some next
  | jump _ _ next, .next => some next
  | jump _ branch _, .branch => some branch
  | switch _ _ _ branches _ _, .case index => branches[index]?
  | switch .pick _ _ _ _ next, .next => some next
  | goto next, .next => some next
  | call _ _ next _, .next => some next
  | call _ _ _ branch, .branch => some branch
  | define _ next, .next => some next
  | option _ _ _ next, .next => some next
  | _, _ => none

/-- The node with another link at an outlet; a node without the outlet stays as it is. -/
def setLink : Body → Outlet → Link → Body
  | content c _, .next, link => content c link
  | jump condition branch _, .next, link => jump condition branch link
  | jump condition _ next, .branch, link => jump condition link next
  | switch mode counter value branches weights next, .case index, link =>
    switch mode counter value (branches.set index link) weights next
  | switch .pick counter value branches weights _, .next, link =>
    switch .pick counter value branches weights link
  | goto _, .next, link => goto link
  | call label args _ branch, .next, link => call label args link branch
  | call label args next _, .branch, link => call label args next link
  | define params _, .next, link => define params link
  | option question answer keywords _, .next, link => option question answer keywords link
  | body, _, _ => body

/-- A word at its place in an ordered list without repetitions. -/
def insertWord (word : String) : List String → List String
  | [] => [word]
  | w :: ws =>
    if word < w then word :: w :: ws else if word = w then w :: ws else w :: insertWord word ws

/-- The words in order, each once. -/
def wordSet (words : List String) : List String := words.foldr insertWord []

/-- An option with these threads. -/
def withThreads (question answer : List String) : Body → Body
  | option _ _ keywords next => option question answer keywords next
  | body => body

/-- Names of nodes the body mentions outside its links. -/
def references : Body → List String
  | option question answer _ _ => question ++ answer
  | call label _ _ _ => [label]
  | _ => []

/-- The expressions of the node, with `none` for a case without weight. -/
def exprs : Body → List (Option Expr)
  | content (.move target source) _ => [some target, some source]
  | content (.echo expr) _ => [some expr]
  | jump condition _ _ => [some condition]
  | switch _ _ value _ weights _ => some value :: weights
  | call _ args _ _ => args.map some
  | _ => []

end Body

structure Node where
  name : String
  body : Body
  pos : Position
deriving Repr, Inhabited

/-- Where the node falls through to, if it does. -/
def Node.next? (node : Node) : Option Target :=
  (node.body.links.find? fun (outlet, _) => outlet == .next).bind Prod.snd

end Storyline
