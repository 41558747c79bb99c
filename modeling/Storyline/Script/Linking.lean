import Storyline.Script.Basic
import Storyline.Story.Build
import Storyline.Text.Blank

namespace Storyline

/-- Where a story goes on: the next free path and the loose ends that wait for a node there. -/
structure Front where
  path : Path
  ends : Ends
deriving Repr, Inhabited

namespace Build

/-- The loose end of a node that falls through. -/
def nextEnd (id : NodeId) : LooseEnd := ⟨id, .next⟩

/-- A front reached by these loose ends alone. -/
def entering (path : Path) (loose : LooseEnd) : Front := ⟨path, [loose], []⟩

/-- Writes a node and ties to it what waits for it. -/
def arrive (front : Front) (body : Body) (pos : Position) : Build NodeId := do
  let id ← create front.path body pos
  tieTo front.path front.ends.rets
  return id

/-- Writes a node that falls through. -/
def append (front : Front) (body : Body) (pos : Position) : Build Front := do
  let id ← arrive front body pos
  return ⟨front.path.next, [nextEnd id], front.ends.escs⟩

/-- Sends what waits for the next node elsewhere. -/
def divert (front : Front) (target : Target) : Build Front := do
  tie target front.ends.rets
  return ⟨front.path.next, [], front.ends.escs⟩

/-- A part after the first dot consists of digits; such a label could be mistaken for a path. -/
def hasNumericPart (label : String) : Bool :=
  ((Text.split '.' label.toList).drop 1).any fun part => part.all Char.isDigit

/-- The label that a definition of this name gets, which is another one where the name is taken or
could be mistaken for a path. -/
def claim (name : String) (seen : Position) : Build String := do
  let story ← Build.story
  if hasNumericPart name then
    report seen (.numericLabel name)
    return story.freshLabel name
  else if story.isDefined name then
    report seen (.definedTwice name)
    return story.freshLabel name
  else return name

/-- The start of a label, a new place for what comes before to lead to. -/
def enterLabel (front : Front) (name : String) (seen pos : Position) : Build Front := do
  let label ← claim name seen
  let entry ← createPlaceholder (.root label) pos
  tieTo (.root label) front.ends.rets
  return ⟨.root label, [nextEnd entry], front.ends.escs⟩

/-- Writes a prompt: what waits for one goes on after it. -/
def prompt (front : Front) (pos : Position) : Build Front := do
  let _ ← arrive front .ask pos
  return ⟨front.path.next, front.ends.escs, []⟩

/-- Writes a call; an escape from it waits for the next prompt. -/
def call (front : Front) (label : String) (args : List Expr) (pos : Position) : Build Front := do
  let id ← arrive front (.call label args none none) pos
  return ⟨front.path.next, [nextEnd id], front.ends.escs ++ [⟨id, .branch⟩]⟩

end Build

/-- The variable that holds the index of a switch which counts its own visits. -/
def Selection.counter (path : Path) : Selection → Option String
  | walk => some path.name
  | loop => some path.name
  | _ => none

/-- The value a switch with so many cases goes by. -/
def Selection.value (path : Path) (count : Nat) : Selection → Expr
  | walk => .var path.name
  | loop => .var path.name
  | rand => .unary .random (.number (Float.ofNat count))
  | index e => e
  | pick e => e

def Case.weight : Case → Option Expr
  | mk w _ => w

/-- The switch node for these cases, each of them still open. -/
def Selection.body (path : Path) (cases : List Case) (selection : Selection) : Body :=
  .switch selection.mode (selection.counter path) (selection.value path cases.length)
    (cases.map fun _ => none) (cases.map Case.weight) none

/-- The loose end of a pick that chooses no case. -/
def Selection.fallThrough (id : NodeId) : Selection → List LooseEnd
  | pick _ => [⟨id, .next⟩]
  | _ => []

def Ends.append (a b : Ends) : Ends := ⟨a.rets ++ b.rets, a.escs ++ b.escs⟩

/-- The terms of an option with its leader. One that is offered once counts its choices in a
variable of its own. -/
def Terms.ledBy (leader : Leader) (path : Path) (terms : Terms) : Terms :=
  match leader with
  | .repeated => terms
  | .once =>
    let counter := Expr.var path.name
    { terms with
      guards := .binary .eq counter (.number 0) :: terms.guards
      consequences := ⟨counter, .binary .add counter (.number 1)⟩ :: terms.consequences }

/-- What an option's body has come to so far. -/
structure Draft where
  path : Path
  question : List String
  answer : List String
  escs : List LooseEnd
  /-- The last segment was for the answer alone and left something to go on from. -/
  advancing : Bool
deriving Repr, Inhabited

/-- A draft with a thread filed under the roles it has. -/
def Draft.file (role : Role) (name : String) (draft : Draft) : Draft :=
  match role with
  | .question => { draft with question := draft.question ++ [name] }
  | .answer => { draft with answer := draft.answer ++ [name] }
  | .both =>
    { draft with question := draft.question ++ [name], answer := draft.answer ++ [name] }

namespace Build

/-- Writes the guards of an option as jumps past it, and collects the loose ends of those that
fail. -/
def guards (pos : Position) :
    List Expr → Path → List LooseEnd → Build (Path × List LooseEnd × List LooseEnd)
  | [], path, rets => return (path, rets, [])
  | guard :: rest, path, rets => do
    let id ← arrive ⟨path, rets, []⟩ (.jump guard.inverted none none) pos
    let (path, rets, skips) ← guards pos rest path.next [nextEnd id]
    return (path, rets, ⟨id, .branch⟩ :: skips)

/-- Writes assignments one after the other. -/
def chain (pos : Position) :
    List Assignment → Path → List LooseEnd → Build (Path × List LooseEnd)
  | [], path, rets => return (path, rets)
  | assignment :: rest, path, rets => do
    let move := Content.move assignment.target assignment.source
    let id ← arrive ⟨path, rets, []⟩ (.content move none) pos
    chain pos rest path.next [nextEnd id]

/-- The consequences of an option are the first thread of its answer. -/
def consequences (pos : Position) (assignments : List Assignment) (draft : Draft) :
    Build Draft := do
  if assignments.isEmpty then return draft
  else
    let (path, rets) ← chain pos assignments draft.path []
    tie .ret rets
    return { draft.file .answer draft.path.name with path }

/-- Files a segment under its roles. One that wrote nothing leaves nothing. -/
def fileSegment (role : Role) (isEmpty : Bool) (entry : NodeId) (draft : Draft) : Build Draft :=
  if isEmpty then do
    let _ ← discard entry
    return draft
  else return draft.file role draft.path.name

/-- Files a segment and sends its loose ends on. -/
def settle (role : Role) (last : Bool) (entry : NodeId) (front : Front) (draft : Draft) :
    Build Draft := do
  let story ← Build.story
  let isEmpty := front.path = draft.path && story.isPlaceholder entry
  let filed ← fileSegment role isEmpty entry draft
  let advancing := last && role == .answer && !isEmpty
  let escs := filed.escs ++ front.ends.escs
  if advancing then
    return { filed with path := front.path, escs := escs ++ front.ends.rets, advancing }
  else
    tie .ret front.ends.rets
    return { filed with path := front.path, escs, advancing }

/-- An answer that leaves nothing to go on from is given a step that does. -/
def conclude (pos : Position) (draft : Draft) : Build Draft := do
  if draft.advancing then return draft
  else
    let id ← create draft.path (.goto none) pos
    return { draft.file .answer draft.path.name with escs := draft.escs ++ [nextEnd id] }

mutual

/-- Every rule takes the path to write its first node at and the loose ends that lead there, and
gives those for whatever follows. -/
def item : Item → Front → Build Front
  | .report d, front => do
    report d.pos d.mistake
    return front
  | .cut, _ => throw .unfinished
  | .passed _, front => return front
  | .content pos c, front => append front (.content c none) pos
  | .ask pos, front => prompt front pos
  | .leave, front => divert front .ret
  | .goto label, front => divert front (.node label)
  | .call pos label args, front => call front label args pos
  | .label pos name seen, front => enterLabel front name seen pos
  | .loop pos body, front => do
    let entry ← createPlaceholder front.path pos
    tieTo front.path front.ends.rets
    let after ← thread body (entering front.path (nextEnd entry))
    tieTo front.path after.ends.rets
    return ⟨after.path, [], front.ends.escs ++ after.ends.escs⟩
  | .define pos name params seen body, front => do
    let label ← claim name seen
    let id ← create (.root label) (.define params none) pos
    let after ← thread body (entering (Path.root label).next (nextEnd id))
    tie .ret after.ends.rets
    tie .esc after.ends.escs
    return front
  | .jump pos condition yes no, front => do
    let id ← arrive front (.jump condition.inverted none none) pos
    let yes ← thread yes (entering front.path.firstChild (nextEnd id))
    let no ← thread no (entering yes.path ⟨id, .branch⟩)
    return ⟨front.path.next, (Ends.mk [] front.ends.escs).append (yes.ends.append no.ends)⟩
  | .switch pos selection found, front => do
    let id ← arrive front (selection.body front.path found) pos
    let after ← cases id 0 found front.path.firstChild
    let rets := after.ends.rets ++ selection.fallThrough id
    return ⟨front.path.next, rets, front.ends.escs ++ after.ends.escs⟩
  | .option pos leader terms parts, front => do
    let terms := terms.ledBy leader front.path
    let (path, rets, skips) ← guards pos terms.guards front.path front.ends.rets
    let keywords := Body.wordSet terms.keywords
    let id ← arrive ⟨path, rets, []⟩ (.option [] [] keywords none) pos
    let draft ← consequences pos terms.consequences ⟨path.firstChild, [], [], [], false⟩
    let draft ← segments parts draft
    let draft ← conclude pos draft
    let _ ← modifyBody id (Body.withThreads draft.question draft.answer)
    return ⟨path.next, skips ++ [nextEnd id], front.ends.escs ++ draft.escs⟩

def thread : List Item → Front → Build Front
  | [], front => return front
  | i :: rest, front => do
    let front ← item i front
    thread rest front

/-- The cases of a switch one after the other, from case `index` on. -/
def cases (id : NodeId) (index : Nat) : List Case → Path → Build Front
  | [], path => return ⟨path, [], []⟩
  | .mk _ body :: rest, path => do
    let front ← thread body (entering path ⟨id, .case index⟩)
    let after ← cases id (index + 1) rest front.path
    return ⟨after.path, front.ends.append after.ends⟩

def segments : List Segment → Draft → Build Draft
  | [], draft => return draft
  | .mk pos role body :: rest, draft => do
    let entry ← createPlaceholder draft.path pos
    let front ← thread body (entering draft.path (nextEnd entry))
    let draft ← settle role rest.isEmpty entry front draft
    segments rest draft

end

end Build

end Storyline
