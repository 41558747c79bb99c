import Storyline.Story.Basic

namespace Storyline

/-- Why a story cannot be built. -/
inductive BuildError where
  | duplicateNode (name : String)
  | retied (name : String) (outlet : Outlet)
  | noSuchLink (name : String) (outlet : Outlet)
  /-- The script ends inside an open block. -/
  | unfinished
deriving DecidableEq, Repr, Inhabited

def BuildError.message : BuildError → String
  | duplicateNode name => "node " ++ name ++ " already exists"
  | retied name outlet => "link " ++ outlet.text ++ " of " ++ name ++ " tied twice"
  | noSuchLink name outlet => "node " ++ name ++ " has no " ++ outlet.text ++ " link"
  | unfinished => "the script is not finished"

abbrev Build := EStateM BuildError Story

namespace Build

def report (pos : Position) (mistake : Mistake) : Build Unit := fun story =>
  .ok () { story with diagnostics := story.diagnostics.push ⟨pos, mistake⟩ }

/-- Adds a slot for a node of this name. A placeholder of the name gives way to it. -/
def addSlot (name : String) (slot : Slot) : Build NodeId := fun story =>
  match story.find? name with
  | none => .ok story.slots.size { story with slots := story.slots.push slot }
  | some old =>
    if story.isPlaceholder old then
      let slots := story.slots.setIfInBounds old (.replaced name [])
      .ok story.slots.size { story with slots := slots.push slot }
    else .error (.duplicateNode name) story

/-- Writes a node at a path. -/
def create (path : Path) (body : Body) (pos : Position) : Build NodeId :=
  addSlot path.name (.settled ⟨path.name, body, pos⟩)

/-- Keeps a path's name for the next node written there; if none is, the node written first
remains as a step to wherever its link leads. -/
def createPlaceholder (path : Path) (pos : Position) : Build NodeId :=
  addSlot path.name (.placeholder ⟨path.name, .goto none, pos⟩)

/-- Gives up a placeholder that nothing replaced or tied, and says whether there was one. -/
def discard (id : NodeId) : Build Bool := fun story =>
  match story.slots[id]? with
  | some (.placeholder node) =>
    .ok true { story with slots := story.slots.setIfInBounds id (.discarded node.name []) }
  | _ => .ok false story

/-- A node with one more link tied; it is permanent from then on. -/
def tieNode (node : Node) (outlet : Outlet) (target : Target) : Except BuildError Slot :=
  match node.body.link? outlet with
  | none => .error (.noSuchLink node.name outlet)
  | some (some _) => .error (.retied node.name outlet)
  | some none => .ok (.settled { node with body := node.body.setLink outlet (some target) })

/-- A slot after one of its links was tied. -/
def tieSlot (slot : Slot) (outlet : Outlet) (target : Target) : Except BuildError Slot :=
  match slot with
  | .settled node => tieNode node outlet target
  | .placeholder node => tieNode node outlet target
  | .replaced name flows => .ok (.replaced name (flows ++ [target]))
  | .discarded name flows => .ok (.discarded name (flows ++ [target]))

def tieEnd (target : Target) (loose : LooseEnd) : Build Unit := fun story =>
  match story.slots[loose.node]? with
  | none => .ok () story
  | some slot =>
    match tieSlot slot loose.outlet target with
    | .error e => .error e story
    | .ok tied => .ok () { story with slots := story.slots.setIfInBounds loose.node tied }

/-- Ties loose ends in order, up to the first that cannot be. -/
def tie (target : Target) : List LooseEnd → Build Unit
  | [] => pure ()
  | loose :: rest => do
    tieEnd target loose
    tie target rest

def tieTo (path : Path) (ends : List LooseEnd) : Build Unit := tie (.node path.name) ends

/-- Changes what a live node does, and says whether there was one. -/
def modifyBody (id : NodeId) (f : Body → Body) : Build Bool := fun story =>
  match story.slots[id]? with
  | some (.settled node) =>
    let slot := .settled { node with body := f node.body }
    .ok true { story with slots := story.slots.setIfInBounds id slot }
  | some (.placeholder node) =>
    let slot := .placeholder { node with body := f node.body }
    .ok true { story with slots := story.slots.setIfInBounds id slot }
  | _ => .ok false story

def setBody (id : NodeId) (body : Body) : Build Bool := modifyBody id fun _ => body

/-- The story so far. -/
def story : Build Story := fun story => .ok story story

/-- Reports every link and reference to a name no node bears. -/
def check : Build Unit := fun story =>
  .ok () { story with diagnostics := story.diagnostics ++ story.missingLabels }

end Build

end Storyline
