import Storyline.Diagnostic
import Storyline.Node
import Storyline.Path

namespace Storyline

abbrev NodeId := Nat

/-- Slots are never removed, so their indices stay valid. A placeholder keeps a name until the node
that belongs there is written or nothing turns out to be needed. -/
inductive Slot where
  | settled (node : Node)
  | placeholder (node : Node)
  /-- A placeholder that gave its name to another node. Its own link went with it; `flows` holds
  the targets that link was to have. -/
  | replaced (name : String) (flows : List Target)
  /-- A placeholder that was not needed. -/
  | discarded (name : String) (flows : List Target)
deriving Repr, Inhabited

/-- The node that lives in a slot. -/
def Slot.node? : Slot → Option Node
  | settled node => some node
  | placeholder node => some node
  | _ => none

def Slot.isPlaceholder : Slot → Bool
  | placeholder _ => true
  | _ => false

/-- A link that has no target yet. -/
structure LooseEnd where
  node : NodeId
  outlet : Outlet
deriving DecidableEq, Repr, Inhabited

/-- The loose ends handed along a script: `rets` go on with whatever comes next, `escs` with
whatever comes after the next prompt. -/
structure Ends where
  rets : List LooseEnd
  escs : List LooseEnd
deriving DecidableEq, Repr, Inhabited

def Ends.isEmpty (ends : Ends) : Bool := ends.rets.isEmpty && ends.escs.isEmpty

/-- A story under construction: its nodes in the order they were written, and the mistakes found so
far. -/
structure Story where
  /-- The label of the entry node. -/
  start : String
  slots : Array Slot
  diagnostics : Array Diagnostic
deriving Repr, Inhabited

namespace Story

def empty (start : String) : Story := ⟨start, #[], #[]⟩

/-- Live nodes in the order they were written. -/
def nodes (story : Story) : List Node := story.slots.toList.filterMap Slot.node?

def size (story : Story) : Nat := story.nodes.length

def names (story : Story) : List String := story.nodes.map Node.name

/-- The node in a slot, if one lives there. -/
def node? (story : Story) (id : NodeId) : Option Node := story.slots[id]?.bind Slot.node?

/-- The slot of the live node of this name. -/
def find? (story : Story) (name : String) : Option NodeId :=
  story.slots.findIdx? fun slot => slot.node?.any (·.name == name)

def get? (story : Story) (name : String) : Option Node := (story.find? name).bind story.node?

def contains (story : Story) (name : String) : Bool := (story.find? name).isSome

def isPlaceholder (story : Story) (id : NodeId) : Bool :=
  story.slots[id]?.any Slot.isPlaceholder

/-- A node that is no placeholder bears the name. -/
def isDefined (story : Story) (name : String) : Bool :=
  (story.find? name).any fun id => !story.isPlaceholder id

/-- The first name `base'n` from `n` on that is not taken. A taken candidate is struck from the
list, so the search ends. -/
def firstFree (base : String) (taken : List String) (n : Nat) : String :=
  let candidate := base ++ "'" ++ toString n
  if h : candidate ∈ taken then firstFree base (taken.erase candidate) (n + 1) else candidate
termination_by taken.length
decreasing_by
  have := List.length_pos_of_mem h
  rw [List.length_erase_of_mem h]
  omega

/-- A name derived from `base` that no node bears. -/
def freshLabel (story : Story) (base : String) : String := firstFree base story.names 2

/-- Links without a target, by the name of their node. -/
def dangling (story : Story) : List (String × Outlet) :=
  story.nodes.flatMap fun node =>
    (node.body.links.filter fun (_, link) => link.isNone).map fun (outlet, _) => (node.name, outlet)

/-- The names a node's links and references need. -/
def needed (node : Node) : List String :=
  (node.body.links.filterMap fun (_, link) =>
    match link with
    | some (.node name) => some name
    | _ => none) ++ node.body.references

/-- A mistake for every link and reference to a name no node bears. -/
def missingLabels (story : Story) : List Diagnostic :=
  story.nodes.flatMap fun node =>
    ((needed node).filter fun name => !story.contains name).map fun name =>
      ⟨node.pos, .noLabel name⟩

/-- Live nodes in the order of their names. -/
def sorted (story : Story) : List Node :=
  story.nodes.mergeSort fun a b => decide (a.name ≤ b.name)

end Story

end Storyline
