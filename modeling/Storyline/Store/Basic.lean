import Storyline.Story.Edit
import Storyline.Story.Json

namespace Storyline

/-- Names and the slots they lead to. -/
abbrev Index := List (String × NodeId)

namespace Index

def remove (name : String) (index : Index) : Index := index.filter fun entry => entry.1 != name

/-- The name leads to this slot from now on. -/
def insert (name : String) (id : NodeId) (index : Index) : Index := (name, id) :: remove name index

theorem lookup_remove (name other : String) (index : Index) :
    (remove name index).lookup other = if other = name then none else index.lookup other := by
  induction index with
  | nil => simp [remove]
  | cons entry rest ih =>
    unfold remove at ih ⊢
    rw [List.filter_cons]
    by_cases hname : entry.1 = name
    · rw [if_neg (by simp [hname]), ih]
      by_cases hother : other = name
      · rw [if_pos hother, if_pos hother]
      · have hne : (other == entry.1) = false := by simp [hname, hother]
        rw [if_neg hother, if_neg hother, List.lookup_cons, hne]
    · rw [if_pos (by simp [hname]), List.lookup_cons, List.lookup_cons, ih]
      by_cases hother : other = entry.1
      · subst hother
        simp [hname]
      · have hne : (other == entry.1) = false := by simp [hother]
        rw [hne]

theorem lookup_insert (name other : String) (id : NodeId) (index : Index) :
    (insert name id index).lookup other =
      if other = name then some id else index.lookup other := by
  rw [insert, List.lookup_cons, lookup_remove]
  by_cases h : other = name
  · rw [if_pos h, if_pos h, beq_iff_eq.mpr h]
  · have hne : (other == name) = false := by simp [h]
    rw [if_neg h, if_neg h, hne]

end Index

/-- A story with an index, for many single changes. The index leads from a name to the slot of the
node that bears it, and the placeholders are noted apart; a change updates each of the three by
itself and never looks through the slots. -/
structure Store where
  /-- The label of the entry node. -/
  start : String
  /-- Nothing lives in the slot of a placeholder that gave way or was given up. -/
  slots : Array (Option Node)
  index : Index
  placeholders : List NodeId
  diagnostics : Array Diagnostic
deriving Repr, Inhabited

namespace Store

def empty (start : String) : Store := ⟨start, #[], [], [], #[]⟩

def node? (store : Store) (id : NodeId) : Option Node := store.slots[id]?.join

/-- Live nodes in the order they were written. -/
def nodes (store : Store) : List Node := store.slots.toList.filterMap id

def size (store : Store) : Nat := store.nodes.length

def names (store : Store) : List String := store.nodes.map Node.name

def lookup (store : Store) (name : String) : Option NodeId := store.index.lookup name

def get? (store : Store) (name : String) : Option Node := (store.lookup name).bind store.node?

def contains (store : Store) (name : String) : Bool := (store.lookup name).isSome

def isPlaceholder (store : Store) (id : NodeId) : Bool := store.placeholders.contains id

/-- A node that is no placeholder bears the name. -/
def isDefined (store : Store) (name : String) : Bool :=
  (store.lookup name).any fun id => !store.isPlaceholder id

/-- A name derived from `base` that the index does not have. -/
def freshLabel (store : Store) (base : String) : String :=
  Story.firstFree base (store.index.map Prod.fst) 2

/-- Links without a target, by the name of their node. -/
def dangling (store : Store) : List (String × Outlet) :=
  store.nodes.flatMap fun node =>
    (node.body.links.filter fun (_, link) => link.isNone).map fun (outlet, _) => (node.name, outlet)

/-- A mistake for every link and reference to a name the index does not have. -/
def missingLabels (store : Store) : List Diagnostic :=
  store.nodes.flatMap fun node =>
    ((Story.needed node).filter fun name => !store.contains name).map fun name =>
      ⟨node.pos, .noLabel name⟩

/-- A node at its place in a list ordered by name, instead of one that bears its name. -/
def insertNode (node : Node) : List Node → List Node
  | [] => [node]
  | other :: rest =>
    if node.name < other.name then node :: other :: rest
    else if node.name = other.name then node :: rest
    else other :: insertNode node rest

/-- Live nodes by name, in the order of their names. -/
def sorted (store : Store) : List Node :=
  store.nodes.foldl (fun found node => insertNode node found) []

def json (store : Store) : Json :=
  .object (store.sorted.map fun node => (node.name, node.json))

/-- A node in a slot of its own, which its name leads to. -/
def push (store : Store) (node : Node) : Store :=
  { store with
    slots := store.slots.push (some node)
    index := store.index.insert node.name store.slots.size }

/-- Another node, or none, in a slot. -/
def setSlot (store : Store) (id : NodeId) (node : Option Node) : Store :=
  { store with slots := store.slots.setIfInBounds id node }

def mark (store : Store) (id : NodeId) : Store :=
  { store with placeholders := store.placeholders.insert id }

/-- No placeholder lives in the slot any more. -/
def unmark (store : Store) (id : NodeId) : Store :=
  { store with placeholders := store.placeholders.filter (· != id) }

/-- The name leads nowhere, if it led to this slot. -/
def release (store : Store) (name : String) (id : NodeId) : Store :=
  if store.lookup name = some id then { store with index := store.index.remove name } else store

abbrev Change := EStateM BuildError Store

/-- Takes a slot off the placeholders, and says whether it was one of them. -/
def takeMark (id : NodeId) : Change Bool := fun store =>
  .ok (store.isPlaceholder id) (store.unmark id)

/-- Writes a node at a path. A placeholder of the same name gives way to it. -/
def create (path : Path) (body : Body) (pos : Position) : Change NodeId := do
  if let some old := (← get).lookup path.name then
    if !(← takeMark old) then throw (.duplicateNode path.name)
    modify (·.setSlot old none)
  let store ← get
  set (store.push ⟨path.name, body, pos⟩)
  return store.slots.size

/-- Keeps a path's name for the next node written there. -/
def createPlaceholder (path : Path) (pos : Position) : Change NodeId := do
  let id ← create path (.goto none) pos
  modify (·.mark id)
  return id

/-- Gives up a placeholder that nothing replaced or tied, and says whether there was one. -/
def discard (id : NodeId) : Change Bool := do
  if !(← takeMark id) then return false
  if let some node := (← get).node? id then
    modify fun store => (store.setSlot id none).release node.name id
  return true

/-- Ties a loose end, unless its node gave way. A placeholder is permanent from then on. -/
def tieEnd (target : Target) (loose : LooseEnd) : Change Unit := do
  if let some node := (← get).node? loose.node then
    match node.body.link? loose.outlet with
    | none => throw (.noSuchLink node.name loose.outlet)
    | some (some _) => throw (.retied node.name loose.outlet)
    | some none =>
      let tied := { node with body := node.body.setLink loose.outlet (some target) }
      modify fun store => (store.setSlot loose.node (some tied)).unmark loose.node

/-- Ties loose ends in order, up to the first that cannot be. -/
def tie (target : Target) : List LooseEnd → Change Unit
  | [] => pure ()
  | loose :: rest => do
    tieEnd target loose
    tie target rest

/-- Gives a live node another body, and says whether there was one. -/
def setBody (id : NodeId) (body : Body) : Change Bool := do
  match (← get).node? id with
  | none => return false
  | some node =>
    modify (·.setSlot id (some { node with body }))
    return true

def report (pos : Position) (mistake : Mistake) : Change Unit :=
  modify fun store => { store with diagnostics := store.diagnostics.push ⟨pos, mistake⟩ }

/-- Reports every link and reference to a name no node bears. -/
def check : Change Unit :=
  modify fun store => { store with diagnostics := store.diagnostics ++ store.missingLabels }

end Store

namespace Edit

def change : Edit → Store.Change Answer
  | create path body pos => return .created (← Store.create path body pos)
  | createPlaceholder path pos => return .created (← Store.createPlaceholder path pos)
  | discard id => return .changed (← Store.discard id)
  | tie target ends => do
    Store.tie target ends
    return .done
  | setBody id body => return .changed (← Store.setBody id body)
  | report pos mistake => do
    Store.report pos mistake
    return .done
  | check => do
    Store.check
    return .done

end Edit

namespace Store

/-- The store after a change; a change that fails midway keeps what it did before. -/
def apply (store : Store) (edit : Edit) : Except BuildError Edit.Answer × Store :=
  match edit.change store with
  | .ok answer after => (.ok answer, after)
  | .error e after => (.error e, after)

/-- The store after a history of changes, some of which may have failed. -/
def applyAll (store : Store) (edits : List Edit) : Store :=
  edits.foldl (fun store edit => (store.apply edit).2) store

end Store

end Storyline
