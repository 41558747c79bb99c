import Storyline.Script.Linking
import Storyline.Script.Thread
import Storyline.Story.Json

namespace Storyline

def Token.unplaced (t : Token) : Token := { t with pos := default }

namespace Mistake

def unplaced : Mistake → Mistake
  | missing wanted found => missing wanted found.unplaced
  | unclosed delimiter found => unclosed delimiter found.unplaced
  | unexpected found => unexpected found.unplaced
  | afterBracket found => afterBracket found.unplaced
  | mistake => mistake

/-- No message tells a position. -/
theorem message_unplaced (mistake : Mistake) : mistake.unplaced.message = mistake.message := by
  cases mistake <;> rfl

end Mistake

def Diagnostic.unplaced (d : Diagnostic) : Diagnostic := ⟨default, d.mistake.unplaced⟩

mutual

def Item.unplaced : Item → Item
  | .report d => .report d.unplaced
  | .cut => .cut
  | .passed left => .passed left
  | .content _ c => .content default c
  | .ask _ => .ask default
  | .leave => .leave
  | .goto label => .goto label
  | .call _ label args => .call default label args
  | .label _ name _ => .label default name default
  | .loop _ body => .loop default (Script.unplaced body)
  | .define _ name params _ body => .define default name params default (Script.unplaced body)
  | .jump _ condition yes no => .jump default condition (Script.unplaced yes) (Script.unplaced no)
  | .switch _ selection found => .switch default selection (Script.unplacedCases found)
  | .option _ leader terms parts => .option default leader terms (Script.unplacedParts parts)

def Script.unplaced : List Item → List Item
  | [] => []
  | i :: rest => i.unplaced :: Script.unplaced rest

def Script.unplacedCases : List Case → List Case
  | [] => []
  | .mk weight body :: rest => .mk weight (Script.unplaced body) :: Script.unplacedCases rest

def Script.unplacedParts : List Segment → List Segment
  | [] => []
  | .mk _ role body :: rest => .mk default role (Script.unplaced body) :: Script.unplacedParts rest

end

namespace Script

theorem unplaced_append (a b : List Item) : unplaced (a ++ b) = unplaced a ++ unplaced b := by
  induction a with
  | nil => rfl
  | cons i rest ih => simp only [List.cons_append, unplaced, ih]

theorem unplaced_reports (ds : List Diagnostic) :
    unplaced (ds.map .report) = (ds.map Diagnostic.unplaced).map .report := by
  induction ds with
  | nil => rfl
  | cons d ds ih => simp only [List.map_cons, unplaced, Item.unplaced, ih]

theorem length_unplacedCases (found : List Case) : (unplacedCases found).length = found.length := by
  induction found with
  | nil => rfl
  | cons c rest ih =>
    obtain ⟨weight, body⟩ := c
    simp only [unplacedCases, List.length_cons, ih]

theorem weight_unplacedCases (found : List Case) :
    (unplacedCases found).map Case.weight = found.map Case.weight := by
  induction found with
  | nil => rfl
  | cons c rest ih =>
    obtain ⟨weight, body⟩ := c
    simp only [unplacedCases, List.map_cons, Case.weight, ih]

theorem isEmpty_unplacedParts (parts : List Segment) :
    (unplacedParts parts).isEmpty = parts.isEmpty := by
  cases parts with
  | nil => rfl
  | cons part rest =>
    obtain ⟨pos, role, body⟩ := part
    rfl

theorem unplacedCases_padded (selection : Selection) (found : List Case) :
    unplacedCases (Selection.padded selection found) =
      Selection.padded selection (unplacedCases found) := by
  cases selection with
  | index e =>
    cases found with
    | nil => rfl
    | cons first rest =>
      cases first
      cases rest with
      | nil => rfl
      | cons second rest =>
        cases second
        rfl
  | _ => rfl

end Script

def Node.unplaced (node : Node) : Node := { node with pos := default }

def Slot.unplaced : Slot → Slot
  | settled node => settled node.unplaced
  | placeholder node => placeholder node.unplaced
  | slot => slot

def Story.unplaced (story : Story) : Story where
  start := story.start
  slots := story.slots.map Slot.unplaced
  diagnostics := story.diagnostics.map Diagnostic.unplaced

namespace Story

variable (story : Story) (name : String) (id : NodeId)

theorem node?_unplaced_slot (slot : Slot) :
    slot.unplaced.node? = slot.node?.map Node.unplaced := by
  cases slot <;> rfl

theorem find?_unplaced : story.unplaced.find? name = story.find? name := by
  unfold find? unplaced
  rw [Array.findIdx?_map]
  congr 1
  funext slot
  cases slot <;> rfl

theorem isPlaceholder_unplaced : story.unplaced.isPlaceholder id = story.isPlaceholder id := by
  unfold isPlaceholder unplaced
  rw [Array.getElem?_map]
  cases story.slots[id]? with
  | none => rfl
  | some slot => cases slot <;> rfl

theorem isDefined_unplaced : story.unplaced.isDefined name = story.isDefined name := by
  unfold isDefined
  simp only [find?_unplaced, isPlaceholder_unplaced]

theorem nodes_unplaced : story.unplaced.nodes = story.nodes.map Node.unplaced := by
  unfold nodes unplaced
  rw [Array.toList_map, List.filterMap_map, List.map_filterMap]
  congr 1
  funext slot
  exact node?_unplaced_slot slot

theorem names_unplaced : story.unplaced.names = story.names := by
  unfold names
  rw [nodes_unplaced, List.map_map]
  rfl

theorem freshLabel_unplaced : story.unplaced.freshLabel name = story.freshLabel name := by
  unfold freshLabel
  rw [names_unplaced]

theorem dangling_unplaced : story.unplaced.dangling = story.dangling := by
  unfold dangling
  rw [nodes_unplaced, List.flatMap_map]
  rfl

theorem missingLabels_unplaced :
    story.unplaced.missingLabels = story.missingLabels.map Diagnostic.unplaced := by
  unfold missingLabels contains
  simp only [nodes_unplaced, List.flatMap_map, find?_unplaced, List.map_flatMap, List.map_map]
  rfl

theorem messages_unplaced : (story.unplaced.diagnostics.map fun d => d.mistake.message) =
    story.diagnostics.map fun d => d.mistake.message := by
  simp [unplaced, Function.comp_def, Diagnostic.unplaced, Mistake.message_unplaced]

theorem sorted_unplaced : story.unplaced.sorted = story.sorted.map Node.unplaced := by
  unfold sorted
  rw [nodes_unplaced]
  exact (List.map_mergeSort (f := Node.unplaced) fun a _ b _ => rfl).symm

/-- Nothing of a position is in a story's text. -/
theorem json_unplaced : story.unplaced.json = story.json := by
  unfold json
  rw [sorted_unplaced, List.map_map]
  rfl

end Story

end Storyline
