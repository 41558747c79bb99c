import Storyline.Script.Basic
import Storyline.Story.Basic

namespace Storyline

def Diagnostic.outline (d : Diagnostic) : Diagnostic := ⟨d.pos, .note ""⟩

def Content.outline : Content → Content
  | text _ lift drop => text "" lift drop
  | cue _ => cue ""
  | c => c

def Terms.outline (terms : Terms) : Terms := { terms with keywords := [] }

mutual

def Item.outline : Item → Item
  | .report d => .report d.outline
  | .content pos c => .content pos c.outline
  | .loop pos body => .loop pos (Script.outline body)
  | .define pos name params seen body => .define pos name params seen (Script.outline body)
  | .jump pos condition yes no => .jump pos condition (Script.outline yes) (Script.outline no)
  | .switch pos selection cases => .switch pos selection (Script.outlineCases cases)
  | .option pos leader terms parts =>
    .option pos leader terms.outline (Script.outlineParts parts)
  | i => i

def Script.outline : List Item → List Item
  | [] => []
  | i :: rest => i.outline :: Script.outline rest

def Script.outlineCases : List Case → List Case
  | [] => []
  | .mk weight body :: rest => .mk weight (Script.outline body) :: Script.outlineCases rest

def Script.outlineParts : List Segment → List Segment
  | [] => []
  | .mk pos role body :: rest => .mk pos role (Script.outline body) :: Script.outlineParts rest

end

theorem Script.outline_append (a b : List Item) :
    Script.outline (a ++ b) = Script.outline a ++ Script.outline b := by
  induction a with
  | nil => rfl
  | cons i rest ih => simp only [List.cons_append, Script.outline, ih]

namespace Body

def outline : Body → Body
  | content c next => content c.outline next
  | option question answer _ next => option question answer [] next
  | body => body

variable (body : Body)

theorem kind_outline : body.outline.kind = body.kind := by
  cases body with
  | content c next => cases c <;> rfl
  | _ => rfl

theorem links_outline : body.outline.links = body.links := by
  cases body <;> rfl

theorem references_outline : body.outline.references = body.references := by
  cases body <;> rfl

theorem exprs_outline : body.outline.exprs = body.exprs := by
  cases body with
  | content c next => cases c <;> rfl
  | _ => rfl

theorem link?_outline (outlet : Outlet) : body.outline.link? outlet = body.link? outlet := by
  cases body <;> cases outlet <;> rfl

theorem outline_setLink (outlet : Outlet) (link : Link) :
    (body.setLink outlet link).outline = body.outline.setLink outlet link := by
  cases body with
  | switch mode counter value branches weights next => cases mode <;> cases outlet <;> rfl
  | _ => cases outlet <;> rfl

theorem outline_withThreads (question answer : List String) :
    (body.withThreads question answer).outline = body.outline.withThreads question answer := by
  cases body <;> rfl

end Body

def Node.outline (node : Node) : Node := { node with body := node.body.outline }

theorem Node.outline_eq_iff {a b : Node} : a.outline = b.outline ↔
    a.name = b.name ∧ a.body.outline = b.body.outline ∧ a.pos = b.pos := by
  simp only [Node.outline, Node.mk.injEq]

def Slot.outline : Slot → Slot
  | settled node => settled node.outline
  | placeholder node => placeholder node.outline
  | slot => slot

def Story.outline (story : Story) : Story where
  start := story.start
  slots := story.slots.map Slot.outline
  diagnostics := story.diagnostics.map Diagnostic.outline

theorem Story.outline_eq_iff {a b : Story} : a.outline = b.outline ↔ a.start = b.start ∧
    a.slots.map Slot.outline = b.slots.map Slot.outline ∧
    a.diagnostics.map Diagnostic.outline = b.diagnostics.map Diagnostic.outline := by
  simp only [Story.outline, Story.mk.injEq]

end Storyline
