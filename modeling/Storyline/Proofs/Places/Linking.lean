import Storyline.Proofs.Slots
import Storyline.Compile
import Storyline.Proofs.Places.Unplaced

namespace Storyline.Build

variable {α β : Type}

/-- What a run came to, with no position left in the story. -/
def unplacedResult : EStateM.Result BuildError Story α → EStateM.Result BuildError Story α
  | .ok a story => .ok a story.unplaced
  | .error e story => .error e story.unplaced

/-- The second run does without positions what the first one does with them. -/
def Blind (m n : Build α) : Prop := ∀ story : Story, n story.unplaced = unplacedResult (m story)

namespace Blind

variable {m n : Build α}

theorem pure (a : α) : Blind (pure a : Build α) (pure a) := fun _ => rfl

theorem bind {f g : α → Build β} (h : Blind m n) (hfg : ∀ a, Blind (f a) (g a)) :
    Blind (m >>= f) (n >>= g) := by
  intro story
  change EStateM.bind n g story.unplaced = unplacedResult (EStateM.bind m f story)
  unfold EStateM.bind
  rw [h story]
  cases m story with
  | ok a after => exact hfg a after
  | error e after => rfl

/-- A run may look at all of the story but its positions. -/
theorem story_bind {f g : Story → Build α}
    (h : ∀ story : Story, g story.unplaced story.unplaced = unplacedResult (f story story)) :
    Blind (Build.story >>= f) (Build.story >>= g) := h

theorem report (pos : Position) (mistake : Mistake) :
    Blind (report pos mistake) (report default mistake.unplaced) := by
  intro story
  simp only [Build.report, unplacedResult, Story.unplaced, Array.map_push, Diagnostic.unplaced]

theorem check : Blind check check := by
  intro story
  have h : story.unplaced.diagnostics ++ story.unplaced.missingLabels =
      (story.diagnostics ++ story.missingLabels).map Diagnostic.unplaced := by
    rw [story.missingLabels_unplaced]
    apply Array.toList_inj.mp
    simp [Story.unplaced]
  simp only [Build.check, unplacedResult, h]
  rfl

theorem unplaced_addLast (story : Story) (slot : Slot) :
    (story.addLast slot).unplaced = story.unplaced.addLast slot.unplaced := by
  simp only [Story.addLast, Story.unplaced, Array.map_push]

theorem unplaced_setSlot (story : Story) (id : NodeId) (slot : Slot) :
    (story.setSlot id slot).unplaced = story.unplaced.setSlot id slot.unplaced := by
  simp only [Story.setSlot, Story.unplaced, Array.map_setIfInBounds]

theorem slot_unplaced (story : Story) (id : NodeId) :
    story.unplaced.slots[id]? = story.slots[id]?.map Slot.unplaced := by
  simp only [Story.unplaced, Array.getElem?_map]

theorem size_unplaced (story : Story) : story.unplaced.slots.size = story.slots.size := by
  simp only [Story.unplaced, Array.size_map]

theorem addSlot (name : String) (slot : Slot) :
    Blind (addSlot name slot) (addSlot name slot.unplaced) := by
  intro story
  unfold Build.addSlot
  rw [story.find?_unplaced]
  cases story.find? name with
  | none =>
    have h := unplaced_addLast story slot
    simp only [size_unplaced]
    exact congrArg (EStateM.Result.ok story.slots.size) h.symm
  | some old =>
    have h := unplaced_addLast (story.setSlot old (.replaced name [])) slot
    rw [unplaced_setSlot] at h
    simp only [story.isPlaceholder_unplaced, size_unplaced]
    split
    · exact congrArg (EStateM.Result.ok story.slots.size) h.symm
    · rfl

theorem create (path : Path) (body : Body) (pos : Position) :
    Blind (create path body pos) (create path body default) :=
  addSlot path.name (.settled ⟨path.name, body, pos⟩)

theorem createPlaceholder (path : Path) (pos : Position) :
    Blind (createPlaceholder path pos) (createPlaceholder path default) :=
  addSlot path.name (.placeholder ⟨path.name, .goto none, pos⟩)

theorem discard (id : NodeId) : Blind (discard id) (discard id) := by
  intro story
  unfold Build.discard
  rw [slot_unplaced]
  cases story.slots[id]? with
  | none => rfl
  | some slot =>
    cases slot with
    | placeholder node =>
      have h := unplaced_setSlot story id (.discarded node.name [])
      exact congrArg (EStateM.Result.ok true) h.symm
    | _ => rfl

theorem modifyBody (id : NodeId) (f : Body → Body) :
    Blind (modifyBody id f) (modifyBody id f) := by
  intro story
  unfold Build.modifyBody
  rw [slot_unplaced]
  cases story.slots[id]? with
  | none => rfl
  | some slot =>
    cases slot with
    | settled node =>
      have h := unplaced_setSlot story id (.settled { node with body := f node.body })
      exact congrArg (EStateM.Result.ok true) h.symm
    | placeholder node =>
      have h := unplaced_setSlot story id (.placeholder { node with body := f node.body })
      exact congrArg (EStateM.Result.ok true) h.symm
    | _ => rfl

theorem tieNode_unplaced (node : Node) (outlet : Outlet) (target : Target) :
    tieNode node.unplaced outlet target = (tieNode node outlet target).map Slot.unplaced := by
  have hbody : node.unplaced.body = node.body := rfl
  unfold tieNode
  rw [hbody]
  cases node.body.link? outlet with
  | none => rfl
  | some link => cases link <;> rfl

theorem tieSlot_unplaced (slot : Slot) (outlet : Outlet) (target : Target) :
    tieSlot slot.unplaced outlet target = (tieSlot slot outlet target).map Slot.unplaced := by
  cases slot with
  | settled node => exact tieNode_unplaced node outlet target
  | placeholder node => exact tieNode_unplaced node outlet target
  | replaced name flows => rfl
  | discarded name flows => rfl

theorem tieEnd (target : Target) (loose : LooseEnd) :
    Blind (tieEnd target loose) (tieEnd target loose) := by
  intro story
  unfold Build.tieEnd
  rw [slot_unplaced]
  cases story.slots[loose.node]? with
  | none => rfl
  | some slot =>
    simp only [Option.map_some, tieSlot_unplaced]
    cases tieSlot slot loose.outlet target with
    | error e => rfl
    | ok tied =>
      have h := unplaced_setSlot story loose.node tied
      exact congrArg (EStateM.Result.ok ()) h.symm

theorem tie (target : Target) (ends : List LooseEnd) :
    Blind (tie target ends) (tie target ends) := by
  induction ends with
  | nil => exact pure ()
  | cons loose rest ih => exact (tieEnd target loose).bind fun _ => ih

theorem arrive (front : Front) (body : Body) (pos : Position) :
    Blind (arrive front body pos) (arrive front body default) := by
  apply (create front.path body pos).bind
  intro id
  exact (tie _ front.ends.rets).bind fun _ => pure id

theorem append (front : Front) (body : Body) (pos : Position) :
    Blind (append front body pos) (append front body default) :=
  (arrive front body pos).bind fun _ => pure _

theorem divert (front : Front) (target : Target) :
    Blind (divert front target) (divert front target) :=
  (tie target front.ends.rets).bind fun _ => pure _

theorem claim (name : String) (seen : Position) :
    Blind (claim name seen) (claim name default) := by
  apply story_bind
  intro story
  rw [story.isDefined_unplaced, story.freshLabel_unplaced]
  split
  · exact (report seen (.numericLabel name)).bind (fun _ => pure _) story
  split
  · exact (report seen (.definedTwice name)).bind (fun _ => pure _) story
  · rfl

theorem enterLabel (front : Front) (name : String) (seen pos : Position) :
    Blind (enterLabel front name seen pos) (enterLabel front name default default) := by
  apply (claim name seen).bind
  intro label
  apply (createPlaceholder (.root label) pos).bind
  intro entry
  exact (tie _ front.ends.rets).bind fun _ => pure _

theorem guards (pos : Position) (conditions : List Expr) (path : Path) (rets : List LooseEnd) :
    Blind (guards pos conditions path rets) (guards default conditions path rets) := by
  induction conditions generalizing path rets with
  | nil => exact pure _
  | cons guard rest ih =>
    apply (arrive ⟨path, rets, []⟩ _ pos).bind
    intro id
    exact (ih path.next [nextEnd id]).bind fun _ => pure _

theorem chain (pos : Position) (assignments : List Assignment) (path : Path)
    (rets : List LooseEnd) :
    Blind (chain pos assignments path rets) (chain default assignments path rets) := by
  induction assignments generalizing path rets with
  | nil => exact pure _
  | cons assignment rest ih =>
    apply (arrive ⟨path, rets, []⟩ _ pos).bind
    intro id
    exact ih path.next [nextEnd id]

theorem consequences (pos : Position) (assignments : List Assignment) (draft : Draft) :
    Blind (consequences pos assignments draft) (consequences default assignments draft) := by
  unfold Build.consequences
  split
  · exact pure _
  · apply (chain pos assignments draft.path []).bind
    intro (path, rets)
    exact (tie .ret rets).bind fun _ => pure _

theorem fileSegment (role : Role) (isEmpty : Bool) (entry : NodeId) (draft : Draft) :
    Blind (fileSegment role isEmpty entry draft) (fileSegment role isEmpty entry draft) := by
  unfold Build.fileSegment
  split
  · exact (discard entry).bind fun _ => pure _
  · exact pure _

theorem settle (role : Role) (last : Bool) (entry : NodeId) (front : Front) (draft : Draft) :
    Blind (settle role last entry front draft) (settle role last entry front draft) := by
  apply story_bind
  intro story
  rw [story.isPlaceholder_unplaced]
  apply (fileSegment role _ entry draft).bind
  intro filed
  dsimp only
  split
  · exact pure _
  · exact (tie .ret front.ends.rets).bind fun _ => pure _

theorem conclude (pos : Position) (draft : Draft) :
    Blind (conclude pos draft) (conclude default draft) := by
  unfold Build.conclude
  split
  · exact pure _
  · exact (create draft.path (.goto none) pos).bind fun _ => pure _

theorem body_unplacedCases (selection : Selection) (path : Path) (found : List Case) :
    selection.body path (Script.unplacedCases found) = selection.body path found := by
  unfold Selection.body
  rw [Script.weight_unplacedCases, Script.length_unplacedCases, List.map_const', List.map_const',
    Script.length_unplacedCases]

mutual

/-- Linking an item without positions is linking it blindly. -/
theorem item (i : Item) (front : Front) : Blind (item i front) (item i.unplaced front) := by
  cases i with
  | report d => exact (report d.pos d.mistake).bind fun _ => pure _
  | cut => exact fun _ => rfl
  | passed left => exact pure _
  | content pos c => exact append front _ pos
  | ask pos => exact (arrive front .ask pos).bind fun _ => pure _
  | leave => exact divert front .ret
  | goto label => exact divert front (.node label)
  | call pos label args => exact (arrive front _ pos).bind fun _ => pure _
  | label pos name seen => exact enterLabel front name seen pos
  | loop pos body =>
    apply (createPlaceholder front.path pos).bind
    intro entry
    apply (tie _ front.ends.rets).bind
    intro _
    apply (thread body _).bind
    intro after
    exact (tie _ after.ends.rets).bind fun _ => pure _
  | define pos name params seen body =>
    apply (claim name seen).bind
    intro label
    apply (create (.root label) _ pos).bind
    intro id
    apply (thread body _).bind
    intro after
    apply (tie .ret after.ends.rets).bind
    intro _
    exact (tie .esc after.ends.escs).bind fun _ => pure _
  | jump pos condition yes no =>
    apply (arrive front _ pos).bind
    intro id
    apply (thread yes _).bind
    intro yes
    exact (thread no _).bind fun _ => pure _
  | switch pos selection found =>
    unfold Item.unplaced Build.item
    rw [body_unplacedCases]
    apply (arrive front _ pos).bind
    intro id
    exact (cases id 0 found front.path.firstChild).bind fun _ => pure _
  | option pos leader terms parts =>
    apply (guards pos _ front.path front.ends.rets).bind
    intro (path, rets, skips)
    apply (arrive ⟨path, rets, []⟩ _ pos).bind
    intro id
    apply (consequences pos _ _).bind
    intro draft
    apply (segments parts draft).bind
    intro draft
    apply (conclude pos draft).bind
    intro draft
    exact (modifyBody id _).bind fun _ => pure _

theorem thread (items : List Item) (front : Front) :
    Blind (thread items front) (thread (Script.unplaced items) front) := by
  cases items with
  | nil => exact pure _
  | cons i rest => exact (item i front).bind fun after => thread rest after

theorem cases (id : NodeId) (index : Nat) (found : List Case) (path : Path) :
    Blind (cases id index found path) (cases id index (Script.unplacedCases found) path) := by
  cases found with
  | nil => exact pure _
  | cons c rest =>
    obtain ⟨weight, body⟩ := c
    apply (thread body _).bind
    intro front
    exact (cases id (index + 1) rest front.path).bind fun _ => pure _

theorem segments (parts : List Segment) (draft : Draft) :
    Blind (segments parts draft) (segments (Script.unplacedParts parts) draft) := by
  cases parts with
  | nil => exact pure _
  | cons part rest =>
    obtain ⟨pos, role, body⟩ := part
    unfold Script.unplacedParts Build.segments
    rw [Script.isEmpty_unplacedParts]
    apply (createPlaceholder draft.path pos).bind
    intro entry
    apply (thread body _).bind
    intro front
    exact (settle role rest.isEmpty entry front draft).bind fun draft => segments rest draft

end

theorem whole (start : String) (pos : Position) (items : Script) :
    Blind (whole start pos items) (whole start default (Script.unplaced items)) :=
  (createPlaceholder (.root start) pos).bind fun _ => thread items _

theorem close (front : Front) : Blind (close front) (close front) := by
  apply (tie .ret front.ends.rets).bind
  intro _
  exact (tie .esc front.ends.escs).bind fun _ => check

end Blind

end Storyline.Build
