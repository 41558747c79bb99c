import Storyline.Proofs.Slots
import Storyline.Proofs.Wording.Outline

namespace Storyline

namespace Story

variable (story : Story) (name : String) (id : NodeId)

theorem node?_outline_slot (slot : Slot) : slot.outline.node? = slot.node?.map Node.outline := by
  cases slot <;> rfl

theorem find?_outline : story.outline.find? name = story.find? name := by
  unfold find? outline
  rw [Array.findIdx?_map]
  congr 1
  funext slot
  cases slot <;> rfl

theorem isPlaceholder_outline : story.outline.isPlaceholder id = story.isPlaceholder id := by
  unfold isPlaceholder outline
  rw [Array.getElem?_map]
  cases story.slots[id]? with
  | none => rfl
  | some slot => cases slot <;> rfl

theorem isDefined_outline : story.outline.isDefined name = story.isDefined name := by
  unfold isDefined
  simp only [find?_outline, isPlaceholder_outline]

theorem nodes_outline : story.outline.nodes = story.nodes.map Node.outline := by
  unfold nodes outline
  rw [Array.toList_map, List.filterMap_map, List.map_filterMap]
  congr 1
  funext slot
  exact node?_outline_slot slot

theorem names_outline : story.outline.names = story.names := by
  unfold names
  rw [nodes_outline, List.map_map]
  rfl

theorem freshLabel_outline : story.outline.freshLabel name = story.freshLabel name := by
  unfold freshLabel
  rw [names_outline]

theorem missingLabels_outline : story.outline.missingLabels = story.missingLabels := by
  have hneeded (node : Node) : needed node.outline = needed node := by
    unfold needed
    rw [show node.outline.body = node.body.outline from rfl, Body.links_outline,
      Body.references_outline]
  unfold missingLabels contains
  simp only [nodes_outline, List.flatMap_map, hneeded, find?_outline]
  rfl

theorem outline_addLast (slot : Slot) :
    (story.addLast slot).outline = story.outline.addLast slot.outline := by
  simp only [addLast, outline, Array.map_push]

theorem outline_setSlot (slot : Slot) :
    (story.setSlot id slot).outline = story.outline.setSlot id slot.outline := by
  simp only [setSlot, outline, Array.map_setIfInBounds]

variable {story} {other : Story}

theorem size_eq_of_outline (h : story.outline = other.outline) :
    story.slots.size = other.slots.size := by
  have hsize := congrArg (fun s => s.slots.size) h
  simpa only [outline, Array.size_map] using hsize

/-- A slot of the one is a slot of the other, of the same outline. -/
theorem slot_cases (h : story.outline = other.outline) (id : NodeId) :
    (story.slots[id]? = none ∧ other.slots[id]? = none) ∨ ∃ slot slot',
      story.slots[id]? = some slot ∧ other.slots[id]? = some slot' ∧
        slot.outline = slot'.outline := by
  have hslot : story.slots[id]?.map Slot.outline = other.slots[id]?.map Slot.outline := by
    have := congrArg (fun s => s.slots[id]?) h
    simpa only [outline, Array.getElem?_map] using this
  cases hs : story.slots[id]? with
  | none =>
    cases ho : other.slots[id]? with
    | none => exact .inl ⟨rfl, rfl⟩
    | some slot' =>
      rw [hs, ho] at hslot
      cases hslot
  | some slot =>
    cases ho : other.slots[id]? with
    | none =>
      rw [hs, ho] at hslot
      cases hslot
    | some slot' =>
      rw [hs, ho] at hslot
      exact .inr ⟨slot, slot', rfl, rfl, Option.some.inj hslot⟩

theorem outline_setSlot_eq (h : story.outline = other.outline) (id : NodeId) (slot slot' : Slot)
    (hs : slot.outline = slot'.outline) :
    (story.setSlot id slot).outline = (other.setSlot id slot').outline := by
  rw [outline_setSlot, outline_setSlot, h, hs]

theorem outline_addLast_eq (h : story.outline = other.outline) (slot slot' : Slot)
    (hs : slot.outline = slot'.outline) :
    (story.addLast slot).outline = (other.addLast slot').outline := by
  rw [outline_addLast, outline_addLast, h, hs]

theorem outline_diagnostics_eq (h : story.outline = other.outline) {ds es : Array Diagnostic}
    (hd : ds.map Diagnostic.outline = es.map Diagnostic.outline) :
    { story with diagnostics := ds }.outline = { other with diagnostics := es }.outline := by
  obtain ⟨hstart, hslots, -⟩ := outline_eq_iff.mp h
  exact outline_eq_iff.mpr ⟨hstart, hslots, hd⟩

end Story

namespace Build

variable {α β : Type}

/-- Both runs ended in the same result, with stories of the same outline, or failed alike. -/
inductive SameResult : EStateM.Result BuildError Story α → EStateM.Result BuildError Story α → Prop
  | ok (x : α) {a b : Story} (h : a.outline = b.outline) : SameResult (.ok x a) (.ok x b)
  | error (e : BuildError) {a b : Story} : SameResult (.error e a) (.error e b)

variable {r s t : EStateM.Result BuildError Story α}

theorem SameResult.symm (h : SameResult r s) : SameResult s r := by
  cases h with
  | ok x h => exact .ok x h.symm
  | error e => exact .error e

theorem SameResult.trans (h : SameResult r s) (h' : SameResult s t) : SameResult r t := by
  cases h with
  | ok x h =>
    cases h' with
    | ok _ h' => exact .ok x (h.trans h')
  | error e =>
    cases h' with
    | error _ => exact .error e

/-- The runs cannot be told apart from stories of the same outline. -/
def Same (m n : Build α) : Prop := ∀ a b : Story, a.outline = b.outline → SameResult (m a) (n b)

namespace Same

variable {m n l : Build α}

theorem symm (h : Same m n) : Same n m := fun a b hab => (h b a hab.symm).symm

theorem trans (h : Same m n) (h' : Same n l) : Same m l :=
  fun a b hab => (h a b hab).trans (h' b b rfl)

theorem pure (x : α) : Same (pure x : Build α) (pure x) := fun _ _ h => .ok x h

theorem bind {f g : α → Build β} (h : Same m n) (hfg : ∀ x, Same (f x) (g x)) :
    Same (m >>= f) (n >>= g) := by
  intro a b hab
  have hm := h a b hab
  change SameResult (EStateM.bind m f a) (EStateM.bind n g b)
  unfold EStateM.bind
  generalize m a = r at hm ⊢
  generalize n b = s at hm ⊢
  cases hm with
  | ok x hnext => exact hfg x _ _ hnext
  | error e => exact .error e

/-- A run may look at the story as far as its outline goes. -/
theorem story_bind {f g : Story → Build α} (h : ∀ a b : Story, a.outline = b.outline →
    SameResult (f a a) (g b b)) : Same (Build.story >>= f) (Build.story >>= g) := h

theorem report (pos : Position) (mistake mistake' : Mistake) :
    Same (report pos mistake) (report pos mistake') := by
  intro a b h
  refine .ok () (Story.outline_diagnostics_eq h ?_)
  rw [Array.map_push, Array.map_push, (Story.outline_eq_iff.mp h).2.2]
  rfl

theorem check : Same check check := by
  intro a b h
  refine .ok () (Story.outline_diagnostics_eq h ?_)
  rw [← a.missingLabels_outline, h, b.missingLabels_outline]
  have hd := congrArg Array.toList (Story.outline_eq_iff.mp h).2.2
  rw [Array.toList_map, Array.toList_map] at hd
  refine Array.toList_inj.mp ?_
  rw [Array.toList_map, Array.toList_map, Array.toList_appendList, Array.toList_appendList,
    List.map_append, List.map_append, hd]

theorem addSlot (name : String) {slot slot' : Slot} (hs : slot.outline = slot'.outline) :
    Same (addSlot name slot) (addSlot name slot') := by
  intro a b h
  unfold Build.addSlot
  rw [← a.find?_outline, h, b.find?_outline]
  cases b.find? name with
  | none =>
    rw [Story.size_eq_of_outline h]
    exact .ok _ (Story.outline_addLast_eq h slot slot' hs)
  | some old =>
    dsimp only
    rw [← a.isPlaceholder_outline, h, b.isPlaceholder_outline]
    split
    · have hold := Story.outline_setSlot_eq h old (.replaced name []) _ rfl
      rw [Story.size_eq_of_outline h]
      exact .ok _ (Story.outline_addLast_eq hold slot slot' hs)
    · exact .error _

theorem create (path : Path) {body body' : Body} (pos : Position)
    (hb : body.outline = body'.outline) :
    Same (create path body pos) (create path body' pos) :=
  addSlot path.name (congrArg Slot.settled (Node.outline_eq_iff.mpr ⟨rfl, hb, rfl⟩))

theorem createPlaceholder (path : Path) (pos : Position) :
    Same (createPlaceholder path pos) (createPlaceholder path pos) := addSlot path.name rfl

theorem discard (id : NodeId) : Same (discard id) (discard id) := by
  intro a b h
  unfold Build.discard
  rcases Story.slot_cases h id with ⟨ha, hb⟩ | ⟨slot, slot', ha, hb, hs⟩
  · rw [ha, hb]
    exact .ok _ h
  · rw [ha, hb]
    cases slot with
    | placeholder node =>
      cases slot' with
      | placeholder node' =>
        injection hs with hnode
        have hname := (Node.outline_eq_iff.mp hnode).1
        dsimp only
        rw [hname]
        exact .ok true (Story.outline_setSlot_eq h id _ _ rfl)
      | _ => cases hs
    | _ =>
      cases slot' with
      | placeholder node' => cases hs
      | _ => exact .ok _ h

theorem modifyBody (id : NodeId) {f g : Body → Body}
    (hfg : ∀ body body', body.outline = body'.outline → (f body).outline = (g body').outline) :
    Same (modifyBody id f) (modifyBody id g) := by
  intro a b h
  have hnode {node node' : Node} (hn : node.outline = node'.outline) :
      Node.outline { node with body := f node.body } =
        Node.outline { node' with body := g node'.body } := by
    obtain ⟨hname, hbody, hpos⟩ := Node.outline_eq_iff.mp hn
    exact Node.outline_eq_iff.mpr ⟨hname, hfg _ _ hbody, hpos⟩
  unfold Build.modifyBody
  rcases Story.slot_cases h id with ⟨ha, hb⟩ | ⟨slot, slot', ha, hb, hs⟩
  · rw [ha, hb]
    exact .ok _ h
  · rw [ha, hb]
    cases slot with
    | settled node =>
      cases slot' with
      | settled node' =>
        injection hs with hs
        exact .ok true (Story.outline_setSlot_eq h id _ _ (congrArg Slot.settled (hnode hs)))
      | _ => cases hs
    | placeholder node =>
      cases slot' with
      | placeholder node' =>
        injection hs with hs
        exact .ok true (Story.outline_setSlot_eq h id _ _ (congrArg Slot.placeholder (hnode hs)))
      | _ => cases hs
    | _ =>
      cases slot' with
      | settled node' => cases hs
      | placeholder node' => cases hs
      | _ => exact .ok _ h

theorem tieNode_outline (node : Node) (outlet : Outlet) (target : Target) :
    tieNode node.outline outlet target = (tieNode node outlet target).map Slot.outline := by
  unfold tieNode
  rw [show node.outline.body = node.body.outline from rfl, Body.link?_outline]
  cases node.body.link? outlet with
  | none => rfl
  | some link =>
    cases link with
    | none =>
      simp only [← Body.outline_setLink]
      rfl
    | some old => rfl

theorem tieSlot_outline (slot : Slot) (outlet : Outlet) (target : Target) :
    tieSlot slot.outline outlet target = (tieSlot slot outlet target).map Slot.outline := by
  cases slot with
  | settled node => exact tieNode_outline node outlet target
  | placeholder node => exact tieNode_outline node outlet target
  | replaced name flows => rfl
  | discarded name flows => rfl

theorem tieEnd (target : Target) (loose : LooseEnd) :
    Same (tieEnd target loose) (tieEnd target loose) := by
  intro a b h
  unfold Build.tieEnd
  rcases Story.slot_cases h loose.node with ⟨ha, hb⟩ | ⟨slot, slot', ha, hb, hs⟩
  · rw [ha, hb]
    exact .ok _ h
  · rw [ha, hb]
    dsimp only
    have ht : (tieSlot slot loose.outlet target).map Slot.outline =
        (tieSlot slot' loose.outlet target).map Slot.outline := by
      rw [← tieSlot_outline, hs, tieSlot_outline]
    cases hts : tieSlot slot loose.outlet target with
    | error e =>
      rw [hts] at ht
      cases hts' : tieSlot slot' loose.outlet target with
      | error e' =>
        rw [hts'] at ht
        cases ht
        exact .error e
      | ok tied' =>
        rw [hts'] at ht
        cases ht
    | ok tied =>
      rw [hts] at ht
      cases hts' : tieSlot slot' loose.outlet target with
      | error e' =>
        rw [hts'] at ht
        cases ht
      | ok tied' =>
        rw [hts'] at ht
        exact .ok () (Story.outline_setSlot_eq h loose.node _ _ (Except.ok.inj ht))

theorem tie (target : Target) (ends : List LooseEnd) :
    Same (tie target ends) (tie target ends) := by
  induction ends with
  | nil => exact .pure ()
  | cons loose rest ih => exact (tieEnd target loose).bind fun _ => ih

theorem arrive (front : Front) {body body' : Body} (pos : Position)
    (hb : body.outline = body'.outline) :
    Same (arrive front body pos) (arrive front body' pos) :=
  (create front.path pos hb).bind fun id => (tie _ front.ends.rets).bind fun _ => .pure id

theorem append (front : Front) {body body' : Body} (pos : Position)
    (hb : body.outline = body'.outline) :
    Same (append front body pos) (append front body' pos) :=
  (arrive front pos hb).bind fun _ => .pure _

theorem divert (front : Front) (target : Target) :
    Same (divert front target) (divert front target) :=
  (tie target front.ends.rets).bind fun _ => .pure _

theorem claim (name : String) (seen : Position) : Same (claim name seen) (claim name seen) := by
  refine story_bind fun a b h => ?_
  rw [← a.isDefined_outline, ← a.freshLabel_outline, h, b.isDefined_outline, b.freshLabel_outline]
  split
  · exact (report seen _ _).bind (fun _ => .pure _) a b h
  split
  · exact (report seen _ _).bind (fun _ => .pure _) a b h
  · exact .ok _ h

theorem enterLabel (front : Front) (name : String) (seen pos : Position) :
    Same (enterLabel front name seen pos) (enterLabel front name seen pos) :=
  (claim name seen).bind fun label => (createPlaceholder (.root label) pos).bind fun _ =>
    (tie _ front.ends.rets).bind fun _ => .pure _

theorem prompt (front : Front) (pos : Position) :
    Same (prompt front pos) (prompt front pos) :=
  (arrive front pos rfl).bind fun _ => .pure _

theorem call (front : Front) (label : String) (args : List Expr) (pos : Position) :
    Same (call front label args pos) (call front label args pos) :=
  (arrive front pos rfl).bind fun _ => .pure _

theorem guards (pos : Position) (conditions : List Expr) (path : Path) (rets : List LooseEnd) :
    Same (guards pos conditions path rets) (guards pos conditions path rets) := by
  induction conditions generalizing path rets with
  | nil => exact .pure _
  | cons guard rest ih =>
    exact (arrive ⟨path, rets, []⟩ pos rfl).bind fun id =>
      (ih path.next [nextEnd id]).bind fun _ => .pure _

theorem chain (pos : Position) (assignments : List Assignment) (path : Path)
    (rets : List LooseEnd) :
    Same (chain pos assignments path rets) (chain pos assignments path rets) := by
  induction assignments generalizing path rets with
  | nil => exact .pure _
  | cons assignment rest ih =>
    exact (arrive ⟨path, rets, []⟩ pos rfl).bind fun id => ih path.next [nextEnd id]

theorem consequences (pos : Position) (assignments : List Assignment) (draft : Draft) :
    Same (consequences pos assignments draft) (consequences pos assignments draft) := by
  unfold Build.consequences
  split
  · exact .pure _
  · exact (chain pos assignments draft.path []).bind fun _ => (tie .ret _).bind fun _ => .pure _

theorem fileSegment (role : Role) (isEmpty : Bool) (entry : NodeId) (draft : Draft) :
    Same (fileSegment role isEmpty entry draft) (fileSegment role isEmpty entry draft) := by
  unfold Build.fileSegment
  split
  · exact (discard entry).bind fun _ => .pure _
  · exact .pure _

theorem settle (role : Role) (last : Bool) (entry : NodeId) (front : Front) (draft : Draft) :
    Same (settle role last entry front draft) (settle role last entry front draft) := by
  refine story_bind fun a b h => ?_
  rw [← a.isPlaceholder_outline, h, b.isPlaceholder_outline]
  refine (fileSegment role _ entry draft).bind (fun filed => ?_) a b h
  dsimp only
  split
  · exact .pure _
  · exact (tie .ret front.ends.rets).bind fun _ => .pure _

theorem conclude (pos : Position) (draft : Draft) :
    Same (conclude pos draft) (conclude pos draft) := by
  unfold Build.conclude
  split
  · exact .pure _
  · exact (create draft.path pos rfl).bind fun _ => .pure _

theorem weight_outlineCases (found : List Case) :
    (Script.outlineCases found).map Case.weight = found.map Case.weight := by
  induction found with
  | nil => rfl
  | cons c rest ih =>
    obtain ⟨weight, body⟩ := c
    simp only [Script.outlineCases, List.map_cons, Case.weight, ih]

theorem length_outlineCases (found : List Case) :
    (Script.outlineCases found).length = found.length := by
  induction found with
  | nil => rfl
  | cons c rest ih =>
    obtain ⟨weight, body⟩ := c
    simp only [Script.outlineCases, List.length_cons, ih]

theorem body_outlineCases (selection : Selection) (path : Path) (found : List Case) :
    selection.body path (Script.outlineCases found) = selection.body path found := by
  unfold Selection.body
  rw [weight_outlineCases, length_outlineCases, List.map_const', List.map_const',
    length_outlineCases]

theorem isEmpty_outlineParts (parts : List Segment) :
    (Script.outlineParts parts).isEmpty = parts.isEmpty := by
  cases parts with
  | nil => rfl
  | cons part rest =>
    obtain ⟨pos, role, body⟩ := part
    rfl

theorem outline_ledBy (leader : Leader) (path : Path) (terms : Terms) :
    (terms.outline.ledBy leader path).guards = (terms.ledBy leader path).guards ∧
      (terms.outline.ledBy leader path).consequences =
        (terms.ledBy leader path).consequences := by
  cases leader <;> exact ⟨rfl, rfl⟩

mutual

/-- Linking an item is linking its outline. -/
theorem item (i : Item) (front : Front) : Same (item i front) (item i.outline front) := by
  cases i with
  | report d => exact (report d.pos d.mistake _).bind fun _ => .pure _
  | cut => exact fun _ _ _ => .error .unfinished
  | passed left => exact .pure _
  | content pos c =>
    refine append front pos ?_
    cases c <;> rfl
  | ask pos => exact prompt front pos
  | leave => exact divert front .ret
  | goto label => exact divert front (.node label)
  | call pos label args => exact call front label args pos
  | label pos name seen => exact enterLabel front name seen pos
  | loop pos body =>
    exact (createPlaceholder front.path pos).bind fun entry =>
      (tie _ front.ends.rets).bind fun _ => (thread body _).bind fun after =>
        (tie _ after.ends.rets).bind fun _ => .pure _
  | define pos name params seen body =>
    exact (claim name seen).bind fun label => (create (.root label) pos rfl).bind fun id =>
      (thread body _).bind fun after => (tie .ret after.ends.rets).bind fun _ =>
        (tie .esc after.ends.escs).bind fun _ => .pure _
  | jump pos condition yes no =>
    exact (arrive front pos rfl).bind fun id => (thread yes _).bind fun yes =>
      (thread no _).bind fun no => .pure _
  | switch pos selection found =>
    have hbody := body_outlineCases selection front.path found
    refine (arrive front pos (congrArg Body.outline hbody.symm)).bind fun id => ?_
    exact (cases id 0 found front.path.firstChild).bind fun after => .pure _
  | option pos leader terms parts =>
    obtain ⟨hguards, hconsequences⟩ := outline_ledBy leader front.path terms
    unfold Item.outline Build.item
    dsimp only
    rw [hguards, hconsequences]
    refine (guards pos _ front.path front.ends.rets).bind fun found => ?_
    obtain ⟨path, rets, skips⟩ := found
    have hkeywords : (Body.option [] [] (Body.wordSet (terms.ledBy leader front.path).keywords)
        none).outline = (Body.option [] [] (Body.wordSet
          (terms.outline.ledBy leader front.path).keywords) none).outline := rfl
    refine (arrive ⟨path, rets, []⟩ pos hkeywords).bind fun id => ?_
    refine (consequences pos _ _).bind fun draft => (segments parts draft).bind fun draft => ?_
    refine (conclude pos draft).bind fun draft => (modifyBody id ?_).bind fun _ => .pure _
    intro body body' hb
    rw [Body.outline_withThreads, Body.outline_withThreads, hb]

theorem thread (items : List Item) (front : Front) :
    Same (thread items front) (thread (Script.outline items) front) := by
  cases items with
  | nil => exact .pure _
  | cons i rest => exact (item i front).bind fun after => thread rest after

theorem cases (id : NodeId) (index : Nat) (found : List Case) (path : Path) :
    Same (cases id index found path) (cases id index (Script.outlineCases found) path) := by
  cases found with
  | nil => exact .pure _
  | cons c rest =>
    obtain ⟨weight, body⟩ := c
    exact (thread body _).bind fun front =>
      (cases id (index + 1) rest front.path).bind fun after => .pure _

theorem segments (parts : List Segment) (draft : Draft) :
    Same (segments parts draft) (segments (Script.outlineParts parts) draft) := by
  cases parts with
  | nil => exact .pure _
  | cons part rest =>
    obtain ⟨pos, role, body⟩ := part
    unfold Script.outlineParts Build.segments
    rw [isEmpty_outlineParts]
    exact (createPlaceholder draft.path pos).bind fun entry => (thread body _).bind fun front =>
      (settle role rest.isEmpty entry front draft).bind fun draft => segments rest draft

end

end Same

end Build

end Storyline
