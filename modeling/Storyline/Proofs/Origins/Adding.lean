import Storyline.Proofs.Meaning.Growth
import Storyline.Proofs.Targets.Known

namespace Storyline

/-- The name of the node that lives in a slot or lived there. -/
def Slot.name : Slot → String
  | settled node => node.name
  | placeholder node => node.name
  | replaced name _ => name
  | discarded name _ => name

theorem Slot.name_of_node? {slot : Slot} {node : Node} (h : slot.node? = some node) :
    slot.name = node.name := by
  cases slot with
  | settled found =>
    obtain rfl := Option.some.inj h
    rfl
  | placeholder found =>
    obtain rfl := Option.some.inj h
    rfl
  | replaced name flows => cases h
  | discarded name flows => cases h

/-- The `next` of a switch that is no pick. It is none of the node's links. -/
def Body.unusedNext : Body → Link
  | switch .pick _ _ _ _ _ => none
  | switch _ _ _ _ _ next => next
  | _ => none

theorem Body.unusedNext_setLink (body : Body) (outlet : Outlet) (link : Link) :
    (body.setLink outlet link).unusedNext = body.unusedNext := by
  cases body with
  | switch mode counter value branches weights next => cases mode <;> cases outlet <;> rfl
  | _ => cases outlet <;> rfl

theorem Body.unusedNext_withThreads (question answer : List String) (body : Body) :
    (body.withThreads question answer).unusedNext = body.unusedNext := by
  cases body <;> rfl

namespace Story

/-- A slot from `base` on bears the name, or bore it. -/
def Bears (base : Nat) (story : Story) (name : String) : Prop :=
  ∃ id slot, base ≤ id ∧ story.slots[id]? = some slot ∧ slot.name = name

/-- Where a link may lead that is tied to a target. -/
inductive Confined (base : Nat) (asked : String → Prop) (story : Story) : Target → Prop where
  | ret : Confined base asked story .ret
  | esc : Confined base asked story .esc
  | born {name : String} (h : story.Bears base name) : Confined base asked story (.node name)
  | asked {name : String} (h : asked name) : Confined base asked story (.node name)

/-- No slot is lost, and none changes its name. -/
def NamesLast (story after : Story) : Prop :=
  ∀ (id : NodeId) (slot : Slot), story.slots[id]? = some slot →
    ∃ slot', after.slots[id]? = some slot' ∧ slot'.name = slot.name

theorem NamesLast.refl (story : Story) : story.NamesLast story := fun _ slot h => ⟨slot, h, rfl⟩

theorem NamesLast.trans {story mid after : Story} (h : story.NamesLast mid)
    (h' : mid.NamesLast after) : story.NamesLast after := by
  intro id slot hs
  obtain ⟨slot', hs', hname⟩ := h id slot hs
  obtain ⟨slot'', hs'', hname'⟩ := h' id slot' hs'
  exact ⟨slot'', hs'', hname'.trans hname⟩

theorem NamesLast.size_le {story after : Story} (h : story.NamesLast after) :
    story.slots.size ≤ after.slots.size := by
  by_contra hlt
  have hlast : after.slots.size < story.slots.size := Nat.lt_of_not_le hlt
  obtain ⟨slot, hs, -⟩ := h after.slots.size _ (Array.getElem?_eq_getElem hlast)
  exact absurd (Array.getElem?_eq_some_iff.mp hs).1 (Nat.lt_irrefl _)

theorem NamesLast.addLast (story : Story) (slot : Slot) : story.NamesLast (story.addLast slot) := by
  intro id old hs
  refine ⟨old, ?_, rfl⟩
  rw [slot_addLast, if_neg (Nat.ne_of_lt (Array.getElem?_eq_some_iff.mp hs).1)]
  exact hs

theorem NamesLast.setSlot {story : Story} {id : NodeId} {old new : Slot}
    (hs : story.slots[id]? = some old) (hname : new.name = old.name) :
    story.NamesLast (story.setSlot id new) := by
  intro other slot ho
  rw [slot_setSlot new (Array.getElem?_eq_some_iff.mp hs).1]
  split
  · next he =>
    subst he
    rw [hs] at ho
    cases ho
    exact ⟨new, rfl, hname⟩
  · exact ⟨slot, ho, rfl⟩

variable {base : Nat} {asked : String → Prop} {story mid after : Story}

theorem Bears.later {name : String} (h : story.Bears base name) (hl : story.NamesLast after) :
    after.Bears base name := by
  obtain ⟨id, slot, hid, hs, hname⟩ := h
  obtain ⟨slot', hs', hname'⟩ := hl id slot hs
  exact ⟨id, slot', hid, hs', hname'.trans hname⟩

theorem Confined.later {target : Target} (h : Confined base asked story target)
    (hl : story.NamesLast after) : Confined base asked after target := by
  cases h with
  | ret => exact .ret
  | esc => exact .esc
  | born h => exact .born (h.later hl)
  | asked h => exact .asked h

end Story

/-- Links of the node were tied, and led where they may. -/
structure Node.Ties (confined : Target → Prop) (was node : Node) : Prop where
  name : node.name = was.name
  pos : node.pos = was.pos
  grows : was.body.Grows node.body
  unused : node.body.unusedNext = was.body.unusedNext
  links : ∀ outlet target, node.body.link? outlet = some (some target) →
    was.body.link? outlet = some (some target) ∨ confined target

namespace Node.Ties

variable {confined confined' : Target → Prop} {was node found : Node}

theorem refl (confined : Target → Prop) (node : Node) : node.Ties confined node :=
  ⟨rfl, rfl, .refl node.body, rfl, fun _ _ => .inl⟩

theorem mono (h : was.Ties confined node) (ha : ∀ target, confined target → confined' target) :
    was.Ties confined' node :=
  ⟨h.name, h.pos, h.grows, h.unused,
    fun outlet target hl => (h.links outlet target hl).imp_right (ha target)⟩

theorem trans (h : was.Ties confined node) (h' : node.Ties confined found) : was.Ties confined found where
  name := h'.name.trans h.name
  pos := h'.pos.trans h.pos
  grows := h.grows.trans h'.grows
  unused := h'.unused.trans h.unused
  links outlet target hl := (h'.links outlet target hl).elim (h.links outlet target) .inr

theorem setLink {outlet : Outlet} {target : Target} (hl : node.body.link? outlet = some none)
    (ht : confined target) :
    node.Ties confined { node with body := node.body.setLink outlet (some target) } where
  name := rfl
  pos := rfl
  grows := Body.grows_setLink target hl
  unused := Body.unusedNext_setLink node.body outlet _
  links other found hf := (Body.link?_setLink hl hf).imp_right fun he => by rwa [he]

/-- A node tied at its empty option goes on as that option with threads. -/
theorem withThreads {name : String} {pos : Position} {keywords : List String} (question answer : List String)
    (h : Node.Ties confined ⟨name, .option [] [] keywords none, pos⟩ node) :
    Node.Ties confined ⟨name, .option question answer keywords none, pos⟩
      { node with body := node.body.withThreads question answer } where
  name := h.name
  pos := h.pos
  grows := by
    obtain ⟨next, hbody⟩ : ∃ next, node.body = .option [] [] keywords next := by
      have hs := h.grows.same
      cases hb : node.body <;> simp only [hb, Body.cleared, Body.option.injEq, reduceCtorEq] at hs
      exact ⟨_, by rw [hs.1, hs.2.1, hs.2.2.1]⟩
    refine ⟨by simp only [hbody, Body.withThreads, Body.cleared], fun outlet target hl => ?_⟩
    cases outlet <;> simp [Body.link?] at hl
  unused := (Body.unusedNext_withThreads question answer node.body).trans h.unused
  links outlet target hl := by
    rw [Body.link?_withThreads] at hl
    rcases h.links outlet target hl with hf | ha
    · cases outlet <;> simp [Body.link?] at hf
    · exact .inr ha

end Node.Ties

/-- The node is one that may be written, with links tied since. -/
def Node.Born (made : String → Position → Body → Prop) (confined : Target → Prop) (node : Node) : Prop :=
  ∃ was : Node, made was.name was.pos was.body ∧ was.Ties confined node

namespace Story

/-- What a run adds to a story. -/
structure Adds (base : Nat) (made : String → Position → Body → Prop) (asked : String → Prop)
    (story after : Story) : Prop where
  names : story.NamesLast after
  old : ∀ id node, id < story.slots.size → after.node? id = some node →
    ∃ was, story.node? id = some was ∧ was.Ties (Confined base asked after) node
  new : ∀ id node, story.slots.size ≤ id → after.node? id = some node →
    node.Born made (Confined base asked after)

variable {base : Nat} {made made' : String → Position → Body → Prop} {asked : String → Prop}
  {story mid after : Story}

namespace Adds

/-- Nothing is added where every slot keeps its name and every node was there before. -/
theorem of_nodes (hn : story.NamesLast after)
    (hs : after.slots.size = story.slots.size)
    (ho : ∀ id node, after.node? id = some node →
      ∃ was, story.node? id = some was ∧ was.Ties (Confined base asked after) node) :
    Adds base made asked story after where
  names := hn
  old id node _ := ho id node
  new id node hid hnode := by
    have hlt := lt_size_of_node? hnode
    rw [hs] at hlt
    exact absurd hid (Nat.not_le.mpr hlt)

theorem refl (story : Story) : Adds base made asked story story :=
  of_nodes (.refl story) rfl fun _ node hn => ⟨node, hn, .refl _ node⟩

theorem trans (h : Adds base made asked story mid) (h' : Adds base made asked mid after) :
    Adds base made asked story after where
  names := h.names.trans h'.names
  old id node hid hn := by
    obtain ⟨found, hf, ht'⟩ := h'.old id node (Nat.lt_of_lt_of_le hid h.names.size_le) hn
    obtain ⟨was, hw, ht⟩ := h.old id found hid hf
    have hmono := ht.mono fun target ha => ha.later h'.names
    exact ⟨was, hw, hmono.trans ht'⟩
  new id node hid hn := by
    by_cases hlt : id < mid.slots.size
    · obtain ⟨found, hf, ht'⟩ := h'.old id node hlt hn
      obtain ⟨was, hmade, ht⟩ := h.new id found hid hf
      have hmono := ht.mono fun target ha => ha.later h'.names
      exact ⟨was, hmade, hmono.trans ht'⟩
    · exact h'.new id node (Nat.le_of_not_lt hlt) hn

theorem bears {name : String} (h : Adds base made asked story after) (hb : story.Bears base name) :
    after.Bears base name := hb.later h.names

/-- A node written at the end. -/
theorem addLast {slot : Slot} {node : Node} (hs : slot.node? = some node)
    (hm : made node.name node.pos node.body) :
    Adds base made asked story (story.addLast slot) where
  names := .addLast story slot
  old id found hid hf := by
    rw [node?_addLast, if_neg (Nat.ne_of_lt hid)] at hf
    exact ⟨found, hf, .refl _ found⟩
  new id found hid hf := by
    rw [node?_addLast] at hf
    split at hf
    · rw [hs] at hf
      obtain rfl := Option.some.inj hf
      exact ⟨node, hm, .refl _ node⟩
    · exact absurd (lt_size_of_node? hf) (Nat.not_lt.mpr hid)

/-- A slot that changes in place and whose node only ties links. -/
theorem setSlot {id : NodeId} {old new : Slot} (hs : story.slots[id]? = some old)
    (hname : new.name = old.name)
    (hn : ∀ node, new.node? = some node → ∃ was, old.node? = some was ∧
      was.Ties (Confined base asked (story.setSlot id new)) node) :
    Adds base made asked story (story.setSlot id new) := by
  refine of_nodes (.setSlot hs hname) (size_setSlot new) fun other node hf => ?_
  rw [node?_setSlot new (Array.getElem?_eq_some_iff.mp hs).1] at hf
  split at hf
  · next he =>
    subst he
    obtain ⟨was, hw, ht⟩ := hn node hf
    exact ⟨was, by simp [node?, hs, hw], ht⟩
  · exact ⟨node, hf, .refl _ node⟩

/-- A slot that is given up. -/
theorem emptied {id : NodeId} {old new : Slot} (hs : story.slots[id]? = some old)
    (hname : new.name = old.name) (hn : new.node? = none) :
    Adds base made asked story (story.setSlot id new) := by
  refine setSlot hs hname fun node hf => ?_
  rw [hn] at hf
  cases hf

end Adds

theorem Adds.mono (h : Adds base made asked story after)
    (hm : ∀ name pos body, made name pos body → made' name pos body) :
    Adds base made' asked story after where
  names := h.names
  old := h.old
  new id node hid hn := by
    obtain ⟨was, hmade, ht⟩ := h.new id node hid hn
    exact ⟨was, hm _ _ _ hmade, ht⟩

/-- Only the body of the node in one slot was changed. -/
structure Changes (id : NodeId) (f : Body → Body) (story after : Story) : Prop where
  names : story.NamesLast after
  here : ∀ node, after.node? id = some node → ∃ was, story.node? id = some was ∧
    node = { was with body := f was.body }
  others : ∀ other node, other ≠ id → after.node? other = some node → story.node? other = some node

theorem Changes.setSlot {id : NodeId} {f : Body → Body} {old new : Slot} {was : Node}
    (hs : story.slots[id]? = some old) (ho : old.node? = some was)
    (hn : new.node? = some { was with body := f was.body }) :
    Changes id f story (story.setSlot id new) := by
  have hlt := (Array.getElem?_eq_some_iff.mp hs).1
  have hname : new.name = old.name := by
    rw [Slot.name_of_node? hn, Slot.name_of_node? ho]
  refine ⟨.setSlot hs hname, fun node hf => ?_, fun other node hne hf => ?_⟩
  · rw [node?_setSlot new hlt, if_pos rfl, hn] at hf
    exact ⟨was, by simp [node?, hs, ho], (Option.some.inj hf).symm⟩
  · rw [node?_setSlot new hlt, if_neg hne] at hf
    exact hf

/-- An option is written without threads; given them once its parts are written, it is one that was
written with them. -/
theorem Adds.offer {last : Story} {name : String} {pos : Position}
    {question answer keywords : List String} (hsize : mid.slots.size = story.slots.size + 1)
    (hfirst : Adds base (fun name' pos' body =>
      name' = name ∧ pos' = pos ∧ body = .option [] [] keywords none) asked story mid)
    (hrest : Adds base made asked mid last)
    (hlast : Changes story.slots.size (Body.withThreads question answer) last after)
    (hm : made name pos (.option question answer keywords none)) :
    Adds base made asked story after := by
  have hboth := (hfirst.mono fun _ _ _ h => Or.inl h).trans (hrest.mono fun _ _ _ h => Or.inr h)
  have hlater (target : Target) (ha : Confined base asked last target) : Confined base asked after target :=
    ha.later hlast.names
  refine ⟨hboth.names.trans hlast.names, fun id node hid hn => ?_, fun id node hid hn => ?_⟩
  · have hf := hlast.others id node (Nat.ne_of_lt hid) hn
    obtain ⟨was, hw, ht⟩ := hboth.old id node hid hf
    exact ⟨was, hw, ht.mono hlater⟩
  by_cases he : id = story.slots.size
  · subst he
    obtain ⟨found, hf, rfl⟩ := hlast.here node hn
    obtain ⟨was, hw, ht'⟩ := hrest.old _ found (by omega) hf
    obtain ⟨⟨_, _, _⟩, ⟨rfl, rfl, rfl⟩, ht⟩ := hfirst.new _ was hid hw
    have hmono := ht.mono fun target ha => ha.later hrest.names
    have hties := ((hmono.trans ht').mono hlater).withThreads question answer
    exact ⟨_, hm, hties⟩
  · have hf := hlast.others id node he hn
    obtain ⟨was, hmade, ht⟩ := hrest.new id node (by omega) hf
    exact ⟨was, hmade, ht.mono hlater⟩

end Story

namespace Build

open Story

variable {α β : Type} {base : Nat} {made : String → Position → Body → Prop}
  {asked : String → Prop} {story : Story}

/-- If the run comes to an end it adds what may be added, and `Q` holds. -/
def Adding (base : Nat) (made : String → Position → Body → Prop) (asked : String → Prop)
    (Q : α → Story → Prop) (m : Build α) (story : Story) : Prop :=
  base ≤ story.slots.size →
    Yields Anything (fun a after => story.Adds base made asked after ∧ Q a after) m story

namespace Adding

theorem pure {Q : α → Story → Prop} {a : α} (h : Q a story) :
    Adding base made asked Q (pure a : Build α) story := fun _ => Yields.pure ⟨.refl story, h⟩

theorem bind {Q : α → Story → Prop} {R : β → Story → Prop} {m : Build α} {f : α → Build β}
    (hm : Adding base made asked Q m story)
    (hf : ∀ a mid, story.NamesLast mid → Q a mid → Adding base made asked R (f a) mid) :
    Adding base made asked R (m >>= f) story := by
  intro hbase
  refine Yields.bind (hm hbase) fun a mid ⟨hadds, ha⟩ => ?_
  have hmid : base ≤ mid.slots.size := Nat.le_trans hbase hadds.names.size_le
  refine Yields.mono (hf a mid hadds.names ha hmid) fun b after ⟨hadds', hb⟩ => ?_
  exact ⟨hadds.trans hadds', hb⟩

theorem mono {Q R : α → Story → Prop} {m : Build α} (hm : Adding base made asked Q m story)
    (h : ∀ a after, Q a after → R a after) : Adding base made asked R m story :=
  fun hbase => Yields.mono (hm hbase) fun a after ⟨hadds, hq⟩ => ⟨hadds, h a after hq⟩

end Adding

theorem addSlot_adding {name : String} {slot : Slot} {node : Node} (hs : slot.node? = some node)
    (hname : node.name = name) (hm : made node.name node.pos node.body) :
    Adding base made asked (fun _ after => after.Bears base name) (addSlot name slot) story := by
  intro hbase
  have bears (before : Story) (hb : base ≤ before.slots.size) :
      (before.addLast slot).Bears base name := by
    refine ⟨before.slots.size, slot, hb, ?_, (Slot.name_of_node? hs).trans hname⟩
    rw [slot_addLast, if_pos rfl]
  refine yields_addSlot (fun _ => ?_) (fun old was _ hold hwas => ?_) fun _ _ _ _ _ => trivial
  · exact ⟨.addLast hs hm, bears story hbase⟩
  · have hgave : story.Adds base made asked (story.setSlot old (.replaced name [])) :=
      .emptied hold hwas.symm rfl
    exact ⟨hgave.trans (.addLast hs hm), bears _ (by rwa [size_setSlot])⟩

theorem create_adding (path : Path) {body : Body} {pos : Position} (hm : made path.name pos body) :
    Adding base made asked (fun _ after => after.Bears base path.name) (create path body pos)
      story :=
  addSlot_adding rfl rfl hm

theorem placeholder_adding (path : Path) {pos : Position} (hm : made path.name pos (.goto none)) :
    Adding base made asked (fun _ after => after.Bears base path.name)
      (createPlaceholder path pos) story :=
  addSlot_adding rfl rfl hm

theorem report_adding (pos : Position) (mistake : Mistake) :
    Adding base made asked (fun _ _ => True) (report pos mistake) story := by
  intro _
  have hsame : story.Adds base made asked
      { story with diagnostics := story.diagnostics.push ⟨pos, mistake⟩ } :=
    .of_nodes (NamesLast.refl story) rfl fun _ node hn => ⟨node, hn, .refl _ node⟩
  exact yields_report ⟨hsame, trivial⟩

theorem tieEnd_adding {target : Target} (loose : LooseEnd) (ht : Confined base asked story target) :
    Adding base made asked (fun _ _ => True) (tieEnd target loose) story := by
  intro _
  refine yields_tieEnd ?_ ?_ ?_ ?_ (fun _ _ _ _ => trivial) fun _ _ _ => trivial
  · intro _
    exact ⟨.refl story, trivial⟩
  · intro name flows hs
    exact ⟨.emptied hs rfl rfl, trivial⟩
  · intro name flows hs
    exact ⟨.emptied hs rfl rfl, trivial⟩
  · intro node hn hl
    let tied : Node := { node with body := node.body.setLink loose.outlet (some target) }
    have hties (old : Slot) (hs : story.slots[loose.node]? = some old)
        (ho : old.node? = some node) :
        story.Adds base made asked (story.setSlot loose.node (.settled tied)) := by
      have hname : tied.name = old.name := (Slot.name_of_node? ho).symm
      refine .setSlot hs hname fun found hf => ⟨node, ho, ?_⟩
      obtain rfl := Option.some.inj hf
      have hnames : story.NamesLast (story.setSlot loose.node (.settled tied)) := .setSlot hs hname
      exact Node.Ties.setLink hl (ht.later hnames)
    rcases node?_eq_some_iff.mp hn with hs | hs
    · exact ⟨hties _ hs rfl, trivial⟩
    · exact ⟨hties _ hs rfl, trivial⟩

theorem tie_adding {target : Target} (ends : List LooseEnd) (ht : Confined base asked story target) :
    Adding base made asked (fun _ _ => True) (tie target ends) story := by
  induction ends generalizing story with
  | nil => exact .pure trivial
  | cons loose rest ih =>
    exact (tieEnd_adding loose ht).bind fun _ mid hl _ => ih (ht.later hl)

theorem discard_adding (id : NodeId) :
    Adding base made asked (fun _ _ => True) (discard id) story := by
  intro _
  refine yields_discard (fun node hs => ?_) fun _ => ⟨.refl story, trivial⟩
  exact ⟨.emptied hs rfl rfl, trivial⟩

theorem arrive_adding (front : Front) {body : Body} {pos : Position}
    (hm : made front.path.name pos body) :
    Adding base made asked (fun _ after => after.Bears base front.path.name)
      (arrive front body pos) story := by
  refine (create_adding front.path hm).bind fun id mid _ hb => ?_
  exact (tie_adding front.ends.rets (.born hb)).bind fun _ after hl _ => .pure (hb.later hl)

theorem tie_size (target : Target) (ends : List LooseEnd) :
    Yields Anything (fun _ after => after.slots.size = story.slots.size) (tie target ends) story := by
  induction ends generalizing story with
  | nil => exact Yields.pure rfl
  | cons loose rest ih =>
    have hend : Yields Anything (fun _ after => after.slots.size = story.slots.size)
        (tieEnd target loose) story :=
      yields_tieEnd (fun _ => rfl) (fun _ _ _ => size_setSlot _) (fun _ _ _ => size_setSlot _)
        (fun _ _ _ => size_setSlot _) (fun _ _ _ _ => trivial) fun _ _ _ => trivial
    exact Yields.bind hend fun _ mid h => ih.mono fun _ after h' => h'.trans h

/-- Writing a node takes the next slot. -/
theorem arrive_size (front : Front) (body : Body) (pos : Position) :
    Yields Anything (fun id after => id = story.slots.size ∧
      after.slots.size = story.slots.size + 1) (arrive front body pos) story := by
  have hadd : Yields Anything (fun id after => id = story.slots.size ∧
      after.slots.size = story.slots.size + 1) (create front.path body pos) story :=
    yields_addSlot (fun _ => ⟨rfl, size_addLast _⟩)
      (fun _ _ _ _ _ => ⟨rfl, by rw [size_addLast, size_setSlot]⟩) fun _ _ _ _ _ => trivial
  refine Yields.bind hadd fun id mid ⟨hid, hsize⟩ => ?_
  refine Yields.bind (tie_size _ front.ends.rets) fun _ after hs => Yields.pure ⟨hid, ?_⟩
  exact hs.trans hsize

theorem modifyBody_changes (id : NodeId) (f : Body → Body) :
    Yields Anything (fun _ => Changes id f story) (modifyBody id f) story := by
  refine yields_modifyBody (fun node hs => ?_) (fun node hs => ?_) fun hdead => ?_
  · exact .setSlot hs rfl rfl
  · exact .setSlot hs rfl rfl
  · refine ⟨.refl story, fun node hn => ?_, fun _ _ _ hn => hn⟩
    rw [hdead] at hn
    cases hn

end Build

end Storyline
