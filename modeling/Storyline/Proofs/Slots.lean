import Storyline.Proofs.Yields

namespace Storyline

namespace Story

variable {story : Story} {name : String} {id : NodeId} {node : Node}

theorem node?_eq_some_iff : story.node? id = some node ↔
    story.slots[id]? = some (.settled node) ∨ story.slots[id]? = some (.placeholder node) := by
  unfold node?
  cases h : story.slots[id]? with
  | none => simp
  | some slot => cases slot <;> simp [Slot.node?]

theorem lt_size_of_node? (h : story.node? id = some node) : id < story.slots.size := by
  rcases node?_eq_some_iff.mp h with h | h <;> exact (Array.getElem?_eq_some_iff.mp h).1

theorem exists_node?_of_mem (h : node ∈ story.nodes) : ∃ id, story.node? id = some node := by
  obtain ⟨slot, hs, hnode⟩ := List.mem_filterMap.mp h
  obtain ⟨id, hid, rfl⟩ := Array.getElem_of_mem (Array.mem_toList_iff.mp hs)
  exact ⟨id, by simp [node?, hid, hnode]⟩

theorem isPlaceholder_iff :
    story.isPlaceholder id = true ↔ ∃ node, story.slots[id]? = some (.placeholder node) := by
  unfold isPlaceholder
  cases h : story.slots[id]? with
  | none => simp
  | some slot => cases slot <;> simp [Slot.isPlaceholder]

theorem find?_eq_some (h : story.find? name = some id) :
    ∃ node, story.node? id = some node ∧ node.name = name := by
  obtain ⟨hlt, hname, -⟩ := Array.findIdx?_eq_some_iff_getElem.mp h
  obtain ⟨node, hn, hb⟩ := Option.any_eq_true _ _ |>.mp hname
  exact ⟨node, by simp [node?, hlt, hn], by simpa using hb⟩

theorem find?_eq_none_iff :
    story.find? name = none ↔ ∀ id node, story.node? id = some node → node.name ≠ name := by
  constructor
  · intro h id node hn he
    have hlt := lt_size_of_node? hn
    have := Array.findIdx?_eq_none_iff.mp h story.slots[id] (Array.getElem_mem hlt)
    simp only [node?, Array.getElem?_eq_getElem hlt, Option.bind_some] at hn
    simp [hn, he] at this
  · intro h
    refine Array.findIdx?_eq_none_iff.mpr fun slot hs => ?_
    obtain ⟨id, hlt, rfl⟩ := Array.getElem_of_mem hs
    cases hn : story.slots[id].node? with
    | none => rfl
    | some node =>
      have hne := h id node (by simp [node?, hlt, hn])
      simpa using hne

theorem contains_iff :
    story.contains name = true ↔ ∃ id node, story.node? id = some node ∧ node.name = name := by
  unfold contains
  cases h : story.find? name with
  | none =>
    have := find?_eq_none_iff.mp h
    simpa using fun id node hn => this id node hn
  | some id => simpa using ⟨id, find?_eq_some h⟩

/-- A slot added at the end. -/
def addLast (story : Story) (slot : Slot) : Story := { story with slots := story.slots.push slot }

/-- A slot changed in place. -/
def setSlot (story : Story) (id : NodeId) (slot : Slot) : Story :=
  { story with slots := story.slots.setIfInBounds id slot }

theorem size_addLast (slot : Slot) : (story.addLast slot).slots.size = story.slots.size + 1 := by
  simp [addLast]

theorem size_setSlot (slot : Slot) : (story.setSlot id slot).slots.size = story.slots.size := by
  simp [setSlot]

theorem slot_addLast (slot : Slot) (other : NodeId) : (story.addLast slot).slots[other]? =
    if other = story.slots.size then some slot else story.slots[other]? := by
  simp [addLast, Array.getElem?_push]

theorem slot_setSlot (slot : Slot) (h : id < story.slots.size) (other : NodeId) :
    (story.setSlot id slot).slots[other]? =
      if other = id then some slot else story.slots[other]? := by
  simp only [setSlot, Array.getElem?_setIfInBounds, h, if_true, eq_comm (a := id)]

theorem node?_addLast (slot : Slot) (other : NodeId) : (story.addLast slot).node? other =
    if other = story.slots.size then slot.node? else story.node? other := by
  unfold node?
  rw [slot_addLast]
  split <;> simp

theorem node?_setSlot (slot : Slot) (h : id < story.slots.size) (other : NodeId) :
    (story.setSlot id slot).node? other = if other = id then slot.node? else story.node? other := by
  unfold node?
  rw [slot_setSlot slot h]
  split <;> simp

end Story

namespace Build

/-- Why linking may stop: a name is taken, or the script is cut short. Both are no matter of links. -/
def IsNoLinkError : BuildError → Prop
  | .duplicateNode _ => True
  | .unfinished => True
  | .retied .. => False
  | .noSuchLink .. => False

variable {E : BuildError → Prop} {story : Story}

theorem yields_report {Q : Unit → Story → Prop} {pos : Position} {mistake : Mistake}
    (h : Q () { story with diagnostics := story.diagnostics.push ⟨pos, mistake⟩ }) :
    Yields E Q (report pos mistake) story := h

theorem yields_addSlot {Q : NodeId → Story → Prop} {name : String} {slot : Slot}
    (free : story.find? name = none → Q story.slots.size (story.addLast slot))
    (held : ∀ old node, story.find? name = some old → story.slots[old]? = some (.placeholder node) →
      node.name = name → Q story.slots.size ((story.setSlot old (.replaced name [])).addLast slot))
    (taken : ∀ old node, story.find? name = some old → story.slots[old]? = some (.settled node) →
      node.name = name → E (.duplicateNode name)) :
    Yields E Q (addSlot name slot) story := by
  unfold Yields addSlot
  cases hf : story.find? name with
  | none => exact free hf
  | some old =>
    obtain ⟨node, hn, hname⟩ := Story.find?_eq_some hf
    rcases Story.node?_eq_some_iff.mp hn with hs | hp
    · have : story.isPlaceholder old = false := by simp [Story.isPlaceholder, hs, Slot.isPlaceholder]
      simp only [this, Bool.false_eq_true, if_false]
      exact taken old node hf hs hname
    · have : story.isPlaceholder old = true := Story.isPlaceholder_iff.mpr ⟨node, hp⟩
      simp only [this, if_true]
      exact held old node hf hp hname

theorem yields_discard {Q : Bool → Story → Prop} {id : NodeId}
    (held : ∀ node, story.slots[id]? = some (.placeholder node) →
      Q true (story.setSlot id (.discarded node.name [])))
    (other : story.isPlaceholder id = false → Q false story) : Yields E Q (discard id) story := by
  unfold Yields discard
  cases hs : story.slots[id]? with
  | none => exact other (by simp [Story.isPlaceholder, hs])
  | some slot =>
    cases slot with
    | placeholder node => exact held node hs
    | _ => exact other (by simp [Story.isPlaceholder, hs, Slot.isPlaceholder])

theorem yields_modifyBody {Q : Bool → Story → Prop} {id : NodeId} {f : Body → Body}
    (settled : ∀ node, story.slots[id]? = some (.settled node) →
      Q true (story.setSlot id (.settled { node with body := f node.body })))
    (held : ∀ node, story.slots[id]? = some (.placeholder node) →
      Q true (story.setSlot id (.placeholder { node with body := f node.body })))
    (dead : story.node? id = none → Q false story) : Yields E Q (modifyBody id f) story := by
  unfold Yields modifyBody
  cases hs : story.slots[id]? with
  | none => exact dead (by simp [Story.node?, hs])
  | some slot =>
    cases slot with
    | settled node => exact settled node hs
    | placeholder node => exact held node hs
    | _ => exact dead (by simp [Story.node?, hs, Slot.node?])

/-- Tying an end of a live node is the only way `tieEnd` can fail; an end of a slot that was given up
is recorded there. -/
theorem yields_tieEnd {Q : Unit → Story → Prop} {target : Target} {loose : LooseEnd}
    (missing : story.slots.size ≤ loose.node → Q () story)
    (replaced : ∀ name flows, story.slots[loose.node]? = some (.replaced name flows) →
      Q () (story.setSlot loose.node (.replaced name (flows ++ [target]))))
    (discarded : ∀ name flows, story.slots[loose.node]? = some (.discarded name flows) →
      Q () (story.setSlot loose.node (.discarded name (flows ++ [target]))))
    (opened : ∀ node, story.node? loose.node = some node →
      node.body.link? loose.outlet = some none → Q () (story.setSlot loose.node
        (.settled { node with body := node.body.setLink loose.outlet (some target) })))
    (tied : ∀ node old, story.node? loose.node = some node →
      node.body.link? loose.outlet = some (some old) → E (.retied node.name loose.outlet))
    (absent : ∀ node, story.node? loose.node = some node →
      node.body.link? loose.outlet = none → E (.noSuchLink node.name loose.outlet)) :
    Yields E Q (tieEnd target loose) story := by
  have live (node : Node) (hn : story.node? loose.node = some node) :
      (∀ e, tieNode node loose.outlet target = .error e → E e) ∧
      ∀ slot, tieNode node loose.outlet target = .ok slot → Q () (story.setSlot loose.node slot) := by
    unfold tieNode
    cases hl : node.body.link? loose.outlet with
    | none =>
      refine ⟨fun e he => ?_, fun _ hs => by cases hs⟩
      obtain rfl := Except.error.inj he
      exact absent node hn hl
    | some link =>
      cases link with
      | none =>
        refine ⟨fun _ he => (by cases he), fun slot hs => ?_⟩
        obtain rfl := Except.ok.inj hs
        exact opened node hn hl
      | some old =>
        refine ⟨fun e he => ?_, fun _ hs => by cases hs⟩
        obtain rfl := Except.error.inj he
        exact tied node old hn hl
  unfold Yields tieEnd
  cases hs : story.slots[loose.node]? with
  | none => exact missing (by simpa using hs)
  | some slot =>
    cases slot with
    | settled node =>
      have hlive := live node (Story.node?_eq_some_iff.mpr (.inl hs))
      simp only [tieSlot]
      cases ht : tieNode node loose.outlet target with
      | error e => exact hlive.1 e ht
      | ok slot => exact hlive.2 slot ht
    | placeholder node =>
      have hlive := live node (Story.node?_eq_some_iff.mpr (.inr hs))
      simp only [tieSlot]
      cases ht : tieNode node loose.outlet target with
      | error e => exact hlive.1 e ht
      | ok slot => exact hlive.2 slot ht
    | replaced name flows => exact replaced name flows hs
    | discarded name flows => exact discarded name flows hs

end Build

end Storyline
