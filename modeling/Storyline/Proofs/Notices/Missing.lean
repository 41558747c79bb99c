import Mathlib.Data.List.Forall2
import Storyline.Proofs.Ends.Outlets
import Storyline.Proofs.Slots

namespace Storyline

/-- Where a node mentions another by its name. -/
inductive Place where
  | link (outlet : Outlet)
  | reference (index : Nat)
deriving DecidableEq, Repr

/-- The body mentions the name at the place. -/
def Body.Mentions (body : Body) : Place → String → Prop
  | .link outlet, name => body.link? outlet = some (some (.node name))
  | .reference index, name => body.references[index]? = some name

/-- The name that the node in a slot mentions somewhere. -/
structure Mention where
  node : NodeId
  place : Place
  name : String

/-- The mistakes of the link check are those in the mentions of names that no node bears. -/
structure Story.Misses (story : Story) (missing : List Mention) (unmet : List Diagnostic) :
    Prop where
  /-- Each such mention is among them. -/
  complete : ∀ m : Mention, m ∈ missing ↔ ∃ node, story.node? m.node = some node ∧
    node.body.Mentions m.place m.name ∧ story.contains m.name = false
  /-- They are in the order of the nodes, and none of them is there twice. -/
  ordered : missing.Pairwise fun a b =>
    a.node < b.node ∨ a.node = b.node ∧ a.place ≠ b.place
  /-- Each is reported at its node. -/
  told : List.Forall₂ (fun m d => ∃ node, story.node? m.node = some node ∧
    d = ⟨node.pos, .noLabel m.name⟩) missing unmet

namespace Body

/-- What a link mentions, if it leads to a name. -/
def linkMention? (entry : Outlet × Link) : Option (Place × String) :=
  match entry.2 with
  | some (.node name) => some (.link entry.1, name)
  | _ => none

def mentions (body : Body) : List (Place × String) :=
  body.links.filterMap linkMention? ++
    body.references.zipIdx.map fun entry => (.reference entry.2, entry.1)

theorem linkMention?_eq_some {entry : Outlet × Link} {m : Place × String} :
    linkMention? entry = some m ↔ m.1 = .link entry.1 ∧ entry.2 = some (.node m.2) := by
  obtain ⟨outlet, link⟩ := entry
  obtain ⟨place, name⟩ := m
  unfold linkMention?
  match link with
  | some (.node other) => simp [eq_comm]
  | some .ret => simp
  | some .esc => simp
  | none => simp

theorem mem_mentions {body : Body} {place : Place} {name : String} :
    (place, name) ∈ body.mentions ↔ body.Mentions place name := by
  unfold mentions
  rw [List.mem_append, List.mem_filterMap, List.mem_map]
  simp only [linkMention?_eq_some]
  cases place with
  | link outlet => simp [Mentions, mem_links_iff]
  | reference index => simp [Mentions, List.mem_zipIdx_iff_getElem?]

/-- The names are those that the link check looks for. -/
theorem needed_eq (node : Node) : Story.needed node = node.body.mentions.map Prod.snd := by
  unfold Story.needed mentions
  rw [List.map_append, List.map_filterMap, List.map_map]
  refine congrArg₂ (· ++ ·) ?_ (List.zipIdx_map_fst 0 node.body.references).symm
  congr 1
  funext ⟨outlet, link⟩
  match link with
  | some (.node name) => rfl
  | some .ret => rfl
  | some .esc => rfl
  | none => rfl

/-- No place is there twice. -/
theorem mentions_pairwise (body : Body) : body.mentions.Pairwise fun a b => a.1 ≠ b.1 := by
  unfold mentions
  refine List.pairwise_append.mpr ⟨?_, ?_, ?_⟩
  · have hlinks : body.links.Pairwise fun a b => a.1 ≠ b.1 :=
      List.pairwise_map.mp body.nodup_outlets
    refine hlinks.filterMap linkMention? fun a b hne m hm m' hm' heq => hne ?_
    rw [(linkMention?_eq_some.mp hm).1, (linkMention?_eq_some.mp hm').1] at heq
    exact Place.link.inj heq
  · have hindices : body.references.zipIdx.Pairwise fun a b => a.2 ≠ b.2 := by
      have hrange : (body.references.zipIdx.map Prod.snd).Nodup := by
        rw [List.zipIdx_map_snd]
        exact List.nodup_range'
      exact List.pairwise_map.mp hrange
    exact List.pairwise_map.mpr (hindices.imp fun hne heq => hne (Place.reference.inj heq))
  · intro m hm m' hm' heq
    obtain ⟨entry, -, hentry⟩ := List.mem_filterMap.mp hm
    obtain ⟨entry', -, rfl⟩ := List.mem_map.mp hm'
    rw [(linkMention?_eq_some.mp hentry).1] at heq
    cases heq

end Body

namespace Story

variable {story : Story} {id : NodeId} {node : Node}

/-- The mentions of the node in a slot that a story does not know. -/
def missingIn (story : Story) (slot : Slot) (id : NodeId) : List Mention :=
  match slot.node? with
  | none => []
  | some node => (node.body.mentions.filter fun m => !story.contains m.2).map fun m => ⟨id, m.1, m.2⟩

/-- The mentions of names that no node of a story bears. -/
def missing (story : Story) : List Mention :=
  story.slots.toList.zipIdx.flatMap fun entry => story.missingIn entry.1 entry.2

theorem mem_missingIn {slot : Slot} {m : Mention} : m ∈ story.missingIn slot id ↔
    m.node = id ∧ ∃ node, slot.node? = some node ∧ node.body.Mentions m.place m.name ∧
      story.contains m.name = false := by
  unfold missingIn
  cases slot.node? with
  | none => simp
  | some node =>
    simp only [List.mem_map, List.mem_filter, Bool.not_eq_true', Prod.exists, Body.mem_mentions,
      Option.some.injEq, exists_eq_left']
    constructor
    · rintro ⟨place, name, ⟨hm, hc⟩, rfl⟩
      exact ⟨rfl, hm, hc⟩
    · rintro ⟨rfl, hm, hc⟩
      exact ⟨m.place, m.name, ⟨hm, hc⟩, rfl⟩

/-- The entries of a list with their places are those of the slots. -/
theorem mem_slots {entry : Slot × Nat} :
    entry ∈ story.slots.toList.zipIdx ↔ story.slots[entry.2]? = some entry.1 := by
  rw [List.mem_zipIdx_iff_getElem?, Array.getElem?_toList]

theorem mem_missing {m : Mention} : m ∈ story.missing ↔ ∃ node, story.node? m.node = some node ∧
    node.body.Mentions m.place m.name ∧ story.contains m.name = false := by
  unfold missing
  simp only [List.mem_flatMap, mem_slots, mem_missingIn]
  constructor
  · rintro ⟨⟨slot, id⟩, hs, rfl, node, hnode, hm⟩
    refine ⟨node, ?_, hm⟩
    simp [node?, hs, hnode]
  · rintro ⟨node, hnode, hm⟩
    obtain ⟨slot, hs, hlive⟩ := Option.bind_eq_some_iff.mp hnode
    exact ⟨(slot, m.node), hs, rfl, node, hlive, hm⟩

theorem missingIn_pairwise (slot : Slot) (id : NodeId) :
    (story.missingIn slot id).Pairwise fun a b => a.node = b.node ∧ a.place ≠ b.place := by
  unfold missingIn
  cases slot.node? with
  | none => exact .nil
  | some node =>
    have hapart := node.body.mentions_pairwise.filter fun m => !story.contains m.2
    exact List.pairwise_map.mpr (hapart.imp fun hne => ⟨rfl, hne⟩)

theorem missing_pairwise (story : Story) : story.missing.Pairwise fun a b =>
    a.node < b.node ∨ a.node = b.node ∧ a.place ≠ b.place := by
  have hids : story.slots.toList.zipIdx.Pairwise fun a b => a.2 < b.2 := by
    have hrange : (story.slots.toList.zipIdx.map Prod.snd).Pairwise (· < ·) := by
      rw [List.zipIdx_map_snd]
      exact List.pairwise_lt_range'
    exact List.pairwise_map.mp hrange
  refine List.pairwise_flatMap.mpr ⟨fun entry _ => ?_, hids.imp fun hlt m hm m' hm' => ?_⟩
  · exact (missingIn_pairwise entry.1 entry.2).imp .inr
  · rw [(mem_missingIn.mp hm).1, (mem_missingIn.mp hm').1]
    exact .inl hlt

/-- What the link check reports of a node. -/
def unmetIn (story : Story) (node : Node) : List Diagnostic :=
  ((needed node).filter fun name => !story.contains name).map fun name => ⟨node.pos, .noLabel name⟩

theorem missingIn_told {slot : Slot} (hs : story.slots[id]? = some slot) :
    List.Forall₂ (fun m d => ∃ node, story.node? m.node = some node ∧
      d = ⟨node.pos, .noLabel m.name⟩)
      (story.missingIn slot id) (slot.node?.toList.flatMap story.unmetIn) := by
  unfold missingIn
  cases hnode : slot.node? with
  | none => exact .nil
  | some node =>
    have hlive : story.node? id = some node := by simp [node?, hs, hnode]
    have hunmet : (some node).toList.flatMap story.unmetIn =
        (node.body.mentions.filter fun m => !story.contains m.2).map fun m =>
          ⟨node.pos, .noLabel m.2⟩ := by
      simp only [Option.toList_some, List.flatMap_singleton, unmetIn, Body.needed_eq,
        List.filter_map, List.map_map]
      rfl
    rw [hunmet]
    refine List.forall₂_map_left_iff.mpr (List.forall₂_map_right_iff.mpr ?_)
    exact List.forall₂_same.mpr fun m _ => ⟨node, hlive, rfl⟩

/-- The link check goes through the slots and reports what is missing in each. -/
theorem missing_told (story : Story) : List.Forall₂ (fun m d => ∃ node,
    story.node? m.node = some node ∧ d = ⟨node.pos, .noLabel m.name⟩)
    story.missing story.missingLabels := by
  have hlabels : story.missingLabels =
      story.slots.toList.flatMap fun slot => slot.node?.toList.flatMap story.unmetIn := by
    unfold missingLabels nodes
    rw [List.filterMap_eq_flatMap_toList, List.flatMap_assoc]
    rfl
  have hslots : List.Forall₂ (fun entry slot => entry.1 = slot ∧ story.slots[entry.2]? = some slot)
      story.slots.toList.zipIdx (story.slots.toList.zipIdx.map Prod.fst) :=
    List.forall₂_map_right_iff.mpr (List.forall₂_same.mpr fun entry he => ⟨rfl, mem_slots.mp he⟩)
  rw [List.zipIdx_map_fst] at hslots
  rw [hlabels]
  refine List.rel_flatMap hslots fun entry slot ⟨heq, hs⟩ => ?_
  rw [heq]
  exact missingIn_told hs

/-- The link check reports the mentions of names that no node bears, and nothing else. -/
theorem misses (story : Story) : story.Misses story.missing story.missingLabels :=
  ⟨fun _ => mem_missing, story.missing_pairwise, story.missing_told⟩

end Story

end Storyline
