import Storyline.Proofs.Store.Consistent
import Storyline.Proofs.Slots
import Mathlib.Data.List.Nodup

namespace Storyline

namespace Story

variable {story : Story} {name : String}

/-- The placeholder that bears the name gives way. -/
def vacate (story : Story) (name : String) : Story :=
  match story.find? name with
  | none => story
  | some old => story.setSlot old (.replaced name [])

theorem addSlot_of_room (slot : Slot) (h : story.isDefined name = false) :
    Build.addSlot name slot story = .ok story.slots.size ((story.vacate name).addLast slot) := by
  unfold isDefined at h
  unfold Build.addSlot vacate
  cases hf : story.find? name with
  | none => rfl
  | some old =>
    have hp : story.isPlaceholder old = true := by simpa [hf] using h
    simp only [hp, if_true]
    rfl

theorem addSlot_of_taken (slot : Slot) (h : story.isDefined name = true) :
    Build.addSlot name slot story = .error (.duplicateNode name) story := by
  unfold isDefined at h
  obtain ⟨old, hf, hp⟩ := Option.any_eq_true _ _ |>.mp h
  have hp : story.isPlaceholder old = false := by simpa using hp
  simp only [Build.addSlot, hf, hp, Bool.false_eq_true, if_false]

theorem isPlaceholder_addLast (slot : Slot) (other : NodeId) :
    (story.addLast slot).isPlaceholder other =
      if other = story.slots.size then slot.isPlaceholder else story.isPlaceholder other := by
  unfold isPlaceholder
  rw [slot_addLast]
  split <;> rfl

theorem isPlaceholder_setSlot {id : NodeId} (slot : Slot) (h : id < story.slots.size)
    (other : NodeId) : (story.setSlot id slot).isPlaceholder other =
      if other = id then slot.isPlaceholder else story.isPlaceholder other := by
  unfold isPlaceholder
  rw [slot_setSlot slot h]
  split <;> rfl

end Story

namespace Store

/-- The store has the nodes, the placeholders and the mistakes of the story. -/
structure Shows (store : Store) (story : Story) : Prop where
  start : store.start = story.start
  slots : store.slots = story.slots.map Slot.node?
  placeholders : ∀ id, store.isPlaceholder id = story.isPlaceholder id
  diagnostics : store.diagnostics = story.diagnostics

namespace Shows

variable {store : Store} {story : Story} {name : String} {id : NodeId}

theorem empty (start : String) : Shows (empty start) (.empty start) where
  start := rfl
  slots := Array.map_empty.symm
  placeholders _ := rfl
  diagnostics := rfl

theorem size_slots (h : Shows store story) : store.slots.size = story.slots.size := by
  rw [h.slots, Array.size_map]

theorem node? (h : Shows store story) (id : NodeId) : store.node? id = story.node? id := by
  rw [Store.node?, Story.node?, h.slots, Array.getElem?_map]
  cases story.slots[id]? <;> rfl

theorem nodes (h : Shows store story) : store.nodes = story.nodes := by
  rw [Store.nodes, Story.nodes, h.slots, Array.toList_map, List.filterMap_map]
  rfl

/-- No two nodes share a name, so the first that is found is the one the index leads to. -/
theorem lookup (h : Shows store story) (c : Consistent store) (name : String) :
    store.lookup name = story.find? name := by
  cases hf : story.find? name with
  | none =>
    have hnone := Story.find?_eq_none_iff.mp hf
    refine Option.eq_none_iff_forall_ne_some.mpr fun id hl => ?_
    obtain ⟨node, hn, hname⟩ := (c.lookup_iff name id).mp hl
    exact hnone id node (h.node? id ▸ hn) hname
  | some id =>
    obtain ⟨node, hn, hname⟩ := Story.find?_eq_some hf
    exact (c.lookup_iff name id).mpr ⟨node, (h.node? id).trans hn, hname⟩

theorem isDefined (h : Shows store story) (c : Consistent store) (name : String) :
    store.isDefined name = story.isDefined name := by
  unfold Store.isDefined Story.isDefined
  rw [h.lookup c]
  simp only [h.placeholders]

theorem missingLabels (h : Shows store story) (c : Consistent store) :
    store.missingLabels = story.missingLabels := by
  unfold Store.missingLabels Story.missingLabels Store.contains Story.contains
  simp only [h.nodes, h.lookup c]

/-- Names tell the nodes apart, so there is one order to list them in. -/
theorem sorted (h : Shows store story) (c : Consistent store) : store.sorted = story.sorted := by
  have hperm : store.sorted.Perm story.sorted :=
    c.sorted_perm.trans (h.nodes ▸ (List.mergeSort_perm story.nodes _).symm)
  have hstore : store.sorted.Pairwise fun a b => a.name ≤ b.name :=
    (ordered_sorted store).imp Std.le_of_lt
  have hstory : story.sorted.Pairwise fun a b => a.name ≤ b.name := by
    refine (List.pairwise_mergeSort ?_ ?_ story.nodes).imp of_decide_eq_true
    · intro a b c hab hbc
      exact decide_eq_true (String.le_trans (of_decide_eq_true hab) (of_decide_eq_true hbc))
    · intro a b
      simpa using String.le_total a.name b.name
  refine hperm.eq_of_pairwise (fun a b ha hb hab hba => ?_) hstore hstory
  have hname : a.name = b.name := String.le_antisymm hab hba
  refine List.inj_on_of_nodup_map c.nodup_names ?_ ?_ hname
  · exact c.sorted_perm.mem_iff.mp ha
  · exact c.sorted_perm.mem_iff.mp (hperm.mem_iff.mpr hb)

theorem json (h : Shows store story) (c : Consistent store) : store.json = story.json := by
  rw [Store.json, Story.json, h.sorted c]

/-- A slot that was added to both. -/
theorem addLast (h : Shows store story) {after : Store} (slot : Slot)
    (hs : after.slots = store.slots.push slot.node?)
    (hp : ∀ other, after.isPlaceholder other =
      if other = store.slots.size then slot.isPlaceholder else store.isPlaceholder other)
    (hr : after.start = store.start ∧ after.diagnostics = store.diagnostics) :
    Shows after (story.addLast slot) where
  start := hr.1.trans h.start
  slots := by rw [hs, h.slots, Story.addLast, Array.map_push]
  placeholders other := by
    rw [hp, Story.isPlaceholder_addLast, h.size_slots, h.placeholders]
  diagnostics := hr.2.trans h.diagnostics

/-- A slot that was changed on both. -/
theorem setSlot (h : Shows store story) {after : Store} (slot : Slot)
    (hid : id < story.slots.size) (hs : after.slots = store.slots.setIfInBounds id slot.node?)
    (hp : ∀ other, after.isPlaceholder other =
      if other = id then slot.isPlaceholder else store.isPlaceholder other)
    (hr : after.start = store.start ∧ after.diagnostics = store.diagnostics) :
    Shows after (story.setSlot id slot) where
  start := hr.1.trans h.start
  slots := by rw [hs, h.slots, Story.setSlot, Array.map_setIfInBounds]
  placeholders other := by rw [hp, Story.isPlaceholder_setSlot slot hid, h.placeholders]
  diagnostics := hr.2.trans h.diagnostics

theorem vacate (h : Shows store story) (c : Consistent store) (name : String) :
    Shows (store.vacate name) (story.vacate name) := by
  unfold Store.vacate Story.vacate
  rw [h.lookup c]
  cases hf : story.find? name with
  | none => exact h
  | some old =>
    obtain ⟨node, hn, -⟩ := Story.find?_eq_some hf
    refine h.setSlot (.replaced name []) (Story.lt_size_of_node? hn) rfl (fun other => ?_) ⟨rfl, rfl⟩
    rw [isPlaceholder_setSlot, isPlaceholder_unmark]
    by_cases he : other = old
    · simp [he, Slot.isPlaceholder]
    · simp [he]

theorem release (h : Shows store story) (name : String) (id : NodeId) :
    Shows (store.release name id) story := by
  unfold Store.release
  split
  · exact ⟨h.start, h.slots, h.placeholders, h.diagnostics⟩
  · exact h

/-- What a change does to a story, it does to the store that shows it, with the same answer. -/
def Same (store : Store) (story : Story) (edit : Edit) : Prop :=
  (store.apply edit).1 = (edit.apply story).1 ∧
    Shows (store.apply edit).2 (edit.apply story).2

theorem create (h : Shows store story) (c : Consistent store) (path : Path) (body : Body)
    (pos : Position) : Same store story (.create path body pos) := by
  simp only [Same, Edit.apply, Edit.build, Build.create, bind, EStateM.bind]
  cases hd : store.isDefined path.name with
  | false =>
    rw [apply_create_of_room body pos hd]
    rw [h.isDefined c] at hd
    rw [Story.addSlot_of_room _ hd, h.size_slots]
    refine ⟨rfl, (h.vacate c path.name).addLast _ rfl (fun other => ?_) ⟨rfl, rfl⟩⟩
    rw [isPlaceholder_push, size_vacate]
    split
    · next he => rw [isPlaceholder_vacate, he, c.isPlaceholder_size, Bool.and_false]; rfl
    · rfl
  | true =>
    rw [apply_create_of_taken body pos hd]
    rw [h.isDefined c] at hd
    rw [Story.addSlot_of_taken _ hd]
    exact ⟨rfl, h⟩

theorem createPlaceholder (h : Shows store story) (c : Consistent store) (path : Path)
    (pos : Position) : Same store story (.createPlaceholder path pos) := by
  simp only [Same, Edit.apply, Edit.build, Build.createPlaceholder, bind, EStateM.bind]
  cases hd : store.isDefined path.name with
  | false =>
    rw [apply_createPlaceholder_of_room pos hd]
    rw [h.isDefined c] at hd
    rw [Story.addSlot_of_room _ hd, h.size_slots]
    refine ⟨rfl, (h.vacate c path.name).addLast _ rfl (fun other => ?_) ⟨rfl, rfl⟩⟩
    rw [isPlaceholder_mark, isPlaceholder_push, size_vacate, h.size_slots]
    split
    · next he => simp [he, Slot.isPlaceholder]
    · next he => simp [he]
  | true =>
    rw [apply_createPlaceholder_of_taken pos hd]
    rw [h.isDefined c] at hd
    rw [Story.addSlot_of_taken _ hd]
    exact ⟨rfl, h⟩

theorem discard (h : Shows store story) (c : Consistent store) (id : NodeId) :
    Same store story (.discard id) := by
  simp only [Same, Edit.apply, Edit.build, Build.discard, bind, EStateM.bind]
  cases hp : store.isPlaceholder id with
  | false =>
    rw [apply_discard_of_not_isPlaceholder hp]
    rw [h.placeholders] at hp
    cases hs : story.slots[id]? with
    | none => exact ⟨rfl, h⟩
    | some slot =>
      cases slot with
      | placeholder node => simp [Story.isPlaceholder, hs, Slot.isPlaceholder] at hp
      | _ => exact ⟨rfl, h⟩
  | true =>
    obtain ⟨node, hn⟩ := c.live id hp
    rw [apply_discard_of_live hp hn]
    rw [h.placeholders] at hp
    obtain ⟨kept, hs⟩ := Story.isPlaceholder_iff.mp hp
    rw [hs]
    refine ⟨rfl, release ?_ node.name id⟩
    refine h.setSlot (.discarded kept.name []) (Array.getElem?_eq_some_iff.mp hs).1 rfl
      (fun other => ?_) ⟨rfl, rfl⟩
    rw [isPlaceholder_setSlot, isPlaceholder_unmark]
    by_cases he : other = id
    · simp [he, Slot.isPlaceholder]
    · simp [he]

/-- A slot whose node is gone only notes where its link was to lead. -/
theorem tieEnd_gone (h : Shows store story) (target : Target) (loose : LooseEnd)
    (hn : story.node? loose.node = none) :
    ∃ after, Build.tieEnd target loose story = .ok () after ∧ Shows store after := by
  unfold Build.tieEnd
  cases hs : story.slots[loose.node]? with
  | none => exact ⟨story, rfl, h⟩
  | some slot =>
    have hid := (Array.getElem?_eq_some_iff.mp hs).1
    have hdead : slot.node? = none := by simpa [Story.node?, hs] using hn
    have noted (tied : Slot) (hnode : tied.node? = none) (hp : tied.isPlaceholder = false)
        (hslot : slot.isPlaceholder = false) : Shows store (story.setSlot loose.node tied) := by
      refine h.setSlot tied hid ?_ (fun other => ?_) ⟨rfl, rfl⟩
      · rw [hnode, h.slots]
        refine (Array.ext_getElem? fun other => ?_).symm
        rw [Array.getElem?_setIfInBounds]
        split
        · next he =>
          subst he
          rw [Array.getElem?_map, hs, Array.size_map, if_pos hid, Option.map_some, hdead]
        · rfl
      · split
        · next he => rw [he, hp, h.placeholders, Story.isPlaceholder, hs]; exact hslot
        · rfl
    cases slot with
    | settled node => cases hdead
    | placeholder node => cases hdead
    | replaced name flows => exact ⟨_, rfl, noted _ rfl rfl rfl⟩
    | discarded name flows => exact ⟨_, rfl, noted _ rfl rfl rfl⟩

theorem tieEnd_live (target : Target) {loose : LooseEnd} {node : Node}
    (hn : story.node? loose.node = some node) : Build.tieEnd target loose story =
      match Build.tieNode node loose.outlet target with
      | .error e => .error e story
      | .ok tied => .ok () (story.setSlot loose.node tied) := by
  unfold Build.tieEnd
  rcases Story.node?_eq_some_iff.mp hn with hs | hs
  · rw [hs]
    rfl
  · rw [hs]
    rfl

theorem tie (h : Shows store story) (c : Consistent store) (target : Target)
    (ends : List LooseEnd) : Same store story (.tie target ends) := by
  induction ends generalizing store story with
  | nil => exact ⟨rfl, h⟩
  | cons loose rest ih =>
    have goesOn {after : Story} (ht : Build.tieEnd target loose story = .ok () after) :
        (Edit.tie target (loose :: rest)).apply story = (Edit.tie target rest).apply after := by
      simp only [Edit.apply, Edit.build, Build.tie, bind, EStateM.bind, ht]
    have stops {e : BuildError} (ht : Build.tieEnd target loose story = .error e story) :
        (Edit.tie target (loose :: rest)).apply story = (.error e, story) := by
      simp only [Edit.apply, Edit.build, Build.tie, bind, EStateM.bind, ht]
    unfold Same
    cases hn : store.node? loose.node with
    | none =>
      obtain ⟨after, ht, hafter⟩ := h.tieEnd_gone target loose (h.node? _ ▸ hn)
      rw [apply_tie_of_gone hn, goesOn ht]
      exact ih hafter c
    | some node =>
      have ht := tieEnd_live target (h.node? _ ▸ hn)
      unfold Build.tieNode at ht
      cases hl : node.body.link? loose.outlet with
      | none =>
        rw [hl] at ht
        rw [apply_tie_of_absent hn hl, stops ht]
        exact ⟨rfl, h⟩
      | some link =>
        rw [hl] at ht
        cases link with
        | some old =>
          rw [apply_tie_of_tied hn hl, stops ht]
          exact ⟨rfl, h⟩
        | none =>
          rw [apply_tie_of_open hn hl, goesOn ht]
          have hstep : Step True store _ := .tied target loose node hn hl
          refine ih (h.setSlot _ (h.size_slots ▸ lt_size_of_node? hn) rfl (fun other => ?_)
            ⟨rfl, rfl⟩) (c.step hstep)
          rw [isPlaceholder_unmark, isPlaceholder_setSlot]
          by_cases he : other = loose.node
          · simp [he, Slot.isPlaceholder]
          · simp [he]

theorem setBody (h : Shows store story) (id : NodeId) (body : Body) :
    Same store story (.setBody id body) := by
  simp only [Same, Edit.apply, Edit.build, Build.setBody, Build.modifyBody, bind, EStateM.bind]
  cases hn : store.node? id with
  | none =>
    rw [apply_setBody_of_gone body hn]
    rw [h.node?] at hn
    cases hs : story.slots[id]? with
    | none => exact ⟨rfl, h⟩
    | some slot =>
      cases slot with
      | settled node => simp [Story.node?, hs, Slot.node?] at hn
      | placeholder node => simp [Story.node?, hs, Slot.node?] at hn
      | replaced name flows => exact ⟨rfl, h⟩
      | discarded name flows => exact ⟨rfl, h⟩
  | some node =>
    rw [apply_setBody_of_live body hn]
    rw [h.node?] at hn
    have hid := Story.lt_size_of_node? hn
    have same (slot : Slot) (hp : slot.isPlaceholder = story.isPlaceholder id)
        (hnode : slot.node? = some { node with body }) :
        Shows (store.setSlot id (some { node with body })) (story.setSlot id slot) := by
      refine h.setSlot slot hid (by rw [hnode]; rfl) (fun other => ?_) ⟨rfl, rfl⟩
      rw [isPlaceholder_setSlot]
      split
      · next he => rw [he, hp, h.placeholders]
      · rfl
    rcases Story.node?_eq_some_iff.mp hn with hs | hs
    · simp only [hs]
      exact ⟨rfl, same _ (by simp [Story.isPlaceholder, hs, Slot.isPlaceholder]) rfl⟩
    · simp only [hs]
      exact ⟨rfl, same _ (by simp [Story.isPlaceholder, hs, Slot.isPlaceholder]) rfl⟩

theorem report (h : Shows store story) (pos : Position) (mistake : Mistake) :
    Same store story (.report pos mistake) := by
  refine ⟨rfl, h.start, h.slots, h.placeholders, ?_⟩
  exact congrArg (·.push ⟨pos, mistake⟩) h.diagnostics

theorem check (h : Shows store story) (c : Consistent store) : Same store story .check := by
  refine ⟨rfl, h.start, h.slots, h.placeholders, ?_⟩
  show store.diagnostics ++ store.missingLabels = story.diagnostics ++ story.missingLabels
  rw [h.diagnostics, h.missingLabels c]

theorem apply (h : Shows store story) (c : Consistent store) (edit : Edit) :
    Same store story edit := by
  cases edit with
  | create path body pos => exact h.create c path body pos
  | createPlaceholder path pos => exact h.createPlaceholder c path pos
  | discard id => exact h.discard c id
  | tie target ends => exact h.tie c target ends
  | setBody id body => exact h.setBody id body
  | report pos mistake => exact h.report pos mistake
  | check => exact h.check c

/-- A history gives a new store and a new story the same nodes and the same mistakes. -/
theorem applyAll (start : String) (edits : List Edit) :
    Shows ((Store.empty start).applyAll edits) (Edit.applyAll edits (.empty start)) := by
  have along (store : Store) (story : Story) (h : Shows store story) (c : Consistent store) :
      Shows (store.applyAll edits) (Edit.applyAll edits story) := by
    induction edits generalizing store story with
    | nil => exact h
    | cons edit rest ih => exact ih _ _ (h.apply c edit).2 (c.steps (apply_steps store edit))
  exact along _ _ (empty start) (.empty start)

/-- The listing by name is the same as well. -/
theorem applyAll_json (start : String) (edits : List Edit) :
    ((Store.empty start).applyAll edits).json = (Edit.applyAll edits (.empty start)).json :=
  (applyAll start edits).json (.applyAll start edits)

end Shows

end Store

end Storyline
