import Storyline.Proofs.Linking
import Storyline.Story.Edit

namespace Storyline

namespace Edit

/-- The loose ends a change ties. -/
def tied : Edit → List LooseEnd
  | tie _ ends => ends
  | _ => []

/-- The story after a history of changes, if none of them failed. -/
def replay : List Edit → Story → Option Story
  | [], story => some story
  | edit :: rest, story =>
    match edit.apply story with
    | (.ok _, after) => replay rest after
    | (.error _, _) => none

theorem replay_append (before after : List Edit) (story : Story) :
    replay (before ++ after) story = (replay before story).bind (replay after) := by
  induction before generalizing story with
  | nil => rfl
  | cons edit rest ih =>
    simp only [List.cons_append, replay]
    split
    · exact ih _
    · rfl

/-- A change that succeeds can be added to a history. -/
theorem replay_concat {history : List Edit} {edit : Edit} {start story after : Story}
    {answer : Answer} (hr : replay history start = some story)
    (he : edit.build story = .ok answer after) :
    replay (history ++ [edit]) start = some after := by
  rw [replay_append, hr]
  simp [replay, apply, he]

end Edit

/-- Links are held or tied exactly once, according to whether they are open. -/
structure Balanced (held done : List LooseEnd) (story : Story) : Prop where
  counts : ∀ id node outlet link, story.node? id = some node →
    node.body.link? outlet = some link →
    held.count ⟨id, outlet⟩ = (if link = none then 1 else 0) ∧
      done.count ⟨id, outlet⟩ = (if link = none then 0 else 1)
  linked : ∀ loose ∈ held, ∀ node, story.node? loose.node = some node →
    (node.body.link? loose.outlet).isSome
  inRange : ∀ loose, loose ∈ held ∨ loose ∈ done → loose.node < story.slots.size
  placeholder : ∀ (id : NodeId) (node : Node),
    story.slots[id]? = some (.placeholder node) → node.body = .goto none

namespace Balanced

variable {held done : List LooseEnd} {story : Story}

theorem perm {held' : List LooseEnd} (hp : held.Perm held') (b : Balanced held done story) :
    Balanced held' done story where
  counts id node outlet link hn hl := by
    rw [← hp.count_eq]
    exact b.counts id node outlet link hn hl
  linked loose hm := b.linked loose (hp.mem_iff.mpr hm)
  inRange loose hm := b.inRange loose (hm.imp_left hp.mem_iff.mpr)
  placeholder := b.placeholder

/-- A slot without a live node has no links to balance. -/
theorem setSlot_dead {id : NodeId} {slot : Slot} (b : Balanced held done story)
    (hid : id < story.slots.size) (hs : slot.node? = none) :
    Balanced held done (story.setSlot id slot) where
  counts other node outlet link hn hl := by
    rw [Story.node?_setSlot slot hid] at hn
    split at hn
    · rw [hs] at hn
      cases hn
    · exact b.counts other node outlet link hn hl
  linked loose hm node hn := by
    rw [Story.node?_setSlot slot hid] at hn
    split at hn
    · rw [hs] at hn
      cases hn
    · exact b.linked loose hm node hn
  inRange loose hm := by
    rw [Story.size_setSlot]
    exact b.inRange loose hm
  placeholder other node hn := by
    rw [Story.slot_setSlot slot hid] at hn
    split at hn
    · cases hn
      cases hs
    · exact b.placeholder other node hn

/-- A node whose links are all open adds its loose ends to those held. -/
theorem addLast {slot : Slot} {node : Node} (b : Balanced held done story)
    (hs : slot.node? = some node) (ho : node.body.IsOpen)
    (hp : slot.isPlaceholder = true → node.body = .goto none) :
    Balanced (held ++ openEnds story.slots.size node.body) done (story.addLast slot) where
  counts id other outlet link hn hl := by
    rw [Story.node?_addLast] at hn
    split at hn
    · next hid =>
      subst hid
      obtain rfl : node = other := by simpa [hs] using hn
      have hheld : held.count ⟨story.slots.size, outlet⟩ = 0 :=
        List.count_eq_zero_of_not_mem fun hm => (Nat.lt_irrefl _ (b.inRange _ (.inl hm)))
      have hdone : done.count ⟨story.slots.size, outlet⟩ = 0 :=
        List.count_eq_zero_of_not_mem fun hm => (Nat.lt_irrefl _ (b.inRange _ (.inr hm)))
      have := count_openEnds_self story.slots.size node.body outlet
      rw [List.count_append, hheld, hdone, this, hl, ho outlet link hl]
      simp
    · next hid =>
      have hz : (openEnds story.slots.size node.body).count ⟨id, outlet⟩ = 0 :=
        List.count_eq_zero_of_not_mem fun hm => hid (node_of_mem_openEnds hm)
      rw [List.count_append, hz]
      exact b.counts id other outlet link hn hl
  linked loose hm other hn := by
    rw [Story.node?_addLast] at hn
    rcases List.mem_append.mp hm with hm | hm
    · have := b.inRange loose (.inl hm)
      rw [if_neg (Nat.ne_of_lt this)] at hn
      exact b.linked loose hm other hn
    · rw [if_pos (node_of_mem_openEnds hm), hs] at hn
      cases hn
      obtain ⟨id, outlet⟩ := loose
      cases node_of_mem_openEnds hm
      exact mem_openEnds_iff.mp hm
  inRange loose hm := by
    rw [Story.size_addLast]
    simp only [List.mem_append, or_assoc] at hm
    rcases hm with hm | hm | hm
    · exact Nat.lt_succ_of_lt (b.inRange loose (.inl hm))
    · rw [node_of_mem_openEnds hm]
      exact Nat.lt_succ_self _
    · exact Nat.lt_succ_of_lt (b.inRange loose (.inr hm))
  placeholder id other hn := by
    rw [Story.slot_addLast] at hn
    split at hn
    · cases hn
      obtain rfl : other = node := by simpa [Slot.node?] using hs
      exact hp rfl
    · exact b.placeholder id other hn

/-- A live node may change all but its links. -/
theorem setBody {id : NodeId} {slot : Slot} {old node : Node} (b : Balanced held done story)
    (hn : story.node? id = some old) (hs : slot.node? = some node)
    (hl : ∀ outlet, node.body.link? outlet = old.body.link? outlet)
    (hp : slot.isPlaceholder = true → node.body = .goto none) :
    Balanced held done (story.setSlot id slot) := by
  have hid := Story.lt_size_of_node? hn
  refine ⟨?_, ?_, ?_, ?_⟩
  · intro other found outlet link hm hlink
    rw [Story.node?_setSlot slot hid] at hm
    split at hm
    · next he =>
      rw [hs] at hm
      cases hm
      rw [hl] at hlink
      exact b.counts other old outlet link (he ▸ hn) hlink
    · exact b.counts other found outlet link hm hlink
  · intro loose hm found hf
    rw [Story.node?_setSlot slot hid] at hf
    split at hf
    · next he =>
      rw [hs] at hf
      cases hf
      rw [hl]
      exact b.linked loose hm old (he ▸ hn)
    · exact b.linked loose hm found hf
  · intro loose hm
    rw [Story.size_setSlot]
    exact b.inRange loose hm
  · intro other found hm
    rw [Story.slot_setSlot slot hid] at hm
    split at hm
    · cases hm
      obtain rfl : found = node := by simpa [Slot.node?] using hs
      exact hp rfl
    · exact b.placeholder other found hm

/-- An open link that gets a target moves from the ends held to the ends tied. -/
theorem setLink {loose : LooseEnd} {node : Node} (target : Target)
    (b : Balanced (loose :: held) done story) (hn : story.node? loose.node = some node)
    (hl : node.body.link? loose.outlet = some none) :
    Balanced held (done ++ [loose]) (story.setSlot loose.node
      (.settled { node with body := node.body.setLink loose.outlet (some target) })) := by
  have hid := Story.lt_size_of_node? hn
  have hc := b.counts loose.node node loose.outlet none hn hl
  have link_other (outlet : Outlet) (ho : outlet ≠ loose.outlet) :
      (node.body.setLink loose.outlet (some target)).link? outlet = node.body.link? outlet :=
    Body.link?_setLink_of_ne _ ho
  have count_other (other : LooseEnd) (ho : other ≠ loose) :
      (loose :: held).count other = held.count other ∧
        (done ++ [loose]).count other = done.count other := by
    simp [List.count_append, Ne.symm ho]
  refine ⟨?_, ?_, ?_, ?_⟩
  · intro id other outlet link hm hlink
    rw [Story.node?_setSlot _ hid] at hm
    by_cases he : (⟨id, outlet⟩ : LooseEnd) = loose
    · subst he
      simp only [if_true, Slot.node?, Option.some.injEq] at hm
      subst hm
      rw [Body.link?_setLink_self _ hl] at hlink
      cases hlink
      simp only [List.count_cons_self, List.count_append, List.count_nil] at hc ⊢
      simp only [reduceCtorEq, if_false, if_true] at hc ⊢
      omega
    · have hother := count_other ⟨id, outlet⟩ he
      rw [← hother.1, hother.2]
      split at hm
      · next hid =>
        subst hid
        simp only [Slot.node?, Option.some.injEq] at hm
        subst hm
        have ho : outlet ≠ loose.outlet := fun h => he (by rw [h])
        rw [link_other outlet ho] at hlink
        exact b.counts loose.node node outlet link hn hlink
      · exact b.counts id other outlet link hm hlink
  · intro other hm found hf
    rw [Story.node?_setSlot _ hid] at hf
    split at hf
    · next he =>
      simp only [Slot.node?, Option.some.injEq] at hf
      subst hf
      have hs := b.linked other (List.mem_cons_of_mem _ hm) node (he ▸ hn)
      by_cases ho : other.outlet = loose.outlet
      · rw [ho, Body.link?_setLink_self _ hl]
        rfl
      · rw [link_other _ ho]
        exact hs
    · exact b.linked other (List.mem_cons_of_mem _ hm) found hf
  · intro other hm
    rw [Story.size_setSlot]
    rcases hm with hm | hm
    · exact b.inRange other (.inl (List.mem_cons_of_mem _ hm))
    · rcases List.mem_append.mp hm with hm | hm
      · exact b.inRange other (.inr hm)
      · rw [List.mem_singleton.mp hm]
        exact hid
  · intro id other hm
    rw [Story.slot_setSlot _ hid] at hm
    split at hm
    · cases hm
    · exact b.placeholder id other hm

end Balanced

namespace Build

/-- A history leads from the empty story to this one, and balances the ends held. -/
def Recorded (start : String) (held : List LooseEnd) (story : Story) : Prop :=
  ∃ history, Edit.replay history (.empty start) = some story ∧
    Balanced held (history.flatMap Edit.tied) story

section Held

variable {start : String} {held : List LooseEnd} {story : Story}

/-- What is held was there before, so its node is none that is written later. -/
theorem Recorded.lt_size (h : Recorded start held story) :
    ∀ l ∈ held, l.node < story.slots.size := by
  obtain ⟨history, -, b⟩ := h
  exact fun l hl => b.inRange l (.inl hl)

/-- What is held is open where it lives. -/
theorem Recorded.isOpen (h : Recorded start held story) :
    ∀ l ∈ held, ∀ node, story.node? l.node = some node → node.body.link? l.outlet = some none := by
  obtain ⟨history, -, b⟩ := h
  intro l hl node hn
  obtain ⟨link, hlink⟩ := Option.isSome_iff_exists.mp (b.linked l hl node hn)
  have hcount := (b.counts l.node node l.outlet link hn hlink).1
  have hpos := List.count_pos_iff.mpr hl
  cases link with
  | none => exact hlink
  | some target =>
    have hzero : held.count l = 0 := hcount.trans (if_neg (Option.some_ne_none target))
    omega

/-- A link that has no target is held. -/
theorem Recorded.mem (h : Recorded start held story) {id : NodeId}
    {node : Node} (hn : story.node? id = some node) {outlet : Outlet}
    (hl : node.body.link? outlet = some none) : ⟨id, outlet⟩ ∈ held := by
  obtain ⟨history, -, b⟩ := h
  have hcount := (b.counts id node outlet none hn hl).1
  rw [if_pos rfl] at hcount
  exact List.count_pos_iff.mp (by omega)

end Held

/-- A run that is one change in a history adds that change to what is recorded. -/
theorem Recorded.change {α : Type} {start : String} {held : List LooseEnd} {story : Story}
    {m : Build α} {held' : α → List LooseEnd} (h : Recorded start held story) (edit : Edit)
    (f : α → Edit.Answer) (he : edit.build = m >>= fun a => pure (f a))
    (hm : ∀ done, Balanced held done story → Yields IsNoLinkError
      (fun a after => Balanced (held' a) (done ++ edit.tied) after) m story) :
    Yields IsNoLinkError (fun a after => Recorded start (held' a) after) m story := by
  obtain ⟨history, hr, hb⟩ := h
  have hy := hm _ hb
  unfold Yields at hy ⊢
  cases hrun : m story with
  | error e after => simpa only [hrun] using hy
  | ok a after =>
    have hbuild : edit.build story = .ok (f a) after := by
      rw [he]
      change EStateM.bind m _ story = _
      simp only [EStateM.bind, hrun]
      rfl
    simp only [hrun] at hy
    refine ⟨history ++ [edit], Edit.replay_concat hr hbuild, ?_⟩
    simpa using hy

theorem balanced_write {held done : List LooseEnd} {story : Story} (path : Path) (slot : Slot)
    (node : Node) (hs : slot.node? = some node) (ho : node.body.IsOpen)
    (hp : slot.isPlaceholder = true → node.body = .goto none) (b : Balanced held done story) :
    Yields IsNoLinkError (fun id => Balanced (held ++ openEnds id node.body) done)
      (addSlot path.name slot) story := by
  refine yields_addSlot (fun _ => b.addLast hs ho hp) ?_ fun _ _ _ _ _ => trivial
  intro old held hf hold hname
  have hlt := (Array.getElem?_eq_some_iff.mp hold).1
  have hdead : (Slot.replaced path.name []).node? = none := rfl
  have := (b.setSlot_dead hlt hdead).addLast hs ho hp
  simpa only [Story.size_setSlot] using this

theorem balanced_tieEnd {held done : List LooseEnd} {story : Story} (target : Target)
    (loose : LooseEnd) (b : Balanced (loose :: held) done story) :
    Yields IsNoLinkError (fun _ => Balanced held (done ++ [loose])) (tieEnd target loose) story := by
  have hid := b.inRange loose (.inl (List.mem_cons_self ..))
  have dead (hn : story.node? loose.node = none) : Balanced held (done ++ [loose]) story := by
    refine ⟨fun id node outlet link hm hl => ?_, ?_, ?_, b.placeholder⟩
    · have hne : loose ≠ ⟨id, outlet⟩ := by
        rintro rfl
        rw [hn] at hm
        cases hm
      simpa [List.count_cons_of_ne hne, List.count_append, hne] using b.counts id node outlet link hm hl
    · exact fun other hm => b.linked other (List.mem_cons_of_mem _ hm)
    · rintro other (hm | hm)
      · exact b.inRange other (.inl (List.mem_cons_of_mem _ hm))
      · rcases List.mem_append.mp hm with hm | hm
        · exact b.inRange other (.inr hm)
        · rw [List.mem_singleton.mp hm]
          exact hid
  have not_live (slot : Slot) (hs : story.slots[loose.node]? = some slot) (hslot : slot.node? = none) :
      story.node? loose.node = none := by simp [Story.node?, hs, hslot]
  refine yields_tieEnd ?_ ?_ ?_ ?_ ?_ ?_
  · intro hge
    exact absurd hid (Nat.not_lt.mpr hge)
  · intro name flows hs
    exact (dead (not_live _ hs rfl)).setSlot_dead hid rfl
  · intro name flows hs
    exact (dead (not_live _ hs rfl)).setSlot_dead hid rfl
  · intro node hn hl
    exact b.setLink target hn hl
  · intro node old hn hl
    have := (b.counts loose.node node loose.outlet _ hn hl).1
    simp at this
  · intro node hn hl
    have := b.linked loose (List.mem_cons_self ..) node hn
    rw [hl] at this
    cases this

theorem tie_singleton (target : Target) (loose : LooseEnd) :
    tie target [loose] = tieEnd target loose := by
  funext story
  change EStateM.bind (tieEnd target loose) (fun _ => pure ()) story = _
  unfold EStateM.bind
  cases tieEnd target loose story <;> rfl

theorem recorded_threads {start : String} {held : List LooseEnd} {story : Story} (id : NodeId)
    (question answer : List String) (h : Recorded start held story) :
    Yields IsNoLinkError (fun _ => Recorded start held)
      (modifyBody id (Body.withThreads question answer)) story := by
  cases hn : story.node? id with
  | none =>
    refine yields_modifyBody (fun node hs => ?_) (fun node hs => ?_) fun _ => h
    · simp [Story.node?, hs, Slot.node?] at hn
    · simp [Story.node?, hs, Slot.node?] at hn
  | some node =>
    have hsame : modifyBody id (Body.withThreads question answer) story =
        setBody id (node.body.withThreads question answer) story := by
      unfold setBody modifyBody
      rcases Story.node?_eq_some_iff.mp hn with hs | hs <;> simp only [hs]
    have hy : Yields IsNoLinkError (fun _ => Recorded start held)
        (setBody id (node.body.withThreads question answer)) story := by
      refine h.change (.setBody id (node.body.withThreads question answer)) .changed rfl
        fun done b => ?_
      simp only [Edit.tied, List.append_nil]
      refine yields_modifyBody (fun old hs => ?_) (fun old hs => ?_) fun _ => b
      · obtain rfl : old = node := by simpa [Story.node?, hs, Slot.node?] using hn
        exact b.setBody hn rfl (Body.link?_withThreads question answer old.body) fun h => by cases h
      · obtain rfl : old = node := by simpa [Story.node?, hs, Slot.node?] using hn
        refine b.setBody hn rfl (Body.link?_withThreads question answer old.body) fun _ => ?_
        simp only [b.placeholder id old hs, Body.withThreads]
    unfold Yields at hy ⊢
    rwa [hsame]

/-- No operation of linking upsets the balance of the loose ends. -/
theorem kept_recorded (start : String) : Kept IsNoLinkError (Recorded start) where
  perm hp := fun ⟨history, hr, hb⟩ => ⟨history, hr, hb.perm hp⟩
  report pos mistake h := by
    refine h.change (.report pos mistake) (fun _ => .done) rfl fun done b => ?_
    simpa [Edit.tied] using yields_report ⟨b.counts, b.linked, b.inRange, b.placeholder⟩
  create path body pos ho h := by
    refine h.change (.create path body pos) .created rfl fun done b => ?_
    simp only [Edit.tied, List.append_nil]
    exact balanced_write path (.settled ⟨path.name, body, pos⟩) ⟨path.name, body, pos⟩ rfl ho
      (fun h => by cases h) b
  placeholder path pos h := by
    refine h.change (.createPlaceholder path pos) .created rfl fun done b => ?_
    simp only [Edit.tied, List.append_nil]
    exact balanced_write path (.placeholder ⟨path.name, .goto none, pos⟩)
      ⟨path.name, .goto none, pos⟩ rfl isOpen_goto (fun _ => rfl) b
  tieEnd target loose h := by
    rw [← tie_singleton]
    refine h.change (.tie target [loose]) (fun _ => .done) rfl fun done b => ?_
    rw [tie_singleton]
    exact balanced_tieEnd target loose b
  discard id h := by
    refine h.change (.discard id) .changed rfl fun done b => ?_
    simp only [Edit.tied, List.append_nil]
    refine yields_discard (fun node hs => ?_) fun _ => b
    exact b.setSlot_dead (Array.getElem?_eq_some_iff.mp hs).1 rfl
  threads := recorded_threads
  unfinished := trivial

end Build

end Storyline
