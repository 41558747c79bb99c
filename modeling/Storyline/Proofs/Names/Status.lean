import Storyline.Proofs.Names.Text
import Storyline.Proofs.Slots

namespace Storyline

inductive Status where
  | free
  | waiting (id : NodeId)
  | settled
deriving DecidableEq

/-- What stands there once ends of these nodes are tied. -/
def Status.tied (ids : List NodeId) : Status → Status
  | .waiting id => if id ∈ ids then .settled else .waiting id
  | status => status

namespace Story

def status (story : Story) (name : String) : Status :=
  match story.find? name with
  | none => .free
  | some id => if story.isPlaceholder id then .waiting id else .settled

/-- No two live nodes share a name. -/
def Distinct (story : Story) : Prop :=
  ∀ i j a b, story.node? i = some a → story.node? j = some b → a.name = b.name → i = j

variable {story after : Story} {name : String} {id : NodeId} {node : Node}

theorem find?_of_node (hd : story.Distinct) (hn : story.node? id = some node) :
    story.find? node.name = some id := by
  cases hf : story.find? node.name with
  | none => exact absurd rfl (find?_eq_none_iff.mp hf id node hn)
  | some other =>
    obtain ⟨found, ho, he⟩ := find?_eq_some hf
    rw [hd other id found node ho hn he]

theorem status_eq_free_iff :
    story.status name = .free ↔ ∀ id node, story.node? id = some node → node.name ≠ name := by
  rw [← find?_eq_none_iff]
  unfold status
  cases story.find? name with
  | none => simp
  | some id => simp only [reduceCtorEq, iff_false]; split <;> simp

theorem status_of_placeholder (hd : story.Distinct)
    (hs : story.slots[id]? = some (.placeholder node)) : story.status node.name = .waiting id := by
  have hn := node?_eq_some_iff.mpr (.inr hs)
  have hp := isPlaceholder_iff.mpr ⟨node, hs⟩
  simp [status, find?_of_node hd hn, hp]

theorem status_of_settled (hd : story.Distinct)
    (hs : story.slots[id]? = some (.settled node)) : story.status node.name = .settled := by
  have hn := node?_eq_some_iff.mpr (.inl hs)
  have hp : story.isPlaceholder id = false := by simp [isPlaceholder, hs, Slot.isPlaceholder]
  simp [status, find?_of_node hd hn, hp]

theorem slot_of_waiting (h : story.status name = .waiting id) :
    ∃ node, story.slots[id]? = some (.placeholder node) ∧ node.name = name := by
  unfold status at h
  cases hf : story.find? name with
  | none => simp [hf] at h
  | some found =>
    obtain ⟨node, hn, he⟩ := find?_eq_some hf
    simp only [hf] at h
    split at h
    · next hp =>
      obtain rfl : found = id := by simpa using h
      obtain ⟨other, hs⟩ := isPlaceholder_iff.mp hp
      have : story.node? found = some other := node?_eq_some_iff.mpr (.inr hs)
      rw [hn] at this
      obtain rfl := Option.some.inj this
      exact ⟨node, hs, he⟩
    · cases h

theorem lt_size_of_waiting (h : story.status name = .waiting id) : id < story.slots.size := by
  obtain ⟨node, hs, -⟩ := slot_of_waiting h
  exact (Array.getElem?_eq_some_iff.mp hs).1

theorem waiting_injective {other : String} (h : story.status name = .waiting id)
    (h' : story.status other = .waiting id) : name = other := by
  obtain ⟨node, hs, rfl⟩ := slot_of_waiting h
  obtain ⟨node', hs', rfl⟩ := slot_of_waiting h'
  rw [hs] at hs'
  cases hs'
  rfl

theorem isDefined_iff : story.isDefined name = true ↔ story.status name = .settled := by
  unfold isDefined status
  cases story.find? name with
  | none => simp
  | some id => cases h : story.isPlaceholder id <;> simp [h]

theorem isPlaceholder_of_waiting (h : story.status name = .waiting id) :
    story.isPlaceholder id = true := by
  obtain ⟨node, hs, -⟩ := slot_of_waiting h
  exact isPlaceholder_iff.mpr ⟨node, hs⟩

theorem status_freshLabel (base : String) : story.status (story.freshLabel base) = .free := by
  rw [status_eq_free_iff]
  intro id node hn he
  refine firstFree_not_mem base story.names 2 (List.mem_map.mpr ⟨node, ?_, he⟩)
  have hlt := lt_size_of_node? hn
  refine List.mem_filterMap.mpr ⟨story.slots[id], by simp, ?_⟩
  simpa [node?, Array.getElem?_eq_getElem hlt] using hn

theorem freshLabel_eq (story : Story) (base : String) :
    ∃ n : Nat, story.freshLabel base = base ++ "'" ++ toString n := by
  obtain ⟨n, -, h⟩ := firstFree_eq base story.names 2
  exact ⟨n, h⟩

/-- What a slot makes of the name of its node. -/
def slotStatus (id : NodeId) : Slot → Status
  | .settled _ => .settled
  | .placeholder _ => .waiting id
  | _ => .free

/-- The nodes of a story decide what stands at a name. -/
theorem status_eq_of_slot (hd : story.Distinct) {slot : Slot} (hs : story.slots[id]? = some slot)
    (hn : slot.node? = some node) : story.status node.name = slotStatus id slot := by
  cases slot with
  | settled other =>
    obtain rfl : other = node := by simpa [Slot.node?] using hn
    exact status_of_settled hd hs
  | placeholder other =>
    obtain rfl : other = node := by simpa [Slot.node?] using hn
    exact status_of_placeholder hd hs
  | _ => cases hn

/-- A reading of names that fits every live node, and is free elsewhere, is the status. -/
theorem status_unique (hd : story.Distinct) {F : String → Status}
    (live : ∀ id slot node, story.slots[id]? = some slot → slot.node? = some node →
      F node.name = slotStatus id slot)
    (dead : ∀ name, (∀ id node, story.node? id = some node → node.name ≠ name) → F name = .free)
    (name : String) : story.status name = F name := by
  by_cases h : ∃ id node, story.node? id = some node ∧ node.name = name
  · obtain ⟨id, node, hn, rfl⟩ := h
    unfold node? at hn
    cases hs : story.slots[id]? with
    | none => simp [hs] at hn
    | some slot =>
      rw [hs] at hn
      rw [live id slot node hs hn, status_eq_of_slot hd hs hn]
  · simp only [not_exists, not_and] at h
    rw [dead name h, status_eq_free_iff.mpr h]

theorem distinct_empty (start : String) : (empty start).Distinct := by
  intro i j a b hi
  simp [empty, node?] at hi

theorem status_empty (start name : String) : (empty start).status name = .free := by
  rw [status_eq_free_iff]
  intro id node hn
  simp [empty, node?] at hn

end Story

namespace Story

variable {story : Story} {name : String} {id : NodeId}

/-- A node written under a free name. -/
theorem status_addLast (hd : story.Distinct) {slot : Slot} {node : Node}
    (hn : slot.node? = some node) (hfree : story.status node.name = .free) :
    (story.addLast slot).Distinct ∧ ∀ other, (story.addLast slot).status other =
      if other = node.name then slotStatus story.slots.size slot else story.status other := by
  have hfree := status_eq_free_iff.mp hfree
  have hd' : (story.addLast slot).Distinct := by
    intro i j a b hi hj hab
    rw [node?_addLast] at hi hj
    split at hi <;> split at hj
    · next h1 h2 => rw [h1, h2]
    · rw [hn] at hi
      obtain rfl := Option.some.inj hi
      exact absurd hab.symm (hfree j b hj)
    · rw [hn] at hj
      obtain rfl := Option.some.inj hj
      exact absurd hab (hfree i a hi)
    · exact hd i j a b hi hj hab
  refine ⟨hd', status_unique hd' ?_ ?_⟩
  · intro id other found hs ho
    rw [slot_addLast] at hs
    split at hs
    · next h =>
      obtain rfl := Option.some.inj hs
      rw [hn] at ho
      obtain rfl := Option.some.inj ho
      rw [if_pos rfl, h]
    · have : story.node? id = some found := by simp [node?, hs, ho]
      rw [if_neg (hfree id found this), status_eq_of_slot hd hs ho]
  · intro other h
    have hne : other ≠ node.name := by
      intro he
      exact h story.slots.size node (by simp [node?_addLast, hn]) he.symm
    rw [if_neg hne, status_eq_free_iff]
    intro id found hf
    refine h id found ?_
    rw [node?_addLast, if_neg (Nat.ne_of_lt (lt_size_of_node? hf))]
    exact hf

/-- A slot changed to one without a node, or with a node of the same name. -/
theorem status_setSlot (hd : story.Distinct) {old new : Slot} (hs : story.slots[id]? = some old)
    (hsame : ∀ node, new.node? = some node → ∃ was, old.node? = some was ∧ was.name = node.name) :
    (story.setSlot id new).Distinct ∧ ∀ other, (story.setSlot id new).status other =
      if old.node?.any (·.name == other) then slotStatus id new else story.status other := by
  have hlt : id < story.slots.size := (Array.getElem?_eq_some_iff.mp hs).1
  have hback {i : NodeId} {a : Node} (hi : (story.setSlot id new).node? i = some a) :
      ∃ was, story.node? i = some was ∧ was.name = a.name := by
    rw [node?_setSlot new hlt] at hi
    split at hi
    · next h =>
      obtain ⟨was, hw, he⟩ := hsame a hi
      exact ⟨was, by simp [node?, h, hs, hw], he⟩
    · exact ⟨a, hi, rfl⟩
  have hd' : (story.setSlot id new).Distinct := by
    intro i j a b hi hj hab
    obtain ⟨was, hw, ha⟩ := hback hi
    obtain ⟨was', hw', hb⟩ := hback hj
    exact hd i j was was' hw hw' (ha.trans (hab.trans hb.symm))
  refine ⟨hd', status_unique hd' ?_ ?_⟩
  · intro i slot node hi hn
    rw [slot_setSlot new hlt] at hi
    split at hi
    · next h =>
      obtain rfl := Option.some.inj hi
      obtain ⟨was, hw, he⟩ := hsame node hn
      rw [if_pos (by simp [hw, he]), h]
    · next h =>
      rw [if_neg, status_eq_of_slot hd hi hn]
      intro hany
      obtain ⟨was, hw, he⟩ := Option.any_eq_true _ _ |>.mp hany
      exact h (hd i id node was (by simp [node?, hi, hn]) (by simp [node?, hs, hw])
        (by simpa using (beq_iff_eq.mp he).symm))
  · intro other h
    split
    · next hany =>
      obtain ⟨was, hw, he⟩ := Option.any_eq_true _ _ |>.mp hany
      cases hn : new.node? with
      | none => cases new <;> simp_all [Slot.node?, slotStatus]
      | some node =>
        obtain ⟨was', hw', he'⟩ := hsame node hn
        rw [hw] at hw'
        obtain rfl := Option.some.inj hw'
        exact absurd (he'.symm.trans (beq_iff_eq.mp he))
          (h id node (by simp [node?_setSlot new hlt, hn]))
    · next hany =>
      rw [status_eq_free_iff]
      intro i node hn he
      by_cases hi : i = id
      · subst hi
        have : old.node? = some node := by simpa [node?, hs] using hn
        exact hany (by simp [this, he])
      · exact h i node (by rw [node?_setSlot new hlt, if_neg hi]; exact hn) he

/-- A placeholder that gives up its name. -/
theorem status_emptied (hd : story.Distinct) {was : Node} {new : Slot}
    (hs : story.slots[id]? = some (.placeholder was)) (hn : new.node? = none) :
    (story.setSlot id new).Distinct ∧ ∀ other, (story.setSlot id new).status other =
      if other = was.name then .free else story.status other := by
  have hdead : ∀ node, new.node? = some node →
      ∃ before, (Slot.placeholder was).node? = some before ∧ before.name = node.name := by
    intro node h
    rw [hn] at h
    cases h
  have hkind : slotStatus id new = .free := by
    cases new with
    | settled node => cases hn
    | placeholder node => cases hn
    | _ => rfl
  obtain ⟨hd', h⟩ := status_setSlot hd hs hdead
  refine ⟨hd', fun other => ?_⟩
  rw [h, hkind]
  by_cases hname : other = was.name
  · subst hname
    simp [Slot.node?]
  · simp [Slot.node?, hname, Ne.symm hname]

end Story

namespace Build

open Story

variable {story : Story} {name : String}

/-- Adding a slot for a node fails where the name is settled, and settles it or waits at it. -/
theorem status_addSlot (hd : story.Distinct) {slot : Slot} {node : Node}
    (hn : slot.node? = some node) (hname : node.name = name) :
    Yields (fun e => e = .duplicateNode name ∧ story.status name = .settled)
      (fun id s => story.status name ≠ .settled ∧ id = story.slots.size ∧ s.Distinct ∧
        s.slots.size = story.slots.size + 1 ∧
        ∀ other, s.status other =
          if other = name then slotStatus story.slots.size slot else story.status other)
      (addSlot name slot) story := by
  subst hname
  refine yields_addSlot ?_ ?_ ?_
  · intro hf
    have hfree := status_eq_free_iff.mpr (find?_eq_none_iff.mp hf)
    obtain ⟨hd', hstatus⟩ := status_addLast hd hn hfree
    exact ⟨by simp [hfree], rfl, hd', size_addLast slot, hstatus⟩
  · intro old was hf hs hw
    rw [← hw]
    have hwait := status_of_placeholder hd hs
    have hnone : (Slot.replaced was.name []).node? = none := rfl
    obtain ⟨hd1, h1⟩ := status_emptied hd hs hnone
    have hfree : (story.setSlot old (.replaced was.name [])).status node.name = .free := by
      rw [h1, if_pos hw.symm]
    obtain ⟨hd2, h2⟩ := status_addLast hd1 hn hfree
    refine ⟨by rw [hwait]; simp, rfl, hd2, ?_, fun other => ?_⟩
    · rw [size_addLast, size_setSlot]
    · rw [h2, size_setSlot, h1, hw]
      split <;> rfl
  · intro old was hf hs hw
    exact ⟨rfl, hw ▸ status_of_settled hd hs⟩

/-- Tying a loose end settles the placeholder it belongs to. -/
theorem status_tieEnd (hd : story.Distinct) (target : Target) (loose : LooseEnd) :
    Yields (fun e => ¬ IsNoLinkError e)
      (fun _ s => s.Distinct ∧ s.slots.size = story.slots.size ∧
        ∀ other, s.status other = (story.status other).tied [loose.node])
      (tieEnd target loose) story := by
  have unmoved (other : String)
      (h : ∀ node, story.slots[loose.node]? ≠ some (.placeholder node)) :
      (story.status other).tied [loose.node] = story.status other := by
    cases hs : story.status other with
    | waiting id =>
      obtain ⟨node, hn, -⟩ := slot_of_waiting hs
      have : id ≠ loose.node := fun he => h node (he ▸ hn)
      simp [Status.tied, this]
    | _ => rfl
  have dead {old new : Slot} (hs : story.slots[loose.node]? = some old) (ho : old.node? = none)
      (hn : new.node? = none) : (story.setSlot loose.node new).Distinct ∧
        (story.setSlot loose.node new).slots.size = story.slots.size ∧
        ∀ other, (story.setSlot loose.node new).status other =
          (story.status other).tied [loose.node] := by
    have hdead : ∀ node, new.node? = some node →
        ∃ was, old.node? = some was ∧ was.name = node.name := by
      intro node h
      rw [hn] at h
      cases h
    obtain ⟨hd', h⟩ := status_setSlot hd hs hdead
    refine ⟨hd', size_setSlot new, fun other => ?_⟩
    rw [unmoved other fun node hp => ?_, h, if_neg (by simp [ho])]
    rw [hs] at hp
    obtain rfl := Option.some.inj hp
    cases ho
  refine yields_tieEnd ?_ ?_ ?_ ?_ ?_ ?_
  · intro hlt
    refine ⟨hd, rfl, fun other => (unmoved other fun node hs => ?_).symm⟩
    have := (Array.getElem?_eq_some_iff.mp hs).1
    exact absurd this (Nat.not_lt.mpr hlt)
  · intro name flows hs
    exact dead hs rfl rfl
  · intro name flows hs
    exact dead hs rfl rfl
  · intro node hn hl
    obtain ⟨slot, hs, ho⟩ : ∃ slot, story.slots[loose.node]? = some slot ∧ slot.node? = some node := by
      rcases node?_eq_some_iff.mp hn with hs | hs
      · exact ⟨_, hs, rfl⟩
      · exact ⟨_, hs, rfl⟩
    let tied : Slot := .settled { node with body := node.body.setLink loose.outlet (some target) }
    have hsame : ∀ found, tied.node? = some found →
        ∃ was, slot.node? = some was ∧ was.name = found.name := by
      intro found h
      obtain rfl := Option.some.inj h
      exact ⟨node, ho, rfl⟩
    obtain ⟨hd', h⟩ := status_setSlot hd hs hsame
    refine ⟨hd', size_setSlot tied, fun other => ?_⟩
    rw [h]
    by_cases hname : node.name = other
    · subst hname
      rw [if_pos (by simp [ho]), status_eq_of_slot hd hs ho]
      cases slot <;> simp [slotStatus, Status.tied, tied, Slot.node?] at ho ⊢
    · rw [if_neg (by simpa [ho] using hname)]
      cases hst : story.status other with
      | waiting id =>
        obtain ⟨found, hf, he⟩ := slot_of_waiting hst
        have hne : id ≠ loose.node := by
          intro hid
          have : story.node? loose.node = some found := node?_eq_some_iff.mpr (.inr (hid ▸ hf))
          rw [hn] at this
          exact hname (Option.some.inj this ▸ he)
        simp [Status.tied, hne]
      | _ => rfl
  · intro node old hn hl h
    exact h
  · intro node hn hl h
    exact h

theorem tied_nil (status : Status) : status.tied [] = status := by
  cases status <;> simp [Status.tied]

theorem tied_cons (id : NodeId) (ids : List NodeId) (status : Status) :
    status.tied (id :: ids) = (status.tied [id]).tied ids := by
  cases status with
  | waiting other =>
    by_cases h : other = id <;> simp [Status.tied, h]
  | _ => rfl

theorem status_tie (hd : story.Distinct) (target : Target) (ends : List LooseEnd) :
    Yields (fun e => ¬ IsNoLinkError e)
      (fun _ s => s.Distinct ∧ s.slots.size = story.slots.size ∧
        ∀ other, s.status other = (story.status other).tied (ends.map LooseEnd.node))
      (tie target ends) story := by
  induction ends generalizing story with
  | nil => exact Yields.pure ⟨hd, rfl, fun other => (tied_nil _).symm⟩
  | cons loose rest ih =>
    refine Yields.bind (status_tieEnd hd target loose) fun _ s ⟨hd1, hs1, h1⟩ => ?_
    refine Yields.mono (ih hd1) fun _ s' ⟨hd2, hs2, h2⟩ => ⟨hd2, hs2.trans hs1, fun other => ?_⟩
    rw [h2, h1, List.map_cons]
    exact (tied_cons loose.node _ _).symm

/-- Giving up a placeholder frees its name. -/
theorem status_discard (hd : story.Distinct) (id : NodeId) :
    Yields (fun e => ¬ IsNoLinkError e)
      (fun _ s => s.Distinct ∧ s.slots.size = story.slots.size ∧
        ∀ other, s.status other =
          if story.status other = .waiting id then .free else story.status other)
      (discard id) story := by
  refine yields_discard ?_ ?_
  · intro node hs
    have hwait := status_of_placeholder hd hs
    have hnone : (Slot.discarded node.name []).node? = none := rfl
    obtain ⟨hd', h⟩ := status_emptied hd hs hnone
    refine ⟨hd', size_setSlot _, fun other => ?_⟩
    rw [h]
    by_cases hname : other = node.name
    · subst hname
      rw [if_pos rfl, if_pos hwait]
    · have hne : story.status other ≠ .waiting id := fun hw => hname (waiting_injective hw hwait)
      rw [if_neg hname, if_neg hne]
  · intro hp
    refine ⟨hd, rfl, fun other => ?_⟩
    rw [if_neg]
    intro hw
    rw [isPlaceholder_of_waiting hw] at hp
    cases hp

theorem status_modifyBody (hd : story.Distinct) (id : NodeId) (f : Body → Body) :
    Yields (fun e => ¬ IsNoLinkError e)
      (fun _ s => s.Distinct ∧ s.slots.size = story.slots.size ∧
        ∀ other, s.status other = story.status other)
      (modifyBody id f) story := by
  have same {old new : Slot} {was found : Node} (hs : story.slots[id]? = some old)
      (ho : old.node? = some was) (hn : new.node? = some found) (hname : found.name = was.name)
      (hkind : slotStatus id new = slotStatus id old) : (story.setSlot id new).Distinct ∧
        (story.setSlot id new).slots.size = story.slots.size ∧
        ∀ other, (story.setSlot id new).status other = story.status other := by
    have hsame : ∀ node, new.node? = some node →
        ∃ was, old.node? = some was ∧ was.name = node.name := by
      intro node h
      rw [hn] at h
      obtain rfl := Option.some.inj h
      exact ⟨was, ho, hname.symm⟩
    obtain ⟨hd', h⟩ := status_setSlot hd hs hsame
    refine ⟨hd', size_setSlot new, fun other => ?_⟩
    rw [h]
    split
    · next hany =>
      obtain rfl : was.name = other := by simpa [ho] using hany
      rw [hkind, status_eq_of_slot hd hs ho]
    · rfl
  refine yields_modifyBody ?_ ?_ ?_
  · intro node hs
    exact same hs rfl rfl rfl rfl
  · intro node hs
    exact same hs rfl rfl rfl rfl
  · intro _
    exact ⟨hd, rfl, fun _ => rfl⟩

end Build

end Storyline
