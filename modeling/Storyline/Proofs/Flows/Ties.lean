import Storyline.Proofs.Names.Steps

namespace Storyline

/-- What a slot has yet to see where `due` ends of it are being tied to `target` and `held` more of
them are held. -/
def Slot.Follows (target : Target) (due held : Nat) : Slot → Prop
  | .settled _ => True
  | .placeholder _ => due + held = 1
  | .replaced name flows => held = 0 ∧ flows ++ List.replicate due target = [.node name]
  | .discarded _ flows => held = 0 ∧ flows ++ List.replicate due target = [.ret]

/-- The flow of a retired slot was tied once, and to where it was to go. -/
def Slot.IsLed : Slot → Prop
  | .replaced name flows => flows = [.node name]
  | .discarded _ flows => flows = [.ret]
  | _ => True

/-- How many of the ends belong to a slot. -/
def owed (ends : List LooseEnd) (id : NodeId) : Nat := ends.countP (·.node == id)

/-- What `Led` says, while `ends` are being tied to one target. -/
structure Tying (target : Target) (ends held : List LooseEnd) (story : Story) : Prop where
  within : Within story (ends ++ held)
  follows : ∀ (id : NodeId) (slot : Slot), story.slots[id]? = some slot →
    slot.Follows target (owed ends id) (owed held id)

/-- Each placeholder is owed one tie by the ends held; one that gave way to a node has had its one
tie, to the name it bore, and one that was not needed has had it to the return. -/
def Led (held : List LooseEnd) (story : Story) : Prop := Tying .ret [] held story

variable {target : Target} {ends held later : List LooseEnd} {story after : Story} {slot : Slot}
  {id : NodeId} {due : Nat}

@[simp] theorem owed_nil (id : NodeId) : owed [] id = 0 := rfl

@[simp] theorem owed_append (ends later : List LooseEnd) (id : NodeId) :
    owed (ends ++ later) id = owed ends id + owed later id := List.countP_append

@[simp] theorem owed_cons (loose : LooseEnd) (ends : List LooseEnd) (id : NodeId) :
    owed (loose :: ends) id = owed ends id + if loose.node = id then 1 else 0 := by
  simp [owed, List.countP_cons]

theorem owed_eq_zero_iff : owed ends id = 0 ↔ ∀ l ∈ ends, l.node ≠ id := by
  simp [owed, List.countP_eq_zero]

theorem owed_eq_zero (h : Within story ends) (hid : story.slots.size ≤ id) : owed ends id = 0 := by
  refine owed_eq_zero_iff.mpr fun l hl he => ?_
  exact absurd (h l hl) (Nat.not_lt.mpr (he ▸ hid))

namespace Slot.Follows

theorem any_target {other : Target} (h : slot.Follows target 0 due) : slot.Follows other 0 due := by
  cases slot <;> exact h

theorem isLed (h : slot.Follows target 0 0) : slot.IsLed := by
  cases slot with
  | replaced name flows => simpa [Follows, IsLed] using h
  | discarded name flows => simpa [Follows, IsLed] using h
  | _ => trivial

/-- Ends that are held may be tied. -/
theorem start {count : Nat} (h : slot.Follows target 0 (due + count)) :
    slot.Follows target due count := by
  cases slot with
  | settled node => trivial
  | placeholder node => simpa [Follows] using h
  | replaced name flows =>
    obtain ⟨hc, hf⟩ := h
    obtain rfl : due = 0 := by omega
    exact ⟨by omega, hf⟩
  | discarded name flows =>
    obtain ⟨hc, hf⟩ := h
    obtain rfl : due = 0 := by omega
    exact ⟨by omega, hf⟩

end Slot.Follows

namespace Led

theorem count (h : Led held story) (hc : ∀ id, owed later id = owed held id) : Led later story := by
  refine ⟨fun l hl => ?_, fun id slot hs => ?_⟩
  · have hpos : owed held l.node ≠ 0 := by
      rw [← hc, Ne, owed_eq_zero_iff]
      exact fun hno => hno l hl rfl
    rw [Ne, owed_eq_zero_iff] at hpos
    simp only [not_forall, Decidable.not_not] at hpos
    obtain ⟨other, hm, he⟩ := hpos
    exact he ▸ h.within other hm
  · rw [hc]
    exact h.follows id slot hs

theorem within (h : Led held story) : Within story held := Tying.within h

theorem tying (target : Target) (h : Led (ends ++ held) story) : Tying target ends held story := by
  refine ⟨h.within, fun id slot hs => ?_⟩
  have := h.follows id slot hs
  rw [owed_append] at this
  exact this.any_target.start

theorem isLed (h : Led [] story) : ∀ slot ∈ story.slots, slot.IsLed := by
  intro slot hs
  obtain ⟨id, hlt, rfl⟩ := Array.getElem_of_mem hs
  exact (h.follows id _ (Array.getElem?_eq_getElem hlt)).isLed

/-- Only the slots matter. -/
theorem same (h : Led held story) (hs : after.slots = story.slots) : Led held after := by
  refine ⟨fun l hl => ?_, fun id slot hid => h.follows id slot (hs ▸ hid)⟩
  rw [hs]
  exact h.within l hl

end Led

theorem Tying.done (h : Tying target [] held story) : Led held story :=
  ⟨h.within, fun id slot hs => (h.follows id slot hs).any_target⟩

/-- The one end of a placeholder is among those being tied, if any is. -/
theorem Tying.owed_of_placeholder {node : Node} (h : Tying target ends held story)
    (hs : story.slots[id]? = some (.placeholder node)) (hid : ∃ l ∈ ends, l.node = id) :
    owed ends id = 1 ∧ owed held id = 0 := by
  obtain ⟨l, hl, he⟩ := hid
  have hdue : owed ends id ≠ 0 := fun hz => owed_eq_zero_iff.mp hz l hl he
  have hone : owed ends id + owed held id = 1 := h.follows id _ hs
  omega

/-- A slot that changes while nothing else does. -/
theorem Tying.setSlot {ends' held' : List LooseEnd} (h : Tying target ends held story)
    (hlt : id < story.slots.size) (hw : Within story (ends' ++ held'))
    (hother : ∀ other, other ≠ id → owed ends' other = owed ends other ∧ owed held' other = owed held other)
    (hslot : slot.Follows target (owed ends' id) (owed held' id)) :
    Tying target ends' held' (story.setSlot id slot) := by
  refine ⟨fun l hl => by rw [Story.size_setSlot]; exact hw l hl, fun other found hs => ?_⟩
  rw [Story.slot_setSlot slot hlt] at hs
  split at hs
  · next he =>
    obtain rfl := Option.some.inj hs
    exact he ▸ hslot
  · next hne =>
    rw [(hother other hne).1, (hother other hne).2]
    exact h.follows other found hs

/-- A slot added for a node, with ends of its own. -/
theorem Tying.addLast {fresh : List LooseEnd} (h : Tying target ends held story)
    (hf : ∀ l ∈ fresh, l.node = story.slots.size)
    (hslot : slot.Follows target 0 (owed fresh story.slots.size)) :
    Tying target ends (fresh ++ held) (story.addLast slot) := by
  have hends : Within story ends := h.within.of_append.1
  have hheld : Within story held := h.within.of_append.2
  have hsize : (story.addLast slot).slots.size = story.slots.size + 1 := Story.size_addLast slot
  refine ⟨fun l hl => ?_, fun id found hs => ?_⟩
  · rw [hsize]
    rcases List.mem_append.mp hl with hl | hl
    · exact Nat.lt_succ_of_lt (hends l hl)
    rcases List.mem_append.mp hl with hl | hl
    · exact hf l hl ▸ Nat.lt_succ_self _
    · exact Nat.lt_succ_of_lt (hheld l hl)
  · rw [Story.slot_addLast] at hs
    rw [owed_append]
    split at hs
    · next he =>
      obtain rfl := Option.some.inj hs
      subst he
      rw [owed_eq_zero hends (Nat.le_refl _), owed_eq_zero hheld (Nat.le_refl _)]
      exact hslot
    · next hne =>
      have hfresh : owed fresh id = 0 := owed_eq_zero_iff.mpr fun l hl he => hne (he ▸ hf l hl)
      rw [hfresh, Nat.zero_add]
      exact h.follows id found hs

namespace Build

open Story

theorem tying_tieEnd {loose : LooseEnd} (h : Tying target (loose :: ends) held story) :
    Yields (fun _ => True) (fun _ => Tying target ends held) (tieEnd target loose) story := by
  have hw : Within story (ends ++ held) := fun l hl => h.within l (List.mem_cons_of_mem _ hl)
  have hlt : loose.node < story.slots.size := h.within loose List.mem_cons_self
  have hother (other : NodeId) (hne : other ≠ loose.node) :
      owed ends other = owed (loose :: ends) other ∧ owed held other = owed held other := by
    simp [Ne.symm hne]
  refine yields_tieEnd (fun hle => absurd hlt (Nat.not_lt.mpr hle)) ?_ ?_ ?_ ?_ ?_
  · intro name flows hs
    obtain ⟨hk, hf⟩ := h.follows loose.node _ hs
    refine h.setSlot hlt hw hother ⟨hk, ?_⟩
    simpa [List.replicate_succ] using hf
  · intro name flows hs
    obtain ⟨hk, hf⟩ := h.follows loose.node _ hs
    refine h.setSlot hlt hw hother ⟨hk, ?_⟩
    simpa [List.replicate_succ] using hf
  · intro node hn hl
    exact h.setSlot hlt hw hother trivial
  · exact fun _ _ _ _ => trivial
  · exact fun _ _ _ => trivial

theorem led_tie (h : Tying target ends held story) :
    Yields (fun _ => True) (fun _ => Led held) (tie target ends) story := by
  induction ends generalizing story with
  | nil => exact Yields.pure h.done
  | cons loose rest ih => exact Yields.bind (tying_tieEnd h) fun _ _ hr => ih hr

/-- A node may be written at a name if the placeholder there, if any, waits for one of the ends about
to be tied to it. -/
theorem tying_addSlot {name : String} {fresh : List LooseEnd} (h : Led (ends ++ held) story)
    (hn : ∀ id, story.status name = .waiting id → ∃ l ∈ ends, l.node = id)
    (hf : ∀ l ∈ fresh, l.node = story.slots.size)
    (hslot : slot.Follows (.node name) 0 (owed fresh story.slots.size)) :
    Yields (fun _ => True) (fun id after => id = story.slots.size ∧
      Tying (.node name) ends (fresh ++ held) after) (addSlot name slot) story := by
  have ht : Tying (.node name) ends held story := h.tying _
  refine yields_addSlot ?_ ?_ fun _ _ _ _ _ => trivial
  · intro _
    exact ⟨rfl, ht.addLast hf hslot⟩
  · intro old node hfind hs hname
    have hlt := (Array.getElem?_eq_some_iff.mp hs).1
    have hwait : story.status name = .waiting old := by
      simp [status, hfind, isPlaceholder_iff.mpr ⟨node, hs⟩]
    obtain ⟨hdue, hheld⟩ := ht.owed_of_placeholder hs (hn old hwait)
    have hgone : Slot.Follows (.node name) (owed ends old) (owed held old) (.replaced name []) := by
      refine ⟨hheld, ?_⟩
      rw [hdue]
      rfl
    have hset := ht.setSlot hlt ht.within (fun _ _ => ⟨rfl, rfl⟩) hgone
    refine ⟨rfl, hset.addLast ?_ ?_⟩
    · rw [size_setSlot]
      exact hf
    · rw [size_setSlot]
      exact hslot

/-- A placeholder may be given up if its end is about to be tied to the return. -/
theorem tying_discard (h : Led (ends ++ held) story) (hp : story.isPlaceholder id = true)
    (hid : ∃ l ∈ ends, l.node = id) :
    Yields (fun _ => True) (fun _ => Tying .ret ends held) (discard id) story := by
  have ht : Tying .ret ends held story := h.tying _
  refine yields_discard ?_ fun hno => absurd hp (by simp [hno])
  intro node hs
  have hlt := (Array.getElem?_eq_some_iff.mp hs).1
  obtain ⟨hdue, hheld⟩ := ht.owed_of_placeholder hs hid
  refine ht.setSlot hlt ht.within (fun _ _ => ⟨rfl, rfl⟩) ⟨hheld, ?_⟩
  rw [hdue]
  rfl

theorem led_modifyBody (id : NodeId) (f : Body → Body) (h : Led held story) :
    Yields (fun _ => True) (fun _ => Led held) (modifyBody id f) story := by
  refine yields_modifyBody ?_ ?_ fun _ => h
  · intro node hs
    have hlt := (Array.getElem?_eq_some_iff.mp hs).1
    exact Tying.setSlot h hlt (Tying.within h) (fun _ _ => ⟨rfl, rfl⟩) trivial
  · intro node hs
    have hlt := (Array.getElem?_eq_some_iff.mp hs).1
    have hone : owed [] id + owed held id = 1 := Tying.follows h id _ hs
    exact Tying.setSlot h hlt (Tying.within h) (fun _ _ => ⟨rfl, rfl⟩) hone

end Build

end Storyline
