import Storyline.Proofs.Meaning.Backpatching
import Storyline.Proofs.Targets.Known

namespace Storyline

def EverySlot (_ : NodeId) : Prop := True

namespace Story

variable {among among' : NodeId → Prop} {noted noted' : List Diagnostic} {story mid after : Story}
  {id : NodeId} {name : String} {body : Body} {target : Target} {loose : LooseEnd}

structure Retains (among : NodeId → Prop) (noted : List Diagnostic) (story after : Story) : Prop where
  size : story.slots.size ≤ after.slots.size
  holds : ∀ id node, among id → story.slots[id]? = some (.settled node) →
    after.Holds id node.name node.body
  diagnostics : after.diagnostics.toList = story.diagnostics.toList ++ noted

theorem Holds.retained (h : story.Holds id name body) (r : story.Retains among noted after)
    (ha : among id) : after.Holds id name body := by
  obtain ⟨node, hs, rfl, hb⟩ := h
  obtain ⟨now, hnow, hname, hb'⟩ := r.holds id node ha hs
  exact ⟨now, hnow, hname, hb.trans hb'⟩

theorem Gone.retained (h : story.Gone target loose) (r : story.Retains among noted after)
    (ha : among loose.node) : after.Gone target loose := by
  obtain ⟨node, hs, hl⟩ := h
  obtain ⟨now, hnow, -, hb⟩ := r.holds loose.node node ha hs
  exact ⟨now, hnow, hb.tied loose.outlet target hl⟩

theorem Settled.retained (h : story.Settled loose) (r : story.Retains among noted after)
    (ha : among loose.node) : after.Settled loose := by
  obtain ⟨node, hs⟩ := h
  obtain ⟨now, hnow, -⟩ := r.holds loose.node node ha hs
  exact ⟨now, hnow⟩

theorem Holds.lt_size (h : story.Holds id name body) : id < story.slots.size := by
  obtain ⟨node, hs, -⟩ := h
  exact (Array.getElem?_eq_some_iff.mp hs).1

theorem Settled.lt_size (h : story.Settled loose) : loose.node < story.slots.size := by
  obtain ⟨node, hs⟩ := h
  exact (Array.getElem?_eq_some_iff.mp hs).1

namespace Retains

theorem refl (story : Story) : story.Retains among [] story :=
  ⟨Nat.le_refl _, fun _ node _ hs => ⟨node, hs, rfl, .refl node.body⟩, (List.append_nil _).symm⟩

theorem trans (h : story.Retains among noted mid) (h' : mid.Retains among noted' after) :
    story.Retains among (noted ++ noted') after := by
  refine ⟨Nat.le_trans h.size h'.size, fun id node ha hs => ?_, ?_⟩
  · exact (h.holds id node ha hs).retained h' ha
  · rw [h'.diagnostics, h.diagnostics, List.append_assoc]

/-- One run after another that notes nothing. -/
theorem quiet (h : story.Retains among noted mid) (h' : mid.Retains among [] after) :
    story.Retains among noted after := by
  have hall := h.trans h'
  rwa [List.append_nil] at hall

theorem mono (hm : ∀ id, among' id → among id) (h : story.Retains among noted after) :
    story.Retains among' noted after :=
  ⟨h.size, fun id node ha => h.holds id node (hm id ha), h.diagnostics⟩

theorem every (h : story.Retains EverySlot noted after) : story.Retains among noted after :=
  h.mono fun _ _ => trivial

/-- A slot that is new at the end was not there before. -/
theorem of_new (h : story.Retains (· ≠ id) noted after) (hid : story.slots.size ≤ id) :
    story.Retains EverySlot noted after := by
  refine ⟨h.size, fun other node _ hs => ?_, h.diagnostics⟩
  have hlt := (Array.getElem?_eq_some_iff.mp hs).1
  exact h.holds other node (Nat.ne_of_lt (Nat.lt_of_lt_of_le hlt hid)) hs

theorem addLast (slot : Slot) : story.Retains EverySlot [] (story.addLast slot) := by
  refine ⟨by rw [size_addLast]; exact Nat.le_succ _, fun other node _ hs => ?_, ?_⟩
  · refine ⟨node, ?_, rfl, .refl node.body⟩
    rw [slot_addLast, if_neg (Nat.ne_of_lt (Array.getElem?_eq_some_iff.mp hs).1)]
    exact hs
  · exact (List.append_nil _).symm

/-- A slot that holds no settled node may change to whatever it likes. -/
theorem setSlot {old : Slot} (new : Slot) (hs : story.slots[id]? = some old)
    (ho : ∀ node, old = .settled node → ∃ now, new = .settled now ∧ now.name = node.name ∧
      node.body.Grows now.body) : story.Retains EverySlot [] (story.setSlot id new) := by
  have hlt := (Array.getElem?_eq_some_iff.mp hs).1
  refine ⟨Nat.le_of_eq (size_setSlot new).symm, fun other node _ hn => ?_, ?_⟩
  · by_cases he : other = id
    · subst he
      rw [hs] at hn
      obtain ⟨now, rfl, hname, hb⟩ := ho node (Option.some.inj hn)
      exact ⟨now, by rw [slot_setSlot _ hlt, if_pos rfl], hname, hb⟩
    · refine ⟨node, ?_, rfl, .refl node.body⟩
      rw [slot_setSlot _ hlt, if_neg he]
      exact hn
  · exact (List.append_nil _).symm

theorem of_grows (hg : story.Grows after) (hd : after.diagnostics = story.diagnostics) :
    story.Retains EverySlot [] after := by
  refine ⟨?_, fun id node _ hs => ?_, by rw [hd, List.append_nil]⟩
  · by_contra hlt
    have hin : after.slots.size < story.slots.size := Nat.lt_of_not_le hlt
    obtain ⟨slot, hs, -⟩ := hg after.slots.size story.slots[after.slots.size] (by simp [hin])
    simp at hs
  · obtain ⟨slot, hs', hb⟩ := hg id _ hs
    cases hb with
    | settled hname hb => exact ⟨_, hs', hname.symm, hb⟩

end Retains

/-- A link of a node that was open when it was written and has a target now. -/
theorem Holds.tied {outlet : Outlet} (h : story.Holds id name body)
    (hg : story.Gone target ⟨id, outlet⟩) (ho : body.link? outlet = some none) :
    story.Holds id name (body.setLink outlet (some target)) := by
  obtain ⟨node, hs, hname, hb⟩ := h
  obtain ⟨found, hf, hl⟩ := hg
  have hsame : node = found := Slot.settled.inj (Option.some.inj (hs.symm.trans hf))
  subst hsame
  refine ⟨node, hs, hname, ?_, fun other goal ht => ?_⟩
  · rw [hb.same, Body.cleared_setLink]
  · by_cases he : other = outlet
    · subst he
      rw [Body.link?_setLink_self _ ho] at ht
      rw [hl, Option.some.inj ht]
    · rw [Body.link?_setLink_of_ne _ he] at ht
      exact hb.tied other goal ht

theorem kind_cleared (body : Body) : body.cleared.kind = body.kind := by
  cases body <;> rfl

/-- Nodes of different kinds live in different slots. -/
theorem Holds.ne {other : NodeId} {name' : String} {body' : Body} (h : story.Holds id name body)
    (h' : story.Holds other name' body') (hk : body.kind ≠ body'.kind) : id ≠ other := by
  rintro rfl
  obtain ⟨node, hs, -, hb⟩ := h
  obtain ⟨node', hs', -, hb'⟩ := h'
  have hsame : node = node' := Slot.settled.inj (Option.some.inj (hs.symm.trans hs'))
  refine hk ?_
  rw [← kind_cleared body, ← hb.same, hsame, hb'.same, kind_cleared]

end Story

/-- A node all of whose links have targets stays as it is. Switches are left out. -/
theorem Body.Grows.eq_of_tied {body after : Body} (h : body.Grows after)
    (ht : ∀ outlet, body.link? outlet ≠ some none) (hs : body.kind ≠ .switch) : after = body := by
  have tied (outlet : Outlet) (link : Link) (hl : body.link? outlet = some link) :
      after.link? outlet = some link := by
    cases link with
    | none => exact absurd hl (ht outlet)
    | some target => exact h.tied outlet target hl
  have hsame := h.same
  cases body <;> cases after <;> simp only [Body.cleared, reduceCtorEq] at hsame
  case switch => exact absurd rfl hs
  all_goals
    have hnext := tied .next
    have hbranch := tied .branch
    simp_all [Body.link?]

namespace Build

open Story

variable {story : Story} {path : Path} {body : Body}

theorem addSlot_retains (name : String) (slot : Slot) :
    Yields Anything (fun id after => story.Retains EverySlot [] after ∧ id = story.slots.size ∧
      after.slots[id]? = some slot) (addSlot name slot) story := by
  refine yields_addSlot ?_ ?_ fun _ _ _ _ _ => trivial
  · intro _
    exact ⟨.addLast slot, rfl, by rw [slot_addLast, if_pos rfl]⟩
  · intro old node _ hs _
    have hgone := Retains.setSlot (.replaced name []) hs fun _ he => by cases he
    have hsize : (story.setSlot old (.replaced name [])).slots.size = story.slots.size :=
      size_setSlot _
    refine ⟨hgone.trans (.addLast slot), rfl, ?_⟩
    rw [slot_addLast, hsize, if_pos rfl]

theorem create_retains (path : Path) (body : Body) (pos : Position) :
    Yields Anything (fun id after => story.Retains EverySlot [] after ∧ id = story.slots.size ∧
      after.Holds id path.name body) (create path body pos) story :=
  (addSlot_retains path.name _).mono fun _ _ ⟨hr, hid, hs⟩ =>
    ⟨hr, hid, ⟨path.name, body, pos⟩, hs, rfl, .refl body⟩

theorem tie_retains (target : Target) (ends : List LooseEnd) :
    Yields Anything (fun _ after => story.Retains EverySlot [] after ∧
      ∀ l ∈ ends, story.Settled l → after.Gone target l) (tie target ends) story := by
  refine Yields.mono (yields_told target ends) fun _ after h => ?_
  refine ⟨.of_grows h.later.grows h.later.diagnostics, fun l hl hs => h.gone l hl ?_⟩
  have hw : story.Waits default l := .inl hs
  exact hw.live

/-- Writing a node ties to it what waits for it. -/
theorem arrive_retains (front : Front) (body : Body) (pos : Position) :
    Yields Anything (fun id after => story.Retains EverySlot [] after ∧ id = story.slots.size ∧
      after.Holds id front.path.name body ∧
      ∀ l ∈ front.ends.rets, story.Settled l → after.Gone (.node front.path.name) l)
      (arrive front body pos) story := by
  refine Yields.bind (create_retains front.path body pos) fun id mid ⟨hr, hid, hs⟩ => ?_
  refine Yields.bind (tie_retains (.node front.path.name) front.ends.rets) fun _ after ⟨hr', hg⟩ => ?_
  refine Yields.pure ⟨hr.trans hr', hid, hs.retained hr' trivial, fun l hl hset => ?_⟩
  exact hg l hl (hset.retained hr trivial)

theorem discard_retains (id : NodeId) :
    Yields Anything (fun _ => story.Retains EverySlot []) (discard id) story := by
  refine yields_discard (fun node hs => ?_) fun _ => .refl story
  exact .setSlot _ hs fun _ he => by cases he

theorem report_retains (pos : Position) (mistake : Mistake) :
    Yields Anything (fun _ => story.Retains EverySlot [⟨pos, mistake⟩]) (report pos mistake) story :=
  yields_report ⟨Nat.le_refl _, fun _ node _ hs => ⟨node, hs, rfl, .refl node.body⟩,
    Array.toList_push⟩

/-- A change to a node leaves all others alone. -/
theorem modifyBody_retains (id : NodeId) (f : Body → Body) :
    Yields Anything (fun _ after => story.Retains (· ≠ id) [] after ∧
      ∀ node, story.slots[id]? = some (.settled node) →
        after.slots[id]? = some (.settled { node with body := f node.body }))
      (modifyBody id f) story := by
  have other {old new : Slot} (hs : story.slots[id]? = some old) :
      story.Retains (· ≠ id) [] (story.setSlot id new) := by
    have hlt := (Array.getElem?_eq_some_iff.mp hs).1
    refine ⟨Nat.le_of_eq (size_setSlot new).symm, fun i node hi hn => ?_, ?_⟩
    · refine ⟨node, ?_, rfl, .refl node.body⟩
      rw [slot_setSlot _ hlt, if_neg hi]
      exact hn
    · exact (List.append_nil _).symm
  refine yields_modifyBody ?_ ?_ ?_
  · intro node hs
    refine ⟨other hs, fun found hf => ?_⟩
    rw [hs] at hf
    obtain rfl := Slot.settled.inj (Option.some.inj hf)
    rw [slot_setSlot _ (Array.getElem?_eq_some_iff.mp hs).1, if_pos rfl]
  · intro node hs
    refine ⟨other hs, fun found hf => ?_⟩
    rw [hs] at hf
    cases hf
  · intro hdead
    refine ⟨.refl story, fun found hf => ?_⟩
    rw [node?_eq_some_iff.mpr (.inl hf)] at hdead
    cases hdead

end Build

end Storyline
