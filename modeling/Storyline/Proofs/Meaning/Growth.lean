import Storyline.Proofs.Ends.Outlets
import Storyline.Proofs.Names.Status

namespace Storyline

namespace Body

/-- The body with all its links open. -/
def cleared : Body → Body
  | content c _ => content c none
  | ask => ask
  | jump condition _ _ => jump condition none none
  | switch mode counter value branches weights _ =>
    switch mode counter value (branches.map fun _ => none) weights none
  | goto _ => goto none
  | call label args _ _ => call label args none none
  | define params _ => define params none
  | option question answer keywords _ => option question answer keywords none

theorem cleared_setLink (body : Body) (outlet : Outlet) (link : Link) :
    (body.setLink outlet link).cleared = body.cleared := by
  cases body with
  | switch mode counter value branches weights next =>
    cases mode <;> cases outlet <;> simp [setLink, cleared, List.map_const']
  | _ => cases outlet <;> rfl

theorem references_setLink (body : Body) (outlet : Outlet) (link : Link) :
    (body.setLink outlet link).references = body.references := by
  cases body with
  | switch mode counter value branches weights next => cases mode <;> cases outlet <;> rfl
  | _ => cases outlet <;> rfl

/-- Links of the body were tied. -/
structure Grows (body after : Body) : Prop where
  same : after.cleared = body.cleared
  tied : ∀ outlet target, body.link? outlet = some (some target) →
    after.link? outlet = some (some target)

theorem Grows.refl (body : Body) : body.Grows body := ⟨rfl, fun _ _ h => h⟩

theorem Grows.trans {body mid after : Body} (h : body.Grows mid) (h' : mid.Grows after) :
    body.Grows after :=
  ⟨h'.same.trans h.same, fun outlet target ht => h'.tied outlet target (h.tied outlet target ht)⟩

theorem grows_setLink {body : Body} {outlet : Outlet} (target : Target)
    (h : body.link? outlet = some none) : body.Grows (body.setLink outlet (some target)) := by
  refine ⟨cleared_setLink body outlet _, fun other found ht => ?_⟩
  have hne : other ≠ outlet := by
    rintro rfl
    rw [h] at ht
    cases ht
  rw [link?_setLink_of_ne _ hne]
  exact ht

theorem Grows.content {c : Content} {link : Link} {after : Body} (h : (content c link).Grows after) :
    ∃ next, after = .content c next := by
  have hs := h.same
  cases after <;> simp only [cleared, content.injEq, reduceCtorEq] at hs
  exact ⟨_, by rw [hs.1]⟩

theorem Grows.goto {link : Link} {after : Body} (h : (goto link).Grows after) :
    ∃ next, after = .goto next := by
  have hs := h.same
  cases after <;> simp only [cleared, reduceCtorEq] at hs
  exact ⟨_, rfl⟩

theorem Grows.jump {condition : Expr} {first second : Link} {after : Body}
    (h : (jump condition first second).Grows after) :
    ∃ branch next, after = .jump condition branch next := by
  have hs := h.same
  cases after <;> simp only [cleared, jump.injEq, reduceCtorEq] at hs
  exact ⟨_, _, by rw [hs.1]⟩

theorem Grows.switch {mode : SwitchMode} {counter : Option String} {value : Expr}
    {branches : List Link} {weights : List (Option Expr)} {link : Link} {after : Body}
    (h : (switch mode counter value branches weights link).Grows after) :
    ∃ links next, links.length = branches.length ∧
      after = .switch mode counter value links weights next := by
  have hs := h.same
  cases after <;> simp only [cleared, switch.injEq, reduceCtorEq] at hs
  obtain ⟨rfl, rfl, rfl, hl, rfl, -⟩ := hs
  exact ⟨_, _, by simpa using congrArg List.length hl, rfl⟩

/-- A link of the body with one link changed is that link or was there before. -/
theorem link?_setLink {body : Body} {outlet other : Outlet} {target found : Target}
    (h : body.link? outlet = some none)
    (ho : (body.setLink outlet (some target)).link? other = some (some found)) :
    body.link? other = some (some found) ∨ found = target := by
  by_cases hne : other = outlet
  · subst hne
    rw [link?_setLink_self _ h] at ho
    cases ho
    exact .inr rfl
  · rw [link?_setLink_of_ne _ hne] at ho
    exact .inl ho

end Body

/-- What becomes of a slot. -/
inductive Slot.Becomes : Slot → Slot → Prop where
  | settled {node after : Node} : node.name = after.name → node.body.Grows after.body →
      Becomes (.settled node) (.settled after)
  | waits {node} : Becomes (.placeholder node) (.placeholder node)
  | settles {node after : Node} : node.name = after.name → node.body.Grows after.body →
      Becomes (.placeholder node) (.settled after)
  | givesWay {node : Node} {flows} : Becomes (.placeholder node) (.replaced node.name flows)
  | replaced {name flows flows'} : Becomes (.replaced name flows) (.replaced name flows')
  | discarded {name flows flows'} : Becomes (.discarded name flows) (.discarded name flows')

theorem Slot.Becomes.refl (slot : Slot) : slot.Becomes slot := by
  cases slot with
  | settled node => exact .settled rfl (.refl node.body)
  | placeholder node => exact .waits
  | replaced name flows => exact .replaced
  | discarded name flows => exact .discarded

theorem Slot.Becomes.trans {slot mid after : Slot} (h : slot.Becomes mid) (h' : mid.Becomes after) :
    slot.Becomes after := by
  cases h with
  | settled hn hb =>
    cases h' with
    | settled hn' hb' => exact .settled (hn.trans hn') (hb.trans hb')
  | waits => exact h'
  | settles hn hb =>
    cases h' with
    | settled hn' hb' => exact .settles (hn.trans hn') (hb.trans hb')
  | givesWay => cases h' with | replaced => exact .givesWay
  | replaced => cases h' with | replaced => exact .replaced
  | discarded => cases h' with | discarded => exact .discarded

namespace Story

variable {story mid after : Story} {id : NodeId}

/-- No slot is undone. -/
def Grows (story after : Story) : Prop :=
  ∀ (id : NodeId) (slot : Slot), story.slots[id]? = some slot → ∃ slot', after.slots[id]? = some slot' ∧
    slot.Becomes slot'

theorem Grows.refl (story : Story) : story.Grows story := fun _ slot h => ⟨slot, h, .refl slot⟩

theorem Grows.trans (h : story.Grows mid) (h' : mid.Grows after) : story.Grows after := by
  intro id slot hs
  obtain ⟨slot', hs', hb⟩ := h id slot hs
  obtain ⟨slot'', hs'', hb'⟩ := h' id slot' hs'
  exact ⟨slot'', hs'', hb.trans hb'⟩

theorem grows_addLast (slot : Slot) : story.Grows (story.addLast slot) := by
  intro id old hs
  refine ⟨old, ?_, .refl old⟩
  rw [slot_addLast, if_neg (Nat.ne_of_lt (Array.getElem?_eq_some_iff.mp hs).1)]
  exact hs

theorem grows_setSlot {old new : Slot} (hs : story.slots[id]? = some old) (hb : old.Becomes new) :
    story.Grows (story.setSlot id new) := by
  have hlt := (Array.getElem?_eq_some_iff.mp hs).1
  intro other slot ho
  rw [slot_setSlot new hlt]
  split
  · next h =>
    subst h
    rw [hs] at ho
    cases ho
    exact ⟨new, rfl, hb⟩
  · exact ⟨slot, ho, .refl slot⟩

/-- What stays true of a story whatever is written later. -/
structure Later (story after : Story) : Prop where
  grows : story.Grows after
  contains : ∀ name, story.contains name = true → after.contains name = true
  diagnostics : after.diagnostics = story.diagnostics
  start : after.start = story.start

theorem Later.refl (story : Story) : story.Later story := ⟨.refl story, fun _ h => h, rfl, rfl⟩

theorem Later.trans (h : story.Later mid) (h' : mid.Later after) : story.Later after :=
  ⟨h.grows.trans h'.grows, fun name hc => h'.contains name (h.contains name hc),
    h'.diagnostics.trans h.diagnostics, h'.start.trans h.start⟩

/-- The loose end was tied to the target. -/
def Gone (story : Story) (target : Target) (loose : LooseEnd) : Prop :=
  ∃ node, story.slots[loose.node]? = some (.settled node) ∧
    node.body.link? loose.outlet = some (some target)

theorem Gone.later {target : Target} {loose : LooseEnd} (h : story.Gone target loose)
    (hg : story.Grows after) : after.Gone target loose := by
  obtain ⟨node, hs, hl⟩ := h
  obtain ⟨slot, hs', hb⟩ := hg _ _ hs
  cases hb with
  | settled hn hb => exact ⟨_, hs', hb.tied _ _ hl⟩

end Story

namespace Build

open Story

variable {story : Story} {name : String}

/-- What writing a node comes to. -/
structure Added (name : String) (slot : Slot) (story : Story) (id : NodeId) (after : Story) : Prop where
  later : story.Later after
  distinct : after.Distinct
  fresh : story.slots[id]? = none
  stored : after.slots[id]? = some slot
  kept : story.status name = .free → ∀ (other : NodeId) (old : Slot),
    story.slots[other]? = some old → after.slots[other]? = some old
  here : after.contains name = true
  nodes : ∀ other found, after.node? other = some found →
    slot.node? = some found ∨ story.node? other = some found
  gaveWay : ∀ old, story.status name = .waiting old →
    ∃ flows, after.slots[old]? = some (.replaced name flows)

/-- A node written under a free name. -/
theorem added_last (hd : story.Distinct) {slot : Slot} {node : Node} (hn : slot.node? = some node)
    (hfree : story.status node.name = .free) :
    Added node.name slot story story.slots.size (story.addLast slot) := by
  have hlast : (story.addLast slot).slots[story.slots.size]? = some slot := by
    rw [slot_addLast, if_pos rfl]
  have hkept (other : NodeId) (old : Slot) (hs : story.slots[other]? = some old) :
      (story.addLast slot).slots[other]? = some old := by
    rw [slot_addLast, if_neg (Nat.ne_of_lt (Array.getElem?_eq_some_iff.mp hs).1)]
    exact hs
  have hlive (other : NodeId) (found : Node) (hf : story.node? other = some found) :
      (story.addLast slot).node? other = some found := by
    rw [node?_addLast, if_neg (Nat.ne_of_lt (lt_size_of_node? hf))]
    exact hf
  have hcontains (name : String) (hc : story.contains name = true) :
      (story.addLast slot).contains name = true := by
    obtain ⟨id, found, hf, he⟩ := contains_iff.mp hc
    exact contains_iff.mpr ⟨id, found, hlive id found hf, he⟩
  have hhere : (story.addLast slot).contains node.name = true := by
    refine contains_iff.mpr ⟨story.slots.size, node, ?_, rfl⟩
    rw [node?_addLast, if_pos rfl, hn]
  refine ⟨⟨grows_addLast slot, hcontains, rfl, rfl⟩, (status_addLast hd hn hfree).1,
    Array.getElem?_eq_none (Nat.le_refl _), hlast, fun _ => hkept, hhere, fun other found hf => ?_,
    fun old hw => ?_⟩
  · rw [node?_addLast] at hf
    split at hf
    · exact .inl hf
    · exact .inr hf
  · rw [hfree] at hw
    cases hw

/-- A node written where a placeholder gave way to it. -/
theorem Added.over (hd : story.Distinct) {slot : Slot} {was : Node} {old id : NodeId} {after : Story}
    (hs : story.slots[old]? = some (.placeholder was))
    (a : Added was.name slot (story.setSlot old (.replaced was.name [])) id after) :
    Added was.name slot story id after := by
  have hlt := (Array.getElem?_eq_some_iff.mp hs).1
  have hstatus := status_of_placeholder hd hs
  have hgives : Slot.Becomes (.placeholder was) (.replaced was.name []) := .givesWay
  have hold : (story.setSlot old (.replaced was.name [])).slots[old]? =
      some (.replaced was.name []) := by rw [slot_setSlot _ hlt, if_pos rfl]
  have hcontains (name : String) (hc : story.contains name = true) : after.contains name = true := by
    obtain ⟨other, found, hf, he⟩ := contains_iff.mp hc
    by_cases ho : other = old
    · subst ho
      have hwas : story.node? other = some was := node?_eq_some_iff.mpr (.inr hs)
      rw [hf] at hwas
      obtain rfl := Option.some.inj hwas
      exact he ▸ a.here
    · refine a.later.contains name (contains_iff.mpr ⟨other, found, ?_, he⟩)
      rw [node?_setSlot _ hlt, if_neg ho]
      exact hf
  refine ⟨⟨(grows_setSlot hs hgives).trans a.later.grows, hcontains, a.later.diagnostics,
    a.later.start⟩, a.distinct, ?_, a.stored, fun hfree => ?_, a.here, fun other found hf => ?_,
    fun other hw => ?_⟩
  · have hfresh := a.fresh
    rw [slot_setSlot _ hlt] at hfresh
    split at hfresh
    · cases hfresh
    · exact hfresh
  · rw [hstatus] at hfree
    cases hfree
  · refine (a.nodes other found hf).imp_right fun h => ?_
    rw [node?_setSlot _ hlt] at h
    split at h
    · cases h
    · exact h
  · rw [hstatus] at hw
    cases hw
    obtain ⟨slot', hs', hb⟩ := a.later.grows old _ hold
    cases hb with
    | replaced => exact ⟨_, hs'⟩

theorem yields_added (hd : story.Distinct) {slot : Slot} {node : Node} (hn : slot.node? = some node)
    (hname : node.name = name) :
    Yields (fun _ => True) (Added name slot story) (addSlot name slot) story := by
  subst hname
  refine yields_addSlot ?_ ?_ fun _ _ _ _ _ => trivial
  · intro hf
    have hfree : story.status node.name = .free := by simp [status, hf]
    exact added_last hd hn hfree
  · intro old was hf hs hw
    have hnone : (Slot.replaced was.name []).node? = none := rfl
    obtain ⟨hd', hstatus⟩ := status_emptied hd hs hnone
    have hfree : (story.setSlot old (.replaced was.name [])).status node.name = .free := by
      rw [hstatus, if_pos hw.symm]
    have hadded := added_last hd' hn hfree
    rw [size_setSlot, ← hw] at hadded
    rw [← hw]
    exact hadded.over hd hs

/-- What tying ends makes of the nodes. -/
structure Told (target : Target) (ends : List LooseEnd) (story after : Story) : Prop where
  later : story.Later after
  nodes : ∀ id node, after.node? id = some node → ∃ was, story.node? id = some was ∧
    was.name = node.name ∧ node.body.references = was.body.references ∧
    ∀ outlet found, node.body.link? outlet = some (some found) →
      was.body.link? outlet = some (some found) ∨ found = target
  live : ∀ id, (story.node? id).isSome → (after.node? id).isSome
  gone : ∀ l ∈ ends, (story.node? l.node).isSome → after.Gone target l

/-- What tying ends comes to. -/
structure Sent (target : Target) (ends : List LooseEnd) (story after : Story) : Prop
    extends Told target ends story after where
  distinct : after.Distinct
  status : ∀ name, after.status name = (story.status name).tied (ends.map LooseEnd.node)

theorem Told.refl (target : Target) : Told target [] story story :=
  ⟨.refl story, fun _ node h => ⟨node, h, rfl, rfl, fun _ _ => .inl⟩, fun _ h => h,
    fun l hl => by cases hl⟩

theorem Told.trans {mid after : Story} {target : Target} {first : LooseEnd} {rest : List LooseEnd}
    (h : Told target [first] story mid) (h' : Told target rest mid after) :
    Told target (first :: rest) story after := by
  refine ⟨h.later.trans h'.later, fun id node hn => ?_, fun id hi => h'.live id (h.live id hi),
    fun l hl hi => ?_⟩
  · obtain ⟨mid, hm, hname, href, hlink⟩ := h'.nodes id node hn
    obtain ⟨was, hw, hname', href', hlink'⟩ := h.nodes id mid hm
    refine ⟨was, hw, hname'.trans hname, href.trans href', fun outlet found ho => ?_⟩
    rcases hlink outlet found ho with ho | ho
    · exact hlink' outlet found ho
    · exact .inr ho
  · rcases List.mem_cons.mp hl with rfl | hl
    · exact (h.gone l (List.mem_singleton_self l) hi).later h'.later.grows
    · exact h'.gone l hl (h.live _ hi)

/-- A slot without a node notes the target and nothing else. -/
theorem told_dead {target : Target} {loose : LooseEnd} {old new : Slot}
    (hs : story.slots[loose.node]? = some old) (ho : old.node? = none) (hn : new.node? = none)
    (hb : old.Becomes new) : Told target [loose] story (story.setSlot loose.node new) := by
  have hlt := (Array.getElem?_eq_some_iff.mp hs).1
  have hnone : story.node? loose.node = none := by simp [node?, hs, ho]
  have hsame (id : NodeId) : (story.setSlot loose.node new).node? id = story.node? id := by
    rw [node?_setSlot _ hlt]
    split
    · next h => rw [h, hnone, hn]
    · rfl
  refine ⟨⟨grows_setSlot hs hb, fun name hc => ?_, rfl, rfl⟩, fun id node h => ?_, fun id h => ?_,
    fun l hl h => ?_⟩
  · obtain ⟨id, node, hf, he⟩ := contains_iff.mp hc
    exact contains_iff.mpr ⟨id, node, (hsame id).trans hf, he⟩
  · exact ⟨node, (hsame id) ▸ h, rfl, rfl, fun _ _ => .inl⟩
  · rw [hsame]
    exact h
  · rw [List.mem_singleton.mp hl, hnone] at h
    cases h

/-- A node whose link is tied settles. -/
theorem told_live {target : Target} {loose : LooseEnd} {node : Node}
    (hn : story.node? loose.node = some node) (ho : node.body.link? loose.outlet = some none) :
    Told target [loose] story (story.setSlot loose.node
      (.settled { node with body := node.body.setLink loose.outlet (some target) })) := by
  let tied : Node := { node with body := node.body.setLink loose.outlet (some target) }
  have hlt := lt_size_of_node? hn
  have hgrows : story.Grows (story.setSlot loose.node (.settled tied)) := by
    rcases node?_eq_some_iff.mp hn with hs | hs
    · exact grows_setSlot hs (.settled rfl (Body.grows_setLink target ho))
    · exact grows_setSlot hs (.settles rfl (Body.grows_setLink target ho))
  have hat (id : NodeId) : (story.setSlot loose.node (.settled tied)).node? id =
      if id = loose.node then some tied else story.node? id :=
    node?_setSlot (.settled tied) hlt id
  refine ⟨⟨hgrows, fun name hc => ?_, rfl, rfl⟩, fun id found hf => ?_, fun id hi => ?_, fun l hl _ => ?_⟩
  · obtain ⟨id, found, hf, he⟩ := contains_iff.mp hc
    by_cases hid : id = loose.node
    · subst hid
      rw [hn] at hf
      cases hf
      exact contains_iff.mpr ⟨loose.node, tied, by rw [hat, if_pos rfl], he⟩
    · exact contains_iff.mpr ⟨id, found, by rw [hat, if_neg hid]; exact hf, he⟩
  · rw [hat] at hf
    split at hf
    · next hid =>
      subst hid
      cases hf
      exact ⟨node, hn, rfl, Body.references_setLink _ _ _, fun _ _ => Body.link?_setLink ho⟩
    · exact ⟨found, hf, rfl, rfl, fun _ _ => .inl⟩
  · rw [hat]
    split
    · rfl
    · exact hi
  · rw [List.mem_singleton.mp hl]
    refine ⟨tied, ?_, Body.link?_setLink_self _ ho⟩
    rw [slot_setSlot _ hlt, if_pos rfl]

theorem yields_told (target : Target) (ends : List LooseEnd) :
    Yields (fun _ => True) (fun _ => Told target ends story) (tie target ends) story := by
  induction ends generalizing story with
  | nil => exact Yields.pure (Told.refl target)
  | cons loose rest ih =>
    have hend : Yields (fun _ => True) (fun _ => Told target [loose] story) (tieEnd target loose)
        story := by
      refine yields_tieEnd ?_ ?_ ?_ ?_ (fun _ _ _ _ => trivial) fun _ _ _ => trivial
      · intro hlt
        refine ⟨.refl story, fun id node h => ⟨node, h, rfl, rfl, fun _ _ => .inl⟩, fun _ h => h,
          fun l hl h => ?_⟩
        obtain ⟨node, hn⟩ := Option.isSome_iff_exists.mp h
        rw [List.mem_singleton.mp hl] at hn
        exact absurd (lt_size_of_node? hn) (Nat.not_lt.mpr hlt)
      · intro name flows hs
        exact told_dead hs rfl rfl .replaced
      · intro name flows hs
        exact told_dead hs rfl rfl .discarded
      · intro node hn ho
        exact told_live hn ho
    exact Yields.bind hend fun _ mid h => ih.mono fun _ _ h' => h.trans h'

theorem yields_sent (hd : story.Distinct) (target : Target) (ends : List LooseEnd) :
    Yields (fun _ => True) (fun _ => Sent target ends story) (tie target ends) story :=
  Yields.mono ((yields_told target ends).and (status_tie hd target ends))
    fun _ _ ⟨h, hd, _, hs⟩ => ⟨h, hd, hs⟩

end Build

end Storyline
