import Storyline.Proofs.Meaning.Backpatching

namespace Storyline

/-- A label of a script and the thread behind it. -/
structure Section where
  pos : Position
  name : String
  seen : Position
  body : List Item

namespace Section

variable {labels : List String} {name : String}

/-- The items of sections. -/
def laid : List Section → List Item
  | [] => []
  | s :: rest => .label s.pos s.name s.seen :: (s.body ++ laid rest)

/-- A thread without a label stands behind none. -/
theorem behind_append {items : List Item} (hi : Script.Flows labels items) (rest : List Item) :
    Script.behind name (items ++ rest) = Script.behind name rest := by
  induction items with
  | nil => rfl
  | cons i items ih =>
    cases i with
    | label => exact hi.1.elim
    | _ => exact ih hi.2

theorem behind_laid_cons {s : Section} {rest : List Section} (hs : Script.Flows labels s.body) :
    Script.behind name (laid (s :: rest)) =
      if s.name = name then some (s.body ++ laid rest) else Script.behind name (laid rest) := by
  rw [laid, Script.behind, behind_append hs]

/-- Where the names of sections differ each is found behind its name. -/
theorem behind_laid {sections : List Section} (hf : ∀ s ∈ sections, Script.Flows labels s.body)
    (hn : (sections.map Section.name).Nodup) {before rest : List Section} {s : Section}
    (he : sections = before ++ s :: rest) :
    Script.behind s.name (laid sections) = some (s.body ++ laid rest) := by
  induction before generalizing sections with
  | nil =>
    subst he
    rw [List.nil_append, behind_laid_cons (hf s List.mem_cons_self), if_pos rfl]
  | cons first before ih =>
    subst he
    rw [List.cons_append, List.map_cons, List.nodup_cons] at hn
    have hne : first.name ≠ s.name := by
      intro h
      exact hn.1 (h ▸ List.mem_map_of_mem (by simp))
    rw [List.cons_append, behind_laid_cons (hf first List.mem_cons_self), if_neg hne]
    exact ih (fun t ht => hf t (List.mem_cons_of_mem _ ht)) hn.2 rfl

/-- What stands behind a label is a section and those after it. -/
theorem of_behind {sections : List Section} (hf : ∀ s ∈ sections, Script.Flows labels s.body)
    {items : List Item} (h : Script.behind name (laid sections) = some items) :
    ∃ before s rest, sections = before ++ s :: rest ∧ s.name = name ∧ items = s.body ++ laid rest := by
  induction sections with
  | nil => cases h
  | cons first sections ih =>
    rw [behind_laid_cons (hf first List.mem_cons_self)] at h
    split at h
    · next hn => exact ⟨[], first, sections, rfl, hn, (Option.some.inj h).symm⟩
    · obtain ⟨before, s, rest, rfl, hn, hi⟩ := ih (fun t ht => hf t (List.mem_cons_of_mem _ ht)) h
      exact ⟨first :: before, s, rest, rfl, hn, hi⟩

end Section

namespace Story

variable {script : Script} {story final : Story} {id : NodeId} {name : String} {items : List Item}

/-- The placeholder of a label waits in the slot. -/
def Enters (story : Story) (id : NodeId) (name : String) : Prop :=
  ∃ pos, story.slots[id]? = some (.placeholder ⟨name, .goto none, pos⟩)

theorem Enters.waits {path : Path} (h : story.Enters id path.name) (hd : story.Distinct) :
    ∀ l ∈ (Build.entering path (Build.nextEnd id)).ends.rets, story.Waits path l := by
  intro l hl
  obtain ⟨pos, hs⟩ := h
  rw [List.mem_singleton.mp hl]
  exact .inr (status_of_placeholder hd hs)

/-- Tying other ends leaves the placeholder where it is. -/
theorem Enters.sent (h : story.Enters id name) (hd : story.Distinct) {target : Target}
    {ends : List LooseEnd} {after : Story} (hs : Build.Sent target ends story after)
    (hn : id ∉ ends.map LooseEnd.node) : after.Enters id name := by
  obtain ⟨pos, hslot⟩ := h
  have hstatus : after.status name = .waiting id := by
    rw [hs.status, status_of_placeholder hd hslot, Status.tied, if_neg hn]
  obtain ⟨node, hnode, -⟩ := slot_of_waiting hstatus
  obtain ⟨slot, hslot', hbecomes⟩ := hs.later.grows id _ hslot
  obtain rfl : slot = .placeholder node := Option.some.inj (hslot'.symm.trans hnode)
  cases hbecomes with
  | waits => exact ⟨pos, hnode⟩

/-- The node of a label does what its placeholder was to lead to. -/
theorem Enters.leads (h : story.Enters id name) (hg : story.Grows final) (hd : final.Distinct)
    (hl : final.Does script (Build.nextEnd id) items) :
    Leads script final true (.node name) items := by
  obtain ⟨pos, hs⟩ := h
  obtain ⟨slot, hs', hb⟩ := hg id _ hs
  rcases hl with ⟨target, ⟨node, hn, hlink⟩, hl⟩ | ⟨other, flows, hr, hl⟩
  · have hslot : slot = .settled node := Option.some.inj (hs'.symm.trans hn)
    subst hslot
    cases hb with
    | settles hname hgrows =>
      have hname : name = node.name := hname
      obtain ⟨next, hbody⟩ := hgrows.goto
      rw [hbody] at hlink
      cases hlink
      have hget := get?_of_settled hd hs'
      refine .onward ?_ hl
      rw [hname, hget, Option.map_some, hbody]
  · have hslot : slot = .replaced other flows := Option.some.inj (hs'.symm.trans hr)
    subst hslot
    cases hb with
    | givesWay => exact hl

end Story

namespace Neat

open Story

variable {entered labels : List String} {story : Story} {name : String}

/-- No node bears the name of a label that is yet to be entered. -/
theorem free (n : Neat entered labels story) (hl : ∀ label ∈ entered, IsLabel label)
    (hname : IsLabel name) (hn : name ∉ entered) : story.status name = .free := by
  rw [status_eq_free_iff]
  intro id node hnode he
  obtain ⟨p, hp, hpn⟩ := n.under id node hnode
  have hroot : p.name = (Path.root name).name := by rw [hpn, he, Path.name_root]
  have hlabel : IsLabel (Path.root name).label := hname
  have hp' := Path.name_injective (hl p.label hp) hlabel hroot
  rw [hp'] at hp
  exact hn hp

theorem empty (labels : List String) (start : String) : Neat [] labels (.empty start) := by
  have hno (id : NodeId) (node : Node) : (Story.empty start).node? id ≠ some node := by
    simp [Story.empty, node?]
  refine ⟨distinct_empty start, ?_, ?_, ?_⟩
  · exact fun id node h => absurd h (hno id node)
  · exact fun id node h => absurd h (hno id node)
  · exact fun id node h => absurd h (hno id node)

end Neat

namespace Build

open Story

variable {script : Script} {entered labels : List String} {story : Story} {front : Front}
  {name : String}

theorem thread_append (a b : List Item) (front : Front) :
    thread (a ++ b) front = thread a front >>= thread b := by
  induction a generalizing front with
  | nil => simp [thread]
  | cons i a ih => simp [thread, ih]

theorem thread_snoc (items : List Item) (i : Item) (front : Front) :
    thread (items ++ [i]) front = thread items front >>= item i := by
  rw [thread_append]
  exact bind_congr fun mid => bind_pure (item i mid)

/-- What the placeholder of a new label comes to. -/
structure Begun (entered labels : List String) (name : String) (story : Story) (id : NodeId)
    (after : Story) : Prop where
  later : story.Later after
  neat : Neat (name :: entered) labels after
  fresh : story.slots[id]? = none
  entry : after.Enters id name
  here : after.contains name = true
  kept : ∀ (other : NodeId) (old : Slot), story.slots[other]? = some old →
    after.slots[other]? = some old

theorem begin_links (n : Neat entered labels story) (hl : ∀ label ∈ entered, IsLabel label)
    (hname : IsLabel name) (hn : name ∉ entered) (pos : Position) :
    Yields (fun _ => True) (Begun entered labels name story)
      (createPlaceholder (.root name) pos) story := by
  have hfree := n.free hl hname hn
  have hmore := n.mono (List.subset_cons_self name entered)
  let node : Node := ⟨(Path.root name).name, .goto none, pos⟩
  have hslot : (Slot.placeholder node).node? = some node := rfl
  have hpath : node.name = (Path.root name).name := rfl
  refine (yields_added n.distinct hslot hpath).mono fun id after ha => ?_
  have hneat : Neat (name :: entered) labels after :=
    hmore.added ha List.mem_cons_self hslot hpath isOpen_goto rfl
  have hstored := ha.stored
  have hhere := ha.here
  have hkept := ha.kept
  simp only [node, Path.name_root] at hstored hhere hkept
  exact ⟨ha.later, hneat, ha.fresh, ⟨pos, hstored⟩, hhere, hkept hfree⟩

/-- A new name is claimed as it stands. -/
theorem claim_plain (hname : hasNumericPart name = false) (hfree : story.status name = .free)
    (seen : Position) : claim name seen story = .ok name story := by
  have hdef : story.isDefined name = false := by
    rw [← Bool.not_eq_true, isDefined_iff, hfree]
    simp
  simp only [claim, hname, Bool.false_eq_true, if_false]
  show EStateM.bind Build.story _ story = _
  simp only [EStateM.bind, Build.story, hdef, Bool.false_eq_true, if_false]
  rfl

/-- What the start of a section comes to. -/
structure Labelled (entered labels : List String) (front : Front) (name : String) (story : Story)
    (front' : Front) (after : Story) : Prop where
  later : story.Later after
  neat : Neat (name :: entered) labels after
  here : after.contains name = true
  escs : front'.ends.escs = front.ends.escs
  path : front'.path = .root name
  entry : ∃ id, front'.ends.rets = [nextEnd id] ∧ after.Enters id name
  gone : ∀ l ∈ front.ends.rets, after.Gone (.node name) l

theorem enterLabel_links (n : Neat entered labels story) (hl : ∀ label ∈ entered, IsLabel label)
    (hname : hasNumericPart name = false) (hn : name ∉ entered)
    (hw : ∀ l ∈ front.ends.rets, story.Waits front.path l) (seen pos : Position) :
    Yields (fun _ => True) (Labelled entered labels front name story)
      (enterLabel front name seen pos) story := by
  have hlabel := isLabel_of_not_numeric hname
  have hclaim := claim_plain hname (n.free hl hlabel hn) seen
  have hyields : Yields (fun _ => True) (fun label s => label = name ∧ s = story)
      (claim name seen) story := by
    unfold Yields
    rw [hclaim]
    exact ⟨rfl, rfl⟩
  refine Yields.bind hyields fun label s ⟨hlab, hs⟩ => ?_
  subst hlab hs
  refine Yields.bind (begin_links n hl hlabel hn pos) fun id mid hb => ?_
  refine Yields.bind (yields_sent hb.neat.distinct _ _) fun _ after hs => Yields.pure ?_
  rw [Path.name_root] at hs
  have hlive (l : LooseEnd) (hm : l ∈ front.ends.rets) : (mid.node? l.node).isSome := by
    obtain ⟨node, hnode⟩ := Option.isSome_iff_exists.mp (hw l hm).live
    rcases node?_eq_some_iff.mp hnode with hslot | hslot
    · rw [node?_eq_some_iff.mpr (.inl (hb.kept _ _ hslot))]
      rfl
    · rw [node?_eq_some_iff.mpr (.inr (hb.kept _ _ hslot))]
      rfl
  have hentry := hb.entry.sent hb.neat.distinct hs (Waits.not_mem hw hb.fresh)
  refine ⟨hb.later.trans hs.later, hb.neat.sent hs fun other he => ?_, hs.later.contains _ hb.here,
    rfl, rfl, ⟨id, rfl, hentry⟩, fun l hm => hs.gone l hm (hlive l hm)⟩
  cases he
  exact .inl hb.here

/-- What linking sections comes to. -/
structure Laid (script : Script) (labels : List String) (sections : List Section) (front : Front)
    (story : Story) (front' : Front) (after : Story) : Prop where
  later : story.Later after
  neat : ∃ entered, Neat entered labels after
  escs : front'.ends.escs = front.ends.escs
  waits : ∀ l ∈ front'.ends.rets, after.Waits front'.path l
  here : ∀ s ∈ sections, after.contains s.name = true
  does : ∀ final : Story, final.Distinct → after.Grows final →
    (∀ l ∈ front'.ends.rets, final.Does script l []) →
    ∀ l ∈ front.ends.rets, final.Does script l (Section.laid sections)
  leads : ∀ final : Story, final.Distinct → after.Grows final →
    (∀ l ∈ front'.ends.rets, final.Does script l []) →
    ∀ before s rest, sections = before ++ s :: rest →
      Leads script final true (.node s.name) (s.body ++ Section.laid rest)

theorem sections_links (sections : List Section)
    (hb : ∀ name ∈ labels, (Script.behind name script).isSome)
    (hs : ∀ before s rest, sections = before ++ s :: rest →
      Script.behind s.name script = some (s.body ++ Section.laid rest))
    (hf : ∀ s ∈ sections, Script.Flows labels s.body)
    (hn : ∀ s ∈ sections, hasNumericPart s.name = false)
    (hd : (sections.map Section.name ++ entered).Nodup) (hl : ∀ label ∈ entered, IsLabel label)
    (n : Neat entered labels story) (hw : ∀ l ∈ front.ends.rets, story.Waits front.path l) :
    Yields (fun _ => True) (Laid script labels sections front story)
      (thread (Section.laid sections) front) story := by
  induction sections generalizing entered story front with
  | nil =>
    refine Yields.pure ⟨.refl story, ⟨entered, n⟩, rfl, hw, fun s h => ?_, fun _ _ _ h => h,
      fun _ _ _ _ before s rest he => ?_⟩
    · cases h
    · simp at he
  | cons s rest ih =>
    have hfirst : s.name ∉ entered := by
      rw [List.map_cons, List.cons_append, List.nodup_cons] at hd
      exact fun hm => hd.1 (List.mem_append_right _ hm)
    have hplain := hn s List.mem_cons_self
    have hmiddle : (rest.map Section.name ++ s.name :: entered).Nodup := List.nodup_middle.mpr hd
    have hlabels : ∀ label ∈ s.name :: entered, IsLabel label := by
      intro label hm
      rcases List.mem_cons.mp hm with rfl | hm
      · exact isLabel_of_not_numeric hplain
      · exact hl label hm
    rw [Section.laid, thread]
    refine Yields.bind (enterLabel_links n hl hplain hfirst hw s.seen s.pos) fun front1 s1 h1 => ?_
    obtain ⟨id, hrets, hentry⟩ := h1.entry
    have hw1 : ∀ l ∈ front1.ends.rets, s1.Waits front1.path l := by
      rw [← Path.name_root s.name] at hentry
      rw [hrets, h1.path]
      exact hentry.waits h1.neat.distinct
    have hp1 : front1.path.label ∈ s.name :: entered := by
      rw [h1.path]
      exact List.mem_cons_self
    rw [thread_append]
    refine Yields.bind (thread_links s.body hb (hf s List.mem_cons_self) front1 h1.neat hp1 hw1)
      fun front2 s2 h2 => ?_
    refine (ih (fun before t tail he => hs (s :: before) t tail (by rw [he]; rfl))
      (fun t ht => hf t (List.mem_cons_of_mem s ht)) (fun t ht => hn t (List.mem_cons_of_mem s ht))
      hmiddle hlabels h2.neat (h2.waits hw1)).mono fun front3 after h3 => ?_
    have hgrows : s1.Grows after := h2.later.grows.trans h3.later.grows
    have hbehind := hs [] s rest rfl
    -- What the section does once the rest does what follows it.
    have hnode (final : Story) (hdf : final.Distinct) (hg : after.Grows final)
        (hr : ∀ l ∈ front3.ends.rets, final.Does script l []) :
        Leads script final true (.node s.name) (s.body ++ Section.laid rest) := by
      have hrest := h3.does final hdf hg hr
      have hbody := h2.does final hdf (h3.later.grows.trans hg) (Section.laid rest) hrest
      rw [hrets] at hbody
      exact hentry.leads (hgrows.trans hg) hdf (hbody _ List.mem_cons_self)
    refine ⟨h1.later.trans (h2.later.trans h3.later), h3.neat,
      h3.escs.trans (h2.escs.trans h1.escs), h3.waits, fun t ht => ?_, fun final _ hg _ l hm => ?_,
      fun final hdf hg hr before t tail he => ?_⟩
    · rcases List.mem_cons.mp ht with rfl | ht
      · exact (h2.later.trans h3.later).contains _ h1.here
      · exact h3.here t ht
    · exact .of_gone (h1.gone l hm) (hgrows.trans hg) (.label hbehind)
    · cases before with
      | nil =>
        obtain ⟨rfl, rfl⟩ := List.cons.inj he
        exact hnode final hdf hg hr
      | cons first before =>
        obtain ⟨-, he⟩ := List.cons.inj he
        exact h3.leads final hdf hg hr before t tail he

end Build

end Storyline
