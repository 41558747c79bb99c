import Storyline.Proofs.Linking

namespace Storyline

namespace Body

/-- The threads of an option. -/
def threads : Body → List String
  | option question answer _ _ => question ++ answer
  | _ => []

/-- The label of a call. -/
def callee? : Body → Option String
  | call label _ _ _ => some label
  | _ => none

theorem references_eq (body : Body) : body.references = body.threads ++ body.callee?.toList := by
  cases body <;> simp [references, threads, callee?]

theorem threads_setLink (body : Body) (outlet : Outlet) (link : Link) :
    (body.setLink outlet link).threads = body.threads := by
  cases body with
  | switch mode counter value branches weights next => cases mode <;> cases outlet <;> rfl
  | _ => cases outlet <;> rfl

theorem callee?_setLink (body : Body) (outlet : Outlet) (link : Link) :
    (body.setLink outlet link).callee? = body.callee? := by
  cases body with
  | switch mode counter value branches weights next => cases mode <;> cases outlet <;> rfl
  | _ => cases outlet <;> rfl

theorem callee?_withThreads (question answer : List String) (body : Body) :
    (body.withThreads question answer).callee? = body.callee? := by
  cases body <;> rfl

theorem threads_withThreads_subset {question answer : List String} {body : Body} {name : String}
    (h : name ∈ (body.withThreads question answer).threads) :
    name ∈ question ++ answer ∨ name ∈ body.threads := by
  cases body with
  | option _ _ keywords next => exact .inl h
  | _ => exact .inr h

/-- The body mentions names that exist or are asked for. -/
structure Known (asked has : String → Prop) (body : Body) : Prop where
  links : ∀ outlet name, body.link? outlet = some (some (.node name)) → has name ∨ asked name
  threads : ∀ name ∈ body.threads, has name
  callee : ∀ label, body.callee? = some label → asked label

theorem Known.mono {asked has has' : String → Prop} {body : Body} (h : body.Known asked has)
    (hs : ∀ name, has name → has' name) : body.Known asked has' where
  links outlet name hl := (h.links outlet name hl).imp_left (hs name)
  threads name hm := hs name (h.threads name hm)
  callee := h.callee

/-- A link with an open target may be tied to a name that exists or is asked for. -/
theorem Known.setLink {asked has : String → Prop} {body : Body} {outlet : Outlet} {target : Target}
    (h : body.Known asked has) (hl : body.link? outlet = some none)
    (ht : ∀ name, target = .node name → has name ∨ asked name) :
    (body.setLink outlet (some target)).Known asked has where
  links other name hn := by
    by_cases he : other = outlet
    · subst he
      rw [link?_setLink_self _ hl] at hn
      exact ht name (Option.some.inj (Option.some.inj hn))
    · rw [link?_setLink_of_ne _ he] at hn
      exact h.links other name hn
  threads name hm := h.threads name (by rwa [threads_setLink] at hm)
  callee label hc := h.callee label (by rwa [callee?_setLink] at hc)

end Body

namespace Story

/-- No name is lost. -/
def Lasts (story after : Story) : Prop :=
  ∀ name, story.contains name = true → after.contains name = true

theorem Lasts.refl (story : Story) : story.Lasts story := fun _ h => h

theorem Lasts.trans {story mid after : Story} (h : story.Lasts mid) (h' : mid.Lasts after) :
    story.Lasts after := fun name hc => h' name (h name hc)

/-- Every live node mentions names that exist or are asked for, but for those in the gap; and no
mistake so far is that a label does not exist. -/
structure Sound (asked gap : String → Prop) (story : Story) : Prop where
  known : ∀ id node, story.node? id = some node →
    node.body.Known asked fun name => story.contains name = true ∨ gap name
  reports : ∀ d ∈ story.diagnostics, ∀ name, d.mistake ≠ .noLabel name

variable {asked gap gap' : String → Prop} {story after : Story} {id : NodeId}

/-- A story whose names last and whose nodes are known stays sound. -/
theorem Sound.step (s : story.Sound asked gap) (hd : after.diagnostics = story.diagnostics)
    (hlasts : ∀ name, story.contains name = true ∨ gap name → after.contains name = true ∨ gap' name)
    (hn : ∀ id node, after.node? id = some node → (∃ other, story.node? other = some node) ∨
      node.body.Known asked fun name => after.contains name = true ∨ gap' name) :
    after.Sound asked gap' where
  known id node hnode := by
    rcases hn id node hnode with ⟨other, ho⟩ | h
    · exact (s.known other node ho).mono hlasts
    · exact h
  reports := by
    rw [hd]
    exact s.reports

theorem Sound.mono (s : story.Sound asked gap) (h : ∀ name, gap name → gap' name) :
    story.Sound asked gap' :=
  s.step rfl (fun name => Or.imp_right (h name)) fun id _ hn => .inl ⟨id, hn⟩

theorem contains_addLast {slot : Slot} {name : String} :
    (story.addLast slot).contains name = true ↔
      story.contains name = true ∨ ∃ node, slot.node? = some node ∧ node.name = name := by
  simp only [contains_iff, node?_addLast]
  constructor
  · rintro ⟨id, node, hn, he⟩
    split at hn
    · exact .inr ⟨node, hn, he⟩
    · exact .inl ⟨id, node, hn, he⟩
  · rintro (⟨id, node, hn, he⟩ | ⟨node, hn, he⟩)
    · exact ⟨id, node, by rw [if_neg (Nat.ne_of_lt (lt_size_of_node? hn))]; exact hn, he⟩
    · exact ⟨story.slots.size, node, by rw [if_pos rfl]; exact hn, he⟩

/-- A slot changed in place keeps all names but its own. -/
theorem contains_setSlot {slot : Slot} {node : Node} (hs : story.node? id = some node) {name : String}
    (hc : story.contains name = true) (hne : node.name ≠ name) :
    (story.setSlot id slot).contains name = true := by
  obtain ⟨other, found, hf, he⟩ := contains_iff.mp hc
  have hother : other ≠ id := by
    rintro rfl
    rw [hs] at hf
    exact hne (Option.some.inj hf ▸ he)
  refine contains_iff.mpr ⟨other, found, ?_, he⟩
  rw [node?_setSlot slot (lt_size_of_node? hs), if_neg hother]
  exact hf

/-- A node that changes but keeps its name leaves all names as they are. -/
theorem lasts_setSlot {slot : Slot} {node found : Node} (hs : story.node? id = some node)
    (hf : slot.node? = some found) (he : found.name = node.name) :
    story.Lasts (story.setSlot id slot) := by
  intro name hc
  by_cases hname : node.name = name
  · refine contains_iff.mpr ⟨id, found, ?_, he.trans hname⟩
    rw [node?_setSlot slot (lt_size_of_node? hs), if_pos rfl]
    exact hf
  · exact contains_setSlot hs hc hname

end Story

namespace Build

open Story

variable {asked gap : String → Prop} {story : Story}

/-- Nothing is said of what goes wrong. -/
def Anything (_ : BuildError) : Prop := True

/-- Writing a node makes its name exist and fills a gap at that name. -/
theorem sound_addSlot {name : String} {slot : Slot} {node : Node} (hs : slot.node? = some node)
    (hname : node.name = name) (ho : node.body.IsOpen) (ht : node.body.threads = [])
    (hc : ∀ label, node.body.callee? = some label → asked label) (h : story.Sound asked gap) :
    Yields Anything (fun _ after => after.Sound asked (fun other => gap other ∧ other ≠ name) ∧
      story.Lasts after ∧ after.contains name = true) (addSlot name slot) story := by
  have hnode (has : String → Prop) : node.body.Known asked has := by
    refine ⟨fun outlet target hl => ?_, fun other hm => ?_, hc⟩
    · cases ho outlet _ hl
    · rw [ht] at hm
      cases hm
  have settle {before after : Story} (hb : after = before.addLast slot)
      (hd : before.diagnostics = story.diagnostics)
      (hold : ∀ other, story.contains other = true → other ≠ name → before.contains other = true)
      (hback : ∀ id found, before.node? id = some found → story.node? id = some found) :
      after.Sound asked (fun other => gap other ∧ other ≠ name) ∧ story.Lasts after ∧
        after.contains name = true := by
    subst hb
    have hhere : (before.addLast slot).contains name = true :=
      contains_addLast.mpr (.inr ⟨node, hs, hname⟩)
    have hlasts : story.Lasts (before.addLast slot) := by
      intro other ho
      by_cases he : other = name
      · exact he ▸ hhere
      · exact contains_addLast.mpr (.inl (hold other ho he))
    refine ⟨h.step hd ?_ ?_, hlasts, hhere⟩
    · rintro other (ho | hg)
      · exact .inl (hlasts other ho)
      · by_cases he : other = name
        · exact .inl (he ▸ hhere)
        · exact .inr ⟨hg, he⟩
    · intro id found hf
      rw [node?_addLast] at hf
      split at hf
      · rw [hs] at hf
        obtain rfl := Option.some.inj hf
        exact .inr (hnode _)
      · exact .inl ⟨id, hback id found hf⟩
  refine yields_addSlot ?_ ?_ fun _ _ _ _ _ => trivial
  · intro _
    exact settle rfl rfl (fun _ hc _ => hc) fun _ _ hf => hf
  · intro old was _ hold hwas
    have hlive := node?_eq_some_iff.mpr (.inr hold)
    refine settle rfl rfl (fun other hc hne => ?_) fun id found hf => ?_
    · exact contains_setSlot hlive hc fun he => hne (he.symm.trans hwas)
    · rw [node?_setSlot _ (lt_size_of_node? hlive)] at hf
      split at hf
      · cases hf
      · exact hf

/-- Tying an end to a name that exists or is asked for. -/
theorem sound_tieEnd {target : Target} (loose : LooseEnd)
    (ht : ∀ name, target = .node name → story.contains name = true ∨ asked name)
    (h : story.Sound asked gap) :
    Yields Anything (fun _ after => after.Sound asked gap ∧ story.Lasts after)
      (tieEnd target loose) story := by
  have dead {old new : Slot} (hs : story.slots[loose.node]? = some old) (ho : old.node? = none)
      (hn : new.node? = none) : (story.setSlot loose.node new).Sound asked gap ∧
        story.Lasts (story.setSlot loose.node new) := by
    have hlt := (Array.getElem?_eq_some_iff.mp hs).1
    have hsame (id : NodeId) : (story.setSlot loose.node new).node? id = story.node? id := by
      rw [node?_setSlot new hlt]
      split
      · next he => simp [he, node?, hs, ho, hn]
      · rfl
    have hlasts : story.Lasts (story.setSlot loose.node new) := by
      intro name hc
      obtain ⟨id, node, hf, he⟩ := contains_iff.mp hc
      exact contains_iff.mpr ⟨id, node, (hsame id).trans hf, he⟩
    refine ⟨h.step rfl (fun name => Or.imp_left (hlasts name)) fun id node hf => ?_, hlasts⟩
    exact .inl ⟨id, (hsame id).symm.trans hf⟩
  refine yields_tieEnd ?_ ?_ ?_ ?_ (fun _ _ _ _ => trivial) fun _ _ _ => trivial
  · intro _
    exact ⟨h, .refl story⟩
  · intro name flows hs
    exact dead hs rfl rfl
  · intro name flows hs
    exact dead hs rfl rfl
  · intro node hn hl
    let tied : Slot := .settled { node with body := node.body.setLink loose.outlet (some target) }
    have htied : tied.node? =
        some { node with body := node.body.setLink loose.outlet (some target) } := rfl
    have hlasts := lasts_setSlot hn htied rfl
    refine ⟨h.step rfl (fun name => Or.imp_left (hlasts name)) fun id found hf => ?_, hlasts⟩
    rw [node?_setSlot _ (lt_size_of_node? hn)] at hf
    split at hf
    · obtain rfl := Option.some.inj hf
      refine .inr (((h.known loose.node node hn).setLink hl fun name he => ?_).mono
        fun name => Or.imp_left (hlasts name))
      exact (ht name he).imp_left .inl
    · exact .inl ⟨id, hf⟩

/-- Giving up a placeholder opens a gap at its name. -/
theorem sound_discard {name : String} (id : NodeId)
    (hid : ∀ node, story.slots[id]? = some (.placeholder node) → node.name = name)
    (h : story.Sound asked fun _ => False) :
    Yields Anything (fun _ after => after.Sound asked (fun other => other = name) ∧
      ∀ other, story.contains other = true → after.contains other = true ∨ other = name)
      (discard id) story := by
  refine yields_discard ?_ fun _ => ⟨h.mono fun _ hf => hf.elim, fun _ hc => .inl hc⟩
  intro node hs
  have hlive := node?_eq_some_iff.mpr (.inr hs)
  have hlasts : ∀ other, story.contains other = true →
      (story.setSlot id (.discarded node.name [])).contains other = true ∨ other = name := by
    intro other hc
    by_cases he : node.name = other
    · exact .inr (he.symm.trans (hid node hs))
    · exact .inl (contains_setSlot hlive hc he)
  refine ⟨h.step rfl (fun other ho => hlasts other (ho.resolve_right fun hf => hf)) fun other found hf => ?_,
    hlasts⟩
  rw [node?_setSlot _ (lt_size_of_node? hlive)] at hf
  split at hf
  · cases hf
  · exact .inl ⟨other, hf⟩

/-- An option may be given threads that exist. -/
theorem sound_threads (id : NodeId) {question answer : List String}
    (ht : ∀ name ∈ question ++ answer, story.contains name = true)
    (h : story.Sound asked fun _ => False) :
    Yields Anything (fun _ after => after.Sound asked (fun _ => False) ∧ story.Lasts after)
      (modifyBody id (Body.withThreads question answer)) story := by
  have given {slot : Slot} {node : Node} (hn : story.node? id = some node)
      (hs : slot.node? = some { node with body := node.body.withThreads question answer }) :
      (story.setSlot id slot).Sound asked (fun _ => False) ∧
        story.Lasts (story.setSlot id slot) := by
    have hlasts := lasts_setSlot hn hs rfl
    refine ⟨h.step rfl (fun name => Or.imp_left (hlasts name)) fun other found hf => ?_, hlasts⟩
    rw [node?_setSlot _ (lt_size_of_node? hn)] at hf
    split at hf
    · rw [hs] at hf
      obtain rfl := Option.some.inj hf
      have hk := (h.known id node hn).mono fun name => Or.imp_left (hlasts name)
      refine .inr ⟨fun outlet name hl => ?_, fun name hm => ?_, fun label hc => ?_⟩
      · exact hk.links outlet name (by rwa [Body.link?_withThreads] at hl)
      · rcases Body.threads_withThreads_subset hm with hm | hm
        · exact .inl (hlasts name (ht name hm))
        · exact hk.threads name hm
      · exact hk.callee label (by rwa [Body.callee?_withThreads] at hc)
    · exact .inl ⟨other, hf⟩
  refine yields_modifyBody ?_ ?_ fun _ => ⟨h, .refl story⟩
  · intro node hs
    exact given (node?_eq_some_iff.mpr (.inl hs)) rfl
  · intro node hs
    exact given (node?_eq_some_iff.mpr (.inr hs)) rfl

/-- A placeholder in this slot bears this name. -/
def Named (id : NodeId) (name : String) (story : Story) : Prop :=
  id < story.slots.size ∧ ∀ node, story.slots[id]? = some (.placeholder node) → node.name = name

variable {id other : NodeId} {name : String}

theorem Named.setSlot {slot : Slot} (h : Named id name story) (hlt : other < story.slots.size)
    (hs : ∀ node, slot = .placeholder node → other = id → node.name = name) :
    Named id name (story.setSlot other slot) := by
  refine ⟨by rw [size_setSlot]; exact h.1, fun node hn => ?_⟩
  rw [slot_setSlot slot hlt] at hn
  split at hn
  · next he => exact hs node (Option.some.inj hn) he.symm
  · exact h.2 node hn

theorem Named.addLast (h : Named id name story) (slot : Slot) : Named id name (story.addLast slot) := by
  refine ⟨by rw [size_addLast]; exact Nat.lt_succ_of_lt h.1, fun node hn => ?_⟩
  rw [slot_addLast, if_neg (Nat.ne_of_lt h.1)] at hn
  exact h.2 node hn

theorem named_addSlot (label : String) (slot : Slot) (h : Named id name story) :
    Yields Anything (fun _ => Named id name) (addSlot label slot) story := by
  refine yields_addSlot (fun _ => h.addLast slot) ?_ fun _ _ _ _ _ => trivial
  intro old was _ hold _
  have hlt := (Array.getElem?_eq_some_iff.mp hold).1
  exact (h.setSlot hlt fun _ he => by cases he).addLast slot

/-- No operation renames a placeholder. -/
theorem kept_named (id : NodeId) (name : String) : Kept Anything fun _ => Named id name where
  perm _ h := h
  report pos mistake h := h
  create path body pos _ h := named_addSlot path.name _ h
  placeholder path pos h := named_addSlot path.name _ h
  tieEnd target loose h := by
    refine yields_tieEnd (fun _ => h) ?_ ?_ ?_ (fun _ _ _ _ => trivial) fun _ _ _ => trivial
    · intro label flows hs
      exact h.setSlot (Array.getElem?_eq_some_iff.mp hs).1 fun _ he => by cases he
    · intro label flows hs
      exact h.setSlot (Array.getElem?_eq_some_iff.mp hs).1 fun _ he => by cases he
    · intro node hn _
      exact h.setSlot (lt_size_of_node? hn) fun _ he => by cases he
  discard other h := by
    refine yields_discard (fun node hs => ?_) fun _ => h
    exact h.setSlot (Array.getElem?_eq_some_iff.mp hs).1 fun _ he => by cases he
  threads other question answer h := by
    refine yields_modifyBody ?_ ?_ fun _ => h
    · intro node hs
      exact h.setSlot (Array.getElem?_eq_some_iff.mp hs).1 fun _ he => by cases he
    · intro node hs
      refine h.setSlot (Array.getElem?_eq_some_iff.mp hs).1 fun found he hid => ?_
      cases he
      exact h.2 node (hid ▸ hs)
  unfinished := trivial

theorem named_placeholder (path : Path) (pos : Position) :
    Yields Anything (fun id => Named id path.name) (createPlaceholder path pos) story := by
  have hlast (before : Story) (node : Node) (hn : node.name = path.name)
      (hsize : before.slots.size = story.slots.size) :
      Named story.slots.size path.name (before.addLast (.placeholder node)) := by
    refine ⟨by rw [size_addLast, hsize]; exact Nat.lt_succ_self _, fun found hf => ?_⟩
    rw [slot_addLast, hsize, if_pos rfl] at hf
    cases hf
    exact hn
  refine yields_addSlot ?_ ?_ fun _ _ _ _ _ => trivial
  · intro _
    exact hlast story _ rfl rfl
  · intro old was _ _ _
    exact hlast _ _ rfl (size_setSlot _)

end Build

end Storyline
