import Storyline.Proofs.Definitions.Noting
import Storyline.Proofs.Targets.Linking

namespace Storyline

/-- What is wrong is the name of a label. -/
def Mistake.isNaming : Mistake → Bool
  | numericLabel _ => true
  | definedTwice _ => true
  | _ => false

theorem Mistake.isNaming_of_isRead {mistake : Mistake} (h : mistake.IsRead) :
    mistake.isNaming = false := by
  cases mistake with
  | numericLabel label => exact h.elim
  | definedTwice label => exact h.elim
  | _ => rfl

namespace Definition

theorem isNaming_of_mem_mistakes {d : Definition} {found : Diagnostic} (h : found ∈ d.mistakes) :
    found.mistake.isNaming = true := by
  unfold mistakes at h
  split at h
  · rw [List.mem_singleton.mp h]
    rfl
  · split at h
    · rw [List.mem_singleton.mp h]
      rfl
    · cases h

end Definition

/-- The start label, or one that was given to a definition. -/
def HasLabel (start : String) (ds : List Definition) (label : String) : Prop :=
  label = start ∨ ∃ d ∈ ds, d.label = label

/-- A target that is no sentinel is a path below a label or a name that is asked for. -/
def Aims (start : String) (asked : String → Prop) (ds : List Definition) (target : Target) : Prop :=
  ∀ name, target = .node name →
    (∃ p : Path, HasLabel start ds p.label ∧ p.name = name) ∨ asked name

/-- The name of a node and its links are accounted for. -/
structure Node.Told (start : String) (asked : String → Prop) (ds : List Definition) (node : Node) :
    Prop where
  name : ∃ p : Path, HasLabel start ds p.label ∧ p.name = node.name
  links : ∀ outlet target, node.body.link? outlet = some (some target) → Aims start asked ds target

structure Story.Told (start : String) (asked : String → Prop) (ds : List Definition)
    (story : Story) : Prop where
  nodes : ∀ id node, story.node? id = some node → node.Told start asked ds
  naming : (story.diagnostics.toList.filter fun d => d.mistake.isNaming) =
    ds.flatMap Definition.mistakes

variable {start : String} {asked : String → Prop} {ds more : List Definition}
  {story after : Story} {label : String} {target : Target} {path : Path}

theorem HasLabel.append (h : HasLabel start ds label) (more : List Definition) :
    HasLabel start (ds ++ more) label := by
  apply h.imp_right
  intro ⟨d, hd, hl⟩
  exact ⟨d, List.mem_append_left more hd, hl⟩

/-- The label of a definition that was just added. -/
theorem HasLabel.last (d : Definition) : HasLabel start (ds ++ [d]) d.label :=
  .inr ⟨d, List.mem_append_right ds (List.mem_singleton_self d), rfl⟩

namespace Aims

theorem ret : Aims start asked ds .ret := fun _ h => by cases h

theorem esc : Aims start asked ds .esc := fun _ h => by cases h

theorem of_asked (h : asked label) : Aims start asked ds (.node label) := by
  intro name he
  cases he
  exact .inr h

theorem of_path (h : HasLabel start ds path.label) : Aims start asked ds (.node path.name) := by
  intro name he
  cases he
  exact .inl ⟨path, h, rfl⟩

theorem append (h : Aims start asked ds target) (more : List Definition) :
    Aims start asked (ds ++ more) target := by
  intro name he
  apply (h name he).imp_left
  intro ⟨p, hp, hn⟩
  exact ⟨p, hp.append more, hn⟩

end Aims

theorem Node.Told.append {node : Node} (h : node.Told start asked ds) (more : List Definition) :
    node.Told start asked (ds ++ more) where
  name := by
    obtain ⟨p, hp, hn⟩ := h.name
    exact ⟨p, hp.append more, hn⟩
  links outlet target hl := (h.links outlet target hl).append more

/-- A node just written has no links yet. -/
theorem Node.Told.of_open {body : Body} {pos : Position} (ho : body.IsOpen)
    (h : HasLabel start ds path.label) : (Node.mk path.name body pos).Told start asked ds where
  name := ⟨path, h, rfl⟩
  links outlet target hl := by cases ho outlet _ hl

theorem Node.Told.setLink {node : Node} {outlet : Outlet} (h : node.Told start asked ds)
    (hl : node.body.link? outlet = some none) (ht : Aims start asked ds target) :
    Node.Told start asked ds { node with body := node.body.setLink outlet (some target) } where
  name := h.name
  links other found hf := by
    by_cases he : other = outlet
    · subst he
      rw [Body.link?_setLink_self _ hl] at hf
      cases hf
      exact ht
    · rw [Body.link?_setLink_of_ne _ he] at hf
      exact h.links other found hf

namespace Story.Told

/-- A story whose nodes were there before or are accounted for. -/
theorem step (h : story.Told start asked ds) (hd : after.diagnostics = story.diagnostics)
    (hn : ∀ id node, after.node? id = some node →
      (∃ other, story.node? other = some node) ∨ node.Told start asked ds) :
    after.Told start asked ds where
  nodes id node hnode := by
    rcases hn id node hnode with ⟨other, ho⟩ | ht
    · exact h.nodes other node ho
    · exact ht
  naming := by
    rw [hd]
    exact h.naming

theorem setSlot {id : NodeId} {slot : Slot} (h : story.Told start asked ds)
    (hlt : id < story.slots.size) (hs : ∀ node, slot.node? = some node → node.Told start asked ds) :
    (story.setSlot id slot).Told start asked ds := by
  refine h.step rfl ?_
  intro other node hn
  rw [node?_setSlot slot hlt] at hn
  split at hn
  · exact .inr (hs node hn)
  · exact .inl ⟨other, hn⟩

theorem addLast {slot : Slot} (h : story.Told start asked ds)
    (hs : ∀ node, slot.node? = some node → node.Told start asked ds) :
    (story.addLast slot).Told start asked ds := by
  refine h.step rfl ?_
  intro other node hn
  rw [node?_addLast] at hn
  split at hn
  · exact .inr (hs node hn)
  · exact .inl ⟨other, hn⟩

/-- Reports of mistakes that are no matter of names. -/
theorem reports (h : story.Told start asked ds) {reports : List Diagnostic}
    (hr : ∀ d ∈ reports, d.mistake.isNaming = false) :
    Story.Told start asked ds { story with diagnostics := story.diagnostics ++ reports } where
  nodes := h.nodes
  naming := by
    have hnone : (reports.filter fun d => d.mistake.isNaming) = [] := by
      apply List.filter_eq_nil_iff.mpr
      intro d hd
      simp [hr d hd]
    rw [Array.toList_appendList, List.filter_append, hnone, List.append_nil]
    exact h.naming

/-- A definition more, with its mistakes. -/
theorem define (h : story.Told start asked ds) (d : Definition) :
    Story.Told start asked (ds ++ [d])
      { story with diagnostics := story.diagnostics ++ d.mistakes.toArray } where
  nodes id node hn := (h.nodes id node hn).append [d]
  naming := by
    have hall : (d.mistakes.filter fun d => d.mistake.isNaming) = d.mistakes :=
      List.filter_eq_self.mpr fun _ hm => Definition.isNaming_of_mem_mistakes hm
    simp only [Array.toList_append, List.filter_append, hall, h.naming, List.flatMap_append,
      List.flatMap_cons, List.flatMap_nil, List.append_nil]

theorem empty (start : String) : (Story.empty start).Told start asked [] where
  nodes id node hn := by simp [Story.empty, node?] at hn
  naming := rfl

end Story.Told

namespace Build

open Story

theorem yields_story {α : Type} {E : BuildError → Prop} {Q : α → Story → Prop} {f : Story → Build α}
    (h : Yields E Q (f story) story) : Yields E Q (Build.story >>= f) story := h

theorem told_report {pos : Position} {mistake : Mistake} (hm : mistake.isNaming = false)
    (h : story.Told start asked ds) :
    Yields Anything (fun _ s => s.Told start asked ds) (report pos mistake) story := by
  apply yields_report
  have hnone : ∀ d ∈ [Diagnostic.mk pos mistake], d.mistake.isNaming = false := by simp [hm]
  simpa using h.reports hnone

theorem told_claim (name : String) (seen : Position) (h : story.Told start asked ds) :
    Yields Anything (fun label s => label = Definition.label ⟨name, seen, story⟩ ∧
      s.Told start asked (ds ++ [⟨name, seen, story⟩])) (claim name seen) story := by
  unfold Yields
  rw [claim_eq]
  exact ⟨rfl, h.define ⟨name, seen, story⟩⟩

theorem told_addSlot {slot : Slot} {node : Node} (hs : slot.node? = some node)
    (hn : node.Told start asked ds) (h : story.Told start asked ds) :
    Yields Anything (fun _ s => s.Told start asked ds) (addSlot node.name slot) story := by
  have hnew : ∀ found, slot.node? = some found → found.Told start asked ds := by
    intro found hf
    rw [hs] at hf
    cases hf
    exact hn
  apply yields_addSlot
  · intro _
    exact h.addLast hnew
  · intro old was _ hold _
    have hlt := (Array.getElem?_eq_some_iff.mp hold).1
    exact (h.setSlot hlt fun _ hf => by cases hf).addLast hnew
  · intro _ _ _ _ _
    trivial

theorem told_create {body : Body} (pos : Position) (ho : body.IsOpen)
    (hp : HasLabel start ds path.label) (h : story.Told start asked ds) :
    Yields Anything (fun _ s => s.Told start asked ds) (create path body pos) story :=
  told_addSlot rfl (.of_open ho hp) h

theorem told_placeholder (pos : Position) (hp : HasLabel start ds path.label)
    (h : story.Told start asked ds) :
    Yields Anything (fun _ s => s.Told start asked ds) (createPlaceholder path pos) story :=
  told_addSlot rfl (.of_open isOpen_goto hp) h

theorem told_tieEnd (loose : LooseEnd) (ht : Aims start asked ds target)
    (h : story.Told start asked ds) :
    Yields Anything (fun _ s => s.Told start asked ds) (tieEnd target loose) story := by
  apply yields_tieEnd
  · intro _
    exact h
  · intro name flows hs
    exact h.setSlot (Array.getElem?_eq_some_iff.mp hs).1 fun _ hf => by cases hf
  · intro name flows hs
    exact h.setSlot (Array.getElem?_eq_some_iff.mp hs).1 fun _ hf => by cases hf
  · intro node hn hl
    apply h.setSlot (lt_size_of_node? hn)
    intro found hf
    cases hf
    exact (h.nodes loose.node node hn).setLink hl ht
  · intro _ _ _ _
    trivial
  · intro _ _ _
    trivial

theorem told_tie (ends : List LooseEnd) (ht : Aims start asked ds target)
    (h : story.Told start asked ds) :
    Yields Anything (fun _ s => s.Told start asked ds) (tie target ends) story := by
  induction ends generalizing story with
  | nil => exact .pure h
  | cons loose rest ih => exact (told_tieEnd loose ht h).bind fun _ _ hs => ih hs

theorem told_discard (id : NodeId) (h : story.Told start asked ds) :
    Yields Anything (fun _ s => s.Told start asked ds) (discard id) story := by
  apply yields_discard
  · intro node hs
    exact h.setSlot (Array.getElem?_eq_some_iff.mp hs).1 fun _ hf => by cases hf
  · intro _
    exact h

theorem told_threads (id : NodeId) (question answer : List String)
    (h : story.Told start asked ds) :
    Yields Anything (fun _ s => s.Told start asked ds)
      (modifyBody id (Body.withThreads question answer)) story := by
  have given {node : Node} (hn : story.node? id = some node) : Node.Told start asked ds
      { node with body := node.body.withThreads question answer } := by
    refine ⟨(h.nodes id node hn).name, fun outlet target hl => ?_⟩
    rw [Body.link?_withThreads] at hl
    exact (h.nodes id node hn).links outlet target hl
  apply yields_modifyBody
  · intro node hs
    apply h.setSlot (Array.getElem?_eq_some_iff.mp hs).1
    intro found hf
    cases hf
    exact given (node?_eq_some_iff.mpr (.inl hs))
  · intro node hs
    apply h.setSlot (Array.getElem?_eq_some_iff.mp hs).1
    intro found hf
    cases hf
    exact given (node?_eq_some_iff.mpr (.inr hs))
  · intro _
    exact h

theorem told_arrive (front : Front) {body : Body} (pos : Position) (ho : body.IsOpen)
    (hp : HasLabel start ds front.path.label) (h : story.Told start asked ds) :
    Yields Anything (fun _ s => s.Told start asked ds) (arrive front body pos) story := by
  apply (told_create pos ho hp h).bind
  intro id s hs
  exact (told_tie front.ends.rets (.of_path hp) hs).bind fun _ _ ht => .pure ht

/-- A place to go on that lies below a label. -/
def Reached (start : String) (asked : String → Prop) (ds : List Definition) (front : Front)
    (story : Story) : Prop :=
  HasLabel start ds front.path.label ∧ story.Told start asked ds

theorem reached_append (front : Front) {body : Body} (pos : Position) (ho : body.IsOpen)
    (hp : HasLabel start ds front.path.label) (h : story.Told start asked ds) :
    Yields Anything (Reached start asked ds) (append front body pos) story :=
  (told_arrive front pos ho hp h).bind fun _ _ hs => .pure ⟨hp, hs⟩

theorem reached_divert (front : Front) (ht : Aims start asked ds target)
    (hp : HasLabel start ds front.path.label) (h : story.Told start asked ds) :
    Yields Anything (Reached start asked ds) (divert front target) story :=
  (told_tie front.ends.rets ht h).bind fun _ _ hs => .pure ⟨hp, hs⟩

theorem reached_prompt (front : Front) (pos : Position) (hp : HasLabel start ds front.path.label)
    (h : story.Told start asked ds) :
    Yields Anything (Reached start asked ds) (prompt front pos) story :=
  (told_arrive front pos isOpen_ask hp h).bind fun _ _ hs => .pure ⟨hp, hs⟩

theorem reached_call (front : Front) (label : String) (args : List Expr) (pos : Position)
    (hp : HasLabel start ds front.path.label) (h : story.Told start asked ds) :
    Yields Anything (Reached start asked ds) (call front label args pos) story :=
  (told_arrive front pos (isOpen_call label args) hp h).bind fun _ _ hs => .pure ⟨hp, hs⟩

theorem reached_enterLabel (front : Front) (name : String) (seen pos : Position)
    (h : story.Told start asked ds) :
    Yields Anything (Reached start asked (ds ++ [⟨name, seen, story⟩]))
      (enterLabel front name seen pos) story := by
  apply (told_claim name seen h).bind
  intro label s ⟨hlabel, hs⟩
  have hp : HasLabel start (ds ++ [⟨name, seen, story⟩]) (Path.root label).label :=
    hlabel ▸ HasLabel.last ⟨name, seen, story⟩
  apply (told_placeholder pos hp hs).bind
  intro entry s hs
  exact (told_tie front.ends.rets (.of_path hp) hs).bind fun _ _ ht => .pure ⟨hp, ht⟩

theorem told_guards (pos : Position) (guards : List Expr) (rets : List LooseEnd)
    (hp : HasLabel start ds path.label) (h : story.Told start asked ds) :
    Yields Anything (fun r s => HasLabel start ds r.1.label ∧ s.Told start asked ds)
      (Build.guards pos guards path rets) story := by
  induction guards generalizing path rets story with
  | nil => exact .pure ⟨hp, h⟩
  | cons guard rest ih =>
    apply (told_arrive ⟨path, rets, []⟩ pos (isOpen_jump _) hp h).bind
    intro id s hs
    have hnext : HasLabel start ds path.next.label := hp
    apply (ih [nextEnd id] hnext hs).bind
    intro found s hs
    obtain ⟨after, rets, skips⟩ := found
    exact .pure hs

theorem told_chain (pos : Position) (assignments : List Assignment) (rets : List LooseEnd)
    (hp : HasLabel start ds path.label) (h : story.Told start asked ds) :
    Yields Anything (fun (after, _) s => HasLabel start ds after.label ∧ s.Told start asked ds)
      (chain pos assignments path rets) story := by
  induction assignments generalizing path rets story with
  | nil => exact .pure ⟨hp, h⟩
  | cons assignment rest ih =>
    apply (told_arrive ⟨path, rets, []⟩ pos (isOpen_content _) hp h).bind
    intro id s hs
    have hnext : HasLabel start ds path.next.label := hp
    exact ih [nextEnd id] hnext hs

/-- A draft that goes on below a label. -/
def Drawn (start : String) (asked : String → Prop) (ds : List Definition) (draft : Draft)
    (story : Story) : Prop :=
  HasLabel start ds draft.path.label ∧ story.Told start asked ds

theorem drawn_consequences (pos : Position) (assignments : List Assignment) (draft : Draft)
    (hp : HasLabel start ds draft.path.label) (h : story.Told start asked ds) :
    Yields Anything (Drawn start asked ds) (consequences pos assignments draft) story := by
  unfold consequences
  split
  · exact .pure ⟨hp, h⟩
  · apply (told_chain pos assignments [] hp h).bind
    intro (after, rets) s ⟨hp, hs⟩
    exact (told_tie rets .ret hs).bind fun _ _ ht => .pure ⟨hp, ht⟩

theorem drawn_settle (role : Role) (last : Bool) (entry : NodeId) (front : Front) (draft : Draft)
    (hp : HasLabel start ds front.path.label) (h : story.Told start asked ds) :
    Yields Anything (Drawn start asked ds) (settle role last entry front draft) story := by
  have hfile (isEmpty : Bool) : Yields Anything (fun _ s => s.Told start asked ds)
      (fileSegment role isEmpty entry draft) story := by
    unfold fileSegment
    split
    · exact (told_discard entry h).bind fun _ _ hs => .pure hs
    · exact .pure h
  apply yields_story
  apply (hfile _).bind
  intro filed s hs
  dsimp only
  split
  · exact .pure ⟨hp, hs⟩
  · exact (told_tie front.ends.rets .ret hs).bind fun _ _ ht => .pure ⟨hp, ht⟩

theorem drawn_conclude (pos : Position) (draft : Draft) (hp : HasLabel start ds draft.path.label)
    (h : story.Told start asked ds) :
    Yields Anything (fun _ s => s.Told start asked ds) (conclude pos draft) story := by
  unfold conclude
  split
  · exact .pure h
  · exact (told_create pos isOpen_goto hp h).bind fun _ _ hs => .pure hs

/-- What the item asks for is asked for, and it reports no mistake in a name. -/
def Asks (asked : String → Prop) : Item → Prop
  | .report d => d.mistake.isNaming = false
  | .goto label => asked label
  | _ => True

/-- A run that notes the definitions of these names and goes on below a label. -/
def Notes (start : String) (asked : String → Prop) (ds : List Definition) (names : List String)
    (m : Build (Front × List Definition)) (story : Story) : Prop :=
  Yields Anything (fun (after, found) s => found.map Definition.name = names ∧
    Reached start asked (ds ++ found) after s) m story

/-- A run that defines nothing. -/
theorem Notes.none {m : Build Front} (h : Yields Anything (Reached start asked ds) m story) :
    Notes start asked ds [] (do let after ← m; return (after, [])) story := by
  apply h.bind
  intro after s hs
  exact .pure ⟨rfl, by rwa [List.append_nil]⟩

theorem names_append {found found' : List Definition} {names names' : List String}
    (h : found.map Definition.name = names) (h' : found'.map Definition.name = names') :
    (found ++ found').map Definition.name = names ++ names' := by
  rw [List.map_append, h, h']

mutual

theorem notes_item (i : Item) (front : Front) {ds : List Definition} {story : Story}
    (ha : i.Each (Asks asked)) (hp : HasLabel start ds front.path.label)
    (h : story.Told start asked ds) :
    Notes start asked ds i.labels (noteItem i front) story := by
  cases i with
  | report d =>
    exact .none ((told_report ha h).bind fun _ _ hs => .pure ⟨hp, hs⟩)
  | cut => exact trivial
  | passed left => exact .none (.pure ⟨hp, h⟩)
  | content pos c => exact .none (reached_append front pos (isOpen_content c) hp h)
  | ask pos => exact .none (reached_prompt front pos hp h)
  | leave => exact .none (reached_divert front .ret hp h)
  | goto label => exact .none (reached_divert front (.of_asked ha) hp h)
  | call pos label args => exact .none (reached_call front label args pos hp h)
  | label pos name seen =>
    apply yields_story
    apply (reached_enterLabel front name seen pos h).bind
    intro after s hs
    exact .pure ⟨rfl, hs⟩
  | loop pos body =>
    apply (told_placeholder pos hp h).bind
    intro entry s hs
    apply (told_tie front.ends.rets (.of_path hp) hs).bind
    intro _ s hs
    apply (notes_thread body (entering front.path (nextEnd entry)) ha.2 hp hs).bind
    intro (after, found) s ⟨hnames, hafter, hs⟩
    apply (told_tie after.ends.rets (.of_path (hp.append found)) hs).bind
    intro _ s hs
    exact .pure ⟨hnames, hafter, hs⟩
  | define pos name params seen body =>
    apply yields_story
    apply (told_claim name seen h).bind
    intro label s ⟨hlabel, hs⟩
    have hroot : HasLabel start (ds ++ [⟨name, seen, story⟩]) (Path.root label).label :=
      hlabel ▸ HasLabel.last ⟨name, seen, story⟩
    apply (told_create pos (isOpen_define params) hroot hs).bind
    intro id s hs
    apply (notes_thread body (entering (Path.root label).next (nextEnd id)) ha.2 hroot hs).bind
    intro (after, found) s ⟨hnames, _, hs⟩
    apply (told_tie after.ends.rets .ret hs).bind
    intro _ s hs
    apply (told_tie after.ends.escs .esc hs).bind
    intro _ s hs
    rw [List.append_assoc] at hs
    exact .pure ⟨congrArg (name :: ·) hnames, hp.append _, hs⟩
  | jump pos condition yes no =>
    apply (told_arrive front pos (isOpen_jump _) hp h).bind
    intro id s hs
    apply (notes_thread yes (entering front.path.firstChild (nextEnd id)) ha.2.1 hp hs).bind
    intro (first, found) s ⟨hnames, hfirst, hs⟩
    apply (notes_thread no (entering first.path ⟨id, .branch⟩) ha.2.2 hfirst hs).bind
    intro (second, found') s ⟨hnames', _, hs⟩
    rw [List.append_assoc] at hs
    exact .pure ⟨names_append hnames hnames', hp.append _, hs⟩
  | switch pos selection branches =>
    apply (told_arrive front pos (isOpen_switch front.path branches selection) hp h).bind
    intro id s hs
    apply (notes_cases id 0 branches front.path.firstChild ha.2 hp hs).bind
    intro (after, found) s ⟨hnames, _, hs⟩
    exact .pure ⟨hnames, hp.append found, hs⟩
  | option pos leader terms parts =>
    apply (told_guards pos (terms.ledBy leader front.path).guards front.ends.rets hp h).bind
    intro (path, rets, skips) s ⟨hpath, hs⟩
    apply (told_arrive ⟨path, rets, []⟩ pos (isOpen_option _) hpath hs).bind
    intro id s hs
    apply (drawn_consequences pos _ ⟨path.firstChild, [], [], [], false⟩ hpath hs).bind
    intro draft s ⟨hdraft, hs⟩
    apply (notes_segments parts draft ha.2 hdraft hs).bind
    intro (draft, found) s ⟨hnames, hdraft, hs⟩
    apply (drawn_conclude pos draft hdraft hs).bind
    intro draft s hs
    apply (told_threads id draft.question draft.answer hs).bind
    intro _ s hs
    exact .pure ⟨hnames, hpath.append found, hs⟩

theorem notes_thread (items : List Item) (front : Front) {ds : List Definition} {story : Story}
    (ha : Script.Each (Asks asked) items) (hp : HasLabel start ds front.path.label)
    (h : story.Told start asked ds) :
    Notes start asked ds (Script.labels items) (noteThread items front) story := by
  cases items with
  | nil => exact .pure ⟨rfl, by rw [List.append_nil]; exact ⟨hp, h⟩⟩
  | cons i rest =>
    apply (notes_item i front ha.1 hp h).bind
    intro (mid, found) s ⟨hnames, hmid, hs⟩
    apply (notes_thread rest mid ha.2 hmid hs).bind
    intro (after, found') s ⟨hnames', hafter⟩
    rw [List.append_assoc] at hafter
    exact .pure ⟨names_append hnames hnames', hafter⟩

theorem notes_cases (id : NodeId) (index : Nat) (branches : List Case) (path : Path)
    {ds : List Definition} {story : Story} (ha : Script.EachCase (Asks asked) branches)
    (hp : HasLabel start ds path.label) (h : story.Told start asked ds) :
    Notes start asked ds (Script.caseLabels branches) (noteCases id index branches path) story := by
  cases branches with
  | nil => exact .pure ⟨rfl, by rw [List.append_nil]; exact ⟨hp, h⟩⟩
  | cons c rest =>
    obtain ⟨weight, body⟩ := c
    apply (notes_thread body (entering path ⟨id, .case index⟩) ha.1 hp h).bind
    intro (front, found) s ⟨hnames, hfront, hs⟩
    apply (notes_cases id (index + 1) rest front.path ha.2 hfront hs).bind
    intro (after, found') s ⟨hnames', hafter⟩
    rw [List.append_assoc] at hafter
    exact .pure ⟨names_append hnames hnames', hafter⟩

theorem notes_segments (parts : List Segment) (draft : Draft) {ds : List Definition}
    {story : Story} (ha : Script.EachPart (Asks asked) parts)
    (hp : HasLabel start ds draft.path.label) (h : story.Told start asked ds) :
    Yields Anything (fun (after, found) s =>
      found.map Definition.name = Script.segmentLabels parts ∧
        Drawn start asked (ds ++ found) after s) (noteSegments parts draft) story := by
  cases parts with
  | nil => exact .pure ⟨rfl, by rw [List.append_nil]; exact ⟨hp, h⟩⟩
  | cons part rest =>
    obtain ⟨pos, role, body⟩ := part
    apply (told_placeholder pos hp h).bind
    intro entry s hs
    apply (notes_thread body (entering draft.path (nextEnd entry)) ha.1 hp hs).bind
    intro (front, found) s ⟨hnames, hfront, hs⟩
    apply (drawn_settle role rest.isEmpty entry front draft hfront hs).bind
    intro draft s ⟨hdraft, hs⟩
    apply (notes_segments rest draft ha.2 hdraft hs).bind
    intro (draft, found') s ⟨hnames', hdraft⟩
    rw [List.append_assoc] at hdraft
    exact .pure ⟨names_append hnames hnames', hdraft⟩

end

end Build

end Storyline
