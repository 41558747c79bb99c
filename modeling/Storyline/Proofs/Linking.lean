import Storyline.Proofs.Ends.Outlets
import Storyline.Proofs.Slots

namespace Storyline

/-- The loose ends of a front. -/
def Front.held (front : Front) : List LooseEnd := front.ends.rets ++ front.ends.escs

/-- What a front holds, with what waits for the next node at the end. -/
theorem Front.held_perm (frame : List LooseEnd) (front : Front) :
    (frame ++ front.held).Perm (frame ++ front.ends.escs ++ front.ends.rets) :=
  List.perm_iff_count.mpr fun e => by simp only [held, List.count_append]; omega

/-- The same while a placeholder for the next node is held as well. -/
theorem Front.held_perm_entry (frame : List LooseEnd) (front : Front) (entry : LooseEnd) :
    (frame ++ front.held ++ [entry]).Perm (frame ++ front.ends.escs ++ [entry] ++ front.ends.rets) :=
  List.perm_iff_count.mpr fun e => by simp only [held, List.count_append]; omega

namespace Build

structure Kept (E : BuildError → Prop) (I : List LooseEnd → Story → Prop) : Prop where
  perm : ∀ {held held' story}, held.Perm held' → I held story → I held' story
  report : ∀ {held story} (pos : Position) (mistake : Mistake), I held story →
    Yields E (fun _ => I held) (report pos mistake) story
  create : ∀ {held story} (path : Path) {body : Body} (pos : Position), body.IsOpen →
    I held story → Yields E (fun id => I (held ++ openEnds id body)) (create path body pos) story
  placeholder : ∀ {held story} (path : Path) (pos : Position), I held story →
    Yields E (fun id => I (held ++ [nextEnd id])) (createPlaceholder path pos) story
  tieEnd : ∀ {held story} (target : Target) (loose : LooseEnd), I (loose :: held) story →
    Yields E (fun _ => I held) (tieEnd target loose) story
  discard : ∀ {held story} (id : NodeId), I held story →
    Yields E (fun _ => I held) (discard id) story
  threads : ∀ {held story} (id : NodeId) (question answer : List String), I held story →
    Yields E (fun _ => I held) (modifyBody id (Body.withThreads question answer)) story
  unfinished : E .unfinished

theorem isOpen_content (c : Content) : (Body.content c none).IsOpen := by
  intro outlet link h
  cases outlet <;> simp_all [Body.link?]

theorem isOpen_ask : Body.ask.IsOpen := by
  intro outlet link h
  cases outlet <;> simp_all [Body.link?]

theorem isOpen_jump (condition : Expr) : (Body.jump condition none none).IsOpen := by
  intro outlet link h
  cases outlet <;> simp_all [Body.link?]

theorem isOpen_goto : (Body.goto none).IsOpen := by
  intro outlet link h
  cases outlet <;> simp_all [Body.link?]

theorem isOpen_call (label : String) (args : List Expr) : (Body.call label args none none).IsOpen := by
  intro outlet link h
  cases outlet <;> simp_all [Body.link?]

theorem isOpen_define (params : List String) : (Body.define params none).IsOpen := by
  intro outlet link h
  cases outlet <;> simp_all [Body.link?]

theorem isOpen_option (keywords : List String) : (Body.option [] [] keywords none).IsOpen := by
  intro outlet link h
  cases outlet <;> simp_all [Body.link?]

theorem isOpen_switch (path : Path) (cases : List Case) (selection : Selection) :
    (selection.body path cases).IsOpen := by
  intro outlet link h
  unfold Selection.body at h
  cases outlet with
  | next => cases selection <;> simp_all [Body.link?, Selection.mode]
  | branch => simp [Body.link?] at h
  | case index =>
    simp only [Body.link?, List.getElem?_map, Option.map_eq_some_iff] at h
    obtain ⟨-, -, rfl⟩ := h
    rfl

/-- The loose ends of the cases from `index` on. -/
def caseEnds (id : NodeId) (index : Nat) : List Case → List LooseEnd
  | [] => []
  | _ :: rest => ⟨id, .case index⟩ :: caseEnds id (index + 1) rest

theorem caseEnds_perm (frame : List LooseEnd) (id : NodeId) (index : Nat) (c : Case)
    (rest : List Case) : (frame ++ caseEnds id index (c :: rest)).Perm
      (frame ++ caseEnds id (index + 1) rest ++ [⟨id, .case index⟩]) :=
  List.perm_iff_count.mpr fun e => by
    simp only [caseEnds, List.count_append, List.count_cons, List.count_nil]; omega

theorem openEnds_switch (id : NodeId) (path : Path) (cases : List Case) (selection : Selection) :
    openEnds id (selection.body path cases) = caseEnds id 0 cases ++ selection.fallThrough id := by
  have (index : Nat) : (Body.caseLinks index (cases.map fun _ => none)).map
      (fun entry => LooseEnd.mk id entry.1) = caseEnds id index cases := by
    induction cases generalizing index with
    | nil => rfl
    | cons c rest ih =>
      simp only [List.map_cons, Body.caseLinks, caseEnds]
      exact congrArg _ (ih (index + 1))
  unfold openEnds Selection.body Body.links
  rw [List.map_append]
  refine (congrArg (· ++ _) (this 0)).trans ?_
  cases selection <;> rfl

/-- The branch of a jump goes on from where its other side ends. -/
theorem branch_perm (frame : List LooseEnd) (id : NodeId) (front : Front) :
    (frame ++ [LooseEnd.mk id .branch] ++ front.held).Perm
      (frame ++ front.held ++ (entering front.path ⟨id, .branch⟩).held) :=
  List.perm_iff_count.mpr fun e => by
    simp only [Front.held, entering, List.count_append, List.count_nil]; omega

namespace Kept

variable {E : BuildError → Prop} {I : List LooseEnd → Story → Prop} {story : Story}

theorem tie (k : Kept E I) {held : List LooseEnd} (target : Target) (ends : List LooseEnd)
    (h : I (held ++ ends) story) : Yields E (fun _ => I held) (Build.tie target ends) story := by
  induction ends generalizing story with
  | nil => exact Yields.pure (by simpa using h)
  | cons loose rest ih =>
    have hp : (held ++ loose :: rest).Perm (loose :: (held ++ rest)) := List.perm_middle
    exact Yields.bind (k.tieEnd target loose (k.perm hp h)) fun _ _ hr => ih hr

theorem arrive (k : Kept E I) {held : List LooseEnd} (front : Front) {body : Body}
    (pos : Position) (hb : body.IsOpen) (h : I (held ++ front.ends.rets) story) :
    Yields E (fun id => I (held ++ openEnds id body)) (Build.arrive front body pos) story := by
  refine Yields.bind (k.create front.path pos hb h) fun id s hs => ?_
  refine Yields.bind (k.tie (.node front.path.name) front.ends.rets (k.perm ?_ hs)) fun _ _ ht => ht
  exact List.perm_iff_count.mpr fun e => by simp only [List.count_append]; omega

/-- A node written at a front holds its own ends in place of those that waited for it. -/
theorem write (k : Kept E I) {frame : List LooseEnd} (front : Front) {body : Body} (pos : Position)
    (hb : body.IsOpen) (h : I (frame ++ front.held) story) :
    Yields E (fun id => I (frame ++ front.ends.escs ++ openEnds id body))
      (Build.arrive front body pos) story :=
  k.arrive front pos hb (k.perm (front.held_perm frame) h)

theorem writeJump (k : Kept E I) {frame : List LooseEnd} (front : Front) (condition : Expr)
    (pos : Position) (h : I (frame ++ front.held) story) :
    Yields E (fun id => I (frame ++ front.ends.escs ++ [⟨id, .branch⟩] ++ [nextEnd id]))
      (Build.arrive front (.jump condition none none) pos) story := by
  refine Yields.mono (k.write front pos (isOpen_jump _) h) fun id s hs => k.perm ?_ hs
  exact List.perm_iff_count.mpr fun e => by
    simp only [List.count_append, openEnds, Body.links, nextEnd, List.map, List.count_cons,
      List.count_nil]
    omega

theorem writeSwitch (k : Kept E I) {frame : List LooseEnd} (front : Front) (selection : Selection)
    (found : List Case) (pos : Position) (h : I (frame ++ front.held) story) :
    Yields E (fun id => I (frame ++ front.ends.escs ++ selection.fallThrough id ++
      caseEnds id 0 found)) (Build.arrive front (selection.body front.path found) pos) story := by
  refine Yields.mono (k.write front pos (isOpen_switch _ _ _) h) fun id s hs => k.perm ?_ hs
  exact List.perm_iff_count.mpr fun e => by
    simp only [openEnds_switch, List.count_append]; omega

/-- An option whose guards are written. -/
theorem writeOption (k : Kept E I) {frame rets skips : List LooseEnd} (path : Path)
    (keywords : List String) (pos : Position) (h : I (frame ++ rets ++ skips) story) :
    Yields E (fun id => I (frame ++ skips ++ [nextEnd id]))
      (Build.arrive ⟨path, rets, []⟩ (.option [] [] keywords none) pos) story := by
  have hp : (frame ++ rets ++ skips).Perm (frame ++ skips ++ rets) :=
    List.perm_iff_count.mpr fun e => by simp only [List.count_append]; omega
  exact k.arrive ⟨path, rets, []⟩ pos (isOpen_option keywords) (k.perm hp h)

theorem append (k : Kept E I) {frame : List LooseEnd} (front : Front) (c : Content)
    (pos : Position) (h : I (frame ++ front.held) story) :
    Yields E (fun after => I (frame ++ after.held)) (Build.append front (.content c none) pos)
      story := by
  refine Yields.bind (k.write front pos (isOpen_content c) h) fun id s hs => ?_
  refine Yields.pure (k.perm ?_ hs)
  exact List.perm_iff_count.mpr fun e => by
    simp only [Front.held, List.count_append, openEnds, Body.links, nextEnd, List.map]; omega

theorem divert (k : Kept E I) {frame : List LooseEnd} (front : Front) (target : Target)
    (h : I (frame ++ front.held) story) :
    Yields E (fun after => I (frame ++ after.held)) (Build.divert front target) story := by
  have hp := front.held_perm frame
  refine Yields.bind (k.tie target front.ends.rets (k.perm hp h)) fun _ s hs => ?_
  exact Yields.pure (by simpa [Front.held] using hs)

theorem claim (k : Kept E I) {held : List LooseEnd} (name : String) (seen : Position)
    (h : I held story) : Yields E (fun _ => I held) (Build.claim name seen) story := by
  refine Yields.bind (Q := fun after s => after = story ∧ s = story) ⟨rfl, rfl⟩ ?_
  rintro _ _ ⟨rfl, rfl⟩
  split
  · exact Yields.bind (k.report seen _ h) fun _ _ hs => Yields.pure hs
  · split
    · exact Yields.bind (k.report seen _ h) fun _ _ hs => Yields.pure hs
    · exact Yields.pure h

theorem enterLabel (k : Kept E I) {frame : List LooseEnd} (front : Front) (name : String)
    (seen pos : Position) (h : I (frame ++ front.held) story) :
    Yields E (fun after => I (frame ++ after.held)) (Build.enterLabel front name seen pos)
      story := by
  refine Yields.bind (k.claim name seen h) fun label s hs => ?_
  refine Yields.bind (k.placeholder (.root label) pos hs) fun entry s hs => ?_
  have hp := front.held_perm_entry frame (nextEnd entry)
  refine Yields.bind (k.tie _ front.ends.rets (k.perm hp hs)) fun _ s hs => ?_
  refine Yields.pure (k.perm ?_ hs)
  exact List.perm_iff_count.mpr fun e => by simp only [Front.held, List.count_append]; omega

theorem prompt (k : Kept E I) {frame : List LooseEnd} (front : Front) (pos : Position)
    (h : I (frame ++ front.held) story) :
    Yields E (fun after => I (frame ++ after.held)) (Build.prompt front pos) story := by
  refine Yields.bind (k.write front pos isOpen_ask h) fun id s hs => ?_
  exact Yields.pure (by simpa [Front.held, openEnds, Body.links] using hs)

theorem call (k : Kept E I) {frame : List LooseEnd} (front : Front) (label : String)
    (args : List Expr) (pos : Position) (h : I (frame ++ front.held) story) :
    Yields E (fun after => I (frame ++ after.held)) (Build.call front label args pos) story := by
  refine Yields.bind (k.write front pos (isOpen_call label args) h) fun id s hs => ?_
  refine Yields.pure (k.perm ?_ hs)
  exact List.perm_iff_count.mpr fun e => by
    simp only [Front.held, List.count_append, openEnds, Body.links, nextEnd, List.map,
      List.count_cons, List.count_nil]
    omega

theorem guards (k : Kept E I) {frame : List LooseEnd} (pos : Position) (guards : List Expr)
    (path : Path) (rets : List LooseEnd) (h : I (frame ++ rets) story) :
    Yields E (fun (_, rets, skips) => I (frame ++ rets ++ skips))
      (Build.guards pos guards path rets) story := by
  induction guards generalizing frame path rets story with
  | nil => exact Yields.pure (by simpa using h)
  | cons guard rest ih =>
    refine Yields.bind (k.arrive ⟨path, rets, []⟩ pos (isOpen_jump _) h) fun id s hs => ?_
    have hp : (frame ++ openEnds id (.jump guard.inverted none none)).Perm
        (frame ++ [⟨id, .branch⟩] ++ [nextEnd id]) :=
      List.perm_iff_count.mpr fun e => by
        simp only [List.count_append, openEnds, Body.links, nextEnd, List.map, List.count_cons,
          List.count_nil]
        omega
    refine Yields.bind (ih path.next [nextEnd id] (k.perm hp hs)) ?_
    rintro ⟨path, rets, skips⟩ s hs
    refine Yields.pure (k.perm ?_ hs)
    exact List.perm_iff_count.mpr fun e => by
      simp only [List.count_append, List.count_cons, List.count_nil]; omega

theorem chain (k : Kept E I) {frame : List LooseEnd} (pos : Position)
    (assignments : List Assignment) (path : Path) (rets : List LooseEnd)
    (h : I (frame ++ rets) story) :
    Yields E (fun (_, rets) => I (frame ++ rets)) (Build.chain pos assignments path rets)
      story := by
  induction assignments generalizing path rets story with
  | nil => exact Yields.pure h
  | cons assignment rest ih =>
    refine Yields.bind (k.arrive ⟨path, rets, []⟩ pos (isOpen_content _) h) fun id s hs => ?_
    exact ih path.next [nextEnd id] hs

theorem consequences (k : Kept E I) {frame : List LooseEnd} (pos : Position)
    (assignments : List Assignment) (draft : Draft) (h : I (frame ++ draft.escs) story) :
    Yields E (fun after => I (frame ++ after.escs)) (Build.consequences pos assignments draft)
      story := by
  unfold Build.consequences
  split
  · exact Yields.pure h
  · refine Yields.bind (k.chain pos assignments draft.path [] (by simpa using h)) ?_
    rintro ⟨path, rets⟩ s hs
    refine Yields.bind (k.tie .ret rets hs) fun _ s hs => ?_
    exact Yields.pure hs

theorem fileSegment (k : Kept E I) {held : List LooseEnd} (role : Role) (isEmpty : Bool)
    (entry : NodeId) (draft : Draft) (h : I held story) :
    Yields E (fun filed s => filed.escs = draft.escs ∧ I held s)
      (Build.fileSegment role isEmpty entry draft) story := by
  unfold Build.fileSegment
  split
  · exact Yields.bind (k.discard entry h) fun _ _ hs => Yields.pure ⟨rfl, hs⟩
  · exact Yields.pure ⟨by cases role <;> rfl, h⟩

theorem settle (k : Kept E I) {frame : List LooseEnd} (role : Role) (last : Bool) (entry : NodeId)
    (front : Front) (draft : Draft) (h : I (frame ++ draft.escs ++ front.held) story) :
    Yields E (fun after => I (frame ++ after.escs)) (Build.settle role last entry front draft)
      story := by
  have hp : (frame ++ draft.escs ++ front.held).Perm
      (frame ++ (draft.escs ++ front.ends.escs) ++ front.ends.rets) :=
    List.perm_iff_count.mpr fun e => by simp only [Front.held, List.count_append]; omega
  refine Yields.bind (Q := fun after s => after = story ∧ s = story) ⟨rfl, rfl⟩ ?_
  rintro _ _ ⟨rfl, rfl⟩
  refine Yields.bind (k.fileSegment role _ entry draft (k.perm hp h)) ?_
  rintro filed s ⟨he, hs⟩
  dsimp only
  split
  · exact Yields.pure (by simpa [he] using hs)
  · exact Yields.bind (k.tie .ret front.ends.rets hs) fun _ s hs =>
      Yields.pure (by simpa [he] using hs)

theorem conclude (k : Kept E I) {frame : List LooseEnd} (pos : Position) (draft : Draft)
    (h : I (frame ++ draft.escs) story) :
    Yields E (fun after => I (frame ++ after.escs)) (Build.conclude pos draft) story := by
  unfold Build.conclude
  split
  · exact Yields.pure h
  · refine Yields.bind (k.create draft.path pos isOpen_goto h) fun id s hs => ?_
    exact Yields.pure (by simpa [openEnds, Body.links, nextEnd] using hs)

mutual

/-- Every item of a script keeps the invariant, and never touches the `frame` of the rules around
it. -/
theorem item (k : Kept E I) {frame : List LooseEnd} (i : Item) (front : Front) {story : Story}
    (h : I (frame ++ front.held) story) :
    Yields E (fun after => I (frame ++ after.held)) (Build.item i front) story := by
  cases i with
  | report d =>
    exact Yields.bind (k.report d.pos d.mistake h) fun _ _ hs => Yields.pure hs
  | cut => exact k.unfinished
  | passed left => exact Yields.pure h
  | content pos c => exact k.append front c pos h
  | ask pos => exact k.prompt front pos h
  | leave => exact k.divert front .ret h
  | goto label => exact k.divert front (.node label) h
  | call pos label args => exact k.call front label args pos h
  | label pos name seen => exact k.enterLabel front name seen pos h
  | loop pos body =>
    refine Yields.bind (k.placeholder front.path pos h) fun entry s hs => ?_
    have hp := front.held_perm_entry frame (nextEnd entry)
    refine Yields.bind (k.tie _ front.ends.rets (k.perm hp hs)) fun _ s hs => ?_
    have hb : I (frame ++ front.ends.escs ++ (entering front.path (nextEnd entry)).held) s := hs
    refine Yields.bind (k.thread body _ hb) fun after s hs => ?_
    have hq : (frame ++ front.ends.escs ++ after.held).Perm
        (frame ++ (front.ends.escs ++ after.ends.escs) ++ after.ends.rets) :=
      List.perm_iff_count.mpr fun e => by simp only [Front.held, List.count_append]; omega
    refine Yields.bind (k.tie _ after.ends.rets (k.perm hq hs)) fun _ s hs => ?_
    exact Yields.pure (by simpa [Front.held] using hs)
  | define pos name params seen body =>
    refine Yields.bind (k.claim name seen h) fun label s hs => ?_
    refine Yields.bind (k.create (.root label) pos (isOpen_define params) hs) fun id s hs => ?_
    refine Yields.bind (k.thread body (entering (Path.root label).next (nextEnd id)) hs)
      fun after s hs => ?_
    have hp : (frame ++ front.held ++ after.held).Perm
        (frame ++ front.held ++ after.ends.escs ++ after.ends.rets) :=
      List.perm_iff_count.mpr fun e => by simp only [Front.held, List.count_append]; omega
    refine Yields.bind (k.tie .ret after.ends.rets (k.perm hp hs)) fun _ s hs => ?_
    refine Yields.bind (k.tie .esc after.ends.escs hs) fun _ s hs => ?_
    exact Yields.pure hs
  | jump pos condition yes no =>
    refine Yields.bind (k.writeJump front condition.inverted pos h) fun id s hs => ?_
    refine Yields.bind (k.thread yes (entering front.path.firstChild (nextEnd id)) hs)
      fun yes s hs => ?_
    have hr := branch_perm (frame ++ front.ends.escs) id yes
    refine Yields.bind (k.thread no (entering yes.path ⟨id, .branch⟩) (k.perm hr hs))
      fun no s hs => ?_
    refine Yields.pure (k.perm ?_ hs)
    exact List.perm_iff_count.mpr fun e => by
      simp only [Front.held, Ends.append, List.nil_append, List.count_append]; omega
  | switch pos selection found =>
    refine Yields.bind (k.writeSwitch front selection found pos h) fun id s hs => ?_
    refine Yields.bind (k.cases id 0 found front.path.firstChild hs) fun after s hs => ?_
    refine Yields.pure (k.perm ?_ hs)
    exact List.perm_iff_count.mpr fun e => by simp only [Front.held, List.count_append]; omega
  | option pos leader terms parts =>
    have hp := front.held_perm frame
    refine Yields.bind (k.guards pos _ front.path front.ends.rets (k.perm hp h)) ?_
    rintro ⟨path, rets, skips⟩ s hs
    refine Yields.bind (k.writeOption path _ pos hs) fun id s hs => ?_
    refine Yields.bind (k.consequences pos (terms.ledBy leader front.path).consequences
      ⟨path.firstChild, [], [], [], false⟩ (by simpa using hs)) fun draft s hs => ?_
    refine Yields.bind (k.segments parts draft hs) fun draft s hs => ?_
    refine Yields.bind (k.conclude pos draft hs) fun draft s hs => ?_
    refine Yields.bind (k.threads id draft.question draft.answer hs) fun _ s hs => ?_
    refine Yields.pure (k.perm ?_ hs)
    exact List.perm_iff_count.mpr fun e => by
      simp only [Front.held, nextEnd, List.count_append]; omega

theorem thread (k : Kept E I) {frame : List LooseEnd} (items : List Item) (front : Front)
    {story : Story} (h : I (frame ++ front.held) story) :
    Yields E (fun after => I (frame ++ after.held)) (Build.thread items front) story := by
  cases items with
  | nil => exact Yields.pure h
  | cons i rest => exact Yields.bind (k.item i front h) fun after s hs => k.thread rest after hs

theorem cases (k : Kept E I) {frame : List LooseEnd} (id : NodeId) (index : Nat)
    (found : List Case) (path : Path) {story : Story}
    (h : I (frame ++ caseEnds id index found) story) :
    Yields E (fun after => I (frame ++ after.held)) (Build.cases id index found path) story := by
  cases found with
  | nil => exact Yields.pure h
  | cons c rest =>
    obtain ⟨weight, body⟩ := c
    have hp := caseEnds_perm frame id index (.mk weight body) rest
    refine Yields.bind (k.thread body (entering path ⟨id, .case index⟩) (k.perm hp h))
      fun front s hs => ?_
    have hq : (frame ++ caseEnds id (index + 1) rest ++ front.held).Perm
        (frame ++ front.held ++ caseEnds id (index + 1) rest) :=
      List.perm_iff_count.mpr fun e => by simp only [List.count_append]; omega
    refine Yields.bind (k.cases id (index + 1) rest front.path (k.perm hq hs)) fun after s hs => ?_
    refine Yields.pure (k.perm ?_ hs)
    exact List.perm_iff_count.mpr fun e => by
      simp only [Front.held, Ends.append, List.count_append]; omega

theorem segments (k : Kept E I) {frame : List LooseEnd} (parts : List Segment) (draft : Draft)
    {story : Story} (h : I (frame ++ draft.escs) story) :
    Yields E (fun after => I (frame ++ after.escs)) (Build.segments parts draft) story := by
  cases parts with
  | nil => exact Yields.pure h
  | cons part rest =>
    obtain ⟨pos, role, body⟩ := part
    refine Yields.bind (k.placeholder draft.path pos h) fun entry s hs => ?_
    refine Yields.bind (k.thread body (entering draft.path (nextEnd entry)) hs)
      fun front s hs => ?_
    refine Yields.bind (k.settle role rest.isEmpty entry front draft hs) fun draft s hs => ?_
    exact k.segments rest draft hs

end

end Kept

end Build

end Storyline
