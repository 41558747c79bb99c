import Storyline.Proofs.Definitions.Labels
import Storyline.Proofs.Notices.Passing
import Storyline.Proofs.Options.Persisting

namespace Storyline

theorem Definition.mistakes_sublist (d : Definition) :
    (d.mistakes.map Diagnostic.pos).Sublist [d.seen] := by
  unfold mistakes
  split
  · exact List.Sublist.refl _
  · split
    · exact List.Sublist.refl _
    · exact List.nil_sublist _

/-- What is reported of what was noticed, where the names in it belong to these definitions. -/
inductive Recounts : List Notice → List Definition → List Diagnostic → Prop where
  | nil : Recounts [] [] []
  | mistake {noticed ds noted} (d : Diagnostic) (rest : Recounts noticed ds noted) :
      Recounts (.mistake d :: noticed) ds (d :: noted)
  | name {noticed ds noted} (d : Definition) (rest : Recounts noticed ds noted) :
      Recounts (.name d.name d.seen :: noticed) (d :: ds) (d.mistakes ++ noted)

namespace Recounts

variable {a b : List Notice} {ds ds' : List Definition} {noted noted' : List Diagnostic}

theorem append (h : Recounts a ds noted) (h' : Recounts b ds' noted') :
    Recounts (a ++ b) (ds ++ ds') (noted ++ noted') := by
  induction h with
  | nil => exact h'
  | mistake d _ ih => exact .mistake d ih
  | name d _ ih =>
    rw [List.append_assoc]
    exact .name d ih

/-- What is reported stands where it was noticed; a name may give nothing to report. -/
theorem sublist (h : Recounts a ds noted) :
    (noted.map Diagnostic.pos).Sublist (a.map Notice.pos) := by
  induction h with
  | nil => exact List.Sublist.refl _
  | mistake d _ ih => exact ih.cons_cons d.pos
  | name d _ ih =>
    rw [List.map_append]
    exact d.mistakes_sublist.append ih

end Recounts

namespace Build

open Story

variable {α β : Type} {m : Build α} {noticed noticed' : List Notice} {before : List Definition}

/-- A run that reports nothing. -/
def Silent (m : Build α) : Prop :=
  ∀ story, Yields Anything (fun _ after => after.diagnostics = story.diagnostics) m story

namespace Silent

theorem pure (a : α) : Silent (pure a : Build α) := fun _ => .pure rfl

theorem bind {f : α → Build β} (hm : Silent m) (hf : ∀ a, Silent (f a)) : Silent (m >>= f) :=
  fun story => (hm story).bind fun a mid h => (hf a mid).mono fun _ _ h' => h'.trans h

theorem of_retains {among : NodeId → Prop} {Q : α → Story → Story → Prop}
    (h : ∀ story, Yields Anything (fun a after => story.Retains among [] after ∧ Q a story after)
      m story) : Silent m := by
  intro story
  refine (h story).mono fun a after ⟨hr, _⟩ => ?_
  have hlist := hr.diagnostics
  rw [List.append_nil] at hlist
  exact Array.toList_inj.mp hlist

theorem create (path : Path) (body : Body) (pos : Position) : Silent (create path body pos) :=
  .of_retains fun _ => create_retains path body pos

theorem placeholder (path : Path) (pos : Position) : Silent (createPlaceholder path pos) :=
  .of_retains fun _ => addSlot_retains path.name _

theorem tie (target : Target) (ends : List LooseEnd) : Silent (tie target ends) :=
  .of_retains fun _ => tie_retains target ends

theorem arrive (front : Front) (body : Body) (pos : Position) : Silent (arrive front body pos) :=
  .of_retains fun _ => arrive_retains front body pos

theorem guards (pos : Position) (gs : List Expr) (path : Path) (rets : List LooseEnd) :
    Silent (Build.guards pos gs path rets) :=
  .of_retains fun _ => guards_laid pos gs path rets

theorem consequences (pos : Position) (assignments : List Assignment) (draft : Draft) :
    Silent (Build.consequences pos assignments draft) :=
  .of_retains fun _ => consequences_laid pos assignments draft

theorem modifyBody (id : NodeId) (f : Body → Body) : Silent (modifyBody id f) :=
  .of_retains fun _ => modifyBody_retains id f

theorem settle (role : Role) (last : Bool) (entry : NodeId) (front : Front) (draft : Draft) :
    Silent (settle role last entry front draft) :=
  .of_retains fun _ => (settle_retains role last entry front draft).mono fun _ _ h => ⟨h, trivial⟩

theorem conclude (pos : Position) (draft : Draft) : Silent (conclude pos draft) :=
  .of_retains fun _ => (conclude_retains pos draft).mono fun _ _ h => ⟨h, trivial⟩

end Silent

/-- A run that reports what was noticed, and adds to the definitions before it those whose names
were noticed. -/
def Recalls (before : List Definition) (noticed : List Notice) (m : Build (α × List Definition)) :
    Prop :=
  ∀ story, Yields Anything (fun (_, found) after => ∃ ds noted, found = before ++ ds ∧
    Recounts noticed ds noted ∧ after.diagnostics.toList = story.diagnostics.toList ++ noted) m story

namespace Recalls

variable {m : Build (α × List Definition)} {f : α × List Definition → Build (β × List Definition)}

theorem pure (a : α) (before : List Definition) :
    Recalls before [] (pure (a, before) : Build (α × List Definition)) := fun _ =>
  .pure ⟨[], [], (List.append_nil before).symm, .nil, (List.append_nil _).symm⟩

/-- A step that reports nothing comes first. -/
theorem step {m : Build α} {f : α → Build (β × List Definition)} (hm : Silent m)
    (hf : ∀ a, Recalls before noticed (f a)) : Recalls before noticed (m >>= f) := by
  intro story
  refine (hm story).bind fun a mid hmid => ?_
  rw [← hmid]
  exact hf a mid

/-- One run after another, which goes on from the definitions of the first. -/
theorem bind (hm : Recalls [] noticed m)
    (hf : ∀ a found, Recalls (before ++ found) noticed' (f (a, found))) :
    Recalls before (noticed ++ noticed') (m >>= f) := by
  intro story
  refine (hm story).bind ?_
  rintro ⟨a, found⟩ mid ⟨_, noted, rfl, hnoted, hmid⟩
  refine (hf a found mid).mono ?_
  rintro ⟨b, all⟩ after ⟨ds, noted', rfl, hnoted', hafter⟩
  refine ⟨found ++ ds, noted ++ noted', List.append_assoc before found ds, hnoted.append hnoted', ?_⟩
  rw [hafter, hmid, List.append_assoc]

/-- Nothing is reported behind the first run. -/
theorem trail (hm : Recalls [] noticed m)
    (hf : ∀ a found, Recalls (before ++ found) [] (f (a, found))) :
    Recalls before noticed (m >>= f) := by
  have hall := bind hm hf
  rwa [List.append_nil] at hall

theorem none {m : Build α} (hm : Silent m) : Recalls [] [] (do let a ← m; return (a, [])) :=
  step hm fun a => pure a []

end Recalls

/-- A claim reports the mistakes in its name. -/
theorem claim_reports (name : String) (seen : Position) (story : Story) :
    Yields Anything (fun _ after => after.diagnostics.toList =
      story.diagnostics.toList ++ Definition.mistakes ⟨name, seen, story⟩) (claim name seen) story := by
  unfold Yields
  rw [claim_eq]
  exact Array.toList_append

/-- What goes on from a claim has its definition. -/
theorem recalls_claim {f : Story → String → Build (α × List Definition)} (name : String)
    (seen : Position) (hf : ∀ story label, Recalls [⟨name, seen, story⟩] noticed (f story label)) :
    Recalls [] (.name name seen :: noticed)
      (do let story ← Build.story; let label ← claim name seen; f story label) := by
  intro story
  refine yields_story ?_
  refine (claim_reports name seen story).bind fun label mid hmid => (hf story label mid).mono ?_
  rintro ⟨a, found⟩ after ⟨ds, noted, rfl, hnoted, hafter⟩
  refine ⟨⟨name, seen, story⟩ :: ds, _, rfl, .name ⟨name, seen, story⟩ hnoted, ?_⟩
  rw [hafter, hmid, List.append_assoc]

theorem recalls_report (d : Diagnostic) (front : Front) :
    Recalls [] [.mistake d] (noteItem (.report d) front) := by
  intro story
  have hreport : Yields Anything (fun _ after => after.diagnostics.toList =
      story.diagnostics.toList ++ [d]) (report d.pos d.mistake) story :=
    yields_report Array.toList_push
  have hitem : Yields Anything (fun _ after => after.diagnostics.toList =
      story.diagnostics.toList ++ [d]) (item (.report d) front) story :=
    hreport.bind fun _ _ h => .pure h
  exact hitem.bind fun after mid hmid => .pure ⟨[], [d], rfl, .mistake d .nil, hmid⟩

theorem recalls_label (pos : Position) (name : String) (seen : Position) (front : Front) :
    Recalls [] [.name name seen] (noteItem (.label pos name seen) front) := by
  intro story
  refine yields_story ?_
  have henter (label : String) : Silent (do
      let entry ← createPlaceholder (.root label) pos
      tieTo (.root label) front.ends.rets
      return (⟨.root label, [nextEnd entry], front.ends.escs⟩ : Front)) :=
    (Silent.placeholder _ _).bind fun entry => (Silent.tie _ _).bind fun _ => .pure _
  have hlabel : Yields Anything (fun _ after => after.diagnostics.toList =
      story.diagnostics.toList ++ Definition.mistakes ⟨name, seen, story⟩)
      (enterLabel front name seen pos) story :=
    (claim_reports name seen story).bind fun label mid hmid =>
      (henter label mid).mono fun _ _ hafter => by rw [hafter, hmid]
  refine hlabel.bind fun after mid hmid => .pure ?_
  refine ⟨[⟨name, seen, story⟩], _, rfl, .name ⟨name, seen, story⟩ .nil, ?_⟩
  rw [List.append_nil, hmid]

mutual

theorem item_recalls (i : Item) (front : Front) : Recalls [] i.notices (noteItem i front) := by
  cases i with
  | report d => exact recalls_report d front
  | cut => exact fun _ => trivial
  | passed left => exact .none (.pure front)
  | content pos c => exact .none ((Silent.arrive _ _ _).bind fun _ => .pure _)
  | ask pos => exact .none ((Silent.arrive _ _ _).bind fun _ => .pure _)
  | leave => exact .none ((Silent.tie _ _).bind fun _ => .pure _)
  | goto label => exact .none ((Silent.tie _ _).bind fun _ => .pure _)
  | call pos label args => exact .none ((Silent.arrive _ _ _).bind fun _ => .pure _)
  | label pos name seen => exact recalls_label pos name seen front
  | loop pos body =>
    refine .step (.placeholder front.path pos) fun entry => .step (.tie _ _) fun _ => ?_
    exact .trail (thread_recalls body _) fun after found => .step (.tie _ _) fun _ => .pure _ found
  | define pos name params seen body =>
    refine recalls_claim name seen fun story label => ?_
    -- The definitions in the body come behind the one they stand in.
    refine .step (.create _ _ pos) fun id => .trail (thread_recalls body _) fun after found => ?_
    exact .step (.tie _ _) fun _ => .step (.tie _ _) fun _ => .pure front _
  | jump pos condition yes no =>
    refine .step (.arrive front _ pos) fun id => ?_
    refine .bind (thread_recalls yes _) fun yes found => ?_
    exact .trail (thread_recalls no _) fun no found' => .pure _ (found ++ found')
  | switch pos selection branches =>
    refine .step (.arrive front _ pos) fun id => ?_
    exact .trail (cases_recalls id 0 branches _) fun after found => .pure _ found
  | option pos leader terms parts =>
    refine .step (.guards pos _ _ _) fun _ => .step (.arrive _ _ pos) fun id => ?_
    refine .step (.consequences pos _ _) fun draft => ?_
    refine .trail (segments_recalls parts draft) fun draft found => ?_
    exact .step (.conclude pos draft) fun draft => .step (.modifyBody id _) fun _ => .pure _ found

theorem thread_recalls (items : List Item) (front : Front) :
    Recalls [] (Script.notices items) (noteThread items front) := by
  cases items with
  | nil => exact .pure front []
  | cons i rest =>
    refine .bind (item_recalls i front) fun after found => ?_
    exact .trail (thread_recalls rest after) fun after found' => .pure after (found ++ found')

theorem cases_recalls (id : NodeId) (index : Nat) (branches : List Case) (path : Path) :
    Recalls [] (Script.caseNotices branches) (noteCases id index branches path) := by
  cases branches with
  | nil => exact .pure _ []
  | cons c rest =>
    obtain ⟨weight, body⟩ := c
    refine .bind (thread_recalls body _) fun front found => ?_
    exact .trail (cases_recalls id (index + 1) rest front.path) fun after found' => .pure _ _

theorem segments_recalls (parts : List Segment) (draft : Draft) :
    Recalls [] (Script.segmentNotices parts) (noteSegments parts draft) := by
  cases parts with
  | nil => exact .pure draft []
  | cons part rest =>
    obtain ⟨pos, role, body⟩ := part
    refine .step (.placeholder draft.path pos) fun entry => ?_
    refine .bind (thread_recalls body _) fun front found => .step (.settle _ _ _ _ _) fun draft => ?_
    exact .trail (segments_recalls rest draft) fun draft found' => .pure draft _

end

end Build

end Storyline
