import Storyline.Proofs.Compiling
import Storyline.Proofs.Names.Steps
import Storyline.Proofs.Options.Laying

namespace Storyline

def Segment.body : Segment → List Item
  | mk _ _ body => body

/-- The threads that an item holds. -/
def Item.bodies : Item → List (List Item)
  | loop _ body => [body]
  | define _ _ _ _ body => [body]
  | jump _ _ yes no => [yes, no]
  | switch _ _ found => found.map Case.body
  | option _ _ _ parts => parts.map Segment.body
  | _ => []

/-- The item stands in a thread, or in one that an item of the thread holds. -/
inductive Item.Within (i : Item) : List Item → Prop where
  | here {rest} : Item.Within i (i :: rest)
  | later {j rest} : Item.Within i rest → Item.Within i (j :: rest)
  | inside {j rest body} : body ∈ j.bodies → Item.Within i body → Item.Within i (j :: rest)

namespace Story

variable {story mid after : Story} {id : NodeId} {noted : List Diagnostic}

/-- An option that has settled lives in the slot. -/
def HasOption (story : Story) (id : NodeId) : Prop :=
  ∃ node, story.slots[id]? = some (.settled node) ∧ node.body.kind = .option

/-- Everything lasts but for the threads of options that were there in `story`. -/
def Spared (story mid after : Story) : Prop :=
  ∃ noted, mid.Retains (fun id => ¬ story.HasOption id) noted after

theorem HasOption.persists (h : story.HasOption id) (p : story.Persists after) :
    after.HasOption id := by
  obtain ⟨node, hs, hk⟩ := h
  obtain ⟨noted, hr⟩ := p
  obtain ⟨now, hnow, -, hg⟩ := hr.holds id node trivial hs
  refine ⟨now, hnow, ?_⟩
  rw [← kind_cleared, hg.same, kind_cleared, hk]

theorem Holds.hasOption {name : String} {question answer keywords : List String} {next : Link}
    (h : story.Holds id name (.option question answer keywords next)) : story.HasOption id := by
  obtain ⟨node, hs, -, hg⟩ := h
  refine ⟨node, hs, ?_⟩
  rw [← kind_cleared, hg.same]
  rfl

theorem Spared.of_persists (h : mid.Persists after) : story.Spared mid after := by
  obtain ⟨noted, h⟩ := h
  exact ⟨noted, h.every⟩

theorem Spared.trans {last : Story} (h : story.Spared mid after) (h' : story.Spared after last) :
    story.Spared mid last := by
  obtain ⟨noted, h⟩ := h
  obtain ⟨noted', h'⟩ := h'
  exact ⟨noted ++ noted', h.trans h'⟩

/-- What is spared for one story is spared for any before it. -/
theorem Spared.since {first : Story} (h : first.Spared mid after) (p : first.Persists story) :
    story.Spared mid after := by
  obtain ⟨noted, h⟩ := h
  exact ⟨noted, h.mono fun id hn hf => hn (HasOption.persists hf p)⟩

end Story

namespace Build

open Story

variable {story mid after : Story} {ends rets : List LooseEnd} {kept kept' : Ends} {i : Item}
  {front : Front}

/-- Ends that were held together are still held together, or were sent to one target. -/
def Passed (ends : List LooseEnd) (story : Story) (kept : Ends) (after : Story) : Prop :=
  ends ⊆ kept.rets ∨ ends ⊆ kept.escs ∨ ∃ target, ∀ l ∈ ends, story.Settled l → after.Gone target l

/-- None of the two kinds of ends of a front were parted. -/
structure Passes (held : Ends) (story : Story) (kept : Ends) (after : Story) : Prop where
  rets : Passed held.rets story kept after
  escs : Passed held.escs story kept after

theorem Passes.of_subset {held : Ends} (hr : held.rets ⊆ kept.rets) (he : held.escs ⊆ kept.escs) :
    Passes held story kept after :=
  ⟨.inl hr, .inr (.inl he)⟩

theorem Passes.same (held : Ends) : Passes held story held after :=
  .of_subset (List.Subset.refl _) (List.Subset.refl _)

/-- Ends that are held by more are passed on as those are. -/
theorem Passed.trans (h : Passed ends story kept mid) (h' : Passes kept mid kept' after)
    (hs : ∀ l ∈ ends, story.Settled l → mid.Settled l)
    (hg : ∀ target, ∀ l ∈ ends, mid.Gone target l → after.Gone target l) :
    Passed ends story kept' after := by
  have among {found : List LooseEnd} (he : ends ⊆ found) (hf : Passed found mid kept' after) :
      Passed ends story kept' after := by
    rcases hf with hr | hc | ⟨target, ht⟩
    · exact .inl (List.Subset.trans he hr)
    · exact .inr (.inl (List.Subset.trans he hc))
    · exact .inr (.inr ⟨target, fun l hl hset => ht l (he hl) (hs l hl hset)⟩)
  rcases h with hr | hc | ⟨target, ht⟩
  · exact among hr h'.rets
  · exact among hc h'.escs
  · exact .inr (.inr ⟨target, fun l hl hset => hg target l hl (ht l hl hset)⟩)

theorem Passes.trans {held : Ends} (h : Passes held story kept mid)
    (h' : Passes kept mid kept' after) (p : story.Persists mid) (p' : mid.Persists after) :
    Passes held story kept' after := by
  obtain ⟨noted, r⟩ := p
  obtain ⟨noted', r'⟩ := p'
  have hs (l : LooseEnd) (hset : story.Settled l) : mid.Settled l := hset.retained r trivial
  have hg (target : Target) (l : LooseEnd) (hgone : mid.Gone target l) : after.Gone target l :=
    hgone.retained r' trivial
  exact ⟨h.rets.trans h' (fun l _ => hs l) fun target l _ => hg target l,
    h.escs.trans h' (fun l _ => hs l) fun target l _ => hg target l⟩

/-- Ends that are tied to one target and stay so. -/
theorem Passed.sent {target : Target} (h : ∀ l ∈ ends, story.Settled l → mid.Gone target l)
    (p : mid.Persists after) : Passed ends story kept after := by
  obtain ⟨noted, r⟩ := p
  exact .inr (.inr ⟨target, fun l hl hset => (h l hl hset).retained r trivial⟩)

/-- Linking the script came to the item; these are the ends held since. -/
def CameTo (i : Item) (story : Story) (kept : Ends) (after : Story) : Prop :=
  ∃ front before front' mid, item i front before = .ok front' mid ∧ story.Persists before ∧
    before.Spared mid after ∧
    ∀ ends, ends ⊆ front'.ends.rets → (∀ l ∈ ends, ¬ before.HasOption l.node) →
      Passed ends mid kept after

theorem CameTo.since {first : Story} (h : CameTo i story kept after) (p : first.Persists story) :
    CameTo i first kept after := by
  obtain ⟨front, before, front', mid, hrun, hp, hspared, hpassed⟩ := h
  exact ⟨front, before, front', mid, hrun, p.trans hp, hspared, hpassed⟩

theorem CameTo.onward (h : CameTo i story kept mid) (hp : Passes kept mid kept' after)
    (hs : story.Spared mid after) : CameTo i story kept' after := by
  obtain ⟨front, before, front', done, hrun, hbefore, hspared, hpassed⟩ := h
  have hlast := hs.since hbefore
  refine ⟨front, before, front', done, hrun, hbefore, hspared.trans hlast, fun ends hsub hnot => ?_⟩
  obtain ⟨noted, r⟩ := hspared
  obtain ⟨noted', r'⟩ := hlast
  exact (hpassed ends hsub hnot).trans hp (fun l hl hset => hset.retained r (hnot l hl))
    fun target l hl hg => hg.retained r' (hnot l hl)

theorem CameTo.later (h : CameTo i story kept mid) (hp : Passes kept mid kept' after)
    (p : mid.Persists after) : CameTo i story kept' after :=
  h.onward hp (.of_persists p)

section Items

/-- Writing a node sends there what was held for it. -/
theorem arrive_passes (front : Front) (body : Body) (pos : Position) {story : Story} :
    Yields Anything (fun _ after => story.Persists after ∧
      ∀ l ∈ front.ends.rets, story.Settled l → after.Gone (.node front.path.name) l)
      (arrive front body pos) story :=
  (arrive_retains front body pos).mono fun _ _ h => ⟨.of_retains h.1, h.2.2.2⟩

theorem tie_passes (target : Target) (ends : List LooseEnd) {story : Story} :
    Yields Anything (fun _ after => story.Persists after ∧
      ∀ l ∈ ends, story.Settled l → after.Gone target l) (tie target ends) story :=
  (tie_retains target ends).mono fun _ _ h => ⟨.of_retains h.1, h.2⟩

/-- An item keeps together the ends of each kind. -/
theorem item_passes (i : Item) (front : Front) {story : Story} :
    Yields Anything (fun front' after => Passes front.ends story front'.ends after) (item i front)
      story := by
  have stays {held kept : List LooseEnd} (hs : front.ends.escs ⊆ kept) (after : Story) :
      Passed front.ends.escs story ⟨held, kept⟩ after := .inr (.inl hs)
  cases i with
  | report d =>
    exact Yields.bind (report_retains d.pos d.mistake) fun _ _ _ => Yields.pure (Passes.same _)
  | cut => trivial
  | passed left => exact Yields.pure (Passes.same _)
  | content pos c =>
    refine Yields.bind (arrive_passes front _ pos) fun id mid ⟨_, hg⟩ => Yields.pure ?_
    exact ⟨.sent hg (.refl mid), stays (List.Subset.refl _) mid⟩
  | ask pos =>
    refine Yields.bind (arrive_passes front _ pos) fun id mid ⟨_, hg⟩ => Yields.pure ?_
    exact ⟨.sent hg (.refl mid), .inl (List.Subset.refl _)⟩
  | leave =>
    refine Yields.bind (tie_passes _ _) fun _ mid ⟨_, hg⟩ => Yields.pure ?_
    exact ⟨.sent hg (.refl mid), stays (List.Subset.refl _) mid⟩
  | goto label =>
    refine Yields.bind (tie_passes _ _) fun _ mid ⟨_, hg⟩ => Yields.pure ?_
    exact ⟨.sent hg (.refl mid), stays (List.Subset.refl _) mid⟩
  | call pos label args =>
    refine Yields.bind (arrive_passes front _ pos) fun id mid ⟨_, hg⟩ => Yields.pure ?_
    exact ⟨.sent hg (.refl mid), stays (List.subset_append_left _ _) mid⟩
  | label pos name seen =>
    refine Yields.bind (claim_persists name seen) fun label s1 h1 => ?_
    refine Yields.bind (placeholder_persists _ _) fun entry s2 h2 => ?_
    refine Yields.bind (tie_passes _ _) fun _ s3 ⟨h3, hg⟩ => Yields.pure ?_
    obtain ⟨noted, r⟩ := h1.trans h2
    exact ⟨.sent (fun l hl hset => hg l hl (hset.retained r trivial)) (.refl s3),
      stays (List.Subset.refl _) s3⟩
  | loop pos body =>
    refine Yields.bind (placeholder_persists _ _) fun entry s1 h1 => ?_
    obtain ⟨noted, r⟩ := h1
    refine Yields.bind (tie_passes _ _) fun _ s2 ⟨_, hg⟩ => ?_
    refine Yields.bind (thread_persists body _) fun front2 s3 h3 => ?_
    refine Yields.bind (tie_persists _ _) fun _ s4 h4 => Yields.pure ?_
    exact ⟨.sent (fun l hl hset => hg l hl (hset.retained r trivial)) (h3.trans h4),
      stays (List.subset_append_left _ _) s4⟩
  | define pos name params seen body =>
    refine Yields.bind (claim_persists name seen) fun label s1 _ => ?_
    refine Yields.bind (create_persists _ _ _) fun id s2 _ => ?_
    refine Yields.bind (thread_persists body _) fun front2 s3 _ => ?_
    refine Yields.bind (tie_persists _ _) fun _ s4 _ => ?_
    exact Yields.bind (tie_persists _ _) fun _ s5 _ =>
      Yields.pure ⟨.inl (List.Subset.refl _), stays (List.Subset.refl _) s5⟩
  | jump pos condition yes no =>
    refine Yields.bind (arrive_passes front _ pos) fun id s1 ⟨_, hg⟩ => ?_
    refine Yields.bind (thread_persists yes _) fun yes s2 h2 => ?_
    refine Yields.bind (thread_persists no _) fun no s3 h3 => Yields.pure ?_
    exact ⟨.sent hg (h2.trans h3), stays (List.subset_append_left _ _) s3⟩
  | switch pos selection found =>
    refine Yields.bind (arrive_passes front _ pos) fun id s1 ⟨_, hg⟩ => ?_
    refine Yields.bind (cases_persists id 0 found _) fun after s2 h2 => Yields.pure ?_
    exact ⟨.sent hg h2, stays (List.subset_append_left _ _) s2⟩
  | option pos leader terms parts =>
    refine (option_offered pos leader terms parts front).mono fun front' after h => ?_
    obtain ⟨ids, id, draft, h⟩ := h
    rw [h.onward]
    exact ⟨.sent h.entered (.refl after), stays (List.subset_append_left _ _) after⟩

theorem thread_passes (items : List Item) (front : Front) {story : Story} :
    Yields Anything (fun front' after => Passes front.ends story front'.ends after)
      (thread items front) story := by
  induction items generalizing front story with
  | nil => exact Yields.pure (Passes.same _)
  | cons i rest ih =>
    refine Yields.bind (Yields.and (item_passes i front) (item_persists i front))
      fun front1 mid ⟨h, p⟩ => ?_
    refine (Yields.and (ih front1) (thread_persists rest front1)).mono fun front2 after ⟨h', p'⟩ => ?_
    exact h.trans h' p p'

end Items

section Bodies

variable {body : List Item}

/-- Linking the thread comes to the item, wherever the thread starts. -/
def ComesTo (i : Item) (body : List Item) : Prop :=
  ∀ (front : Front) (story : Story),
    Yields Anything (fun front' after => CameTo i story front'.ends after) (thread body front) story

theorem cases_within (hi : ComesTo i body) (id : NodeId) (index : Nat) (found : List Case)
    (hb : body ∈ found.map Case.body) (path : Path) {story : Story} :
    Yields Anything (fun front after => CameTo i story front.ends after) (cases id index found path)
      story := by
  induction found generalizing index path story with
  | nil => cases hb
  | cons c rest ih =>
    obtain ⟨weight, first⟩ := c
    rcases List.mem_cons.mp hb with rfl | hb
    · refine Yields.bind (hi (entering path ⟨id, .case index⟩) story) fun front mid h => ?_
      refine Yields.bind (cases_persists id (index + 1) rest front.path) fun more after p => ?_
      refine Yields.pure (h.later (.of_subset ?_ ?_) p)
      · exact List.subset_append_left _ _
      · exact List.subset_append_left _ _
    · refine Yields.bind (thread_persists first _) fun front mid p => ?_
      refine Yields.bind (ih (index + 1) hb front.path) fun more after h => Yields.pure ?_
      refine (h.since p).later (.of_subset ?_ ?_) (.refl after)
      · exact List.subset_append_right _ _
      · exact List.subset_append_right _ _

/-- The ends of a part return or go on behind the next prompt. -/
theorem settle_passes (role : Role) (last : Bool) (entry : NodeId) (front : Front) (draft : Draft)
    {story : Story} :
    Yields Anything (fun draft' after => draft.escs ⊆ draft'.escs ∧
      Passes front.ends story ⟨[], draft'.escs⟩ after) (settle role last entry front draft) story := by
  have hfile (isEmpty : Bool) : Yields Anything (fun filed mid => story.Persists mid ∧
      filed.escs = draft.escs) (fileSegment role isEmpty entry draft) story := by
    unfold fileSegment
    split
    · refine Yields.bind (discard_retains entry) fun _ mid h => Yields.pure ⟨.of_retains h, rfl⟩
    · exact Yields.pure ⟨.refl story, file_escs role draft.path.name draft⟩
  refine Yields.bind (Q := fun found mid => story = found ∧ story = mid) ⟨rfl, rfl⟩ ?_
  rintro _ _ ⟨rfl, rfl⟩
  refine Yields.bind (hfile _) fun filed mid ⟨p, hescs⟩ => ?_
  dsimp only
  split
  · refine Yields.pure ⟨?_, .inr (.inl ?_), .inr (.inl ?_)⟩
    · rw [hescs, List.append_assoc]
      exact List.subset_append_left _ _
    · exact List.subset_append_right _ _
    · exact List.Subset.trans (List.subset_append_right _ _) (List.subset_append_left _ _)
  · refine Yields.bind (tie_passes .ret front.ends.rets) fun _ after ⟨p', hg⟩ => Yields.pure ?_
    have hsent : ∀ l ∈ front.ends.rets, story.Settled l → after.Gone .ret l := by
      obtain ⟨noted, r⟩ := p
      exact fun l hl hset => hg l hl (hset.retained r trivial)
    refine ⟨?_, .sent hsent (.refl after), .inr (.inl ?_)⟩
    · rw [hescs]
      exact List.subset_append_left _ _
    · exact List.subset_append_right _ _

theorem segment_escs (last : Bool) (draft : Draft) (part : Segment) {story : Story} :
    Yields Anything (fun draft' after => draft.escs ⊆ draft'.escs ∧ story.Persists after)
      (segment last draft part) story := by
  obtain ⟨pos, role, body⟩ := part
  refine Yields.bind (placeholder_persists _ _) fun entry s1 h1 => ?_
  refine Yields.bind (thread_persists body _) fun front s2 h2 => ?_
  refine (Yields.and (settle_passes role last entry front draft)
    (settle_persists role last entry front draft)).mono fun draft' after h => ?_
  exact ⟨h.1.1, (h1.trans h2).trans h.2⟩

/-- What has been set aside for the next prompt is not forgotten. -/
theorem segments_escs (parts : List Segment) (draft : Draft) {story : Story} :
    Yields Anything (fun draft' after => draft.escs ⊆ draft'.escs ∧ story.Persists after)
      (segments parts draft) story := by
  induction parts generalizing draft story with
  | nil => exact Yields.pure ⟨List.Subset.refl _, .refl story⟩
  | cons part rest ih =>
    rw [segments_cons]
    refine Yields.bind (segment_escs _ draft part) fun draft1 mid ⟨he, p⟩ => ?_
    exact (ih draft1).mono fun draft2 after ⟨he', p'⟩ => ⟨List.Subset.trans he he', p.trans p'⟩

theorem segments_within (hi : ComesTo i body) (parts : List Segment)
    (hb : body ∈ parts.map Segment.body) (draft : Draft) {story : Story} :
    Yields Anything (fun draft' after => CameTo i story ⟨[], draft'.escs⟩ after)
      (segments parts draft) story := by
  induction parts generalizing draft story with
  | nil => cases hb
  | cons part rest ih =>
    rw [segments_cons]
    rcases List.mem_cons.mp hb with rfl | hb
    · obtain ⟨pos, role, body⟩ := part
      refine Yields.bind (Q := fun draft1 mid => CameTo i story ⟨[], draft1.escs⟩ mid) ?_
        fun draft1 mid h => ?_
      · refine Yields.bind (placeholder_persists _ _) fun entry s1 h1 => ?_
        refine Yields.bind (hi (entering draft.path (nextEnd entry)) s1) fun front s2 h2 => ?_
        refine (Yields.and (settle_passes role _ entry front draft)
          (settle_persists role _ entry front draft)).mono fun draft1 after h3 => ?_
        exact (h2.since h1).later h3.1.2 h3.2
      · refine (segments_escs rest draft1).mono fun draft2 after ⟨he, p⟩ => ?_
        exact h.later (.of_subset (List.Subset.refl _) he) p
    · refine Yields.bind (segment_escs _ draft part) fun draft1 mid ⟨_, p⟩ => ?_
      exact (ih hb draft1).mono fun draft2 after h => h.since p

theorem conclude_escs (pos : Position) (draft : Draft) {story : Story} :
    Yields Anything (fun draft' after => draft.escs ⊆ draft'.escs ∧ story.Persists after)
      (conclude pos draft) story := by
  unfold conclude
  split
  · exact Yields.pure ⟨List.Subset.refl _, .refl story⟩
  · refine Yields.bind (create_persists _ _ _) fun id after p => Yields.pure ⟨?_, p⟩
    exact List.subset_append_left _ _

/-- What comes to an item inside one of the threads of another item comes to it. -/
theorem item_within {j : Item} (hi : ComesTo i body) (hb : body ∈ j.bodies) (front : Front)
    {story : Story} :
    Yields Anything (fun front' after => CameTo i story front'.ends after) (item j front) story := by
  cases j with
  | loop pos inner =>
    obtain rfl := List.mem_singleton.mp hb
    refine Yields.bind (placeholder_persists _ _) fun entry s1 h1 => ?_
    refine Yields.bind (tie_persists _ _) fun _ s2 h2 => ?_
    refine Yields.bind (hi (entering front.path (nextEnd entry)) s2) fun after s3 h3 => ?_
    refine Yields.bind (tie_passes _ _) fun _ s4 ⟨p, hg⟩ => Yields.pure ?_
    refine (h3.since (h1.trans h2)).later ⟨.sent hg (.refl s4), .inr (.inl ?_)⟩ p
    exact List.subset_append_right _ _
  | define pos name params seen inner =>
    obtain rfl := List.mem_singleton.mp hb
    refine Yields.bind (claim_persists name seen) fun label s1 h1 => ?_
    refine Yields.bind (create_persists _ _ _) fun id s2 h2 => ?_
    refine Yields.bind (hi (entering (Path.root label).next (nextEnd id)) s2) fun after s3 h3 => ?_
    refine Yields.bind (tie_passes _ _) fun _ s4 ⟨p4, hg4⟩ => ?_
    refine Yields.bind (tie_passes _ _) fun _ s5 ⟨p5, hg5⟩ => Yields.pure ?_
    have hescs : Passes ⟨[], after.ends.escs⟩ s4 front.ends s5 :=
      ⟨.inl (List.nil_subset _), .sent hg5 (.refl s5)⟩
    have hrets : Passes after.ends s3 ⟨[], after.ends.escs⟩ s4 :=
      ⟨.sent hg4 (.refl s4), .inr (.inl (List.Subset.refl _))⟩
    exact ((h3.since (h1.trans h2)).later hrets p4).later hescs p5
  | jump pos condition yes no =>
    refine Yields.bind (arrive_persists _ _ _) fun id s1 h1 => ?_
    have hbody : body = yes ∨ body = no := by simpa [Item.bodies] using hb
    rcases hbody with rfl | rfl
    · refine Yields.bind (hi (entering front.path.firstChild (nextEnd id)) s1) fun yes s2 h2 => ?_
      refine Yields.bind (thread_persists no _) fun no s3 h3 => Yields.pure ?_
      refine (h2.since h1).later (.of_subset ?_ ?_) h3
      · exact List.subset_append_left _ _
      · exact List.Subset.trans (List.subset_append_left _ _) (List.subset_append_right _ _)
    · refine Yields.bind (thread_persists yes _) fun yes s2 h2 => ?_
      refine Yields.bind (hi (entering yes.path ⟨id, .branch⟩) s2) fun no s3 h3 => Yields.pure ?_
      refine (h3.since (h1.trans h2)).later (.of_subset ?_ ?_) (.refl s3)
      · exact List.subset_append_right _ _
      · exact List.Subset.trans (List.subset_append_right _ _) (List.subset_append_right _ _)
  | switch pos selection found =>
    refine Yields.bind (arrive_persists _ _ _) fun id s1 h1 => ?_
    refine Yields.bind (cases_within hi id 0 found hb _) fun after s2 h2 => Yields.pure ?_
    refine (h2.since h1).later (.of_subset ?_ ?_) (.refl s2)
    · exact List.subset_append_left _ _
    · exact List.subset_append_right _ _
  | option pos leader terms parts =>
    refine Yields.bind (guards_laid pos _ front.path front.ends.rets) ?_
    rintro ⟨path, rets, skips⟩ s1 ⟨hr1, -⟩
    refine Yields.bind (arrive_retains _ _ pos) fun id s2 h2 => ?_
    obtain ⟨hr2, -, hid, -⟩ := h2
    refine Yields.bind (consequences_persists pos _ _) fun draft s3 h3 => ?_
    refine Yields.bind (segments_within hi parts hb draft) fun draft1 s4 h4 => ?_
    refine Yields.bind (conclude_escs pos draft1) fun draft2 s5 h5 => ?_
    refine Yields.bind (modifyBody_retains id _) fun _ s6 h6 => Yields.pure ?_
    -- Only the option itself changes, and it was there before its parts.
    have hspared : s2.Spared s5 s6 := by
      refine ⟨[], h6.1.mono fun other hn => ?_⟩
      rintro rfl
      exact hn hid.hasOption
    have hescs : Passes ⟨[], draft1.escs⟩ s4 ⟨[], draft2.escs⟩ s5 :=
      .of_subset (List.Subset.refl _) h5.1
    have hall := (h4.since h3).later hescs h5.2
    have hlast : Passes ⟨[], draft2.escs⟩ s5 ⟨skips ++ [nextEnd id], front.ends.escs ++ draft2.escs⟩
        s6 := .of_subset (List.nil_subset _) (List.subset_append_right _ _)
    exact (hall.onward hlast hspared).since (.of_retains (hr1.trans hr2))
  | _ => cases hb

/-- Linking a thread comes to every item in it. -/
theorem thread_within {items : List Item} (h : Item.Within i items) : ComesTo i items := by
  intro front story
  induction h generalizing front story with
  | @here rest =>
    refine Yields.bind (item_persists i front).run fun front1 mid ⟨_, hrun⟩ => ?_
    have hhere : CameTo i story front1.ends mid :=
      ⟨front, story, front1, mid, hrun, .refl story, .of_persists (.refl mid),
        fun ends hsub _ => .inl hsub⟩
    refine (Yields.and (thread_passes rest front1) (thread_persists rest front1)).mono
      fun front2 after ⟨h, p⟩ => ?_
    exact hhere.later h p
  | @later j rest _ ih =>
    refine Yields.bind (item_persists j front) fun front1 mid p => ?_
    exact (ih front1 mid).mono fun front2 after h => h.since p
  | @inside j rest body hb _ ih =>
    refine Yields.bind (item_within ih hb front) fun front1 mid h => ?_
    refine (Yields.and (thread_passes rest front1) (thread_persists rest front1)).mono
      fun front2 after ⟨h', p⟩ => ?_
    exact h.later h' p

end Bodies

section Compiled

theorem addSlot_distinct (hd : story.Distinct) (slot : Slot) {node : Node}
    (hn : slot.node? = some node) :
    Yields Anything (fun _ => Story.Distinct) (addSlot node.name slot) story :=
  (Yields.weaken (status_addSlot hd hn rfl) fun _ _ => trivial).mono fun _ _ hs => hs.2.2.1

/-- No operation of linking gives two nodes one name. -/
theorem kept_distinct : Kept Anything fun _ => Story.Distinct where
  perm _ h := h
  report _ _ h := h
  create path body pos _ h := addSlot_distinct h (.settled ⟨path.name, body, pos⟩) rfl
  placeholder path pos h := addSlot_distinct h (.placeholder ⟨path.name, .goto none, pos⟩) rfl
  tieEnd target loose h :=
    (Yields.weaken (status_tieEnd h target loose) fun _ _ => trivial).mono fun _ _ hs => hs.1
  discard id h := (Yields.weaken (status_discard h id) fun _ _ => trivial).mono fun _ _ hs => hs.1
  threads id _ _ h :=
    (Yields.weaken (status_modifyBody h id _) fun _ _ => trivial).mono fun _ _ hs => hs.1
  unfinished := trivial

theorem whole_distinct (start : String) (pos : Position) (items : Script) :
    Yields Anything (fun _ => Story.Distinct) (whole start pos items) (.empty start) := by
  refine Yields.bind (addSlot_distinct (distinct_empty start)
    (.placeholder ⟨(Path.root start).name, .goto none, pos⟩) rfl) fun entry s hs => ?_
  exact @Kept.thread _ _ kept_distinct [] items (entering (.root start) (nextEnd entry)) s hs

theorem close_distinct (hd : story.Distinct) (front : Front) :
    Yields Anything (fun _ => Story.Distinct) (close front) story := by
  refine Yields.bind (@Kept.tie _ _ story kept_distinct [] .ret front.ends.rets hd) fun _ s1 h1 => ?_
  exact Yields.bind (@Kept.tie _ _ s1 kept_distinct [] .esc front.ends.escs h1) fun _ s2 h2 => h2

theorem check_persists (story : Story) :
    Yields Anything (fun _ after => story.Persists after ∧ after.slots = story.slots) check story :=
  ⟨⟨story.missingLabels, Nat.le_refl _, fun _ node _ hs => ⟨node, hs, rfl, .refl node.body⟩,
    Array.toList_appendList⟩, rfl⟩

/-- At the end of a script whatever is still held is sent somewhere. -/
theorem close_passes (front : Front) {story : Story} :
    Yields Anything (fun _ after => Passes front.ends story ⟨[], []⟩ after ∧ story.Persists after)
      (close front) story := by
  refine Yields.bind (tie_passes .ret front.ends.rets) fun _ s1 ⟨p1, hg1⟩ => ?_
  refine Yields.bind (tie_passes .esc front.ends.escs) fun _ s2 ⟨p2, hg2⟩ => ?_
  refine (check_persists s2).mono fun _ after ⟨p3, _⟩ => ?_
  have hescs : ∀ l ∈ front.ends.escs, story.Settled l → s2.Gone .esc l := by
    obtain ⟨noted, r⟩ := p1
    exact fun l hl hset => hg2 l hl (hset.retained r trivial)
  exact ⟨⟨.sent hg1 (p2.trans p3), .sent hescs p3⟩, (p1.trans p2).trans p3⟩

end Compiled

end Build

open Build Story

/-- Each item of a script that was compiled was linked on the way, from some front and some story.
What it wrote lasts, and the ends it left for what comes next lead to one target. -/
theorem compile_within {start : String} {tokens : List Token} {story : Story} {i : Item}
    (hc : compile start tokens = .ok story) (hi : Item.Within i (Script.script tokens).value) :
    story.Distinct ∧ ∃ front before front' mid, item i front before = .ok front' mid ∧
      before.Spared mid story ∧
      ∀ ends, ends ⊆ front'.ends.rets → (∀ l ∈ ends, ¬ before.HasOption l.node) →
        ∃ target, ∀ l ∈ ends, mid.Settled l → story.Gone target l := by
  obtain ⟨last, linked, hrun, hclose⟩ := compile_eq_ok hc
  have hwhole : Yields Anything (fun front' after => CameTo i (.empty start) front'.ends after)
      (whole start (here tokens) (Script.script tokens).value) (.empty start) := by
    refine Yields.bind (placeholder_persists _ _) fun entry s hs => ?_
    exact (thread_within hi _ s).mono fun _ _ h => h.since hs
  obtain ⟨hpass, hp⟩ := (close_passes last).of_ok hclose
  have hdistinct := (whole_distinct start (here tokens) (Script.script tokens).value).of_ok hrun
  obtain ⟨front, before, front', mid, hitem, -, hspared, hpassed⟩ :=
    (hwhole.of_ok hrun).later hpass hp
  refine ⟨(close_distinct hdistinct last).of_ok hclose, front, before, front', mid, hitem, hspared,
    fun ends hsub hnot => ?_⟩
  have hnone {found : List LooseEnd} (hf : found ⊆ []) :
      ∃ target, ∀ l ∈ found, mid.Settled l → story.Gone target l :=
    ⟨.ret, fun l hl => absurd (hf hl) List.not_mem_nil⟩
  rcases hpassed ends hsub hnot with h | h | h
  · exact hnone h
  · exact hnone h
  · exact h

end Storyline
