import Storyline.Proofs.Targets.Known
import Storyline.Proofs.Targets.Written

namespace Storyline

/-- The threads filed so far. -/
def Draft.filed (draft : Draft) : List String := draft.question ++ draft.answer

/-- The name of the part before may be missing, unless something goes on from there. -/
def Draft.gap (draft : Draft) (name : String) : Prop :=
  draft.advancing = false ∧ name = draft.path.name

theorem mem_filed_file {role : Role} {name other : String} {draft : Draft}
    (h : other ∈ (draft.file role name).filed) : other = name ∨ other ∈ draft.filed := by
  cases role <;> simp only [Draft.file, Draft.filed, List.mem_append, List.mem_singleton] at h ⊢ <;>
    grind

namespace Build

open Story Script

/-- From a sound story the run comes to a sound story that has lost no name. -/
def Keeps {α : Type} (asked : String → Prop) (Q : α → Story → Prop) (m : Build α) (story : Story) :
    Prop :=
  story.Sound asked (fun _ => False) →
    Yields Anything (fun a after => after.Sound asked (fun _ => False) ∧ story.Lasts after ∧ Q a after)
      m story

variable {α β : Type} {asked : String → Prop} {story : Story}

namespace Keeps

theorem pure {Q : α → Story → Prop} {a : α} (h : Q a story) :
    Keeps asked Q (pure a : Build α) story := fun s => Yields.pure ⟨s, .refl story, h⟩

theorem bind {Q : α → Story → Prop} {R : β → Story → Prop} {m : Build α} {f : α → Build β}
    (hm : Keeps asked Q m story)
    (hf : ∀ a mid, story.Lasts mid → Q a mid → Keeps asked R (f a) mid) :
    Keeps asked R (m >>= f) story := by
  intro s
  refine Yields.bind (hm s) fun a mid ⟨hmid, hlasts, ha⟩ => ?_
  refine Yields.mono (hf a mid hlasts ha hmid) fun b after ⟨hafter, hlasts', hb⟩ => ?_
  exact ⟨hafter, hlasts.trans hlasts', hb⟩

theorem mono {Q R : α → Story → Prop} {m : Build α} (hm : Keeps asked Q m story)
    (h : ∀ a after, story.Lasts after → Q a after → R a after) : Keeps asked R m story :=
  fun s => Yields.mono (hm s) fun a after ⟨ha, hl, hq⟩ => ⟨ha, hl, h a after hl hq⟩

end Keeps

/-- The target exists or is asked for. -/
def KnownTarget (asked : String → Prop) (story : Story) (target : Target) : Prop :=
  ∀ name, target = .node name → story.contains name = true ∨ asked name

theorem KnownTarget.ret : KnownTarget asked story .ret := by
  intro name h
  cases h

theorem KnownTarget.esc : KnownTarget asked story .esc := by
  intro name h
  cases h

theorem KnownTarget.here {name : String} (h : story.contains name = true) :
    KnownTarget asked story (.node name) := by
  intro other he
  obtain rfl := Target.node.inj he
  exact .inl h

theorem KnownTarget.of_asked {name : String} (h : asked name) :
    KnownTarget asked story (.node name) := by
  intro other he
  obtain rfl := Target.node.inj he
  exact .inr h

theorem KnownTarget.lasts {target : Target} {after : Story} (h : KnownTarget asked story target)
    (hl : story.Lasts after) : KnownTarget asked after target :=
  fun name he => (h name he).imp_left (hl name)

theorem create_keeps (path : Path) {body : Body} (pos : Position) (ho : body.IsOpen)
    (ht : body.threads = []) (hc : ∀ label, body.callee? = some label → asked label) :
    Keeps asked (fun _ after => after.contains path.name = true) (create path body pos) story := by
  intro s
  refine Yields.mono (sound_addSlot rfl rfl ho ht hc s) fun id after ⟨ha, hl, hn⟩ => ?_
  exact ⟨ha.mono fun _ h => h.1, hl, hn⟩

theorem placeholder_keeps (path : Path) (pos : Position) :
    Keeps asked (fun _ after => after.contains path.name = true) (createPlaceholder path pos)
      story := by
  intro s
  refine Yields.mono (sound_addSlot rfl rfl isOpen_goto rfl (fun _ h => by cases h) s)
    fun id after ⟨ha, hl, hn⟩ => ?_
  exact ⟨ha.mono fun _ h => h.1, hl, hn⟩

theorem sound_tie {gap : String → Prop} {target : Target} (ends : List LooseEnd)
    (ht : KnownTarget asked story target) (s : story.Sound asked gap) :
    Yields Anything (fun _ after => after.Sound asked gap ∧ story.Lasts after) (tie target ends)
      story := by
  induction ends generalizing story with
  | nil => exact Yields.pure ⟨s, .refl story⟩
  | cons loose rest ih =>
    refine Yields.bind (sound_tieEnd loose ht s) fun _ mid ⟨hmid, hl⟩ => ?_
    exact Yields.mono (ih (ht.lasts hl) hmid) fun _ after ⟨ha, hl'⟩ => ⟨ha, hl.trans hl'⟩

theorem tie_keeps {target : Target} (ends : List LooseEnd) (ht : KnownTarget asked story target) :
    Keeps asked (fun _ _ => True) (tie target ends) story :=
  fun s => Yields.mono (sound_tie ends ht s) fun _ _ ⟨ha, hl⟩ => ⟨ha, hl, trivial⟩

theorem arrive_keeps (front : Front) {body : Body} (pos : Position) (ho : body.IsOpen)
    (ht : body.threads = []) (hc : ∀ label, body.callee? = some label → asked label) :
    Keeps asked (fun _ after => after.contains front.path.name = true) (arrive front body pos)
      story := by
  refine (create_keeps front.path pos ho ht hc).bind fun id mid _ hn => ?_
  refine (tie_keeps front.ends.rets (.here hn)).bind fun _ after hl _ => ?_
  exact .pure (hl _ hn)

theorem append_keeps (front : Front) (c : Content) (pos : Position) :
    Keeps asked (fun _ _ => True) (append front (.content c none) pos) story :=
  (arrive_keeps front pos (isOpen_content c) rfl (fun _ h => by cases h)).bind fun _ _ _ _ =>
    .pure trivial

theorem divert_keeps (front : Front) {target : Target} (ht : KnownTarget asked story target) :
    Keeps asked (fun _ _ => True) (divert front target) story :=
  (tie_keeps front.ends.rets ht).bind fun _ _ _ _ => .pure trivial

theorem prompt_keeps (front : Front) (pos : Position) :
    Keeps asked (fun _ _ => True) (prompt front pos) story :=
  (arrive_keeps front pos isOpen_ask rfl (fun _ h => by cases h)).bind fun _ _ _ _ => .pure trivial

theorem call_keeps (front : Front) {label : String} (args : List Expr) (pos : Position)
    (hc : asked label) : Keeps asked (fun _ _ => True) (call front label args pos) story := by
  refine (arrive_keeps front pos (isOpen_call label args) rfl ?_).bind fun _ _ _ _ => .pure trivial
  intro other h
  exact Option.some.inj h ▸ hc

theorem report_keeps (pos : Position) {mistake : Mistake} (hm : ∀ name, mistake ≠ .noLabel name) :
    Keeps asked (fun _ _ => True) (report pos mistake) story := by
  intro s
  refine yields_report ⟨⟨s.known, fun d hd => ?_⟩, fun _ hc => hc, trivial⟩
  rcases Array.mem_push.mp hd with hd | rfl
  · exact s.reports d hd
  · exact hm

theorem story_keeps : Keeps asked (fun _ _ => True) Build.story story :=
  fun s => show Yields _ _ _ _ from ⟨s, .refl story, trivial⟩

theorem claim_keeps (name : String) (seen : Position) :
    Keeps asked (fun _ _ => True) (claim name seen) story := by
  refine story_keeps.bind fun _ mid _ _ => ?_
  split
  · exact (report_keeps seen (by simp)).bind fun _ _ _ _ => .pure trivial
  split
  · exact (report_keeps seen (by simp)).bind fun _ _ _ _ => .pure trivial
  · exact .pure trivial

theorem enterLabel_keeps (front : Front) (name : String) (seen pos : Position) :
    Keeps asked (fun _ _ => True) (enterLabel front name seen pos) story := by
  refine (claim_keeps name seen).bind fun label mid _ _ => ?_
  refine (placeholder_keeps (.root label) pos).bind fun entry mid _ hn => ?_
  exact (tie_keeps front.ends.rets (.here hn)).bind fun _ _ _ _ => .pure trivial

theorem guards_keeps (pos : Position) (gs : List Expr) (path : Path) (rets : List LooseEnd) :
    Keeps asked (fun _ _ => True) (guards pos gs path rets) story := by
  induction gs generalizing path rets story with
  | nil => exact .pure trivial
  | cons guard rest ih =>
    refine (arrive_keeps _ pos (isOpen_jump _) rfl (fun _ h => by cases h)).bind fun id mid _ _ => ?_
    exact (ih path.next [nextEnd id]).bind fun _ _ _ _ => .pure trivial

/-- A chain with something in it begins with a node at its path. -/
theorem chain_keeps (pos : Position) (assignments : List Assignment) (path : Path)
    (rets : List LooseEnd) :
    Keeps asked (fun _ after => assignments ≠ [] → after.contains path.name = true)
      (chain pos assignments path rets) story := by
  induction assignments generalizing path rets story with
  | nil => exact .pure fun h => absurd rfl h
  | cons assignment rest ih =>
    refine (arrive_keeps _ pos (isOpen_content _) rfl (fun _ h => by cases h)).bind
      fun id mid _ hn => ?_
    exact (ih path.next [nextEnd id]).mono fun _ after hl _ _ => hl _ hn

theorem consequences_keeps (pos : Position) (assignments : List Assignment) (draft : Draft)
    (ha : draft.advancing = false) (hf : ∀ name ∈ draft.filed, story.contains name = true) :
    Keeps asked (fun after s => after.advancing = false ∧
      ∀ name ∈ after.filed, s.contains name = true) (consequences pos assignments draft) story := by
  unfold consequences
  split
  · exact .pure ⟨ha, hf⟩
  · next hne =>
    have hne : assignments ≠ [] := by simpa using hne
    refine (chain_keeps pos assignments draft.path []).bind fun ends mid hl hn => ?_
    refine (tie_keeps ends.2 .ret).bind fun _ after hl' _ => .pure ⟨ha, fun name hm => ?_⟩
    have hm : name ∈ (draft.file .answer draft.path.name).filed := hm
    rcases mem_filed_file hm with rfl | hm
    · exact hl' _ (hn hne)
    · exact hl' _ (hl name (hf name hm))

/-- The story is sound and what is filed exists, but for names in the gap. -/
structure Drafted (asked gap : String → Prop) (draft : Draft) (story : Story) : Prop where
  sound : story.Sound asked gap
  filed : ∀ name ∈ draft.filed, story.contains name = true ∨ gap name

/-- Nothing is lost on the way from one story to another but what stands in the gap. -/
def LastsBut (gap : String → Prop) (story after : Story) : Prop :=
  ∀ name, story.contains name = true → after.contains name = true ∨ gap name

theorem fileSegment_drafted (role : Role) (isEmpty : Bool) (entry : NodeId) (draft : Draft)
    (hn : Named entry draft.path.name story) (hc : story.contains draft.path.name = true)
    (d : Drafted asked (fun _ => False) draft story) :
    Yields Anything (fun filed after =>
      Drafted asked (fun name => isEmpty = true ∧ name = draft.path.name) filed after ∧
      LastsBut (fun name => isEmpty = true ∧ name = draft.path.name) story after)
      (fileSegment role isEmpty entry draft) story := by
  have hfiled (name : String) (hm : name ∈ draft.filed) : story.contains name = true :=
    (d.filed name hm).resolve_right fun h => h
  unfold fileSegment
  cases isEmpty with
  | true =>
    refine Yields.bind (sound_discard entry hn.2 d.sound) fun _ after ⟨ha, hl⟩ => Yields.pure ?_
    have hl (name : String) (h : story.contains name = true) :
        after.contains name = true ∨ (true = true ∧ name = draft.path.name) :=
      (hl name h).imp_right fun he => ⟨rfl, he⟩
    exact ⟨⟨ha.mono fun _ he => ⟨rfl, he⟩, fun name hm => hl name (hfiled name hm)⟩, hl⟩
  | false =>
    refine Yields.pure ⟨⟨d.sound.mono fun _ h => h.elim, fun name hm => .inl ?_⟩, fun _ h => .inl h⟩
    rcases mem_filed_file hm with rfl | hm
    · exact hc
    · exact hfiled name hm

/-- A part that left nothing leaves a gap at its path, where its front still stands. -/
theorem settle_drafted (role : Role) (last : Bool) (entry : NodeId) (front : Front) (draft : Draft)
    (hn : Named entry draft.path.name story) (hc : story.contains draft.path.name = true)
    (d : Drafted asked (fun _ => False) draft story) :
    Yields Anything (fun after s => Drafted asked after.gap after s ∧ LastsBut after.gap story s)
      (settle role last entry front draft) story := by
  refine Yields.bind (Q := fun a after => story = a ∧ story = after) ⟨rfl, rfl⟩ ?_
  rintro _ _ ⟨rfl, rfl⟩
  dsimp only
  generalize hempty : (decide (front.path = draft.path) && story.isPlaceholder entry) = isEmpty
  have hpath : isEmpty = true → front.path = draft.path := by
    intro h
    rw [h] at hempty
    simpa using (Bool.and_eq_true_iff.mp hempty).1
  refine Yields.bind (fileSegment_drafted role isEmpty entry draft hn hc d) fun filed mid h => ?_
  obtain ⟨hd, hl⟩ := h
  have gap_of (after : Draft) (hp : after.path = front.path)
      (ha : after.advancing = (last && role == .answer && !isEmpty)) (name : String)
      (h : isEmpty = true ∧ name = draft.path.name) : after.gap name := by
    obtain ⟨he, rfl⟩ := h
    refine ⟨by simp [ha, he], ?_⟩
    rw [hp, hpath he]
  split
  · refine Yields.pure ⟨⟨hd.sound.mono (gap_of _ rfl rfl), fun name hm => ?_⟩, fun name h => ?_⟩
    · exact (hd.filed name hm).imp_right (gap_of _ rfl rfl name)
    · exact (hl name h).imp_right (gap_of _ rfl rfl name)
  · refine Yields.bind (sound_tie front.ends.rets .ret hd.sound) fun _ after ⟨ha, hl'⟩ => ?_
    refine Yields.pure ⟨⟨ha.mono (gap_of _ rfl rfl), fun name hm => ?_⟩, fun name h => ?_⟩
    · exact (hd.filed name hm).imp (hl' name) (gap_of _ rfl rfl name)
    · exact (hl name h).imp (hl' name) (gap_of _ rfl rfl name)

/-- The step that an answer is given where nothing goes on fills the gap. -/
theorem conclude_drafted (pos : Position) (draft : Draft) (d : Drafted asked draft.gap draft story) :
    Yields Anything (fun after s => Drafted asked (fun _ => False) after s ∧
      story.Lasts s ∧ ∀ name, draft.gap name → s.contains name = true)
      (conclude pos draft) story := by
  unfold conclude
  split
  · next ha =>
    have hgap (name : String) : ¬ draft.gap name := by
      rintro ⟨h, -⟩
      rw [ha] at h
      cases h
    have hd : Drafted asked (fun _ => False) draft story :=
      ⟨d.sound.mono hgap, fun name hm => (d.filed name hm).imp_right (hgap name)⟩
    exact Yields.pure ⟨hd, .refl story, fun name h => absurd h (hgap name)⟩
  · have hcreate : Yields Anything (fun _ after =>
        after.Sound asked (fun other => draft.gap other ∧ other ≠ draft.path.name) ∧
        story.Lasts after ∧ after.contains draft.path.name = true)
        (create draft.path (.goto none) pos) story :=
      sound_addSlot rfl rfl isOpen_goto rfl (fun _ h => by cases h) d.sound
    refine Yields.bind hcreate fun id after ⟨ha, hl, hn⟩ => ?_
    have hgap (name : String) (h : draft.gap name) : after.contains name = true := h.2 ▸ hn
    refine Yields.pure ⟨⟨ha.mono fun name h => h.2 h.1.2, fun name hm => .inl ?_⟩, hl, hgap⟩
    have hm : name ∈ (draft.file .answer draft.path.name).filed := hm
    rcases mem_filed_file hm with rfl | hm
    · exact hn
    · exact (d.filed name hm).elim (hl name) (hgap name)

theorem ne_noLabel_of_isRead {mistake : Mistake} (h : mistake.IsRead) (name : String) :
    mistake ≠ .noLabel name := by
  rintro rfl
  exact h

section Rules

variable {tokens : List Token}

mutual

theorem item_keeps (i : Item) (front : Front) {story : Story} (h : i.Each (IsWritten tokens)) :
    Keeps (Written tokens) (fun _ _ => True) (item i front) story := by
  cases i with
  | report d => exact (report_keeps d.pos (ne_noLabel_of_isRead h)).bind fun _ _ _ _ => .pure trivial
  | cut => exact fun _ => trivial
  | passed left => exact .pure trivial
  | content pos c => exact append_keeps front c pos
  | ask pos => exact prompt_keeps front pos
  | leave => exact divert_keeps front .ret
  | goto label => exact divert_keeps front (.of_asked h)
  | call pos label args => exact call_keeps front args pos h
  | label pos name seen => exact enterLabel_keeps front name seen pos
  | loop pos body =>
    refine (placeholder_keeps front.path pos).bind fun entry mid _ hn => ?_
    refine (tie_keeps front.ends.rets (.here hn)).bind fun _ mid hl _ => ?_
    refine (thread_keeps body _ h.2).bind fun after mid hl' _ => ?_
    exact (tie_keeps after.ends.rets (.here (hl' _ (hl _ hn)))).bind fun _ _ _ _ => .pure trivial
  | define pos name params seen body =>
    refine (claim_keeps name seen).bind fun label mid _ _ => ?_
    refine (create_keeps _ pos (isOpen_define params) rfl (fun _ h => by cases h)).bind
      fun id mid _ _ => ?_
    refine (thread_keeps body _ h.2).bind fun after mid _ _ => ?_
    refine (tie_keeps after.ends.rets .ret).bind fun _ mid _ _ => ?_
    exact (tie_keeps after.ends.escs .esc).bind fun _ _ _ _ => .pure trivial
  | jump pos condition yes no =>
    refine (arrive_keeps front pos (isOpen_jump _) rfl (fun _ h => by cases h)).bind
      fun id mid _ _ => ?_
    refine (thread_keeps yes _ h.2.1).bind fun yes mid _ _ => ?_
    exact (thread_keeps no _ h.2.2).bind fun no mid _ _ => .pure trivial
  | switch pos selection found =>
    have hopen := isOpen_switch front.path found selection
    refine (arrive_keeps front pos hopen rfl (fun _ h => by cases h)).bind fun id mid _ _ => ?_
    exact (cases_keeps id 0 found _ h.2).bind fun after mid _ _ => .pure trivial
  | option pos leader terms parts =>
    let terms := terms.ledBy leader front.path
    refine (guards_keeps pos terms.guards front.path front.ends.rets).bind fun found mid _ _ => ?_
    obtain ⟨path, rets, skips⟩ := found
    refine (arrive_keeps ⟨path, rets, []⟩ pos (isOpen_option _) rfl (fun _ h => by cases h)).bind
      fun id mid _ _ => ?_
    refine (consequences_keeps pos terms.consequences ⟨path.firstChild, [], [], [], false⟩ rfl
      (fun _ hm => by cases hm)).bind fun draft mid _ hdraft => ?_
    intro s
    have hd : Drafted (Written tokens) draft.gap draft mid :=
      ⟨s.mono fun _ hf => hf.elim, fun name hm => .inl (hdraft.2 name hm)⟩
    refine Yields.bind (segments_drafted parts draft h.2 hd) fun draft after ⟨hd, hl⟩ => ?_
    refine Yields.bind (conclude_drafted pos draft hd) fun draft after' ⟨hd, hl', hgap⟩ => ?_
    have hfiled (name : String) (hm : name ∈ draft.filed) : after'.contains name = true :=
      (hd.filed name hm).resolve_right fun hf => hf
    refine Yields.bind (sound_threads id hfiled hd.sound) fun _ last ⟨hlast, hl''⟩ => ?_
    refine Yields.pure ⟨hlast, fun name hc => hl'' name ?_, trivial⟩
    exact (hl name (.inl hc)).elim (hl' name) (hgap name)

theorem thread_keeps (items : List Item) (front : Front) {story : Story}
    (h : Each (IsWritten tokens) items) :
    Keeps (Written tokens) (fun _ _ => True) (thread items front) story := by
  cases items with
  | nil => exact .pure trivial
  | cons i rest => exact (item_keeps i front h.1).bind fun after _ _ _ => thread_keeps rest after h.2

theorem cases_keeps (id : NodeId) (index : Nat) (found : List Case) (path : Path) {story : Story}
    (h : EachCase (IsWritten tokens) found) :
    Keeps (Written tokens) (fun _ _ => True) (cases id index found path) story := by
  cases found with
  | nil => exact .pure trivial
  | cons c rest =>
    obtain ⟨weight, body⟩ := c
    refine (thread_keeps body _ h.1).bind fun front mid _ _ => ?_
    exact (cases_keeps id (index + 1) rest front.path h.2).bind fun _ _ _ _ => .pure trivial

/-- The placeholder of each part fills the gap that the part before it left. -/
theorem segments_drafted (parts : List Segment) (draft : Draft) {story : Story}
    (h : EachPart (IsWritten tokens) parts) (d : Drafted (Written tokens) draft.gap draft story) :
    Yields Anything (fun after s => Drafted (Written tokens) after.gap after s ∧ ∀ name,
      story.contains name = true ∨ draft.gap name → s.contains name = true ∨ after.gap name)
      (segments parts draft) story := by
  cases parts with
  | nil => exact Yields.pure ⟨d, fun _ h => h⟩
  | cons part rest =>
    obtain ⟨pos, role, body⟩ := part
    have hentry : Yields Anything (fun entry after =>
        after.Sound (Written tokens) (fun other => draft.gap other ∧ other ≠ draft.path.name) ∧
        story.Lasts after ∧ after.contains draft.path.name = true)
        (createPlaceholder draft.path pos) story :=
      sound_addSlot rfl rfl isOpen_goto rfl (fun _ h => by cases h) d.sound
    refine Yields.bind (hentry.and (named_placeholder draft.path pos)) fun entry mid hmid => ?_
    obtain ⟨⟨hs, hl, hn⟩, hnamed⟩ := hmid
    have hs := hs.mono fun name hg => hg.2 hg.1.2
    have hkept := @Kept.thread Anything _ (kept_named entry draft.path.name) [] body
      (entering draft.path (nextEnd entry)) mid hnamed
    refine Yields.bind ((thread_keeps body _ h.1 hs).and hkept) fun front mid' hmid' => ?_
    obtain ⟨⟨hs', hl', -⟩, hnamed'⟩ := hmid'
    have hfiled (name : String) (hm : name ∈ draft.filed) : mid'.contains name = true := by
      rcases d.filed name hm with hc | hg
      · exact hl' name (hl name hc)
      · exact hg.2 ▸ hl' _ hn
    have hd : Drafted (Written tokens) (fun _ => False) draft mid' :=
      ⟨hs', fun name hm => .inl (hfiled name hm)⟩
    refine Yields.bind (settle_drafted role rest.isEmpty entry front draft hnamed' (hl' _ hn) hd)
      fun draft' after ⟨hd', hbut⟩ => ?_
    refine Yields.mono (segments_drafted rest draft' h.2 hd') fun draft'' last ⟨hlast, hbut'⟩ => ?_
    refine ⟨hlast, fun name hc => hbut' name (hbut name ?_)⟩
    rcases hc with hc | hg
    · exact hl' name (hl name hc)
    · exact hg.2 ▸ hl' _ hn

end

end Rules

end Build

end Storyline
