import Storyline.Proofs.Ends.Ledger
import Storyline.Proofs.Names.Steps
import Storyline.Proofs.Options.Laying

namespace Storyline

/-- Paths of one label differ in their names. -/
theorem Path.eq_of_name {p q : Path} (hl : p.label = q.label) (h : p.name = q.name) : p = q := by
  have hs := congrArg (fun s => Text.split '.' s.toList) h
  simp only [split_name, hl, List.append_cancel_left_eq] at hs
  refine indices_injective hl ?_
  split at hs <;> split at hs
  · next h1 h2 => rw [h1, h2]
  · exact absurd (List.map_eq_nil_iff.mp hs.symm) q.indices_ne_nil
  · exact absurd (List.map_eq_nil_iff.mp hs) p.indices_ne_nil
  · exact (List.map_inj_right fun _ _ => digits_injective).mp hs

namespace Story

/-- Nothing stands at the path or behind it. -/
structure Clear (path : Path) (story : Story) : Prop where
  distinct : story.Distinct
  free : ∀ p, path.Covers p → story.status p.name = .free

/-- Nothing stands behind the path, and at most a placeholder at it. -/
structure Room (path : Path) (story : Story) : Prop where
  distinct : story.Distinct
  here : story.status path.name ≠ .settled
  ahead : ∀ p, path.Covers p → p ≠ path → story.status p.name = .free

/-- Names that were free stay free, except for those at the path and behind it. -/
def Spares (path : Path) (story after : Story) : Prop :=
  ∀ name, story.status name = .free → (∀ p, path.Covers p → p.name ≠ name) →
    after.status name = .free

/-- A node was written at the path and nothing behind it. -/
structure Past (path : Path) (story after : Story) : Prop where
  distinct : after.Distinct
  ahead : ∀ p, path.Covers p → p ≠ path → after.status p.name = .free
  spares : story.Spares path after

variable {story mid after : Story} {path next : Path}

theorem Clear.room (h : story.Clear path) : story.Room path := by
  refine ⟨h.distinct, ?_, fun p hp _ => h.free p hp⟩
  rw [h.free path path.covers_self]
  simp

theorem Clear.covered (h : story.Clear path) (hc : path.Covers next) : story.Clear next :=
  ⟨h.distinct, fun p hp => h.free p (hc.trans hp)⟩

theorem Past.clear (h : story.Past path after) (hc : path.Covers next) (hn : next ≠ path) :
    after.Clear next := by
  refine ⟨h.distinct, fun p hp => h.ahead p (hc.trans hp) ?_⟩
  rintro rfl
  exact hn (hp.antisymm hc)

/-- As long as free names stay free there is as much room as before. -/
theorem Clear.kept (h : story.Clear path) (hd : after.Distinct)
    (hf : ∀ name, story.status name = .free → after.status name = .free) : after.Clear path :=
  ⟨hd, fun p hp => hf p.name (h.free p hp)⟩

theorem Spares.refl (path : Path) (story : Story) : story.Spares path story := fun _ h _ => h

theorem Spares.trans (h : story.Spares path mid) (h' : mid.Spares next after)
    (hc : path.Covers next) : story.Spares path after :=
  fun name hn hp => h' name (h name hn hp) fun p hq => hp p (hc.trans hq)

theorem Spares.kept (h : story.Spares path mid)
    (hf : ∀ name, mid.status name = .free → after.status name = .free) :
    story.Spares path after :=
  fun name hn hp => hf name (h name hn hp)

/-- Room at one path is spared by what is written at another. -/
theorem Clear.spared (h : story.Clear next) (s : story.Spares path after) (hd : after.Distinct)
    (hl : path.label = next.label) (hc : ∀ p, next.Covers p → ¬ path.Covers p) :
    after.Clear next := by
  refine ⟨hd, fun p hp => s p.name (h.free p hp) fun q hq he => hc p hp ?_⟩
  obtain rfl := Path.eq_of_name (hq.1.trans (hl.trans hp.1.symm)) he
  exact hq

end Story

namespace Build

open Story Script

/-- The run fails on nothing but a link. -/
def Unlinked (e : BuildError) : Prop := ¬ IsNoLinkError e

/-- A run that can fail only on a link, and only on something else, does not fail. -/
theorem Yields.total {α : Type} {m : Build α} {story : Story} {Q R : α → Story → Prop}
    (hl : Yields Unlinked Q m story) (hn : Yields IsNoLinkError R m story) :
    ∃ a after, m story = .ok a after ∧ Q a after ∧ R a after := by
  cases hm : m story with
  | ok a after => exact ⟨a, after, rfl, hl.of_ok hm, hn.of_ok hm⟩
  | error e after => exact absurd (hn.of_error hm) (hl.of_error hm)

variable {story : Story} {path : Path} {front : Front} {draft : Draft}

theorem tie_room (hd : story.Distinct) (target : Target) (ends : List LooseEnd) :
    Yields Unlinked (fun _ after => after.Distinct ∧
      ∀ name, story.status name = .free → after.status name = .free) (tie target ends) story := by
  refine Yields.mono (status_tie hd target ends) fun _ after ⟨hd', _, h⟩ => ⟨hd', fun name hn => ?_⟩
  rw [h, hn]
  rfl

theorem addSlot_room (h : story.Room path) (slot : Slot) {node : Node} (hn : slot.node? = some node)
    (hname : node.name = path.name) :
    Yields Unlinked (fun id after => story.Past path after ∧
      after.status path.name = slotStatus id slot) (addSlot path.name slot) story := by
  have hadd := Yields.weaken (F := Unlinked) (status_addSlot h.distinct hn hname)
    fun e he => absurd he.2 h.here
  refine Yields.mono hadd fun id after ⟨_, hid, hd, _, hs⟩ => ?_
  refine ⟨⟨hd, fun p hp hne => ?_, fun name hfree hp => ?_⟩, ?_⟩
  · rw [hs, if_neg fun he => hne (Path.eq_of_name hp.1 he)]
    exact h.ahead p hp hne
  · rw [hs, if_neg fun he => hp path path.covers_self he.symm]
    exact hfree
  · rw [hs, if_pos rfl, hid]

theorem arrive_room (front : Front) (h : story.Room front.path) (body : Body) (pos : Position) :
    Yields Unlinked (fun _ => story.Past front.path) (arrive front body pos) story := by
  refine Yields.bind (addSlot_room h (.settled ⟨front.path.name, body, pos⟩) rfl rfl)
    fun id mid ⟨hp, _⟩ => ?_
  refine Yields.bind (tie_room hp.distinct _ _) fun _ after ⟨hd, hf⟩ => Yields.pure ?_
  exact ⟨hd, fun p hc hne => hf p.name (hp.ahead p hc hne), hp.spares.kept hf⟩

/-- What a rule that began at the path and left off at another did to the names. -/
structure Roomy (path : Path) (story : Story) (path' : Path) (after : Story) : Prop where
  clear : after.Clear path'
  spares : story.Spares path after
  covers : path.Covers path'

theorem Roomy.of_past {after : Story} (h : story.Past path after) :
    Roomy path story path.next after :=
  ⟨h.clear path.covers_next path.next_ne, h.spares, path.covers_next⟩

/-- What was written below a path leaves room for what stands next to it. -/
theorem Roomy.around {mid after : Story} (h : story.Past path mid)
    (s : mid.Spares path.firstChild after) (hd : after.Distinct) :
    Roomy path story path.next after := by
  have hnext := h.clear path.covers_next path.next_ne
  exact ⟨hnext.spared s hd rfl fun p => Path.not_covers_child_of_next,
    h.spares.trans s (path.covers_child 1), path.covers_next⟩

theorem Roomy.trans {mid after : Story} {path' path'' : Path} (h : Roomy path story path' mid)
    (h' : Roomy path' mid path'' after) : Roomy path story path'' after :=
  ⟨h'.clear, h.spares.trans h'.spares h.covers, h.covers.trans h'.covers⟩

theorem Roomy.refl (h : story.Clear path) : Roomy path story path story :=
  ⟨h, .refl path story, path.covers_self⟩

theorem Roomy.kept {mid after : Story} {path' : Path} (h : Roomy path story path' mid)
    (hd : after.Distinct) (hf : ∀ name, mid.status name = .free → after.status name = .free) :
    Roomy path story path' after :=
  ⟨h.clear.kept hd hf, h.spares.kept hf, h.covers⟩

/-- Plain items need room; if they have contents there is nothing where they leave off, and if not
they leave the names as they are. -/
theorem thread_room (items : List Item) (hp : ∀ i ∈ items, i.IsPlain) (front : Front)
    {story : Story} (h : story.Room front.path) :
    Yields Unlinked (fun front' after =>
      (contents items = [] → after.Distinct ∧ ∀ name, after.status name = story.status name) ∧
      (contents items ≠ [] → Roomy front.path story front'.path after))
      (thread items front) story := by
  induction items generalizing front story with
  | nil => exact Yields.pure ⟨fun _ => ⟨h.distinct, fun _ => rfl⟩, fun hne => absurd rfl hne⟩
  | cons i rest ih =>
    have hrest : ∀ j ∈ rest, j.IsPlain := fun j hj => hp j (List.mem_cons_of_mem i hj)
    cases i with
    | report d =>
      have hitem : Yields Unlinked (fun front' mid => front' = front ∧ mid.Distinct ∧
          ∀ name, mid.status name = story.status name) (item (.report d) front) story :=
        ⟨rfl, h.distinct, fun _ => rfl⟩
      refine Yields.bind hitem fun front' mid ⟨hf, hd, hs⟩ => ?_
      subst hf
      have hroom : mid.Room front'.path :=
        ⟨hd, by rw [hs]; exact h.here, fun p hc hne => by rw [hs]; exact h.ahead p hc hne⟩
      refine (ih hrest front' hroom).mono fun front'' after ⟨hblank, hfull⟩ =>
        ⟨fun hb => ?_, fun hne => ?_⟩
      · obtain ⟨hd', hs'⟩ := hblank hb
        exact ⟨hd', fun name => (hs' name).trans (hs name)⟩
      · have hr := hfull hne
        refine ⟨hr.clear, fun name hn hc => hr.spares name ?_ hc, hr.covers⟩
        rw [hs, hn]
    | content pos c =>
      have hitem : Yields Unlinked (fun front' mid => front'.path = front.path.next ∧
          story.Past front.path mid) (item (.content pos c) front) story :=
        Yields.bind (arrive_room front h (.content c none) pos) fun _ _ hpast =>
          Yields.pure ⟨rfl, hpast⟩
      refine Yields.bind hitem fun front' mid ⟨hpath, hpast⟩ => ?_
      have hr := Roomy.of_past hpast
      rw [← hpath] at hr
      refine (Yields.and (ih hrest front' hr.clear.room) (thread_plain rest hrest front')).mono
        fun front'' after ⟨⟨hblank, hfull⟩, hstr⟩ =>
          ⟨fun hb => (List.cons_ne_nil _ _ hb).elim, fun _ => ?_⟩
      by_cases hc : contents rest = []
      · obtain ⟨hd, hs⟩ := hblank hc
        have hsame : front''.path = front'.path := by rw [hstr.path, hc]; rfl
        rw [hsame]
        exact hr.kept hd fun name hn => by rw [hs, hn]
      · exact hr.trans (hfull hc)
    | _ => exact (hp _ List.mem_cons_self).elim

/-- Filing a part frees its placeholder if it wrote nothing, and no name is taken. -/
theorem settle_room (role : Role) (last : Bool) (entry : NodeId) (front : Front) (draft : Draft)
    (hd : story.Distinct) :
    Yields Unlinked (fun draft' after => draft'.path = front.path ∧ after.Distinct ∧
      (∀ name, story.status name = .free → after.status name = .free) ∧
      (front.path = draft.path → story.status draft.path.name = .waiting entry →
        after.status draft.path.name = .free))
      (settle role last entry front draft) story := by
  have hfile (isEmpty : Bool) : Yields Unlinked (fun _ mid => mid.Distinct ∧
      (∀ name, story.status name = .free → mid.status name = .free) ∧
      (isEmpty = true → story.status draft.path.name = .waiting entry →
        mid.status draft.path.name = .free)) (fileSegment role isEmpty entry draft) story := by
    cases isEmpty with
    | false => exact Yields.pure ⟨hd, fun _ hn => hn, fun h => by cases h⟩
    | true =>
      refine Yields.bind (status_discard hd entry) fun _ mid ⟨hd', _, hs⟩ => Yields.pure ?_
      refine ⟨hd', fun name hn => ?_, fun _ hw => ?_⟩
      · rw [hs, hn, if_neg (by simp)]
      · rw [hs, if_pos hw]
  refine Yields.bind (Q := fun found mid => story = found ∧ story = mid) ⟨rfl, rfl⟩ ?_
  rintro _ _ ⟨rfl, rfl⟩
  refine Yields.bind (hfile _) fun filed mid ⟨hd', hf, hw⟩ => ?_
  have hwaited : front.path = draft.path → story.status draft.path.name = .waiting entry →
      mid.status draft.path.name = .free := by
    intro hpath hs
    refine hw ?_ hs
    rw [isPlaceholder_of_waiting hs, decide_eq_true hpath, Bool.and_self]
  dsimp only
  split
  · exact Yields.pure ⟨rfl, hd', hf, hwaited⟩
  · refine Yields.bind (tie_room hd' .ret front.ends.rets) fun _ after ⟨hd'', hf'⟩ => Yields.pure ?_
    exact ⟨rfl, hd'', fun name hn => hf' name (hf name hn), fun hp hs => hf' _ (hwaited hp hs)⟩

theorem segment_room {part : Segment} (hp : part.IsPlain) (last : Bool) (draft : Draft)
    {story : Story} (h : story.Clear draft.path) :
    Yields Unlinked (fun draft' after => Roomy draft.path story draft'.path after)
      (segment last draft part) story := by
  obtain ⟨pos, role, body⟩ := part
  have hslot := addSlot_room h.room (.placeholder ⟨draft.path.name, .goto none, pos⟩) rfl rfl
  refine Yields.bind hslot fun entry s1 hentry => ?_
  obtain ⟨hpast, hwait⟩ := hentry
  have hroom : s1.Room draft.path := by
    refine ⟨hpast.distinct, ?_, hpast.ahead⟩
    rw [hwait]
    simp [slotStatus]
  refine Yields.bind (Yields.and (thread_room body hp (entering draft.path (nextEnd entry)) hroom)
    (thread_plain body hp _)) fun front s2 hbody => ?_
  obtain ⟨⟨hblank, hfull⟩, hstr⟩ := hbody
  have hdistinct : s2.Distinct := by
    by_cases hc : contents body = []
    · exact (hblank hc).1
    · exact (hfull hc).clear.distinct
  refine (settle_room role last entry front draft hdistinct).mono fun draft' after hsettled => ?_
  obtain ⟨hpath, hd, hf, hgone⟩ := hsettled
  by_cases hc : contents body = []
  · obtain ⟨-, hs⟩ := hblank hc
    have hsame : front.path = draft.path := by rw [hstr.path, hc]; rfl
    have hkept : ∀ name, s1.status name = .free → after.status name = .free :=
      fun name hn => hf name (by rw [hs, hn])
    have hfree := hgone hsame (by rw [hs, hwait]; rfl)
    rw [hpath, hsame]
    refine ⟨⟨hd, fun p hcov => ?_⟩, hpast.spares.kept hkept, draft.path.covers_self⟩
    by_cases hne : p = draft.path
    · rw [hne]
      exact hfree
    · exact hkept p.name (hpast.ahead p hcov hne)
  · have hr := (hfull hc).kept hd hf
    rw [hpath]
    exact ⟨hr.clear, hpast.spares.trans hr.spares draft.path.covers_self, hr.covers⟩

theorem segments_room (parts : List Segment) (hp : ∀ part ∈ parts, part.IsPlain) (draft : Draft)
    {story : Story} (h : story.Clear draft.path) :
    Yields Unlinked (fun draft' after => Roomy draft.path story draft'.path after)
      (segments parts draft) story := by
  induction parts generalizing draft story with
  | nil => exact Yields.pure (.refl h)
  | cons part rest ih =>
    rw [segments_cons]
    refine Yields.bind (segment_room (hp part List.mem_cons_self) _ draft h) fun draft' mid hr => ?_
    refine (ih (fun p hm => hp p (List.mem_cons_of_mem part hm)) draft' hr.clear).mono ?_
    exact fun _ _ hr' => hr.trans hr'

theorem conclude_room (pos : Position) (draft : Draft) (h : story.Clear draft.path) :
    Yields Unlinked (fun _ after => after.Distinct ∧ story.Spares draft.path after)
      (conclude pos draft) story := by
  unfold conclude
  split
  · exact Yields.pure ⟨h.distinct, .refl _ _⟩
  · have hslot := addSlot_room h.room (.settled ⟨draft.path.name, .goto none, pos⟩) rfl rfl
    exact Yields.bind hslot fun id after ⟨hpast, _⟩ => Yields.pure ⟨hpast.distinct, hpast.spares⟩

theorem consequences_room (pos : Position) (assignments : List Assignment) (draft : Draft)
    (h : story.Clear draft.path) :
    Yields Unlinked (fun draft' after => Roomy draft.path story draft'.path after)
      (consequences pos assignments draft) story := by
  unfold consequences
  split
  · exact Yields.pure (.refl h)
  · next hne =>
    have hplain : ∀ i ∈ assignments.map fun a => Item.content pos a.content, i.IsPlain := by
      intro i hi
      obtain ⟨a, -, rfl⟩ := List.mem_map.mp hi
      trivial
    have hchain : Yields Unlinked (fun found after => Roomy draft.path story found.1 after)
        (chain pos assignments draft.path []) story := by
      rw [chain_eq_thread]
      refine Yields.bind (thread_room _ hplain ⟨draft.path, [], []⟩ h.room)
        fun front mid ⟨_, hr⟩ => ?_
      refine Yields.pure (hr ?_)
      rw [contents_moves]
      simpa using hne
    refine Yields.bind hchain ?_
    rintro ⟨path, rets⟩ mid hr
    refine Yields.bind (tie_room hr.clear.distinct .ret rets) fun _ after ⟨hd, hf⟩ => Yields.pure ?_
    exact hr.kept hd hf

theorem guards_room (pos : Position) (gs : List Expr) (path : Path) (rets : List LooseEnd)
    {story : Story} (h : story.Room path) :
    Yields Unlinked (fun (path', _, _) after => after.Room path' ∧ story.Spares path after ∧
      path.Covers path') (guards pos gs path rets) story := by
  induction gs generalizing path rets story with
  | nil => exact Yields.pure ⟨h, .refl _ _, path.covers_self⟩
  | cons guard rest ih =>
    refine Yields.bind (arrive_room ⟨path, rets, []⟩ h _ pos) fun id mid hpast => ?_
    have hr := Roomy.of_past hpast
    refine Yields.bind (ih path.next [nextEnd id] hr.clear.room) ?_
    rintro ⟨path', rets', skips⟩ after ⟨hroom, hs, hc⟩
    exact Yields.pure ⟨hroom, hr.spares.trans hs hr.covers, hr.covers.trans hc⟩

/-- Where there is room for an option with plain parts it fails on no name, and there is room behind
it. -/
theorem option_room (pos : Position) (leader : Leader) (terms : Terms) (parts : List Segment)
    (hp : ∀ part ∈ parts, part.IsPlain) (front : Front) {story : Story} (h : story.Room front.path) :
    Yields Unlinked (fun front' after => Roomy front.path story front'.path after)
      (item (.option pos leader terms parts) front) story := by
  refine Yields.bind (guards_room pos _ front.path front.ends.rets h) ?_
  rintro ⟨path, rets, skips⟩ s1 ⟨hroom, hs1, hc⟩
  refine Yields.bind (arrive_room ⟨path, rets, []⟩ hroom _ pos) fun id s2 hpast => ?_
  have hchild := hpast.clear (path.covers_child 1) (path.child_ne 1)
  refine Yields.bind (consequences_room pos _ _ hchild) fun draft s3 h3 => ?_
  refine Yields.bind (segments_room parts hp draft h3.clear) fun draft s4 h4 => ?_
  refine Yields.bind (conclude_room pos draft h4.clear) fun draft' s5 ⟨hd5, h5⟩ => ?_
  refine Yields.bind (status_modifyBody hd5 id _) fun _ s6 ⟨hd6, _, hs6⟩ => Yields.pure ?_
  have hinner := h3.trans h4
  have hspares : s2.Spares path.firstChild s6 :=
    (hinner.spares.trans h5 hinner.covers).kept fun name hn => by rw [hs6, hn]
  have hr := Roomy.around hpast hspares hd6
  exact ⟨hr.clear, hs1.trans hr.spares hc, hc.trans hr.covers⟩

end Build

end Storyline
