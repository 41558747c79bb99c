import Storyline.Proofs.Names.Parts

namespace Storyline.Build

open Story

variable {guarded : List String} {st : Stance} {story : Story} {path : Path}

/-- What the cases of a switch came to. -/
structure CasesWent (guarded : List String) (st : Stance) (path : Path) (held : List LooseEnd)
    (story : Story) (st' : Stance) (held' : List LooseEnd) (after : Story) : Prop where
  tidy : Tidy (st'.skipped ++ guarded) after
  ran : Ran (st.skipped ++ guarded) path held story after
  comes : Comes held story held'
  within : Within after held'
  skipped : st.skipped ⊆ st'.skipped

namespace CasesWent

variable {st1 st2 : Stance} {path1 : Path} {rets1 inner inner1 held held1 held2 : List LooseEnd}
  {s1 s2 : Story}

theorem of_went (h : Went guarded st path inner story st1 path1 rets1 held1 s1) :
    CasesWent guarded st path inner story st1 held1 s1 :=
  ⟨h.tidy, h.ran, h.comes, h.within, h.skipped⟩

/-- One branch and those after it. -/
theorem cons (h : Went guarded st path inner story st1 path1 rets1 held1 s1)
    (c : CasesWent guarded st1.nextBranch path1 inner1 s1 st2 held2 s2) :
    CasesWent guarded st path (inner ++ inner1) story st2 (held1 ++ held2) s2 := by
  have hskip := skipped_nextBranch st1
  have hran := c.ran
  have hsub := c.skipped
  rw [hskip] at hran hsub
  have h1 : Ran (st.skipped ++ guarded) path (inner ++ inner1) story s1 :=
    h.ran.hold (List.subset_append_left _ _)
  have hall : Comes (inner ++ inner1) story inner1 := .of_subset (List.subset_append_right _ _)
  refine ⟨c.tidy, h1.trans h.reaches hall (hran.mono (Went.avoid_subset guarded h.skipped)),
    fun l hl => ?_, (h.within.grow hran.size).append c.within, List.Subset.trans h.skipped hsub⟩
  rcases List.mem_append.mp hl with hl | hl
  · exact (h.comes l hl).imp (List.mem_append_left _) id
  · exact hall.trans h.ran.size c.comes l hl

theorem shrink (h : held2 ⊆ held1) (c : CasesWent guarded st path held story st1 held1 s1) :
    CasesWent guarded st path held story st1 held2 s1 :=
  ⟨c.tidy, c.ran, fun l hl => c.comes l (h hl), fun l hl => c.within l (h hl), c.skipped⟩

/-- No branch is left. -/
theorem nil (t : Tidy (st.skipped ++ guarded) story) :
    CasesWent guarded st path [] story st [] story :=
  ⟨t, .refl, .refl _ _, fun l hl => (by cases hl), List.Subset.refl _⟩

/-- Behind a node whose branches were linked. -/
theorem resume {mid after : Story} {id : NodeId} {rets kept : List LooseEnd} {index : Nat}
    (held' : List LooseEnd) (c : CasesWent guarded { st with footing := .free } (path.child index) inner mid st1 held1 after)
    (a : Arrived (st.skipped ++ guarded) path rets story id mid)
    (s : Stands (st.skipped ++ guarded) st path rets story) (hs : rets ⊆ held)
    (hi : ∀ l ∈ inner, l.node = id) (hk : kept ⊆ held) (hb : Within story kept)
    (hheld : ∀ l ∈ held', l ∈ kept ∨ l ∈ held1 ∨ l.node = id) (ends : List LooseEnd) :
    Went guarded st path held story ⟨.free, st.label, st1.skipped⟩ path.next ends held' after := by
  have hnew : Comes held story inner := by
    intro l hl
    rw [hi l hl]
    exact .inr a.fresh
  refine a.resume s hs hnew c.ran c.tidy c.skipped (fun l hl => ?_) (fun l hl => ?_) ends
  · rcases hheld l hl with hl | hl | hl
    · exact .inl (hk hl)
    · exact hnew.trans a.ran.size c.comes l hl
    · exact .inr (hl ▸ a.fresh)
  · rcases hheld l hl with hl | hl | hl
    · exact hb.grow (Nat.le_trans a.ran.size c.ran.size) l hl
    · exact c.within l hl
    · exact hl ▸ Nat.lt_of_lt_of_le a.bound c.ran.size

end CasesWent

theorem subset_guards (st : Stance) (guarded : List String) :
    st.skipped ++ guarded ⊆ st.skipped ++ (st.guards ++ guarded) := by
  intro x hx
  simp only [List.mem_append] at hx ⊢
  tauto

/-- Where a walk stands the definitions there may not write. -/
theorem not_openable_of_stands (s : Stands (st.skipped ++ guarded) st path rets story) :
    ¬ Openable (st.skipped ++ (st.guards ++ guarded)) story path.label := by
  have hsub := subset_guards st guarded
  by_cases hp : path.indices = [0]
  · have hf := s.footing
    have hname := path.name_of_indices hp
    have waits (id : NodeId) (hg : st.guards = [st.label])
        (hw : story.status path.name = .waiting id) :
        ¬ Openable (st.skipped ++ (st.guards ++ guarded)) story path.label := by
      rw [← hname]
      rintro (hfree | ⟨-, hno⟩)
      · rw [hw] at hfree
        cases hfree
      · exact hno ⟨st.label, by simp [hg], hname ▸ s.written⟩
    cases hk : st.footing with
    | free =>
      rw [hk] at hf
      exact absurd hp hf.1
    | entry =>
      rw [hk] at hf
      exact absurd hp hf.1
    | label =>
      rw [hk] at hf
      obtain ⟨-, l, -, hw⟩ := hf
      exact waits l.node (by simp [Stance.guards, hk]) hw
    | foreign =>
      rw [hk] at hf
      obtain ⟨-, id, hw⟩ := hf
      exact waits id (by simp [Stance.guards, hk]) hw
    | taken =>
      rw [hk] at hf
      exact hname ▸ not_openable_of_settled hf
  · exact fun ho => s.closed hp (ho.mono hsub)

/-- A label that is defined elsewhere leaves the place alone that the definition stands at. -/
theorem went_define {front front2 : Front} {label : String} {id : NodeId} {inside st2 : Stance}
    {mid s1 s2 s3 after : Story}
    (s : Stands (st.skipped ++ guarded) st front.path front.ends.rets story)
    (b : Within story front.held) (hm : Tied [] story mid)
    (ho : Openable (st.skipped ++ (st.guards ++ guarded)) mid label)
    (w : Writable (st.skipped ++ (st.guards ++ guarded)) (.root label) mid)
    (hw : Wrote (.root label) .settled mid s1) (hid : id = mid.slots.size)
    (hin : inside.skipped = st.skipped)
    (h : Went (st.guards ++ guarded) inside (Path.root label).next [nextEnd id] s1 st2 front2.path
      front2.ends.rets front2.held s2)
    (ht3 : Tied front2.ends.rets s2 s3) (ht4 : Tied front2.ends.escs s3 after) :
    FrontWent guarded st front story { st with skipped := st.guards ++ st2.skipped } front after := by
  have hsub := subset_guards st guarded
  have hskip : st.skipped ⊆ st2.skipped := hin ▸ h.skipped
  have hran2 := h.ran
  have hreach2 := h.reaches
  rw [hin] at hran2 hreach2
  have hinner : Ran (st.skipped ++ (st.guards ++ guarded)) (Path.root label).next [nextEnd id] s1
      after :=
    hran2.trans hreach2 h.comes <| (ht3.ran (List.subset_append_left _ _)).onward <|
      ht4.ran (List.subset_append_right _ _)
  have hbefore : Ran (st.skipped ++ (st.guards ++ guarded)) front.path front.held story mid :=
    hm.ran (List.nil_subset _)
  have hopen : Openable (st.skipped ++ (st.guards ++ guarded)) story label :=
    hbefore.openable w.label ho
  have hnew : Comes front.held story [nextEnd id] := by
    intro l hl
    rw [List.mem_singleton.mp hl]
    exact .inr (Nat.le_of_eq (hid.trans hm.size).symm)
  have hran : Ran (st.skipped ++ (st.guards ++ guarded)) front.path front.held story after :=
    (hbefore.onward (hw.ran w (.inr ho))).trans (.inr hopen) hnew hinner
  have hclosed := not_openable_of_stands s
  have hne : front.path.label ≠ label := by
    intro he
    exact hclosed (he ▸ hopen)
  -- Whatever stands below the label of the front was there before and stays.
  have hfirst (p : Path) (hp : p.label = front.path.label) :
      s1.status p.name = story.status p.name := by
    have hroot : p ≠ .root label := by
      rintro rfl
      exact hne hp.symm
    rw [hw.other w (hp ▸ s.label) hroot]
    exact hm.same p.name
  have hsame (p : Path) (hp : p.label = front.path.label) :
      after.status p.name = story.status p.name := by
    have hcov : ¬ (Path.root label).next.Covers p := fun hc => hne (hp.symm.trans hc.1)
    have hroot : s1.status p.label = story.status p.label := by
      have := hfirst (.root p.label) hp
      rwa [Path.name_root] at this
    have hno : ¬ Openable (st.skipped ++ (st.guards ++ guarded)) s1 p.label := by
      unfold Openable
      rw [hroot]
      exact hp ▸ hclosed
    rcases hinner.untouched p (hp ▸ s.label) hcov hno with he | ⟨l, hl, hwait, -⟩
    · exact he.trans (hfirst p hp)
    · rw [List.mem_singleton.mp hl, hfirst p hp] at hwait
      have := lt_size_of_waiting hwait
      simp only [nextEnd] at this
      rw [hid, hm.size] at this
      exact absurd this (Nat.lt_irrefl _)
  have ht : Tidy ((st.guards ++ st2.skipped) ++ guarded) after := by
    refine (ht4.tidy (ht3.tidy h.tidy)).mono fun x hx => ?_
    simp only [List.mem_append] at hx ⊢
    tauto
  have hs : Stands ((st.guards ++ st2.skipped) ++ guarded) st front.path front.ends.rets after := by
    refine (s.same hsame).mono fun x hx => ?_
    rcases List.mem_append.mp hx with hx | hx
    · exact List.mem_append_left _ (List.mem_append_right _ (hskip hx))
    · exact List.mem_append_right _ hx
  exact ⟨ht, ⟨hs.label, hs.written, hs.ahead, hs.closed, hs.footing⟩, hran.mono hsub,
    .inl front.path.covers_self, .refl _ _, b.grow hran.size,
    fun x hx => List.mem_append_right _ (hskip hx), fun he => ⟨he, rfl, hsame front.path rfl⟩,
    fun _ he _ hno => absurd he hno⟩

/-- What the parts of an option came to. -/
structure PartsWent (guarded : List String) (st : Stance) (draft : Draft) (story : Story)
    (st' : Stance) (draft' : Draft) (after : Story) : Prop where
  part : PartWent guarded st draft.path [] story st' draft' after
  comes : Comes draft.escs story draft'.escs
  within : Within after draft'.escs

namespace PartsWent

variable {draft draft1 draft2 : Draft} {st1 st2 : Stance} {mid s1 s2 : Story} {entry : NodeId}

theorem nil (t : Tidy (st.skipped ++ guarded) story) (hl : IsLabel draft.path.label)
    (s : draft.advancing = false → Stands (st.skipped ++ guarded) st draft.path [] story)
    (b : Within story draft.escs) : PartsWent guarded st draft story st draft story :=
  ⟨⟨t, .refl, .inl draft.path.covers_self, hl, List.Subset.refl _, s⟩, .refl _ _, b⟩

/-- One part and those after it. -/
theorem cons {inside : Stance} {held : List LooseEnd}
    (o : Opened (st.skipped ++ guarded) inside draft.path [] story entry mid)
    (hin : inside.skipped = st.skipped)
    (h : PartWent guarded inside draft.path [nextEnd entry] mid st1 draft1 s1)
    (hh : Comes [nextEnd entry] mid held) (he : ∀ l ∈ draft1.escs, l ∈ draft.escs ∨ l ∈ held)
    (r : PartsWent guarded st1 draft1 s1 st2 draft2 s2) :
    PartsWent guarded st draft story st2 draft2 s2 := by
  have hnew (ends : List LooseEnd) : Comes ends story [nextEnd entry] := by
    intro l hl
    rw [List.mem_singleton.mp hl]
    exact .inr o.fresh
  have hran := h.ran
  have hreach := h.reaches
  have hskip := h.skipped
  rw [hin] at hran hreach hskip
  have hfirst := o.ran.trans (.inl draft.path.covers_self) (hnew []) hran
  have hrest := r.part.ran.mono (Went.avoid_subset guarded hskip)
  have hreaches := Reaches.trans (.inl draft.path.covers_self) o.ran h.label hreach
  refine ⟨⟨r.part.tidy, hfirst.trans hreaches (fun l hl => by cases hl) hrest, ?_, r.part.label,
    List.Subset.trans hskip r.part.skipped, r.part.stands⟩, ?_, r.within⟩
  · refine hreaches.trans hfirst r.part.label (r.part.reaches.imp id fun ho => ?_)
    exact ho.mono (Went.avoid_subset guarded hskip)
  · refine Comes.trans (fun l hl => ?_) hfirst.size r.comes
    rcases he l hl with hl | hl
    · exact .inl hl
    · rcases hh l hl with hl | hl
      · rw [List.mem_singleton.mp hl]
        exact .inr o.fresh
      · exact .inr (Nat.le_trans o.ran.size hl)

end PartsWent

theorem beginPart_goes {draft : Draft} (t : Tidy (st.skipped ++ guarded) story)
    (s : Stands (st.skipped ++ guarded) st draft.path [] story) (pos : Position) :
    Goes st.beginPart (fun inside entry mid => inside = { st with footing := .entry } ∧
      Opened (st.skipped ++ guarded) inside draft.path [] story entry mid)
      (createPlaceholder draft.path pos) story := by
  have hs := s.footing
  unfold Stance.beginPart
  cases hk : st.footing with
  | free =>
    rw [hk] at hs
    have hne : st.footing ≠ .taken := by rw [hk]; simp
    refine Yields.mono (yields_createPlaceholder t (s.writable hne) pos) fun entry mid ⟨he, hw⟩ => ?_
    have ht : Tied [] mid mid := tied_diagnostics hw.distinct mid.diagnostics
    exact ⟨rfl, .of_wrote t s hne (fun l hl => by cases hl) (List.Subset.refl _) hw he ht
      (.inr ⟨rfl, hs.1⟩)⟩
  | taken =>
    rw [hk] at hs
    exact yields_clash t.distinct hs rfl rfl
  | _ => trivial

/-- Behind an option: its guards lead past it, and its body was linked below it. -/
theorem went_option {front : Front} {st1 : Stance} {path1 : Path} {id : NodeId}
    {rets1 skips escs : List LooseEnd} {s1 mid after : Story} {skipped : List String}
    (b : Within story front.held)
    (h : Went guarded st front.path front.ends.rets story st1 path1 rets1 (rets1 ++ skips) s1)
    (a : Arrived (st1.skipped ++ guarded) path1 rets1 s1 id mid)
    (r : Ran (st1.skipped ++ guarded) path1.firstChild [] mid after)
    (t : Tidy (skipped ++ guarded) after) (hs : st1.skipped ⊆ skipped) (hc : Comes [] mid escs)
    (hb : Within after escs) :
    FrontWent guarded st front story ⟨.free, st1.label, skipped⟩
      ⟨path1.next, skips ++ [nextEnd id], front.ends.escs ++ escs⟩ after := by
  have hall := h.carry b.of_append.2
  have hkept := hall.within.grow (Nat.le_trans a.ran.size r.size)
  refine hall.trans (a.resume h.stands (fun l hl => ?_) (fun l hl => by cases hl) r t hs ?_ ?_ _)
  · exact List.mem_append_left _ (List.mem_append_left _ hl)
  · intro l hl
    simp only [Front.held, List.mem_append, List.mem_singleton] at hl
    rcases hl with (hl | rfl) | hl | hl
    · exact .inl (List.mem_append_left _ (List.mem_append_right _ hl))
    · exact .inr a.fresh
    · exact .inl (List.mem_append_right _ hl)
    · rcases hc l hl with hl | hl
      · cases hl
      · exact .inr (Nat.le_trans a.ran.size hl)
  · intro l hl
    simp only [Front.held, List.mem_append, List.mem_singleton] at hl
    rcases hl with (hl | rfl) | hl | hl
    · exact hkept l (List.mem_append_left _ (List.mem_append_right _ hl))
    · exact Nat.lt_of_lt_of_le a.bound r.size
    · exact hkept l (List.mem_append_right _ hl)
    · exact hb l hl

theorem ite_bind {α β : Type} (c : Bool) (m m' : Course α) (k : α → Course β) :
    (if c then m >>= k else m' >>= k) = (if c then m else m') >>= k := by
  cases c <;> rfl

theorem yields_modified (t : Tidy (st.skipped ++ guarded) story) (id : NodeId) (f : Body → Body) :
    Yields (fun e => ¬ IsNoLinkError e) (fun _ s => Tied [] story s) (modifyBody id f) story := by
  refine Yields.mono (status_modifyBody t.distinct id f) fun _ s ⟨hd, hs, h⟩ => ⟨hd, hs, ?_⟩
  intro name
  rw [h]
  exact (tied_nil _).symm

theorem endLoop_ne_entry {st' : Stance} (h : st.endLoop = .on st') : st'.footing ≠ .entry := by
  unfold Stance.endLoop at h
  cases hk : st.footing <;> rw [hk] at h <;> cases h <;> simp [hk]

theorem beginLoop_goes {front : Front} (t : Tidy (st.skipped ++ guarded) story)
    (s : Stands (st.skipped ++ guarded) st front.path front.ends.rets story) (pos : Position) :
    Goes st.beginLoop (fun inside entry mid => st.footing ≠ .taken ∧
      entry = story.slots.size ∧ Wrote front.path (.waiting entry) story mid ∧
      ∃ footing, inside = { st with footing } ∧
        (footing = .label ∧ front.path.indices = [0] ∨
          footing = .entry ∧ front.path.indices ≠ [0]))
      (createPlaceholder front.path pos) story := by
  have hs := s.footing
  unfold Stance.beginLoop
  cases hk : st.footing <;> rw [hk] at hs
  · have w := s.writable (by rw [hk]; simp)
    exact Yields.mono (yields_createPlaceholder t w pos) fun _ _ ⟨he, hw⟩ =>
      ⟨by simp, he, hw, _, rfl, .inr ⟨rfl, hs.1⟩⟩
  · have w := s.writable (by rw [hk]; simp)
    exact Yields.mono (yields_createPlaceholder t w pos) fun _ _ ⟨he, hw⟩ =>
      ⟨by simp, he, hw, _, rfl, .inr ⟨rfl, hs.1⟩⟩
  · have w := s.writable (by rw [hk]; simp)
    exact Yields.mono (yields_createPlaceholder t w pos) fun _ _ ⟨he, hw⟩ =>
      ⟨by simp, he, hw, _, rfl, .inl ⟨rfl, hs.1⟩⟩
  · have w := s.writable (by rw [hk]; simp)
    exact Yields.mono (yields_createPlaceholder t w pos) fun _ _ ⟨he, hw⟩ =>
      ⟨by simp, he, hw, _, rfl, .inl ⟨rfl, hs.1⟩⟩
  · exact yields_clash t.distinct hs rfl rfl

/-- Linking an item goes the way of its course. -/
def ItemGoes (i : Item) : Prop :=
  ∀ (guarded : List String) (st : Stance) (front : Front) {story : Story},
    Tidy (st.skipped ++ guarded) story →
    Stands (st.skipped ++ guarded) st front.path front.ends.rets story →
    Within story front.held →
    Goes (i.course guarded st) (FrontWent guarded st front story) (item i front) story

/-- Linking a thread goes the way of its course, wherever it starts. -/
def ThreadGoes (items : List Item) : Prop :=
  ∀ (guarded : List String) (st : Stance) (front : Front) {story : Story},
    Tidy (st.skipped ++ guarded) story →
    Stands (st.skipped ++ guarded) st front.path front.ends.rets story →
    Within story front.held →
    Goes (Script.course guarded items st) (FrontWent guarded st front story) (thread items front)
      story

/-- Linking cases goes the way of their course. What they hold is held at `inner` too. -/
def CasesGo (found : List Case) : Prop :=
  ∀ (guarded : List String) (st : Stance) (id : NodeId) (index : Nat) (path : Path) {story : Story},
    Tidy (st.skipped ++ guarded) story → Stands (st.skipped ++ guarded) st path [] story →
    id < story.slots.size →
    Goes (Script.caseCourse guarded found st) (fun st' front after => ∃ inner,
      (∀ l ∈ inner, l.node = id) ∧ CasesWent guarded st path inner story st' front.held after)
      (cases id index found path) story

/-- Linking the parts of an option goes the way of their course. -/
def SegmentsGo (parts : List Segment) : Prop :=
  ∀ (guarded : List String) (st : Stance) (draft : Draft) {story : Story},
    Tidy (st.skipped ++ guarded) story → IsLabel draft.path.label →
    (parts ≠ [] ∨ draft.advancing = false → Stands (st.skipped ++ guarded) st draft.path [] story) →
    Within story draft.escs →
    Goes (Script.segmentCourse guarded parts draft.advancing st) (fun (st', advancing) draft' after =>
      draft'.advancing = advancing ∧ PartsWent guarded st draft story st' draft' after)
      (segments parts draft) story

theorem loop_goes (pos : Position) {body : List Item} (hbody : ThreadGoes body) :
    ItemGoes (.loop pos body) := by
  intro guarded st front story t s b
  refine (beginLoop_goes t s pos).bind fun inside entry mid ⟨hst, he, hw, f, hin, hf⟩ => ?_
  subst hin
  refine Goes.step (yields_tied hw.distinct _ front.ends.rets) fun _ s1 ht => ?_
  have o : Opened (st.skipped ++ guarded) { st with footing := f } front.path front.held story
      entry s1 := .of_wrote t s hst b.of_append.1 (List.subset_append_left _ _) hw he ht hf
  have hb : Within s1 [nextEnd entry] := by
    intro l hl
    rw [List.mem_singleton.mp hl]
    exact o.bound
  refine Goes.bind (hbody guarded { st with footing := f }
    (entering front.path (nextEnd entry)) o.tidy o.stands hb) fun st2 front2 s2 h => ?_
  cases hend : st2.endLoop with
  | on st3 =>
    refine Yields.bind (yields_tied h.tidy.distinct _ front2.ends.rets) fun _ after ht2 => ?_
    have hw2 := h.tie ht2 (List.Subset.refl _) (List.subset_append_left _ _) hend
      (List.subset_append_right front2.ends.rets front2.ends.escs) []
    have hall := o.went hw2 rfl (endLoop_ne_entry hend)
      (List.subset_append_right front.ends.rets front.ends.escs) b.of_append.2
    exact Yields.pure hall
  | doubtful => trivial
  | _ =>
    unfold Stance.endLoop at hend
    split at hend <;> cases hend

theorem define_goes (pos : Position) (name : String) (params : List String) (seen : Position)
    {body : List Item} (hbody : ThreadGoes body) :
    ItemGoes (.define pos name params seen body) := by
  intro guarded st front story t s b
  have hsub := subset_guards st guarded
  have t' := t.mono hsub
  refine (claim_goes t' name seen).bind fun _ label mid ⟨hm, hl, hn, ho⟩ => ?_
  have t1 := hm.tidy t'
  have w := t1.writable_root hl ho
  refine Goes.step (yields_create t1 w _ pos) fun id s1 ⟨hid, hw⟩ => ?_
  have a : Arrived (st.skipped ++ (st.guards ++ guarded)) (.root label) [] mid id s1 :=
    .of_wrote t1 w hw hid
  have hn : MayName (Stance.label ⟨.free, name, st.skipped⟩) (Path.root label).label := hn
  have hs1 : Stands (st.skipped ++ (st.guards ++ guarded)) ⟨.free, name, st.skipped⟩
      (Path.root label).next [nextEnd id] s1 :=
    a.stands hl hn (Path.covers_next _) (Path.next_ne _) (Path.indices_next_ne _) _
  refine Goes.bind (hbody (st.guards ++ guarded) ⟨.free, name, st.skipped⟩
    (entering (Path.root label).next (nextEnd id)) a.tidy hs1 (a.within_ends rfl))
    fun st2 front2 s2 h => ?_
  refine Goes.step (yields_tied h.tidy.distinct _ front2.ends.rets) fun _ s3 ht3 => ?_
  refine Goes.step (yields_tied ht3.distinct _ front2.ends.escs) fun _ after ht4 => Goes.pure ?_
  refine went_define s b hm ho w hw hid ?_ h ht3 ht4
  rfl

theorem jump_goes (pos : Position) (condition : Expr) {yes no : List Item} (hyes : ThreadGoes yes)
    (hno : ThreadGoes no) :
    ItemGoes (.jump pos condition yes no) := by
  intro guarded st front story t s b
  refine (arrive_goes t front _ pos s).bind fun st1 id mid ⟨hst, a⟩ => ?_
  subst hst
  have hs1 := a.stands s.label s.written (front.path.covers_child 1) (front.path.child_ne 1)
    (front.path.indices_child_ne 1) [nextEnd id]
  refine Goes.bind (hyes guarded { st with footing := .free }
    (entering front.path.firstChild (nextEnd id)) a.tidy hs1 (a.within_ends rfl))
    fun st2 front2 s2 h2 => ?_
  have hne : st2.footing ≠ .entry := fun he => by cases (h2.stays he).1
  have hid : Within s2 [⟨id, .branch⟩] := (a.within_ends rfl).grow h2.ran.size
  have hskip := skipped_nextBranch st2
  refine Goes.bind (hno guarded st2.nextBranch (entering front2.path ⟨id, .branch⟩)
    (hskip ▸ h2.tidy) (hskip ▸ h2.stands.nextBranch hne _) hid) fun st3 front3 s3 h3 => ?_
  refine Goes.pure <| (CasesWent.cons h2 (.of_went h3)).resume _ a s
    (List.subset_append_left _ _) ?_ (List.subset_append_right front.ends.rets front.ends.escs)
    b.of_append.2 ?_ _
  · intro l hl
    simp only [entering, Front.held, nextEnd, List.append_nil, List.mem_append,
      List.mem_singleton] at hl
    rcases hl with rfl | rfl <;> rfl
  · intro l hl
    simp only [Front.held, Ends.append, List.nil_append, List.mem_append] at hl ⊢
    tauto

theorem switch_goes (pos : Position) (selection : Selection) {found : List Case}
    (hfound : CasesGo found) :
    ItemGoes (.switch pos selection found) := by
  intro guarded st front story t s b
  refine (arrive_goes t front _ pos s).bind fun st1 id mid ⟨hst, a⟩ => ?_
  subst hst
  have hs1 := a.stands s.label s.written (front.path.covers_child 1) (front.path.child_ne 1)
    (front.path.indices_child_ne 1) []
  refine Goes.bind (hfound guarded { st with footing := .free } id 0
    front.path.firstChild a.tidy hs1 a.bound) fun st2 front2 after ⟨inner, hi, h⟩ => Goes.pure ?_
  refine h.resume _ a s (List.subset_append_left _ _) hi
    (List.subset_append_right front.ends.rets front.ends.escs) b.of_append.2 (fun l hl => ?_) _
  have hfall (hl : l ∈ selection.fallThrough id) : l.node = id := by
    cases selection <;> simp [Selection.fallThrough] at hl
    exact hl ▸ rfl
  simp only [Front.held, List.mem_append] at hl ⊢
  tauto

theorem option_goes (pos : Position) (leader : Leader) (terms : Terms) {parts : List Segment}
    (hparts : SegmentsGo parts) :
    ItemGoes (.option pos leader terms parts) := by
  intro guarded st front story t s b
  have hheld : Within story front.ends.rets := b.of_append.1
  change Goes (st.write >>= _) _ _ _
  rw [guardsCourse_write (terms.ledBy leader front.path).guards]
  refine Goes.bind (guards_goes pos _ front.path front.ends.rets t s hheld)
    fun st1 ⟨path1, rets1, skips⟩ s1 ⟨hc, h1⟩ => ?_
  refine (arrive_goes h1.tidy ⟨path1, rets1, []⟩ _ pos h1.stands).bind fun st2 id mid ⟨hst, a⟩ => ?_
  subst hst
  have hs2 := a.stands h1.stands.label h1.stands.written (path1.covers_child 1)
    (path1.child_ne 1) (path1.indices_child_ne 1) []
  have hfree : ({ st1 with footing := .free } : Stance).footing = .free := rfl
  refine Goes.step (consequences_goes pos _ ⟨path1.firstChild, [], [], [], false⟩ hfree a.tidy hs2)
    fun draft2 s2 ⟨hescs, hadv, h2⟩ => ?_
  have hb : Within s2 draft2.escs := by
    rw [hescs]
    exact fun l hl => by cases hl
  have hsegs := hparts guarded { st1 with footing := .free } draft2 h2.tidy
    h2.stands.label (fun _ => h2.stands) hb
  rw [hadv] at hsegs
  refine Goes.bind hsegs fun ⟨st3, advancing⟩ draft3 s3 ⟨hadv3, h3⟩ => ?_
  dsimp only
  rw [ite_bind]
  refine Goes.bind (hadv3 ▸ conclude_goes pos draft3 h3.part.tidy h3.part.stands h3.within)
    fun st4 draft4 s4 ⟨hskip4, ht4, hran4, hcomes4, hwithin4⟩ => ?_
  refine Goes.step (yields_modified ht4 id _) fun _ after ht => Goes.pure ?_
  have hskip : st1.skipped ⊆ st4.skipped := hskip4 ▸ h3.part.skipped
  have hsub := Went.avoid_subset guarded h3.part.skipped
  have hlast := (hran4.onward (ht.ran (List.Subset.refl _))).mono hsub
  have hparts := h3.part.ran.trans h3.part.reaches (fun l hl => by cases hl) hlast
  have hbody := h2.ran.trans h2.reaches (fun l hl => by cases hl) hparts
  have hcomes := (h3.comes.trans h3.part.ran.size hcomes4)
  rw [hescs] at hcomes
  refine went_option b h1 a hbody (hskip4 ▸ ht.tidy ht4) hskip (fun l hl => ?_) (fun l hl => ?_)
  · rcases hcomes l hl with hl | hl
    · cases hl
    · exact .inr (Nat.le_trans h2.ran.size hl)
  · rw [ht.size]
    exact hwithin4 l hl

mutual

theorem Goes.item (i : Item) : ItemGoes i := by
  intro guarded st front story t s b
  cases i with
  | report d =>
    refine Goes.step (yields_reported t.distinct d.pos d.mistake) fun _ after h => Goes.pure ?_
    have hs := s.same fun p _ => h.same p.name
    exact ⟨h.tidy t, hs, h.ran (List.nil_subset _), .inl front.path.covers_self, .refl _ _,
      b.grow (Nat.le_of_eq h.size.symm), List.Subset.refl _, fun h1 => ⟨h1, rfl, h.same _⟩,
      fun _ h1 _ hne => absurd h1 hne⟩
  | cut => exact fun _ => rfl
  | passed left => exact Goes.pure (Went.refl t s b)
  | content pos c => exact append_goes t s b _ pos
  | ask pos => exact prompt_goes t s b pos
  | leave => exact divert_goes t s b .ret
  | goto label => exact divert_goes t s b (.node label)
  | call pos label args => exact call_goes t s b label args pos
  | label pos name seen => exact enterLabel_goes t s b name seen pos
  | loop pos body => exact loop_goes pos (Goes.thread body) guarded st front t s b
  | define pos name params seen body =>
    exact define_goes pos name params seen (Goes.thread body) guarded st front t s b
  | jump pos condition yes no =>
    exact jump_goes pos condition (Goes.thread yes) (Goes.thread no) guarded st front t s b
  | switch pos selection found =>
    exact switch_goes pos selection (Goes.cases found) guarded st front t s b
  | option pos leader terms parts =>
    exact option_goes pos leader terms (Goes.segments parts) guarded st front t s b

theorem Goes.thread (items : List Item) : ThreadGoes items := by
  intro guarded st front story t s b
  cases items with
  | nil => exact Goes.pure (Went.refl t s b)
  | cons i rest =>
    refine Goes.bind (Goes.item i guarded st front t s b) fun st1 front1 s1 h => ?_
    exact Goes.mono (Goes.thread rest guarded st1 front1 h.tidy h.stands h.within)
      fun _ _ _ h' => h.trans h'

theorem Goes.cases (found : List Case) : CasesGo found := by
  intro guarded st id index path story t s hid
  cases found with
  | nil => exact Goes.pure ⟨[], fun l hl => (by cases hl), .nil t⟩
  | cons case rest =>
    obtain ⟨weight, body⟩ := case
    have hb : Within story [⟨id, .case index⟩] := by
      intro l hl
      rw [List.mem_singleton.mp hl]
      exact hid
    refine Goes.bind (Goes.thread body guarded st (entering path ⟨id, .case index⟩) t
      (s.withEnds (List.nil_subset _)) hb) fun st1 front1 s1 h => ?_
    have hne : st1.footing ≠ .entry := fun he => s.not_entry (h.stays he).1
    have hskip := skipped_nextBranch st1
    refine Goes.last (Goes.cases rest guarded st1.nextBranch id (index + 1) front1.path
      (hskip ▸ h.tidy) (hskip ▸ h.stands.nextBranch hne []) (Nat.lt_of_lt_of_le hid h.ran.size))
      fun st2 front2 after ⟨inner, hi, c⟩ => Yields.pure ⟨_, ?_, (c.cons h).shrink ?_⟩
    · intro l hl
      rcases List.mem_append.mp hl with hl | hl
      · rw [List.mem_singleton.mp hl]
      · exact hi l hl
    · intro l hl
      simp only [Front.held, Ends.append, List.mem_append] at hl ⊢
      tauto

theorem Goes.segments (parts : List Segment) : SegmentsGo parts := by
  intro guarded st draft story t hl s b
  cases parts with
  | nil => exact Goes.pure ⟨rfl, .nil t hl (fun h => s (.inr h)) b⟩
  | cons part rest =>
    obtain ⟨pos, role, body⟩ := part
    have hs := s (.inl (List.cons_ne_nil _ _))
    refine (beginPart_goes t hs pos).bind fun inside entry mid ⟨hin, o⟩ => ?_
    have hb : Within mid [nextEnd entry] := by
      intro l hl
      rw [List.mem_singleton.mp hl]
      exact o.bound
    have hskip : inside.skipped = st.skipped := by rw [hin]
    refine Goes.bind (Goes.thread body guarded inside (entering draft.path (nextEnd entry))
      (hskip ▸ o.tidy) (hskip ▸ o.stands) hb) fun st1 front1 s1 h => ?_
    refine (settle_goes role rest.isEmpty front1 draft h (by rw [hin]) o.waits).bind
      fun st2 draft2 s2 ⟨hadv, hpart, hescs, hsize⟩ => ?_
    have hb2 : Within s2 draft2.escs := by
      intro l hl
      rw [hsize]
      rcases hescs l hl with hl | hl
      · exact Nat.lt_of_lt_of_le (b l hl) (Nat.le_trans o.ran.size h.ran.size)
      · exact h.within l hl
    refine Goes.mono (hadv ▸ Goes.segments rest guarded st2 draft2 hpart.tidy hpart.label ?_ hb2)
      fun st3 draft3 after ⟨hadv3, hr⟩ => ⟨hadv3, .cons o hskip hpart h.comes hescs hr⟩
    rintro (hr | hr)
    · refine hpart.stands ?_
      rw [hadv]
      cases rest with
      | nil => exact absurd rfl hr
      | cons => rfl
    · exact hpart.stands hr

end

end Storyline.Build
