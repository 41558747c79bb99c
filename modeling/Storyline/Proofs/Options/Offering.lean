import Storyline.Proofs.Options.Persisting

namespace Storyline

/-- A draft with these names in front of its answer. -/
def Draft.behind (names : List String) (draft : Draft) : Draft :=
  { draft with answer := names ++ draft.answer }

namespace Build

open Story

variable {pos : Position} {parts : List Segment} {names : List String}

section Behind

theorem file_behind (role : Role) (name : String) (draft : Draft) :
    (draft.behind names).file role name = (draft.file role name).behind names := by
  cases role <;> simp [Draft.file, Draft.behind]

theorem settle_behind (role : Role) (last : Bool) (entry : NodeId) (front : Front) (draft : Draft) :
    settle role last entry front (draft.behind names) =
      settle role last entry front draft >>= fun d => pure (d.behind names) := by
  have hfile (isEmpty : Bool) : fileSegment role isEmpty entry (draft.behind names) =
      fileSegment role isEmpty entry draft >>= fun d => pure (d.behind names) := by
    unfold fileSegment
    split
    · simp only [bind_assoc, pure_bind]
    · rw [pure_bind, ← file_behind]
      rfl
  unfold settle
  simp only [bind_assoc]
  refine bind_congr fun story => ?_
  have hpath : (draft.behind names).path = draft.path := rfl
  simp only [hpath, hfile, bind_assoc, pure_bind]
  refine bind_congr fun filed => ?_
  split
  · rfl
  · simp only [bind_assoc, pure_bind]
    rfl

/-- The parts of an option are filed behind what is there already. -/
theorem segments_behind (parts : List Segment) (draft : Draft) :
    segments parts (draft.behind names) =
      segments parts draft >>= fun d => pure (d.behind names) := by
  induction parts generalizing draft with
  | nil => rfl
  | cons part rest ih =>
    obtain ⟨pos, role, body⟩ := part
    simp only [segments, bind_assoc, settle_behind, pure_bind, ih]
    rfl

theorem conclude_behind (pos : Position) (draft : Draft) :
    conclude pos (draft.behind names) = conclude pos draft >>= fun d => pure (d.behind names) := by
  unfold conclude
  have hadv : (draft.behind names).advancing = draft.advancing := rfl
  rw [hadv]
  split
  · rfl
  · simp only [bind_assoc, pure_bind]
    refine bind_congr fun id => ?_
    simp [Draft.behind, Draft.file]

end Behind

/-- The body of an option alone. -/
def body (pos : Position) (parts : List Segment) (draft : Draft) : Build Draft := do
  let draft ← segments parts draft
  conclude pos draft

theorem body_behind (draft : Draft) : body pos parts (draft.behind names) =
    body pos parts draft >>= fun d => pure (d.behind names) := by
  unfold body
  simp only [segments_behind, bind_assoc, pure_bind, conclude_behind]

theorem body_persists (pos : Position) (parts : List Segment) (draft : Draft) {story : Story} :
    Yields Anything (fun _ => story.Persists) (body pos parts draft) story :=
  persists_bind (segments_persists parts draft) fun draft _ => conclude_persists pos draft

end Build

/-- Where an option stands behind its guards. -/
def Terms.place (terms : Terms) (path : Path) : Path := path.onward terms.guards.length

/-- Where the parts of an option start, behind its consequences. -/
def Terms.behind (terms : Terms) (path : Path) : Path :=
  (terms.place path).firstChild.onward terms.consequences.length

/-- The entry for the consequences in the answer of an option. -/
def Terms.entry (terms : Terms) (path : Path) : List String :=
  if terms.consequences.isEmpty then [] else [(terms.place path).firstChild.name]

namespace Build

open Story

/-- An option with these terms was linked from `front`, its guards in the slots `ids` and itself in
the slot `id`; its body alone came to `draft`. -/
structure Offered (pos : Position) (terms : Terms) (parts : List Segment) (front : Front)
    (story : Story) (ids : List NodeId) (id : NodeId) (draft : Draft) (front' : Front)
    (after : Story) : Prop where
  guarded : after.Guarded terms.guards front.path ids
  entered : ∀ l ∈ front.ends.rets, story.Settled l → after.Gone (.node front.path.name) l
  option : after.Holds id (terms.place front.path).name
    (.option draft.question (terms.entry front.path ++ draft.answer)
      (Body.wordSet terms.keywords) none)
  fresh : story.slots.size ≤ id
  consequences : terms.consequences ≠ [] → ∃ last, after.Gone .ret last ∧
    after.Strung (terms.consequences.map Assignment.content)
      (terms.place front.path).firstChild last
  body : ∃ before mid, story.Retains EverySlot [] before ∧
    Build.body pos parts ⟨terms.behind front.path, [], [], [], false⟩ before = .ok draft mid ∧
    (∃ question answer keywords, mid.Holds id (terms.place front.path).name
      (.option question answer keywords none)) ∧ mid.Retains (· ≠ id) [] after
  onward : front' = ⟨(terms.place front.path).next, ids.map (⟨·, .branch⟩) ++ [nextEnd id],
    front.ends.escs ++ draft.escs⟩

/-- The rule for an option, with its body set apart. -/
theorem option_eq (pos : Position) (leader : Leader) (terms : Terms) (parts : List Segment)
    (front : Front) : item (.option pos leader terms parts) front = (do
      let led := terms.ledBy leader front.path
      let (path, rets, skips) ← guards pos led.guards front.path front.ends.rets
      let id ← arrive ⟨path, rets, []⟩ (.option [] [] (Body.wordSet led.keywords) none) pos
      let draft ← consequences pos led.consequences ⟨path.firstChild, [], [], [], false⟩
      let draft ← body pos parts draft
      let _ ← modifyBody id (Body.withThreads draft.question draft.answer)
      return ⟨path.next, skips ++ [nextEnd id], front.ends.escs ++ draft.escs⟩) := by
  unfold body
  simp only [item, bind_assoc]

/-- A run and what it yields. -/
theorem Yields.run {α : Type} {E : BuildError → Prop} {m : Build α} {story : Story}
    {Q : α → Story → Prop} (h : Yields E Q m story) :
    Yields E (fun a after => Q a after ∧ m story = .ok a after) m story := by
  unfold Yields at h ⊢
  split at h
  · next heq => exact ⟨h, heq⟩
  · exact h

/-- The threads of an option become known. -/
theorem withThreads_holds {story : Story} {id : NodeId} {name : String} {question answer : List String}
    {keywords : List String} (h : story.Holds id name (.option [] [] keywords none)) :
    Yields Anything (fun _ after => story.Retains (· ≠ id) [] after ∧
      after.Holds id name (.option question answer keywords none))
      (modifyBody id (Body.withThreads question answer)) story := by
  obtain ⟨node, hs, hname, hb⟩ := h
  refine (modifyBody_retains id _).mono fun _ after ⟨hr, hmod⟩ => ⟨hr, _, hmod node hs, hname, ?_⟩
  have hsame := hb.same
  cases hbody : node.body <;> rw [hbody] at hsame <;>
    simp only [Body.cleared, Body.option.injEq, reduceCtorEq] at hsame
  obtain ⟨-, -, rfl, -⟩ := hsame
  refine ⟨rfl, fun outlet target ht => ?_⟩
  cases outlet <;> simp [Body.link?] at ht

theorem option_offered (pos : Position) (leader : Leader) (terms : Terms) (parts : List Segment)
    (front : Front) {story : Story} :
    Yields Anything (fun front' after => ∃ ids id draft,
      Offered pos (terms.ledBy leader front.path) parts front story ids id draft front' after)
      (item (.option pos leader terms parts) front) story := by
  rw [option_eq]
  dsimp only
  generalize terms.ledBy leader front.path = led
  refine Yields.bind (guards_laid pos led.guards front.path front.ends.rets) ?_
  rintro ⟨path, rets, skips⟩ s1 ⟨hr1, hpath, ids, hskips, hlater⟩
  subst hpath hskips
  refine Yields.bind (arrive_retains _ _ pos) fun id s2 ⟨hr2, hid, hh2, hg2⟩ => ?_
  obtain ⟨hguarded, hentered⟩ := hlater s2 [] hr2 hg2
  refine Yields.bind (consequences_laid pos led.consequences _) fun draft s3 ⟨hr3, hd3, hc3⟩ => ?_
  -- The body is linked behind the consequences as it would be without them.
  have hstart : draft = Draft.behind (led.entry front.path)
      ⟨led.behind front.path, [], [], [], false⟩ := by
    rw [hd3]
    simp only [Draft.behind, Terms.entry, List.nil_append, List.append_nil]
    rfl
  rw [hstart, body_behind, bind_assoc]
  refine Yields.bind (body_persists pos parts _).run fun draft s4 ⟨⟨noted, hr4⟩, hrun⟩ => ?_
  rw [pure_bind]
  have hh3 := hh2.retained hr3 trivial
  have hh4 := hh3.retained hr4 trivial
  refine Yields.bind (withThreads_holds hh4) fun _ s5 ⟨hr5, hh5⟩ => Yields.pure ?_
  have hafter : s2.Retains (· ≠ id) (([] ++ noted) ++ []) s5 := (hr3.trans hr4).every.trans hr5
  have hjumps : ∀ other name condition branch next,
      s2.Holds other name (.jump condition branch next) → other ≠ id :=
    fun other name condition branch next h => h.ne hh2 (by simp [Body.kind])
  have hfresh : story.slots.size ≤ id := by
    rw [hid]
    exact hr1.size
  refine ⟨ids, id, draft, hguarded.retained hafter hjumps, fun l hl hset => ?_, hh5, hfresh,
    fun hne => ?_, ⟨s3, s4, (hr1.trans hr2).trans hr3, hrun, ⟨[], [], _, hh4⟩, hr5⟩, rfl⟩
  · have hnew : l.node ≠ id := Nat.ne_of_lt (Nat.lt_of_lt_of_le hset.lt_size hfresh)
    exact (hentered l hl hset).retained hafter hnew
  · obtain ⟨last, hgone, hstr⟩ := hc3 hne
    obtain ⟨c, content, -, hlast, hheld⟩ := hstr.last_holds (by simpa using hne)
    have hother : ∀ other name content link, s3.Holds other name (.content content link) →
        other ≠ id :=
      fun other name content link h => h.ne hh3 (by cases content <;> simp [Body.kind, Content.kind])
    have hr35 : s3.Retains (· ≠ id) (noted ++ []) s5 := hr4.every.trans hr5
    refine ⟨last, hgone.retained hr35 ?_, hstr.retained hr35 hother⟩
    rw [hlast]
    exact hother _ _ _ _ hheld

end Build

end Storyline
