import Storyline.Proofs.Options.Strings

namespace Storyline

/-- Whatever has settled stays. -/
def Story.Persists (story after : Story) : Prop := ∃ noted, story.Retains EverySlot noted after

namespace Story.Persists

variable {story mid after : Story} {noted : List Diagnostic}

theorem refl (story : Story) : story.Persists story := ⟨[], .refl story⟩

theorem of_retains (h : story.Retains EverySlot noted after) : story.Persists after := ⟨noted, h⟩

theorem trans (h : story.Persists mid) (h' : mid.Persists after) : story.Persists after := by
  obtain ⟨noted, h⟩ := h
  obtain ⟨noted', h'⟩ := h'
  exact ⟨noted ++ noted', h.trans h'⟩

end Story.Persists

namespace Build

open Story

variable {α β : Type} {story : Story} {m : Build α} {f : α → Build β}

theorem persists_bind (hm : Yields Anything (fun _ => story.Persists) m story)
    (hf : ∀ a mid, Yields Anything (fun _ => mid.Persists) (f a) mid) :
    Yields Anything (fun _ => story.Persists) (m >>= f) story :=
  Yields.bind hm fun a mid h => (hf a mid).mono fun _ _ h' => h.trans h'

theorem persists_pure (a : α) : Yields Anything (fun _ => story.Persists) (pure a : Build α) story :=
  Yields.pure (.refl story)

theorem create_persists (path : Path) (body : Body) (pos : Position) :
    Yields Anything (fun _ => story.Persists) (create path body pos) story :=
  (create_retains path body pos).mono fun _ _ h => .of_retains h.1

theorem placeholder_persists (path : Path) (pos : Position) :
    Yields Anything (fun _ => story.Persists) (createPlaceholder path pos) story :=
  (addSlot_retains path.name _).mono fun _ _ h => .of_retains h.1

theorem tie_persists (target : Target) (ends : List LooseEnd) :
    Yields Anything (fun _ => story.Persists) (tie target ends) story :=
  (tie_retains target ends).mono fun _ _ h => .of_retains h.1

theorem arrive_persists (front : Front) (body : Body) (pos : Position) :
    Yields Anything (fun _ => story.Persists) (arrive front body pos) story :=
  (arrive_retains front body pos).mono fun _ _ h => .of_retains h.1

theorem claim_persists (name : String) (seen : Position) :
    Yields Anything (fun _ => story.Persists) (claim name seen) story := by
  have reported (mistake : Mistake) : Yields Anything (fun _ => story.Persists)
      (do report seen mistake; return story.freshLabel name) story :=
    persists_bind ((report_retains seen mistake).mono fun _ _ h => .of_retains h)
      fun _ _ => persists_pure _
  refine Yields.bind (Q := fun found mid => found = story ∧ mid = story) ⟨rfl, rfl⟩ ?_
  rintro _ _ ⟨rfl, rfl⟩
  split
  · exact reported _
  · split
    · exact reported _
    · exact persists_pure _

theorem consequences_persists (pos : Position) (assignments : List Assignment) (draft : Draft) :
    Yields Anything (fun _ => story.Persists) (consequences pos assignments draft) story :=
  (consequences_laid pos assignments draft).mono fun _ _ h => .of_retains h.1

theorem fileSegment_retains (role : Role) (isEmpty : Bool) (entry : NodeId) (draft : Draft) :
    Yields Anything (fun _ => story.Retains EverySlot []) (fileSegment role isEmpty entry draft)
      story := by
  unfold fileSegment
  split
  · exact (discard_retains entry).bind fun _ _ h => .pure h
  · exact .pure (.refl story)

theorem settle_retains (role : Role) (last : Bool) (entry : NodeId) (front : Front)
    (draft : Draft) :
    Yields Anything (fun _ => story.Retains EverySlot []) (settle role last entry front draft)
      story := by
  refine Yields.bind (Q := fun found mid => found = story ∧ mid = story) ⟨rfl, rfl⟩ ?_
  rintro _ _ ⟨rfl, rfl⟩
  refine (fileSegment_retains role _ entry draft).bind fun filed mid hfiled => ?_
  dsimp only
  split
  · exact .pure hfiled
  · exact (tie_retains _ _).bind fun _ _ htied => .pure (hfiled.trans htied.1)

theorem settle_persists (role : Role) (last : Bool) (entry : NodeId) (front : Front)
    (draft : Draft) :
    Yields Anything (fun _ => story.Persists) (settle role last entry front draft) story :=
  (settle_retains role last entry front draft).mono fun _ _ h => .of_retains h

theorem conclude_retains (pos : Position) (draft : Draft) :
    Yields Anything (fun _ => story.Retains EverySlot []) (conclude pos draft) story := by
  unfold conclude
  split
  · exact .pure (.refl story)
  · exact (create_retains _ _ _).bind fun _ _ h => .pure h.1

theorem conclude_persists (pos : Position) (draft : Draft) :
    Yields Anything (fun _ => story.Persists) (conclude pos draft) story :=
  (conclude_retains pos draft).mono fun _ _ h => .of_retains h

mutual

theorem item_persists (i : Item) (front : Front) {story : Story} :
    Yields Anything (fun _ => story.Persists) (item i front) story := by
  cases i with
  | report d =>
    exact persists_bind ((report_retains d.pos d.mistake).mono fun _ _ h => .of_retains h)
      fun _ _ => persists_pure _
  | cut => trivial
  | passed left => exact persists_pure _
  | content pos c => exact persists_bind (arrive_persists _ _ _) fun _ _ => persists_pure _
  | ask pos => exact persists_bind (arrive_persists _ _ _) fun _ _ => persists_pure _
  | leave => exact persists_bind (tie_persists _ _) fun _ _ => persists_pure _
  | goto label => exact persists_bind (tie_persists _ _) fun _ _ => persists_pure _
  | call pos label args => exact persists_bind (arrive_persists _ _ _) fun _ _ => persists_pure _
  | label pos name seen =>
    refine persists_bind (claim_persists name seen) fun label _ => ?_
    refine persists_bind (placeholder_persists _ _) fun _ _ => ?_
    exact persists_bind (tie_persists _ _) fun _ _ => persists_pure _
  | loop pos body =>
    refine persists_bind (placeholder_persists _ _) fun entry _ => ?_
    refine persists_bind (tie_persists _ _) fun _ _ => ?_
    refine persists_bind (thread_persists body _) fun after _ => ?_
    exact persists_bind (tie_persists _ _) fun _ _ => persists_pure _
  | define pos name params seen body =>
    refine persists_bind (claim_persists name seen) fun label _ => ?_
    refine persists_bind (create_persists _ _ _) fun id _ => ?_
    refine persists_bind (thread_persists body _) fun after _ => ?_
    refine persists_bind (tie_persists _ _) fun _ _ => ?_
    exact persists_bind (tie_persists _ _) fun _ _ => persists_pure _
  | jump pos condition yes no =>
    refine persists_bind (arrive_persists _ _ _) fun id _ => ?_
    refine persists_bind (thread_persists yes _) fun yes _ => ?_
    exact persists_bind (thread_persists no _) fun _ _ => persists_pure _
  | switch pos selection found =>
    refine persists_bind (arrive_persists _ _ _) fun id _ => ?_
    exact persists_bind (cases_persists id 0 found _) fun _ _ => persists_pure _
  | option pos leader terms parts =>
    refine Yields.bind (guards_laid pos _ front.path front.ends.rets) ?_
    rintro ⟨path, rets, skips⟩ s1 ⟨hr1, -⟩
    refine Yields.bind (arrive_retains _ _ pos) fun id s2 ⟨hr2, hid, _⟩ => ?_
    have hnew : story.slots.size ≤ id := by
      rw [hid]
      exact hr1.size
    refine Yields.bind (consequences_persists pos _ _) fun draft s3 ⟨n3, hr3⟩ => ?_
    refine Yields.bind (segments_persists parts draft) fun draft s4 ⟨n4, hr4⟩ => ?_
    refine Yields.bind (conclude_persists pos draft) fun draft s5 ⟨n5, hr5⟩ => ?_
    refine Yields.bind (modifyBody_retains id _) fun _ s6 ⟨hr6, _⟩ => Yields.pure ?_
    have hbody := (hr3.trans (hr4.trans hr5)).every.trans hr6
    exact ⟨_, ((hr1.trans hr2).every.trans hbody).of_new hnew⟩

theorem thread_persists (items : List Item) (front : Front) {story : Story} :
    Yields Anything (fun _ => story.Persists) (thread items front) story := by
  cases items with
  | nil => exact persists_pure _
  | cons i rest =>
    exact persists_bind (item_persists i front) fun after _ => thread_persists rest after

theorem cases_persists (id : NodeId) (index : Nat) (found : List Case) (path : Path)
    {story : Story} :
    Yields Anything (fun _ => story.Persists) (cases id index found path) story := by
  cases found with
  | nil => exact persists_pure _
  | cons c rest =>
    obtain ⟨weight, body⟩ := c
    refine persists_bind (thread_persists body _) fun front _ => ?_
    exact persists_bind (cases_persists id (index + 1) rest front.path) fun _ _ => persists_pure _

theorem segments_persists (parts : List Segment) (draft : Draft) {story : Story} :
    Yields Anything (fun _ => story.Persists) (segments parts draft) story := by
  cases parts with
  | nil => exact persists_pure _
  | cons part rest =>
    obtain ⟨pos, role, body⟩ := part
    refine persists_bind (placeholder_persists _ _) fun entry _ => ?_
    refine persists_bind (thread_persists body _) fun front _ => ?_
    refine persists_bind (settle_persists role _ entry front draft) fun draft _ => ?_
    exact segments_persists rest draft

end

end Build

end Storyline
