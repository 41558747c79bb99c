import Storyline.Proofs.Definitions.Settling

namespace Storyline

/-- A rule that went from one list of definitions to another added those of `found`, which are firm
as `flags` says. -/
def Adds (marks : List (Definition × Bool)) (flags : List Bool) (found : List Definition)
    (after : List (Definition × Bool)) : Prop :=
  ∃ more, after = marks ++ more ∧ more.map Prod.fst = found ∧ more.map Prod.snd = flags

namespace Adds

variable {marks mid after : List (Definition × Bool)} {flags flags' : List Bool}
  {found found' : List Definition}

theorem none (marks : List (Definition × Bool)) : Adds marks [] [] marks :=
  ⟨[], (List.append_nil marks).symm, rfl, rfl⟩

theorem one (marks : List (Definition × Bool)) (d : Definition) (flag : Bool) :
    Adds marks [flag] [d] (marks ++ [(d, flag)]) :=
  ⟨[(d, flag)], rfl, rfl, rfl⟩

theorem trans (h : Adds marks flags found mid) (h' : Adds mid flags' found' after) :
    Adds marks (flags ++ flags') (found ++ found') after := by
  obtain ⟨more, rfl, rfl, rfl⟩ := h
  obtain ⟨more', rfl, rfl, rfl⟩ := h'
  exact ⟨more ++ more', List.append_assoc _ _ _, List.map_append, List.map_append⟩

end Adds

namespace Build

open Story

variable {marks : List (Definition × Bool)} {story : Story}

/-- A run that adds definitions which are firm as `flags` says, and keeps `Q` of all of them. -/
def Firms {α : Type} (marks : List (Definition × Bool)) (flags : List Bool)
    (Q : List (Definition × Bool) → α → Story → Prop) (m : Build (α × List Definition))
    (story : Story) : Prop :=
  Yields Anything (fun (a, found) s => ∃ after, Adds marks flags found after ∧ Q after a s) m story

/-- What waits at a front is among the labels that `keep` lets wait. -/
def WaitsAt (keep : String → Bool) (marks : List (Definition × Bool)) (front : Front)
    (story : Story) : Prop :=
  Standing marks keep front.ends.rets story

/-- A run that defines nothing. -/
theorem Firms.none {α : Type} {Q : List (Definition × Bool) → α → Story → Prop} {m : Build α}
    (h : Yields Anything (Q marks) m story) :
    Firms marks [] Q (do let a ← m; return (a, [])) story := by
  apply h.bind
  intro a s hs
  exact .pure ⟨marks, .none marks, hs⟩

mutual

/-- `keep` are the labels that what stands behind the item lets wait. -/
theorem firms_item (i : Item) (front : Front) (keep : String → Bool)
    {marks : List (Definition × Bool)} {story : Story}
    (h : WaitsAt (fun name => (i.settles name).getD (keep name)) marks front story) :
    Firms marks (i.firm keep) (WaitsAt keep) (noteItem i front) story := by
  cases i with
  | report d =>
    have hreport : Yields Anything (fun _ s => WaitsAt keep marks front s) (report d.pos d.mistake)
        story :=
      yields_report (Standing.same h h.distinct fun _ => rfl)
    exact .none (hreport.bind fun _ _ hs => .pure hs)
  | cut => exact trivial
  | passed left => exact .none (.pure h)
  | content pos c =>
    exact .none ((sealed_arrive front _ pos h).bind fun _ _ hs => .pure (.of_sealed keep hs))
  | ask pos =>
    exact .none ((sealed_arrive front _ pos h).bind fun _ _ hs => .pure (.of_sealed keep hs))
  | leave =>
    exact .none ((sealed_tie .ret front.ends.rets h).bind fun _ _ hs => .pure (.of_sealed keep hs))
  | goto label =>
    exact .none ((sealed_tie _ front.ends.rets h).bind fun _ _ hs => .pure (.of_sealed keep hs))
  | call pos label args =>
    exact .none ((sealed_arrive front _ pos h).bind fun _ _ hs => .pure (.of_sealed keep hs))
  | label pos name seen =>
    apply yields_story
    apply (stands_enterLabel front name seen pos (keep name) id h).bind
    intro after s hs
    exact .pure ⟨_, .one marks _ _, hs⟩
  | loop pos body =>
    -- The placeholder of the loop takes the place of the one that waits, or that one is tied to it.
    apply (stands_placeholder front.path pos h).bind
    intro entry s hs
    apply (stands_tie (.node front.path.name) front.ends.rets hs).bind
    intro _ s hs
    apply (firms_thread body (entering front.path (nextEnd entry)) true hs).bind
    intro (after, found) s ⟨marks', hadds, hs⟩
    apply (sealed_tie (.node front.path.name) after.ends.rets hs).bind
    intro _ s hs
    exact .pure ⟨marks', hadds, .of_sealed keep hs⟩
  | define pos name params seen body =>
    have hsealed : Sealed marks story := Standing.none h
    apply yields_story
    apply (stands_claim name seen h.distinct).bind
    rintro label s ⟨rfl, hd, hs⟩
    have hbefore : Sealed marks s := hsealed.same hd hs
    let d : Definition × Bool := (⟨name, seen, story⟩, true)
    have hcreate := status_create hd (.root d.1.label) (.define params none) pos
    apply ((stands_create (.root d.1.label) _ pos hbefore).and hcreate).bind
    intro id mid ⟨hmid, _, hhere⟩
    have hall : Sealed (marks ++ [d]) mid := by
      apply hmid.add d
      · intro _
        left
        rw [hhere, Path.name_root, if_pos rfl]
      · intro earlier hm hf
        exact .inl (Standing.settled hsealed hm hf)
    apply (firms_thread body (entering (Path.root d.1.label).next (nextEnd id)) true
      (.of_sealed _ hall)).bind
    intro (after, found) s ⟨marks', hadds, hs⟩
    apply (sealed_tie .ret after.ends.rets hs).bind
    intro _ s hs
    apply (sealed_tie .esc after.ends.escs (.of_sealed (fun _ => true) hs)).bind
    intro _ s hs
    exact .pure ⟨marks', (Adds.one marks d.1 true).trans hadds, .of_sealed keep hs⟩
  | jump pos condition yes no =>
    apply (sealed_arrive front (.jump condition.inverted none none) pos h).bind
    intro id s hs
    apply (firms_thread yes (entering front.path.firstChild (nextEnd id)) false
      (.of_sealed _ hs)).bind
    intro (first, found) s ⟨marks', hadds, hs⟩
    apply (firms_thread no (entering first.path ⟨id, .branch⟩) false (.of_sealed _ hs.none)).bind
    intro (second, found') s ⟨marks'', hadds', hs⟩
    exact .pure ⟨marks'', hadds.trans hadds', .of_sealed keep hs.none⟩
  | switch pos selection branches =>
    apply (sealed_arrive front (selection.body front.path branches) pos h).bind
    intro id s hs
    apply (firms_cases id 0 branches front.path.firstChild hs).bind
    intro (after, found) s ⟨marks', hadds, hs⟩
    exact .pure ⟨marks', hadds, .of_sealed keep hs⟩
  | option pos leader terms parts =>
    apply (stands_guards pos (terms.ledBy leader front.path).guards front.path front.ends.rets h).bind
    intro (path, rets, skips) s hs
    apply (sealed_arrive ⟨path, rets, []⟩ _ pos hs).bind
    intro id s hs
    apply (sealed_consequences pos _ ⟨path.firstChild, [], [], [], false⟩ hs).bind
    intro draft s hs
    apply (firms_segments parts draft hs).bind
    intro (draft, found) s ⟨marks', hadds, hs⟩
    apply (sealed_conclude pos draft hs).bind
    intro draft s hs
    apply (sealed_threads id (Body.withThreads draft.question draft.answer) hs).bind
    intro _ s hs
    exact .pure ⟨marks', hadds, .of_sealed keep hs⟩

theorem firms_thread (items : List Item) (front : Front) (last : Bool)
    {marks : List (Definition × Bool)} {story : Story}
    (h : WaitsAt (fun name => Script.settles name last items) marks front story) :
    Firms marks (Script.firm last items) (WaitsAt fun _ => last) (noteThread items front) story := by
  cases items with
  | nil => exact .pure ⟨marks, .none marks, h⟩
  | cons i rest =>
    apply (firms_item i front (fun name => Script.settles name last rest) h).bind
    intro (mid, found) s ⟨marks', hadds, hs⟩
    apply (firms_thread rest mid last hs).bind
    intro (after, found') s ⟨marks'', hadds', hs⟩
    exact .pure ⟨marks'', hadds.trans hadds', hs⟩

theorem firms_cases (id : NodeId) (index : Nat) (branches : List Case) (path : Path)
    {marks : List (Definition × Bool)} {story : Story} (h : Sealed marks story) :
    Firms marks (Script.caseFirm branches) (fun marks _ => Sealed marks)
      (noteCases id index branches path) story := by
  cases branches with
  | nil => exact .pure ⟨marks, .none marks, h⟩
  | cons c rest =>
    obtain ⟨weight, body⟩ := c
    apply (firms_thread body (entering path ⟨id, .case index⟩) false (.of_sealed _ h)).bind
    intro (front, found) s ⟨marks', hadds, hs⟩
    apply (firms_cases id (index + 1) rest front.path hs.none).bind
    intro (after, found') s ⟨marks'', hadds', hs⟩
    exact .pure ⟨marks'', hadds.trans hadds', hs⟩

theorem firms_segments (parts : List Segment) (draft : Draft) {marks : List (Definition × Bool)}
    {story : Story} (h : Sealed marks story) :
    Firms marks (Script.segmentFirm parts) (fun marks _ => Sealed marks)
      (noteSegments parts draft) story := by
  cases parts with
  | nil => exact .pure ⟨marks, .none marks, h⟩
  | cons part rest =>
    obtain ⟨pos, role, body⟩ := part
    apply (stands_placeholder draft.path pos h).bind
    intro entry s hs
    apply (firms_thread body (entering draft.path (nextEnd entry)) false
      (.of_sealed _ hs.none)).bind
    intro (front, found) s ⟨marks', hadds, hs⟩
    apply (sealed_settle role rest.isEmpty entry front draft hs.none).bind
    intro draft s hs
    apply (firms_segments rest draft hs).bind
    intro (draft, found') s ⟨marks'', hadds', hs⟩
    exact .pure ⟨marks'', hadds.trans hadds', hs⟩

end

end Build

end Storyline
