import Storyline.Proofs.Definitions.Labels
import Storyline.Proofs.Names.Steps

namespace Storyline

mutual

/-- Whether the item settles a label in front of it before another definition can take the name; an
item that does nothing leaves it to the next. -/
def Item.settles (name : String) : Item → Option Bool
  | .report _ => none
  | .passed _ => none
  | .label _ other _ => some (!reopens other name)
  | .define .. => some false
  | .loop _ body => some (Script.settles name true body)
  | _ => some true

/-- The same for a thread; `last` is the answer where the thread ends. -/
def Script.settles (name : String) (last : Bool) : List Item → Bool
  | [] => last
  | i :: rest => (i.settles name).getD (Script.settles name last rest)

end

mutual

/-- For each definition in the item, in order, whether its label is settled before the next one can
take the name. `follows` answers this for what stands behind the item. -/
def Item.firm (follows : String → Bool) : Item → List Bool
  | .label _ name _ => [follows name]
  | .loop _ body => Script.firm true body
  | .define _ _ _ _ body => true :: Script.firm true body
  | .jump _ _ yes no => Script.firm false yes ++ Script.firm false no
  | .switch _ _ found => Script.caseFirm found
  | .option _ _ _ parts => Script.segmentFirm parts
  | _ => []

/-- The end of a thread settles a label only where `last` says so: the loose ends of a loop and of a
subroutine are tied there, those of a branch wait for what follows it. -/
def Script.firm (last : Bool) : List Item → List Bool
  | [] => []
  | i :: rest => i.firm (fun name => Script.settles name last rest) ++ Script.firm last rest

def Script.caseFirm : List Case → List Bool
  | [] => []
  | .mk _ body :: rest => Script.firm false body ++ Script.caseFirm rest

def Script.segmentFirm : List Segment → List Bool
  | [] => []
  | .mk _ _ body :: rest => Script.firm false body ++ Script.segmentFirm rest

end

namespace Definition

variable {d e : Definition}

theorem mayName (d : Definition) : MayName d.name d.label := by
  unfold label
  split
  · obtain ⟨n, hn⟩ := d.story.freshLabel_eq d.name
    exact .inr ⟨n, hn⟩
  · exact .inl rfl

/-- A label that is not the name itself is one that no node bears. -/
theorem label_eq_or_free (d : Definition) : (d.label = d.name ∧ d.story.isDefined d.name = false) ∨
    d.story.status d.label = .free := by
  unfold label
  split
  · exact .inr (Story.status_freshLabel d.name)
  · next h =>
    simp only [Bool.or_eq_true, not_or, Bool.not_eq_true] at h
    exact .inl ⟨rfl, h.2⟩

end Definition

/-- The later definition meets the label of the first one settled, or it is not written as a name
that could take it. -/
def Definition.Withstands (d e : Definition) : Prop :=
  e.story.status d.label = .settled ∨
    e.story.status d.label ≠ .free ∧ reopens e.name d.name = false

namespace Definition.Withstands

variable {d e : Definition}

theorem label_ne (h : d.Withstands e) : e.label ≠ d.label := by
  intro he
  rcases e.label_eq_or_free with ⟨hname, hfree⟩ | hfree
  · rcases h with hs | ⟨-, hr⟩
    · rw [← he, hname, ← Story.isDefined_iff, hfree] at hs
      cases hs
    · have hmay : MayName d.name e.name := by
        rw [← hname, he]
        exact d.mayName
      rw [Build.reopens_of_mayName hmay] at hr
      cases hr
  · rw [he] at hfree
    rcases h with hs | ⟨hne, -⟩
    · rw [hfree] at hs
      cases hs
    · exact hne hfree

theorem isDefined (h : d.Withstands e) (hname : e.name = d.label) :
    e.story.isDefined e.name = true := by
  rcases h with hs | ⟨-, hr⟩
  · rw [hname]
    exact Story.isDefined_iff.mpr hs
  · have hmay : MayName d.name e.name := by
      rw [hname]
      exact d.mayName
    rw [Build.reopens_of_mayName hmay] at hr
    cases hr

end Definition.Withstands

/-- A definition keeps its label from the later one if it is firm. -/
def Secure (d e : Definition × Bool) : Prop := d.2 = true → d.1.Withstands e.1

/-- Each firm label is settled, or it waits at one of the ends `rets` and is among those that what
follows will settle. -/
structure Standing (marks : List (Definition × Bool)) (keep : String → Bool) (rets : List LooseEnd)
    (story : Story) : Prop where
  distinct : story.Distinct
  stood : ∀ d ∈ marks, d.2 = true → story.status d.1.label = .settled ∨
    keep d.1.name = true ∧ ∃ l ∈ rets, story.status d.1.label = .waiting l.node
  kept : marks.Pairwise Secure

/-- Each firm label is settled. -/
def Sealed (marks : List (Definition × Bool)) (story : Story) : Prop :=
  Standing marks (fun _ => false) [] story

namespace Standing

variable {marks : List (Definition × Bool)} {keep keep' : String → Bool}
  {rets ends : List LooseEnd} {story after : Story} {name : String}

/-- Without ends to wait at, or a label that may wait, all are settled. -/
theorem idle (h : Standing marks keep [] story) : Sealed marks story where
  distinct := h.distinct
  stood d hd hf := by
    rcases h.stood d hd hf with hs | ⟨-, l, hl, -⟩
    · exact .inl hs
    · cases hl
  kept := h.kept

theorem none (h : Standing marks (fun _ => false) rets story) : Sealed marks story where
  distinct := h.distinct
  stood d hd hf := by
    rcases h.stood d hd hf with hs | ⟨hk, -⟩
    · exact .inl hs
    · cases hk
  kept := h.kept

theorem settled (h : Sealed marks story) {d : Definition × Bool} (hd : d ∈ marks) (hf : d.2 = true) :
    story.status d.1.label = .settled := by
  rcases h.stood d hd hf with hs | ⟨hk, -⟩
  · exact hs
  · cases hk

theorem of_sealed (keep : String → Bool) (h : Sealed marks story) : Standing marks keep rets story where
  distinct := h.distinct
  stood _ hd hf := .inl (settled h hd hf)
  kept := h.kept

theorem mono (h : Standing marks keep rets story) (hk : ∀ name, keep name = true → keep' name = true) :
    Standing marks keep' rets story where
  distinct := h.distinct
  stood d hd hf := (h.stood d hd hf).imp_right fun ⟨hkeep, hl⟩ => ⟨hk _ hkeep, hl⟩
  kept := h.kept

/-- Where nothing changes at any name. -/
theorem same (h : Standing marks keep rets story) (hd : after.Distinct)
    (hs : ∀ name, after.status name = story.status name) : Standing marks keep rets after where
  distinct := hd
  stood d hm hf := by
    rw [hs]
    exact h.stood d hm hf
  kept := h.kept

/-- A definition more. -/
theorem add (h : Standing marks keep rets story) (d : Definition × Bool)
    (hd : d.2 = true → story.status d.1.label = .settled ∨
      keep d.1.name = true ∧ ∃ l ∈ rets, story.status d.1.label = .waiting l.node)
    (hk : ∀ earlier ∈ marks, Secure earlier d) : Standing (marks ++ [d]) keep rets story where
  distinct := h.distinct
  stood e he hf := by
    rcases List.mem_append.mp he with he | he
    · exact h.stood e he hf
    · obtain rfl := List.mem_singleton.mp he
      exact hd hf
  kept := by
    apply List.pairwise_append.mpr
    refine ⟨h.kept, List.pairwise_singleton Secure d, fun earlier he later hl => ?_⟩
    obtain rfl := List.mem_singleton.mp hl
    exact hk earlier he

end Standing

namespace Build

open Story

variable {marks : List (Definition × Bool)} {keep keep' : String → Bool}
  {rets ends : List LooseEnd} {story : Story} {path : Path}

/-- A node that stays. -/
theorem status_create (hd : story.Distinct) (path : Path) (body : Body) (pos : Position) :
    Yields Anything (fun _ s => s.Distinct ∧ ∀ name, s.status name =
      if name = path.name then .settled else story.status name) (create path body pos) story := by
  have h := @status_addSlot story path.name hd (.settled ⟨path.name, body, pos⟩) _ rfl rfl
  exact (h.mono fun _ _ ⟨_, _, hd, _, hs⟩ => ⟨hd, hs⟩).weaken fun _ _ => trivial

/-- A placeholder, where no node stays. -/
theorem status_placeholder (hd : story.Distinct) (path : Path) (pos : Position) :
    Yields Anything (fun id s => story.status path.name ≠ .settled ∧ s.Distinct ∧ ∀ name,
      s.status name = if name = path.name then .waiting id else story.status name)
      (createPlaceholder path pos) story := by
  have h := @status_addSlot story path.name hd (.placeholder ⟨path.name, .goto none, pos⟩) _ rfl rfl
  refine (h.mono ?_).weaken fun _ _ => trivial
  rintro _ s ⟨hne, rfl, hd, -, hs⟩
  exact ⟨hne, hd, hs⟩

theorem stands_create (path : Path) (body : Body) (pos : Position)
    (h : Standing marks keep rets story) :
    Yields Anything (fun _ s => Standing marks keep rets s) (create path body pos) story := by
  apply (status_create h.distinct path body pos).mono
  intro _ s ⟨hd, hs⟩
  refine ⟨hd, fun d hm hf => ?_, h.kept⟩
  rw [hs]
  split
  · exact .inl rfl
  · exact h.stood d hm hf

/-- A placeholder may take the place of one that waited, and waits in its stead. -/
theorem stands_placeholder (path : Path) (pos : Position) (h : Standing marks keep rets story) :
    Yields Anything (fun id s => Standing marks keep (rets ++ [nextEnd id]) s)
      (createPlaceholder path pos) story := by
  apply (status_placeholder h.distinct path pos).mono
  intro id s ⟨hne, hd, hs⟩
  refine ⟨hd, fun d hm hf => ?_, h.kept⟩
  rw [hs]
  rcases h.stood d hm hf with hset | ⟨hk, l, hl, hw⟩
  · have hother : d.1.label ≠ path.name := by
      intro he
      exact hne (he ▸ hset)
    rw [if_neg hother]
    exact .inl hset
  · split
    · exact .inr ⟨hk, nextEnd id, List.mem_append_right rets (List.mem_singleton_self _), rfl⟩
    · exact .inr ⟨hk, l, List.mem_append_left _ hl, hw⟩

/-- Ends that were tied are settled, and only the others still wait. -/
theorem stands_tie (target : Target) (ends : List LooseEnd)
    (h : Standing marks keep (ends ++ rets) story) :
    Yields Anything (fun _ s => Standing marks keep rets s) (tie target ends) story := by
  refine ((status_tie h.distinct target ends).mono ?_).weaken fun _ _ => trivial
  intro _ s ⟨hd, _, hs⟩
  refine ⟨hd, fun d hm hf => ?_, h.kept⟩
  rw [hs]
  rcases h.stood d hm hf with hset | ⟨hk, l, hl, hw⟩
  · rw [hset]
    exact .inl rfl
  · rw [hw]
    simp only [Status.tied]
    split
    · exact .inl rfl
    · next hn =>
      rcases List.mem_append.mp hl with hl | hl
      · exact absurd (List.mem_map_of_mem hl) hn
      · exact .inr ⟨hk, l, hl, rfl⟩

theorem sealed_tie (target : Target) (ends : List LooseEnd) (h : Standing marks keep ends story) :
    Yields Anything (fun _ s => Sealed marks s) (tie target ends) story := by
  rw [← List.append_nil ends] at h
  exact (stands_tie target ends h).mono fun _ _ hs => hs.idle

theorem sealed_discard (id : NodeId) (h : Sealed marks story) :
    Yields Anything (fun _ s => Sealed marks s) (discard id) story := by
  refine ((status_discard h.distinct id).mono ?_).weaken fun _ _ => trivial
  intro _ s ⟨hd, _, hs⟩
  refine ⟨hd, fun d hm hf => .inl ?_, h.kept⟩
  have hset := Standing.settled h hm hf
  rw [hs, if_neg (by rw [hset]; simp), hset]

theorem sealed_threads (id : NodeId) (f : Body → Body) (h : Sealed marks story) :
    Yields Anything (fun _ s => Sealed marks s) (modifyBody id f) story := by
  refine ((status_modifyBody h.distinct id f).mono ?_).weaken fun _ _ => trivial
  intro _ s ⟨hd, _, hs⟩
  exact h.same hd hs

/-- A node written at the front settles all that waits there. -/
theorem sealed_arrive (front : Front) (body : Body) (pos : Position)
    (h : Standing marks keep front.ends.rets story) :
    Yields Anything (fun _ s => Sealed marks s) (arrive front body pos) story := by
  apply (stands_create front.path body pos h).bind
  intro id s hs
  exact (sealed_tie _ front.ends.rets hs).bind fun _ _ ht => .pure ht

/-- Nothing stands otherwise once the mistakes of a name were reported. -/
theorem stands_claim (name : String) (seen : Position) (hd : story.Distinct) :
    Yields Anything (fun label s => label = Definition.label ⟨name, seen, story⟩ ∧ s.Distinct ∧
      ∀ other, s.status other = story.status other) (claim name seen) story := by
  unfold Yields
  rw [claim_eq]
  exact ⟨rfl, hd, fun _ => rfl⟩

/-- A label settles what waits in front of it, and then waits itself. -/
theorem stands_enterLabel (front : Front) (name : String) (seen pos : Position) (follows : Bool)
    (hkeep : follows = true → keep name = true)
    (h : Standing marks (fun earlier => !reopens name earlier) front.ends.rets story) :
    Yields Anything (fun after s => Standing (marks ++ [(⟨name, seen, story⟩, follows)]) keep
      after.ends.rets s) (enterLabel front name seen pos) story := by
  let d : Definition × Bool := (⟨name, seen, story⟩, follows)
  have hkept : ∀ earlier ∈ marks, Secure earlier d := by
    intro earlier hm hf
    apply (h.stood earlier hm hf).imp_right
    intro ⟨hr, l, _, hw⟩
    exact ⟨by simp [d, hw], by simpa using hr⟩
  apply (stands_claim name seen h.distinct).bind
  rintro label s ⟨rfl, hd, hs⟩
  apply (status_placeholder hd (.root d.1.label) pos).bind
  intro entry mid ⟨_, hd', hs'⟩
  rw [Path.name_root] at hs'
  have hmid : Standing marks (fun earlier => !reopens name earlier) front.ends.rets mid := by
    refine ⟨hd', fun earlier hm hf => ?_, h.kept⟩
    rw [hs', if_neg (hkept earlier hm hf).label_ne.symm, hs]
    exact h.stood earlier hm hf
  have hwait : mid.status d.1.label = .waiting entry := by rw [hs', if_pos rfl]
  refine Yields.bind (Yields.and (F := Anything) (sealed_tie _ front.ends.rets hmid)
    ((status_tie hd' _ front.ends.rets).weaken fun _ _ => trivial)) ?_
  intro _ last ⟨hsealed, _, _, hlast⟩
  apply Yields.pure
  apply Standing.add (Standing.of_sealed keep hsealed) d ?_ hkept
  intro hf
  rw [hlast, hwait]
  simp only [Status.tied]
  split
  · exact .inl rfl
  · exact .inr ⟨hkeep hf, nextEnd entry, List.mem_singleton_self _, rfl⟩

/-- The guards of an option settle what waits in front of it, or let it wait on. -/
theorem stands_guards (pos : Position) (guards : List Expr) (path : Path) (rets : List LooseEnd)
    (h : Standing marks keep rets story) :
    Yields Anything (fun r s => Standing marks keep r.2.1 s)
      (Build.guards pos guards path rets) story := by
  induction guards generalizing path rets story with
  | nil => exact .pure h
  | cons guard rest ih =>
    apply (sealed_arrive ⟨path, rets, []⟩ (.jump guard.inverted none none) pos h).bind
    intro id s hs
    apply (ih path.next [nextEnd id] (.of_sealed _ hs)).bind
    intro found s hs
    obtain ⟨after, rets, skips⟩ := found
    exact .pure hs

theorem sealed_chain (pos : Position) (assignments : List Assignment) (path : Path)
    (rets : List LooseEnd) (h : Sealed marks story) :
    Yields Anything (fun _ s => Sealed marks s) (chain pos assignments path rets) story := by
  induction assignments generalizing path rets story with
  | nil => exact .pure h
  | cons assignment rest ih =>
    apply (sealed_arrive ⟨path, rets, []⟩ _ pos (.of_sealed (fun _ => false) h)).bind
    intro id s hs
    exact ih path.next [nextEnd id] hs

theorem sealed_consequences (pos : Position) (assignments : List Assignment) (draft : Draft)
    (h : Sealed marks story) :
    Yields Anything (fun _ s => Sealed marks s) (consequences pos assignments draft) story := by
  unfold consequences
  split
  · exact .pure h
  · apply (sealed_chain pos assignments draft.path [] h).bind
    intro (path, rets) s hs
    exact (sealed_tie .ret rets (.of_sealed (fun _ => false) hs)).bind fun _ _ ht => .pure ht

theorem sealed_settle (role : Role) (last : Bool) (entry : NodeId) (front : Front) (draft : Draft)
    (h : Sealed marks story) :
    Yields Anything (fun _ s => Sealed marks s) (settle role last entry front draft) story := by
  have hfile (isEmpty : Bool) : Yields Anything (fun _ s => Sealed marks s)
      (fileSegment role isEmpty entry draft) story := by
    unfold fileSegment
    split
    · exact (sealed_discard entry h).bind fun _ _ hs => .pure hs
    · exact .pure h
  apply yields_story
  apply (hfile _).bind
  intro filed s hs
  dsimp only
  split
  · exact .pure hs
  · exact (sealed_tie .ret front.ends.rets (.of_sealed (fun _ => false) hs)).bind fun _ _ ht => .pure ht

theorem sealed_conclude (pos : Position) (draft : Draft) (h : Sealed marks story) :
    Yields Anything (fun _ s => Sealed marks s) (conclude pos draft) story := by
  unfold conclude
  split
  · exact .pure h
  · exact (stands_create draft.path _ pos h).bind fun _ _ hs => .pure hs

end Build

end Storyline
