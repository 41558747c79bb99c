import Storyline.Proofs.Names.Apart
import Storyline.Proofs.Yields

namespace Storyline

/-- A label or a subroutine, and the story at the time its name was claimed. -/
structure Definition where
  name : String
  seen : Position
  story : Story

namespace Definition

/-- The label the definition is given. -/
def label (d : Definition) : String :=
  if Build.hasNumericPart d.name || d.story.isDefined d.name then d.story.freshLabel d.name
  else d.name

/-- What is wrong with the name, if anything is. -/
def mistakes (d : Definition) : List Diagnostic :=
  if Build.hasNumericPart d.name then [⟨d.seen, .numericLabel d.name⟩]
  else if d.story.isDefined d.name then [⟨d.seen, .definedTwice d.name⟩]
  else []

end Definition

namespace Build

/-- A claim gives the label of the definition and reports its mistakes. -/
theorem claim_eq (name : String) (seen : Position) (story : Story) :
    claim name seen story = .ok (Definition.label ⟨name, seen, story⟩)
      { story with
        diagnostics := story.diagnostics ++ (Definition.mistakes ⟨name, seen, story⟩).toArray } := by
  unfold Definition.label Definition.mistakes
  change (if hasNumericPart name then _ else if story.isDefined name then _ else _ : Build String)
    story = _
  by_cases hn : hasNumericPart name = true
  · simp only [hn, if_true, Bool.true_or]
    rfl
  by_cases hd : story.isDefined name = true
  · simp only [hn, hd, if_true, Bool.or_true, Bool.false_eq_true, if_false]
    rfl
  · simp only [hn, hd, Bool.or_self, Bool.false_eq_true, if_false]
    exact congrArg (EStateM.Result.ok name) (by simp)

mutual

def noteItem : Item → Front → Build (Front × List Definition)
  | .label pos name seen, front => do
    let story ← Build.story
    let after ← enterLabel front name seen pos
    return (after, [⟨name, seen, story⟩])
  | .loop pos body, front => do
    let entry ← createPlaceholder front.path pos
    tieTo front.path front.ends.rets
    let (after, found) ← noteThread body (entering front.path (nextEnd entry))
    tieTo front.path after.ends.rets
    return (⟨after.path, [], front.ends.escs ++ after.ends.escs⟩, found)
  | .define pos name params seen body, front => do
    let story ← Build.story
    let label ← claim name seen
    let id ← create (.root label) (.define params none) pos
    let (after, found) ← noteThread body (entering (Path.root label).next (nextEnd id))
    tie .ret after.ends.rets
    tie .esc after.ends.escs
    return (front, ⟨name, seen, story⟩ :: found)
  | .jump pos condition yes no, front => do
    let id ← arrive front (.jump condition.inverted none none) pos
    let (yes, found) ← noteThread yes (entering front.path.firstChild (nextEnd id))
    let (no, found') ← noteThread no (entering yes.path ⟨id, .branch⟩)
    let ends := (Ends.mk [] front.ends.escs).append (yes.ends.append no.ends)
    return (⟨front.path.next, ends⟩, found ++ found')
  | .switch pos selection branches, front => do
    let id ← arrive front (selection.body front.path branches) pos
    let (after, found) ← noteCases id 0 branches front.path.firstChild
    let rets := after.ends.rets ++ selection.fallThrough id
    return (⟨front.path.next, rets, front.ends.escs ++ after.ends.escs⟩, found)
  | .option pos leader terms parts, front => do
    let terms := terms.ledBy leader front.path
    let (path, rets, skips) ← guards pos terms.guards front.path front.ends.rets
    let keywords := Body.wordSet terms.keywords
    let id ← arrive ⟨path, rets, []⟩ (.option [] [] keywords none) pos
    let draft ← consequences pos terms.consequences ⟨path.firstChild, [], [], [], false⟩
    let (draft, found) ← noteSegments parts draft
    let draft ← conclude pos draft
    let _ ← modifyBody id (Body.withThreads draft.question draft.answer)
    return (⟨path.next, skips ++ [nextEnd id], front.ends.escs ++ draft.escs⟩, found)
  | i, front => do
    let after ← item i front
    return (after, [])

def noteThread : List Item → Front → Build (Front × List Definition)
  | [], front => return (front, [])
  | i :: rest, front => do
    let (front, found) ← noteItem i front
    let (front, found') ← noteThread rest front
    return (front, found ++ found')

def noteCases (id : NodeId) (index : Nat) : List Case → Path → Build (Front × List Definition)
  | [], path => return (⟨path, [], []⟩, [])
  | .mk _ body :: rest, path => do
    let (front, found) ← noteThread body (entering path ⟨id, .case index⟩)
    let (after, found') ← noteCases id (index + 1) rest front.path
    return (⟨after.path, front.ends.append after.ends⟩, found ++ found')

def noteSegments : List Segment → Draft → Build (Draft × List Definition)
  | [], draft => return (draft, [])
  | .mk pos role body :: rest, draft => do
    let entry ← createPlaceholder draft.path pos
    let (front, found) ← noteThread body (entering draft.path (nextEnd entry))
    let draft ← settle role rest.isEmpty entry front draft
    let (draft, found') ← noteSegments rest draft
    return (draft, found ++ found')

end

variable {α β γ : Type}

/-- The second run is the first one, and writes something down beside. -/
def Forgets (m : Build α) (n : Build (α × β)) : Prop :=
  ∀ story, m story = match n story with
    | .ok (a, _) after => .ok a after
    | .error e after => .error e after

namespace Forgets

theorem pure (a : α) (b : β) : Forgets (pure a : Build α) (pure (a, b)) := fun _ => rfl

/-- Something written down behind a run. -/
theorem beside (m : Build α) (b : β) : Forgets m (do let a ← m; return (a, b)) := by
  intro story
  change m story = match EStateM.bind m (fun a => EStateM.pure (a, b)) story with
    | .ok (a, _) after => .ok a after
    | .error e after => .error e after
  unfold EStateM.bind
  cases m story with
  | ok a after => rfl
  | error e after => rfl

/-- What was written down before is put in front. -/
theorem adding {δ : Type} {m : Build α} {n : Build (α × δ)} (h : Forgets m n) (k : δ → β) :
    Forgets m (do let (a, d) ← n; return (a, k d)) := by
  intro story
  change m story = match EStateM.bind n (fun (a, d) => EStateM.pure (a, k d)) story with
    | .ok (a, _) after => .ok a after
    | .error e after => .error e after
  unfold EStateM.bind
  rw [h story]
  cases n story with
  | ok c after => rfl
  | error e after => rfl

/-- What goes before is the same for both. -/
theorem step {m : Build γ} {f : γ → Build α} {g : γ → Build (α × β)}
    (h : ∀ c, Forgets (f c) (g c)) : Forgets (m >>= f) (m >>= g) := by
  intro story
  change EStateM.bind m f story = match EStateM.bind m g story with
    | .ok (a, _) after => .ok a after
    | .error e after => .error e after
  unfold EStateM.bind
  cases m story with
  | ok c after => exact h c after
  | error e after => rfl

theorem bind {δ : Type} {m : Build γ} {n : Build (γ × δ)} {f : γ → Build α}
    {g : γ × δ → Build (α × β)} (h : Forgets m n) (hfg : ∀ c d, Forgets (f c) (g (c, d))) :
    Forgets (m >>= f) (n >>= g) := by
  intro story
  change EStateM.bind m f story = match EStateM.bind n g story with
    | .ok (a, _) after => .ok a after
    | .error e after => .error e after
  unfold EStateM.bind
  rw [h story]
  cases n story with
  | ok c after => exact hfg c.1 c.2 after
  | error e after => rfl

end Forgets

/-- What is asked for and not used can be left out. -/
theorem forgets_story {m : Build α} {g : Story → Build (α × β)} (h : ∀ s, Forgets m (g s)) :
    Forgets m (Build.story >>= g) := fun story => h story story

mutual

theorem noteItem_forget (i : Item) (front : Front) : Forgets (item i front) (noteItem i front) := by
  cases i with
  | label pos name seen =>
    apply forgets_story
    intro story
    exact .beside (enterLabel front name seen pos) _
  | loop pos body =>
    apply Forgets.step
    intro entry
    apply Forgets.step
    intro _
    apply Forgets.bind (noteThread_forget body _)
    intro after found
    exact .step fun _ => .pure _ _
  | define pos name params seen body =>
    apply forgets_story
    intro story
    apply Forgets.step
    intro label
    apply Forgets.step
    intro id
    apply Forgets.bind (noteThread_forget body _)
    intro after found
    exact .step fun _ => .step fun _ => .pure _ _
  | jump pos condition yes no =>
    apply Forgets.step
    intro id
    apply Forgets.bind (noteThread_forget yes _)
    intro yes found
    apply Forgets.bind (noteThread_forget no _)
    intro no found'
    exact .pure _ _
  | switch pos selection branches =>
    apply Forgets.step
    intro id
    apply Forgets.bind (noteCases_forget id 0 branches _)
    intro after found
    exact .pure _ _
  | option pos leader terms parts =>
    apply Forgets.step
    intro (path, rets, skips)
    apply Forgets.step
    intro id
    apply Forgets.step
    intro draft
    apply Forgets.bind (noteSegments_forget parts draft)
    intro draft found
    exact .step fun _ => .step fun _ => .pure _ _
  | _ => exact .beside (item _ front) []

theorem noteThread_forget (items : List Item) (front : Front) :
    Forgets (thread items front) (noteThread items front) := by
  cases items with
  | nil => exact .pure _ _
  | cons i rest =>
    apply Forgets.bind (noteItem_forget i front)
    intro after found
    exact (noteThread_forget rest after).adding (found ++ ·)

theorem noteCases_forget (id : NodeId) (index : Nat) (branches : List Case) (path : Path) :
    Forgets (cases id index branches path) (noteCases id index branches path) := by
  cases branches with
  | nil => exact .pure _ _
  | cons c rest =>
    obtain ⟨weight, body⟩ := c
    apply Forgets.bind (noteThread_forget body _)
    intro front found
    exact (noteCases_forget id (index + 1) rest front.path).bind fun _ _ => .pure _ _

theorem noteSegments_forget (parts : List Segment) (draft : Draft) :
    Forgets (segments parts draft) (noteSegments parts draft) := by
  cases parts with
  | nil => exact .pure _ _
  | cons part rest =>
    obtain ⟨pos, role, body⟩ := part
    apply Forgets.step
    intro entry
    apply Forgets.bind (noteThread_forget body _)
    intro front found
    apply Forgets.step
    intro draft
    exact (noteSegments_forget rest draft).adding (found ++ ·)

end

end Build

end Storyline
