import Storyline.Proofs.Definitions.Noting
import Storyline.Proofs.Names.Status

namespace Storyline

/-- The label is given to some definition of some name in some story. -/
def Build.Claimable (label : String) : Prop :=
  ∃ name seen story after, Build.claim name seen story = .ok label after

/-- A label is a name without a numeric part, or a numbered copy. -/
theorem Definition.isLabel_label (d : Definition) : IsLabel d.label := by
  unfold label
  split
  · obtain ⟨n, hn⟩ := d.story.freshLabel_eq d.name
    rw [hn]
    exact isLabel_numbered d.name n
  · next h =>
    simp only [Bool.or_eq_true, not_or, Bool.not_eq_true] at h
    exact isLabel_of_not_numeric h.1

theorem Build.Claimable.isLabel {label : String} (h : Claimable label) : IsLabel label := by
  obtain ⟨name, seen, story, after, hclaim⟩ := h
  rw [claim_eq] at hclaim
  cases hclaim
  exact Definition.isLabel_label ⟨name, seen, story⟩

namespace Path

inductive Step where
  | next
  | firstChild
  | zerothChild
deriving DecidableEq, Repr

def step (p : Path) : Step → Path
  | .next => p.next
  | .firstChild => p.firstChild
  | .zerothChild => p.zerothChild

/-- Where some steps lead from the entry of a label. -/
def walk (label : String) (steps : List Step) : Path := steps.foldl step (root label)

theorem label_step (p : Path) (s : Step) : (p.step s).label = p.label := by
  cases s <;> rfl

theorem label_walk (label : String) (steps : List Step) : (walk label steps).label = label := by
  have more (p : Path) : (steps.foldl step p).label = p.label := by
    induction steps generalizing p with
    | nil => rfl
    | cons s rest ih => rw [List.foldl_cons, ih, label_step]
  exact more (root label)

/-- Two walks from labels that definitions may get come to one name only at one place of one label. So
no path has the name of another label, or of a path below one. -/
theorem walk_name_determines {label label' : String} (hl : Build.Claimable label)
    (hl' : Build.Claimable label') :
    (∀ steps steps', (walk label steps).name = (walk label' steps').name →
      label = label' ∧ (walk label steps).indices = (walk label' steps').indices ∧
        walk label steps = walk label' steps') ∧
    ∀ steps, (walk label steps).name = label' → label = label' ∧ walk label steps = root label := by
  have same (steps steps' : List Step) (h : (walk label steps).name = (walk label' steps').name) :
      walk label steps = walk label' steps' := by
    refine name_injective ?_ ?_ h
    · rw [label_walk]
      exact hl.isLabel
    · rw [label_walk]
      exact hl'.isLabel
  refine ⟨fun steps steps' h => ?_, fun steps h => ?_⟩
  · have hpath := same steps steps' h
    have hlabel := congrArg Path.label hpath
    rw [label_walk, label_walk] at hlabel
    exact ⟨hlabel, congrArg indices hpath, hpath⟩
  · have hpath := same steps [] (h.trans (name_root label').symm)
    have hlabel := congrArg Path.label hpath
    rw [label_walk, label_walk] at hlabel
    exact ⟨hlabel, hlabel ▸ hpath⟩

/-- The numbered copy of `a.1` keeps its number inside; below it and below `a` lie different names. -/
theorem walk_name_determines_numbered :
    Build.Claimable "a.1'2" ∧ Build.Claimable "a" ∧
    (walk "a.1'2" [.next]).name ≠ (walk "a" [.next, .firstChild]).name ∧
    (walk "a" [.next, .firstChild]).name ≠ "a.1'2" := by
  have hcopy : Build.Claimable "a.1'2" := by
    have hlabel : Definition.label ⟨"a.1", default, .empty "start"⟩ = "a.1'2" := by decide +kernel
    exact ⟨"a.1", default, .empty "start", _, hlabel ▸ Build.claim_eq _ _ _⟩
  have hplain : Build.Claimable "a" := by
    have hlabel : Definition.label ⟨"a", default, .empty "start"⟩ = "a" := by decide +kernel
    exact ⟨"a", default, .empty "start", _, hlabel ▸ Build.claim_eq _ _ _⟩
  have hne : "a.1'2" ≠ "a" := by decide
  refine ⟨hcopy, hplain, fun h => ?_, fun h => ?_⟩
  · exact hne ((walk_name_determines hcopy hplain).1 _ _ h).1
  · exact hne ((walk_name_determines hplain hcopy).2 _ h).1.symm

end Path

end Storyline
