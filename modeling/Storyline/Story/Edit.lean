import Storyline.Story.Build

namespace Storyline

/-- Single changes to a story as data, so that a history of changes is a list. -/
inductive Edit where
  | create (path : Path) (body : Body) (pos : Position)
  | createPlaceholder (path : Path) (pos : Position)
  | discard (id : NodeId)
  | tie (target : Target) (ends : List LooseEnd)
  | setBody (id : NodeId) (body : Body)
  | report (pos : Position) (mistake : Mistake)
  | check
deriving Repr, Inhabited

/-- What a change says about itself. -/
inductive Edit.Answer where
  | created (id : NodeId)
  | changed (b : Bool)
  | done
deriving DecidableEq, Repr, Inhabited

namespace Edit

def build : Edit → Build Answer
  | create path body pos => return .created (← Build.create path body pos)
  | createPlaceholder path pos => return .created (← Build.createPlaceholder path pos)
  | discard id => return .changed (← Build.discard id)
  | tie target ends => do
    Build.tie target ends
    return .done
  | setBody id body => return .changed (← Build.setBody id body)
  | report pos mistake => do
    Build.report pos mistake
    return .done
  | check => do
    Build.check
    return .done

/-- The story after a change; a change that fails midway keeps what it did before. -/
def apply (edit : Edit) (story : Story) : Except BuildError Answer × Story :=
  match edit.build story with
  | .ok answer story => (.ok answer, story)
  | .error e story => (.error e, story)

/-- The story after a history of changes, some of which may have failed. -/
def applyAll (edits : List Edit) (story : Story) : Story :=
  edits.foldl (fun story edit => (edit.apply story).2) story

end Edit

end Storyline
