import Storyline.Script.Linking

namespace Storyline

/-- What stands at the next free path. -/
inductive Footing where
  | free
  /-- The placeholder of a loop or of a part of an option, which leads on from here. -/
  | entry
  /-- The placeholder of a label, which leads on from here. -/
  | label
  /-- The placeholder of a label that another branch ended in. -/
  | foreign
  /-- A node that stays. -/
  | taken
deriving DecidableEq, Repr

/-- Where a walk is: the footing, the written name of the label around it, and the written names of
the labels whose placeholder was passed by. -/
structure Stance where
  footing : Footing
  label : String
  skipped : List String
deriving DecidableEq, Repr

/-- How far a walk comes. -/
inductive Course (α : Type) where
  | on (a : α)
  /-- A name is written at twice. -/
  | clash
  /-- The tokens end. -/
  | cut
  /-- A label may start over whose placeholder waits while nodes stand below it. -/
  | doubtful
deriving DecidableEq, Repr

namespace Course

def bind {α β : Type} : Course α → (α → Course β) → Course β
  | on a, f => f a
  | clash, _ => clash
  | cut, _ => cut
  | doubtful, _ => doubtful

instance : Monad Course where
  pure := on
  bind := bind

end Course

/-- A label written as `name` may be the one that `label` was written for, or a numbered copy. -/
def reopens (name label : String) : Bool :=
  name == label || (label.toList ++ ['\'']).isPrefixOf name.toList

namespace Stance

def write (st : Stance) : Course Stance :=
  if st.footing = .taken then .clash else .on { st with footing := .free }

/-- After the flow was sent elsewhere. -/
def turn (st : Stance) : Stance where
  footing := .free
  label := st.label
  skipped := if st.footing = .foreign then st.label :: st.skipped else st.skipped

/-- At the placeholder of a loop. -/
def beginLoop (st : Stance) : Course Stance :=
  match st.footing with
  | .taken => .clash
  | .label | .foreign => .on { st with footing := .label }
  | .free | .entry => .on { st with footing := .entry }

/-- After a loop; its placeholder stays if it is still there. -/
def endLoop (st : Stance) : Course Stance :=
  match st.footing with
  | .entry | .label => .on { st with footing := .taken }
  | .free | .taken => .on st
  | .foreign => .doubtful

/-- At the placeholder of a part of an option. -/
def beginPart (st : Stance) : Course Stance :=
  match st.footing with
  | .taken => .clash
  | .free => .on { st with footing := .entry }
  | _ => .doubtful

/-- After a part of an option. A part that wrote nothing leaves nothing; any other placeholder
stays, unless the flow goes on from it. -/
def endPart (advancing : Bool) (st : Stance) : Course Stance :=
  match st.footing with
  | .entry => .on { st with footing := .free }
  | .label => .on (if advancing then st else { st with footing := .taken })
  | .free | .taken => .on st
  | .foreign => .doubtful

/-- In the next branch. -/
def nextBranch (st : Stance) : Stance :=
  match st.footing with
  | .label => { st with footing := .foreign }
  | _ => st

/-- The labels that must not start over in a subroutine defined here. -/
def guards (st : Stance) : List String :=
  match st.footing with
  | .label | .foreign => [st.label]
  | _ => []

end Stance

/-- The label `name`, which must not be one of `avoid`. -/
def claimable (avoid : List String) (name : String) : Course Unit :=
  if avoid.any (reopens name) then .doubtful else .on ()

mutual

/-- `guarded` are the labels of the places that definitions around the item return to. -/
def Item.course (guarded : List String) : Item → Stance → Course Stance
  | .report _, st => .on st
  | .passed _, st => .on st
  | .cut, _ => .cut
  | .content .., st => st.write
  | .ask _, st => st.write
  | .call .., st => st.write
  | .leave, st => .on st.turn
  | .goto _, st => .on st.turn
  | .label _ name _, st => do
    claimable (st.skipped ++ guarded) name
    return ⟨.label, name, st.skipped⟩
  | .loop _ body, st => do
    let inside ← st.beginLoop
    let after ← Script.course guarded body inside
    after.endLoop
  | .define _ name _ _ body, st => do
    let guarded := st.guards ++ guarded
    claimable (st.skipped ++ guarded) name
    let after ← Script.course guarded body ⟨.free, name, st.skipped⟩
    return { st with skipped := st.guards ++ after.skipped }
  | .jump _ _ yes no, st => do
    let front ← st.write
    let yes ← Script.course guarded yes front
    let no ← Script.course guarded no yes.nextBranch
    return { front with skipped := no.skipped }
  | .switch _ _ found, st => do
    let front ← st.write
    let after ← Script.caseCourse guarded found front
    return { front with skipped := after.skipped }
  | .option _ _ _ parts, st => do
    let front ← st.write
    let (after, advancing) ← Script.segmentCourse guarded parts false front
    let after ← if advancing then pure after else after.write
    return { front with skipped := after.skipped }

def Script.course (guarded : List String) : List Item → Stance → Course Stance
  | [], st => .on st
  | i :: rest, st => do
    let st ← i.course guarded st
    Script.course guarded rest st

def Script.caseCourse (guarded : List String) : List Case → Stance → Course Stance
  | [], st => .on st
  | .mk _ body :: rest, st => do
    let after ← Script.course guarded body st
    Script.caseCourse guarded rest after.nextBranch

/-- Whether the last part goes on after the next prompt is handed along. -/
def Script.segmentCourse (guarded : List String) :
    List Segment → Bool → Stance → Course (Stance × Bool)
  | [], advancing, st => .on (st, advancing)
  | .mk _ role body :: rest, _, st => do
    let inside ← st.beginPart
    let after ← Script.course guarded body inside
    let advancing := rest.isEmpty && role == .answer && after.footing != .entry
    let after ← after.endPart advancing
    Script.segmentCourse guarded rest advancing after

end

/-- The course of a whole script. -/
def Script.wholeCourse (start : String) (items : Script) : Course Stance :=
  Script.course [] items ⟨.label, start, []⟩

end Storyline
