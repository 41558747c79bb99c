import Storyline.Proofs.Names.Course

namespace Storyline

/-- The written names of the labels whose placeholders may wait among the ends of a front. -/
structure Waits where
  rets : List String
  escs : List String
deriving DecidableEq, Repr

namespace Stance

/-- A node takes the place of what stands here, but not of the placeholder of another branch. -/
def overwrite (st : Stance) : Course Stance :=
  if st.footing = .foreign then .doubtful else st.write

/-- At the placeholder of a loop, which takes the place of what stands here. -/
def reuse (st : Stance) : Course Stance :=
  if st.footing = .foreign then .doubtful else st.beginLoop

end Stance

mutual

/-- `guarded` is as in the course of the item; `frame` are the labels that may wait with the rules
around it. -/
def Item.waits (guarded frame : List String) : Item → Stance → Waits → Course Waits
  | .report _, _, w => .on w
  | .passed _, _, w => .on w
  | .cut, _, _ => .cut
  | .content .., st, w => do
    let _ ← st.overwrite
    return ⟨[], w.escs⟩
  | .ask _, st, w => do
    let _ ← st.overwrite
    return ⟨w.escs, []⟩
  | .call .., st, w => do
    let _ ← st.overwrite
    return ⟨[], w.escs⟩
  | .leave, _, w => .on ⟨[], w.escs⟩
  | .goto _, _, w => .on ⟨[], w.escs⟩
  | .label _ name _, st, w => do
    claimable ((w.escs ++ frame) ++ (st.skipped ++ guarded)) name
    return ⟨[name], w.escs⟩
  | .loop _ body, st, w => do
    let inside ← st.reuse
    let (_, after) ← Script.waits guarded (w.escs ++ frame) body inside ⟨inside.guards, []⟩
    return ⟨[], w.escs ++ after.escs⟩
  | .define _ name _ _ body, st, w => do
    let guarded := st.guards ++ guarded
    let frame := w.rets ++ w.escs ++ frame
    claimable (frame ++ (st.skipped ++ guarded)) name
    let _ ← Script.waits guarded frame body ⟨.free, name, st.skipped⟩ ⟨[], []⟩
    return w
  | .jump _ _ yes no, st, w => do
    let front ← st.overwrite
    let frame := w.escs ++ frame
    let (after, yes) ← Script.waits guarded frame yes front ⟨[], []⟩
    let frame := yes.rets ++ yes.escs ++ frame
    let (_, no) ← Script.waits guarded frame no after.nextBranch ⟨[], []⟩
    return ⟨yes.rets ++ no.rets, w.escs ++ (yes.escs ++ no.escs)⟩
  | .switch _ _ found, st, w => do
    let front ← st.overwrite
    let after ← Script.caseWaits guarded (w.escs ++ frame) found front
    return ⟨after.rets, w.escs ++ after.escs⟩
  | .option _ _ _ parts, st, w => do
    let front ← st.overwrite
    let escs ← Script.segmentWaits guarded (w.escs ++ frame) parts front []
    let (after, advancing) ← Script.segmentCourse guarded parts false front
    let _ ← if advancing then pure after else after.overwrite
    return ⟨[], w.escs ++ escs⟩

def Script.waits (guarded frame : List String) :
    List Item → Stance → Waits → Course (Stance × Waits)
  | [], st, w => .on (st, w)
  | i :: rest, st, w => do
    let after ← i.course guarded st
    let left ← i.waits guarded frame st w
    Script.waits guarded frame rest after left

def Script.caseWaits (guarded frame : List String) : List Case → Stance → Course Waits
  | [], _ => .on ⟨[], []⟩
  | .mk _ body :: rest, st => do
    let (after, here) ← Script.waits guarded frame body st ⟨[], []⟩
    let others ← Script.caseWaits guarded (here.rets ++ here.escs ++ frame) rest after.nextBranch
    return ⟨here.rets ++ others.rets, here.escs ++ others.escs⟩

/-- `escs` are the labels that wait with the parts before. -/
def Script.segmentWaits (guarded frame : List String) :
    List Segment → Stance → List String → Course (List String)
  | [], _, escs => .on escs
  | .mk _ role body :: rest, st, escs => do
    let inside ← st.beginPart
    let (after, here) ← Script.waits guarded (escs ++ frame) body inside ⟨[], []⟩
    let advancing := rest.isEmpty && role == .answer && after.footing != .entry
    let last ← after.endPart advancing
    let kept := if advancing then here.escs ++ here.rets else here.escs
    Script.segmentWaits guarded frame rest last (escs ++ kept)

end

/-- The walk over a whole script. -/
def Script.wholeWaits (start : String) (items : Script) : Course (Stance × Waits) :=
  Script.waits [] [] items ⟨.label, start, []⟩ ⟨[start], []⟩

end Storyline
