import Storyline.Proofs.Linking
import Storyline.Proofs.Options.Within

namespace Storyline.Build

/-- A rule with its arguments. -/
inductive Task where
  | item (i : Item) (front : Front)
  | thread (items : List Item) (front : Front)
  | cases (id : NodeId) (index : Nat) (found : List Case) (path : Path)
  | segments (parts : List Segment) (draft : Draft)

/-- The loose ends handed to the rule. -/
@[simp] def Task.held : Task → List LooseEnd
  | item _ front => front.held
  | thread _ front => front.held
  | cases id index found _ => caseEnds id index found
  | segments _ draft => draft.escs

/-- The rule, at work from the story, comes to call another one, and holds these ends meanwhile. -/
inductive Calls : Task → Story → List LooseEnd → Task → Story → Prop where
  | head {i rest front story} : Calls (.thread (i :: rest) front) story [] (.item i front) story
  | tail {i rest front story front' mid} (hi : item i front story = .ok front' mid) :
      Calls (.thread (i :: rest) front) story [] (.thread rest front') mid
  | loop {pos body front story entry s mid}
      (hentry : createPlaceholder front.path pos story = .ok entry s)
      (hties : tieTo front.path front.ends.rets s = .ok () mid) :
      Calls (.item (.loop pos body) front) story front.ends.escs
        (.thread body (entering front.path (nextEnd entry))) mid
  | define {pos name params seen body front story label s id mid}
      (hclaim : claim name seen story = .ok label s)
      (hid : create (.root label) (.define params none) pos s = .ok id mid) :
      Calls (.item (.define pos name params seen body) front) story front.held
        (.thread body (entering (Path.root label).next (nextEnd id))) mid
  | yes {pos condition yes no front story id mid}
      (hid : arrive front (.jump condition.inverted none none) pos story = .ok id mid) :
      Calls (.item (.jump pos condition yes no) front) story (front.ends.escs ++ [⟨id, .branch⟩])
        (.thread yes (entering front.path.firstChild (nextEnd id))) mid
  | no {pos condition yes no front story id s front' mid}
      (hid : arrive front (.jump condition.inverted none none) pos story = .ok id s)
      (hyes : thread yes (entering front.path.firstChild (nextEnd id)) s = .ok front' mid) :
      Calls (.item (.jump pos condition yes no) front) story (front.ends.escs ++ front'.held)
        (.thread no (entering front'.path ⟨id, .branch⟩)) mid
  | switch {pos selection found front story id mid}
      (hid : arrive front (selection.body front.path found) pos story = .ok id mid) :
      Calls (.item (.switch pos selection found) front) story
        (front.ends.escs ++ selection.fallThrough id) (.cases id 0 found front.path.firstChild) mid
  | option {pos leader terms parts front story path rets skips s id s' draft mid}
      (hguards : guards pos (terms.ledBy leader front.path).guards front.path front.ends.rets story =
        .ok (path, rets, skips) s)
      (hid : arrive ⟨path, rets, []⟩
        (.option [] [] (Body.wordSet (terms.ledBy leader front.path).keywords) none) pos s = .ok id s')
      (hdraft : consequences pos (terms.ledBy leader front.path).consequences
        ⟨path.firstChild, [], [], [], false⟩ s' = .ok draft mid) :
      Calls (.item (.option pos leader terms parts) front) story
        (front.ends.escs ++ skips ++ [nextEnd id]) (.segments parts draft) mid
  | case {id index weight body rest path story} :
      Calls (.cases id index (.mk weight body :: rest) path) story (caseEnds id (index + 1) rest)
        (.thread body (entering path ⟨id, .case index⟩)) story
  | cases {id index weight body rest path story front mid}
      (hbody : thread body (entering path ⟨id, .case index⟩) story = .ok front mid) :
      Calls (.cases id index (.mk weight body :: rest) path) story front.held
        (.cases id (index + 1) rest front.path) mid
  | part {pos role body rest draft story entry mid}
      (hentry : createPlaceholder draft.path pos story = .ok entry mid) :
      Calls (.segments (.mk pos role body :: rest) draft) story draft.escs
        (.thread body (entering draft.path (nextEnd entry))) mid
  | parts {pos role body rest draft story entry s front s' draft' mid}
      (hentry : createPlaceholder draft.path pos story = .ok entry s)
      (hbody : thread body (entering draft.path (nextEnd entry)) s = .ok front s')
      (hsettle : settle role rest.isEmpty entry front draft s' = .ok draft' mid) :
      Calls (.segments (.mk pos role body :: rest) draft) story [] (.segments rest draft') mid

/-- From one rule the calls lead to another; the rules in between hold these ends. -/
inductive Reaches : Task → Story → List LooseEnd → Task → Story → Prop where
  | refl (task : Task) (story : Story) : Reaches task story [] task story
  | step {task story frame mid between frame' sub after} (h : Calls task story frame mid between)
      (h' : Reaches mid between frame' sub after) :
      Reaches task story (frame ++ frame') sub after

section Held

variable {E : BuildError → Prop} {I : List LooseEnd → Story → Prop} {task sub : Task}
  {story after : Story} {outer frame : List LooseEnd}

/-- A rule that calls another one goes on holding all it was handed but what it hands on. -/
theorem Kept.calls (k : Kept E I) (h : Calls task story frame sub after)
    (hi : I (outer ++ task.held) story) : I (outer ++ frame ++ sub.held) after := by
  cases h with
  | head => simpa using hi
  | tail hrun => simpa using (k.item _ _ hi).of_ok hrun
  | @loop pos body front story entry s mid hentry hties =>
    have hs := (k.placeholder _ _ hi).of_ok hentry
    have hp := front.held_perm_entry outer (nextEnd entry)
    exact (k.tie _ _ (k.perm hp hs)).of_ok hties
  | define hclaim hid =>
    have hs := (k.claim _ _ hi).of_ok hclaim
    exact (k.create _ _ (isOpen_define _) hs).of_ok hid
  | yes hid => simpa [Front.held, entering] using (k.writeJump _ _ _ hi).of_ok hid
  | @no pos condition yes no front story id s front' mid hid hyes =>
    have hs := (k.writeJump _ _ _ hi).of_ok hid
    have hs' := (k.thread yes (entering front.path.firstChild (nextEnd id)) hs).of_ok hyes
    simpa using k.perm (branch_perm _ id front') hs'
  | switch hid => simpa using (k.writeSwitch _ _ _ _ hi).of_ok hid
  | @option pos leader terms parts front story path rets skips s id s' draft mid hguards hid hdraft =>
    have hp := front.held_perm outer
    have hs := (k.guards pos _ front.path front.ends.rets (k.perm hp hi)).of_ok hguards
    have hs' := (k.writeOption path _ pos hs).of_ok hid
    have hmade : I (outer ++ front.ends.escs ++ skips ++ [nextEnd id] ++
        (Draft.mk path.firstChild [] [] [] false).escs) s' := by
      simpa using hs'
    simpa using (k.consequences pos _ _ hmade).of_ok hdraft
  | @case id index weight body rest path story =>
    exact k.perm (caseEnds_perm outer id index (.mk weight body) rest) hi
  | @cases id index weight body rest path story front mid hbody =>
    have hp := caseEnds_perm outer id index (.mk weight body) rest
    have hs := (k.thread body (entering path ⟨id, .case index⟩) (k.perm hp hi)).of_ok hbody
    refine k.perm ?_ hs
    exact List.perm_iff_count.mpr fun e => by simp only [Task.held, List.count_append]; omega
  | part hentry => exact (k.placeholder _ _ hi).of_ok hentry
  | parts hentry hbody hsettle =>
    have hs := (k.placeholder _ _ hi).of_ok hentry
    have hs' := (k.thread _ (entering _ _) hs).of_ok hbody
    simpa using (k.settle _ _ _ _ _ hs').of_ok hsettle

/-- What the rules on the way hold stays with them. -/
theorem Kept.reaches (k : Kept E I) (h : Reaches task story frame sub after)
    (hi : I (outer ++ task.held) story) : I (outer ++ frame ++ sub.held) after := by
  induction h generalizing outer with
  | refl task story => simpa using hi
  | step h _ ih => simpa only [List.append_assoc] using ih (k.calls h hi)

end Held

section Within

variable {story after : Story} {i : Item} {body : List Item}

theorem Reaches.single {task sub : Task} {frame : List LooseEnd} (h : Calls task story frame sub after) :
    Reaches task story frame sub after := by
  simpa using Reaches.step h (.refl sub after)

theorem Reaches.trans {task mid sub : Task} {between : Story} {frame frame' : List LooseEnd}
    (h : Reaches task story frame mid between) (h' : Reaches mid between frame' sub after) :
    Reaches task story (frame ++ frame') sub after := by
  induction h with
  | refl task story => exact h'
  | step h _ ih =>
    rw [List.append_assoc]
    exact .step h (ih h')

/-- The rule comes to link the thread, to its end. -/
def Performs (task : Task) (story : Story) (body : List Item) : Prop :=
  ∃ frame front before front' mid, Reaches task story frame (.thread body front) before ∧
    thread body front before = .ok front' mid

theorem Performs.of_calls {task sub : Task} {between : Story} {frame : List LooseEnd}
    (h : Calls task story frame sub between) (h' : Performs sub between body) :
    Performs task story body := by
  obtain ⟨frame', front, before, front', mid, hreach, hrun⟩ := h'
  exact ⟨_, front, before, front', mid, .step h hreach, hrun⟩

theorem performs_case {id : NodeId} {found : List Case} (index : Nat) (path : Path) {front : Front}
    (h : cases id index found path story = .ok front after) {c : Case} (hc : c ∈ found) :
    Performs (.cases id index found path) story c.body := by
  induction found generalizing index path front story after with
  | nil => cases hc
  | cons first rest ih =>
    obtain ⟨weight, first⟩ := first
    rw [cases] at h
    obtain ⟨front', mid, hbody, h⟩ := of_run_bind h
    rcases List.mem_cons.mp hc with rfl | hc
    · exact ⟨_, _, _, _, _, .single .case, hbody⟩
    · obtain ⟨more, last, hrest, -⟩ := of_run_bind h
      exact .of_calls (.cases hbody) (ih (index + 1) front'.path hrest hc)

theorem performs_part {parts : List Segment} (draft : Draft) {draft' : Draft}
    (h : segments parts draft story = .ok draft' after) {part : Segment} (hp : part ∈ parts) :
    Performs (.segments parts draft) story part.body := by
  induction parts generalizing draft story with
  | nil => cases hp
  | cons first rest ih =>
    obtain ⟨pos, role, first⟩ := first
    rw [segments] at h
    obtain ⟨entry, s, hentry, h⟩ := of_run_bind h
    obtain ⟨front, s', hbody, h⟩ := of_run_bind h
    rcases List.mem_cons.mp hp with rfl | hp
    · exact ⟨_, _, _, _, _, .single (.part hentry), hbody⟩
    · obtain ⟨next, s'', hsettle, h⟩ := of_run_bind h
      exact .of_calls (.parts hentry hbody hsettle) (ih next h hp)

/-- An item that is linked to its end links the threads it holds. -/
theorem performs_bodies {front front' : Front} (h : item i front story = .ok front' after)
    (hb : body ∈ i.bodies) : Performs (.item i front) story body := by
  cases i with
  | loop pos inside =>
    obtain rfl := List.mem_singleton.mp hb
    rw [item] at h
    obtain ⟨entry, s, hentry, h⟩ := of_run_bind h
    obtain ⟨⟨⟩, s', hties, h⟩ := of_run_bind h
    obtain ⟨last, mid, hbody, -⟩ := of_run_bind h
    exact ⟨_, _, _, _, _, .single (.loop hentry hties), hbody⟩
  | define pos name params seen inside =>
    obtain rfl := List.mem_singleton.mp hb
    rw [item] at h
    obtain ⟨label, s, hclaim, h⟩ := of_run_bind h
    obtain ⟨id, s', hid, h⟩ := of_run_bind h
    obtain ⟨last, mid, hbody, -⟩ := of_run_bind h
    exact ⟨_, _, _, _, _, .single (.define hclaim hid), hbody⟩
  | jump pos condition yes no =>
    rw [item] at h
    obtain ⟨id, s, hid, h⟩ := of_run_bind h
    obtain ⟨front₁, s', hyes, h⟩ := of_run_bind h
    obtain ⟨front₂, mid, hno, -⟩ := of_run_bind h
    rcases List.mem_cons.mp hb with rfl | hb
    · exact ⟨_, _, _, _, _, .single (.yes hid), hyes⟩
    · obtain rfl := List.mem_singleton.mp hb
      exact ⟨_, _, _, _, _, .single (.no hid hyes), hno⟩
  | switch pos selection found =>
    obtain ⟨c, hc, rfl⟩ := List.mem_map.mp hb
    rw [item] at h
    obtain ⟨id, s, hid, h⟩ := of_run_bind h
    obtain ⟨last, mid, hcases, -⟩ := of_run_bind h
    exact .of_calls (.switch hid) (performs_case 0 _ hcases hc)
  | option pos leader terms parts =>
    obtain ⟨part, hp, rfl⟩ := List.mem_map.mp hb
    rw [item] at h
    obtain ⟨⟨path, rets, skips⟩, s, hguards, h⟩ := of_run_bind h
    obtain ⟨id, s', hid, h⟩ := of_run_bind h
    obtain ⟨draft, s'', hdraft, h⟩ := of_run_bind h
    obtain ⟨last, mid, hparts, -⟩ := of_run_bind h
    exact .of_calls (.option hguards hid hdraft) (performs_part draft hparts hp)
  | _ => cases hb

/-- Every item of a thread that is linked to its end is reached, and is linked to its end itself. -/
theorem reaches_within {items : List Item} (hi : i.Within items) {front front' : Front}
    (h : thread items front story = .ok front' after) :
    ∃ frame found before found' mid, Reaches (.thread items front) story frame (.item i found) before ∧
      item i found before = .ok found' mid := by
  induction hi generalizing front story front' after with
  | here =>
    rw [thread] at h
    obtain ⟨found', mid, hrun, -⟩ := of_run_bind h
    exact ⟨_, _, _, found', mid, .single .head, hrun⟩
  | later _ ih =>
    rw [thread] at h
    obtain ⟨found', mid, hrun, h⟩ := of_run_bind h
    obtain ⟨frame, found, before, last, s, hreach, hitem⟩ := ih h
    exact ⟨_, found, before, last, s, .step (.tail hrun) hreach, hitem⟩
  | inside hb _ ih =>
    rw [thread] at h
    obtain ⟨found', mid, hrun, -⟩ := of_run_bind h
    obtain ⟨frame, entered, s, left, s', hreach, hbody⟩ := performs_bodies hrun hb
    obtain ⟨frame', found, before, last, s'', hreach', hitem⟩ := ih hbody
    exact ⟨_, found, before, last, s'', .step .head (hreach.trans hreach'), hitem⟩

end Within

end Storyline.Build
