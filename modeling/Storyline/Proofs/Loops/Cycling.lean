import Storyline.Proofs.Loops.Executions

namespace Storyline

variable {script other : Script} {story : Story} {oracle : Oracle} {target : Target}
  {items rest left body : List Item} {past past' : List Event} {placed : Bool} {name : String}

section Leading

/-- Where the script goes to a label next, the walk comes to its node. -/
theorem Leads.arrives (h : Leads script story placed target items) (he : items = .goto name :: rest) :
    Runs (story.step oracle) (past, target) (past, .node name) := by
  induction h with
  | goto hb =>
    cases he
    exact .refl
  | node _ ih => exact ih he
  | onward hn _ ih =>
    refine .head ?_ (ih he)
    simp only [Story.step, hn]
  | _ => cases he

theorem Leads.ne_esc (h : Leads script story placed target items) : target ≠ .esc := by
  rintro rfl
  cases h

/-- What does some items and then goes to a label comes there with an execution of the items. -/
theorem Leads.through (hp : script.IsPlaced story) (hf : Script.Each Item.FallsThrough left)
    (h : Leads script story placed target (left ++ .goto name :: rest))
    (hr : Runs (other.step oracle) (past, left) (past', [])) :
    Runs (story.step oracle) (past, target) (past', .node name) := by
  have hrun := (Script.runs_append script (.goto name :: rest) hf hr).1
  obtain ⟨mid, hto, placed', hmid⟩ := Leads.forward_run hp hrun h
  exact hto.trans (hmid.arrives rfl)

end Leading

namespace Story

/-- One execution of the body happens while the walk goes from the start node back to it. -/
structure Round (story : Story) (body : List Item) (oracle : Oracle) (past past' : List Event) :
    Prop where
  execution : Runs (Script.step body oracle) (past, body) (past', [])
  walk : Relation.TransGen (fun s s' => story.step oracle s = some s') (past, .node story.start)
    (past', .node story.start)

/-- So many rounds, one after the other. -/
inductive Rounds (story : Story) (body : List Item) (oracle : Oracle) :
    Nat → List Event → List Event → Prop where
  | none {first} : Rounds story body oracle 0 first first
  | more {count first mid last} : story.Round body oracle first mid →
      Rounds story body oracle count mid last → Rounds story body oracle (count + 1) first last

/-- The walk of the story goes round the body. -/
structure Cycles (story : Story) (body : List Item) (oracle : Oracle) : Prop where
  /-- Every execution of the body is a round. -/
  round : ∀ past past', Runs (Script.step body oracle) (past, body) (past', []) →
    story.Round body oracle past past'
  /-- The walk never ends at a return or an escape. -/
  stays : ∀ past target, Runs (story.step oracle) ([], .node story.start) (past, target) →
    ∃ name, target = .node name
  /-- Wherever the walk has come to, it goes on until it is back. -/
  returns : oracle.Decides → ∀ past target,
    Runs (story.step oracle) ([], .node story.start) (past, target) →
    ∃ past', Runs (story.step oracle) (past, target) (past', .node story.start)
  /-- There is no last round. -/
  repeats : oracle.Decides → ∀ count, ∃ past, story.Rounds body oracle count [] past

variable {pos : Position} {tokens : List Token}

/-- The only label of a loop is its own. -/
theorem isPlaced_looped (hb : Script.Each Item.FallsThrough body)
    (h : Leads (Script.looped pos name body) story true (.node name) (body ++ [.goto name])) :
    (Script.looped pos name body).IsPlaced story := by
  intro label items hbehind
  rw [Script.behind_looped hb] at hbehind
  split at hbehind
  · next he =>
    obtain rfl := Option.some.inj hbehind
    exact he ▸ h
  · cases hbehind

/-- An execution of the body is a round. It takes a step, since something happens in it. -/
theorem round_of_leads (hb : Script.Each Item.FallsThrough body) (hne : body ≠ [])
    (h : Leads (Script.looped pos story.start body) story true (.node story.start)
      (body ++ [.goto story.start]))
    (hr : Runs (Script.step body oracle) (past, body) (past', [])) :
    story.Round body oracle past past' := by
  refine ⟨hr, ?_⟩
  have hwalk := h.through (isPlaced_looped hb h) hb hr
  rcases Relation.reflTransGen_iff_eq_or_transGen.mp hwalk with he | hw
  · have hpast : past' = past := congrArg Prod.fst he
    rcases (Script.runs_append body [] hb hr).2.2 with he | hl
    · exact absurd (congrArg Prod.snd he).symm hne
    · rw [hpast] at hl
      exact absurd hl (Nat.lt_irrefl _)
  · exact hw

/-- A story whose start node does a body and then goes to itself cycles. -/
theorem cycles_of_leads (hb : Script.Each Item.FallsThrough body) (hne : body ≠ [])
    (hv : Script.Each (Script.IsValid tokens) body)
    (h : Leads (Script.looped pos story.start body) story true (.node story.start)
      (body ++ [.goto story.start])) : story.Cycles body oracle := by
  have hplaced := isPlaced_looped hb h
  have hround (past past' : List Event)
      (hr : Runs (Script.step body oracle) (past, body) (past', [])) :
      story.Round body oracle past past' := round_of_leads hb hne h hr
  -- What is left of the script wherever the walk has come to.
  have hleft (past : List Event) (target : Target)
      (hr : Runs (story.step oracle) ([], .node story.start) (past, target)) :
      ∃ left placed, Leads (Script.looped pos story.start body) story placed target
        (left ++ [.goto story.start]) ∧ Script.Each Item.FallsThrough left ∧
        Script.Each (Script.IsValid tokens) left := by
    obtain ⟨items, hrun, placed, hl⟩ := Leads.backward_run hplaced hr h
    obtain ⟨left, rfl, hfalls, hvalid⟩ := Script.looped_left hb hv hrun
    exact ⟨left, placed, hl, hfalls, hvalid⟩
  refine ⟨hround, fun past target hr => ?_, fun hd past target hr => ?_, fun hd count => ?_⟩
  · obtain ⟨left, placed, hl, hfalls, -⟩ := hleft past target hr
    cases target with
    | node name => exact ⟨name, rfl⟩
    | esc => exact absurd rfl hl.ne_esc
    | ret =>
      have hhead := hl.ended
      cases left with
      | nil => cases hhead _ rfl
      | cons i left =>
        obtain rfl := hhead i rfl
        exact hfalls.1.elim
  · obtain ⟨left, placed, hl, hfalls, hvalid⟩ := hleft past target hr
    obtain ⟨past', hends⟩ : ∃ past', Runs (Script.step body oracle) (past, left) (past', []) :=
      Script.thread_ends hd left hfalls hvalid past
    exact ⟨past', hl.through hplaced hfalls hends⟩
  · generalize ([] : List Event) = past
    induction count generalizing past with
    | zero => exact ⟨past, .none⟩
    | succ count ih =>
      obtain ⟨mid, hends⟩ := Script.thread_ends hd body hb hv past
      obtain ⟨past', hrest⟩ := ih mid
      exact ⟨past', .more (hround past mid hends) hrest⟩

end Story

end Storyline
