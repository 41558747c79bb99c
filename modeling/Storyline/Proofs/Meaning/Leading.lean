import Storyline.Proofs.Meaning.Running

namespace Storyline

variable {script : Script} {story : Story} {oracle : Oracle} {target : Target} {items : List Item}
  {past : List Event}

/-- The target does what is left of the script. With `placed`, the node of the target does it,
otherwise it may be that the items lead to the target themselves. -/
inductive Leads (script : Script) (story : Story) : Bool → Target → List Item → Prop where
  | done : Leads script story false .ret []
  | leave {rest} : Leads script story false .ret (.leave :: rest)
  | goto {label rest items} : Script.behind label script = some items →
      Leads script story false (.node label) (.goto label :: rest)
  | label {pos name seen rest} : Script.behind name script = some rest →
      Leads script story false (.node name) (.label pos name seen :: rest)
  | node {name items} : Leads script story true (.node name) items →
      Leads script story false (.node name) items
  | content {name pos c target rest} :
      (story.get? name).map Node.body = some (.content c (some target)) →
      Leads script story false target rest →
      Leads script story true (.node name) (.content pos c :: rest)
  | jump {name pos condition yes no first second rest} :
      (story.get? name).map Node.body =
        some (.jump condition.inverted (some second) (some first)) →
      Leads script story false first (yes ++ rest) → Leads script story false second (no ++ rest) →
      Leads script story true (.node name) (.jump pos condition yes no :: rest)
  | switch {name pos selection found counter value branches next rest} (follow : Option Nat → Target) :
      (story.get? name).map Node.body = some (.switch selection.mode counter value branches
        (found.map Case.weight) next) →
      (∀ choice, Story.chosen selection.mode branches next choice =
        (Script.chosen selection found choice).map fun _ => follow choice) →
      (∀ choice body, Script.chosen selection found choice = some body →
        Leads script story false (follow choice) (body ++ rest)) →
      Leads script story true (.node name) (.switch pos selection found :: rest)
  | onward {name target items} : (story.get? name).map Node.body = some (.goto (some target)) →
      Leads script story false target items → Leads script story true (.node name) items

/-- Every label is the name of a node that does what stands behind it. -/
def Script.IsPlaced (script : Script) (story : Story) : Prop :=
  ∀ label items, Script.behind label script = some items →
    Leads script story true (.node label) items

/-- What the script does next the story does too. -/
theorem Leads.forward {placed : Bool} {past' : List Event} {items' : List Item}
    (hp : script.IsPlaced story) (h : Leads script story placed target items)
    (hs : script.step oracle (past, items) = some (past', items')) :
    ∃ target', Runs (story.step oracle) (past, target) (past', target') ∧
      ∃ placed', Leads script story placed' target' items' := by
  induction h with
  | done => cases hs
  | leave => cases hs
  | @goto label rest items hb =>
    simp only [Script.step, hb, Option.map_some, Option.some.injEq, Prod.mk.injEq] at hs
    obtain ⟨rfl, rfl⟩ := hs
    exact ⟨_, .refl, true, hp label _ hb⟩
  | @label pos name seen rest hb =>
    simp only [Script.step, Option.some.injEq, Prod.mk.injEq] at hs
    obtain ⟨rfl, rfl⟩ := hs
    exact ⟨_, .refl, true, hp name _ hb⟩
  | node _ ih => exact ih hs
  | @content name pos c target rest hn hl _ =>
    simp only [Script.step, Option.some.injEq, Prod.mk.injEq] at hs
    obtain ⟨rfl, rfl⟩ := hs
    refine ⟨target, .single ?_, false, hl⟩
    simp only [Story.step, hn]
  | @jump name pos condition yes no first second rest hn hy hno _ _ =>
    simp only [Script.step, Option.some.injEq, Prod.mk.injEq] at hs
    obtain ⟨rfl, rfl⟩ := hs
    refine ⟨if oracle.holds past condition then first else second, .single ?_, false, ?_⟩
    · simp only [Story.step, hn, oracle.opposite]
      cases oracle.holds past condition <;> rfl
    · split
      · exact hy
      · exact hno
  | @switch name pos selection found counter value branches next rest follow hn hf hl _ =>
    simp only [Script.step] at hs
    cases hc : Script.chosen selection found
      (oracle.picks past selection.mode (found.map Case.weight)) with
    | none => simp [hc] at hs
    | some body =>
      simp only [hc, Option.map_some, Option.some.injEq, Prod.mk.injEq] at hs
      obtain ⟨rfl, rfl⟩ := hs
      refine ⟨_, .single ?_, false, hl _ body hc⟩
      simp only [Story.step, hn, hf, hc, Option.map_some]
  | @onward name target items hn _ ih =>
    obtain ⟨target', hr, hl⟩ := ih hs
    refine ⟨target', .head ?_ hr, hl⟩
    simp only [Story.step, hn]

/-- A node does what the script does next, or goes on to another node. -/
theorem Leads.backward_placed {past' : List Event} {name : String} {target' : Target}
    (h : Leads script story true (.node name) items)
    (hs : story.step oracle (past, .node name) = some (past', target')) :
    ∃ items', Runs (script.step oracle) (past, items) (past', items') ∧
      Leads script story false target' items' := by
  cases h with
  | content hn hl =>
    simp only [Story.step, hn, Option.some.injEq, Prod.mk.injEq] at hs
    obtain ⟨rfl, rfl⟩ := hs
    exact ⟨_, .single rfl, hl⟩
  | @jump _ pos condition yes no first second rest hn hy hno =>
    simp only [Story.step, hn, oracle.opposite, Option.some.injEq, Prod.mk.injEq] at hs
    obtain ⟨rfl, rfl⟩ := hs
    refine ⟨_, .single rfl, ?_⟩
    cases oracle.holds past condition with
    | true => exact hy
    | false => exact hno
  | @switch _ pos selection found counter value branches next rest follow hn hf hl =>
    simp only [Story.step, hn, hf] at hs
    cases hc : Script.chosen selection found
      (oracle.picks past selection.mode (found.map Case.weight)) with
    | none => simp [hc] at hs
    | some body =>
      simp only [hc, Option.map_some, Option.some.injEq, Prod.mk.injEq] at hs
      obtain ⟨rfl, rfl⟩ := hs
      refine ⟨body ++ rest, .single ?_, hl _ body hc⟩
      simp only [Script.step, hc, Option.map_some]
  | onward hn hl =>
    simp only [Story.step, hn, Option.some.injEq, Prod.mk.injEq] at hs
    obtain ⟨rfl, rfl⟩ := hs
    exact ⟨_, .refl, hl⟩

/-- What the story does next the script does too. -/
theorem Leads.backward {placed : Bool} {past' : List Event} {target' : Target}
    (hp : script.IsPlaced story) (h : Leads script story placed target items)
    (hs : story.step oracle (past, target) = some (past', target')) :
    ∃ items', Runs (script.step oracle) (past, items) (past', items') ∧
      Leads script story false target' items' := by
  have placed_case {name : String} {items : List Item} (h : Leads script story true (.node name) items)
      (hs : story.step oracle (past, .node name) = some (past', target')) :=
    h.backward_placed hs
  cases h with
  | done => cases hs
  | leave => cases hs
  | @goto label rest items hb =>
    obtain ⟨items', hr, hl⟩ := (hp label items hb).backward_placed hs
    refine ⟨items', .head ?_ hr, hl⟩
    simp only [Script.step, hb, Option.map_some]
  | @label pos name seen rest hb =>
    obtain ⟨items', hr, hl⟩ := (hp name rest hb).backward_placed hs
    exact ⟨items', .head rfl hr, hl⟩
  | node h => exact h.backward_placed hs
  | content hn hl => exact placed_case (.content hn hl) hs
  | jump hn hy hno => exact placed_case (.jump hn hy hno) hs
  | switch follow hn hf hl => exact placed_case (.switch follow hn hf hl) hs
  | onward hn hl => exact placed_case (.onward hn hl) hs

/-- Where the script ends the story comes to its end. -/
theorem Leads.ends {placed : Bool} (h : Leads script story placed target items)
    (he : ∀ i ∈ items.head?, i = .leave) :
    Runs (story.step oracle) (past, target) (past, .ret) := by
  induction h with
  | done => exact .refl
  | leave => exact .refl
  | node _ ih => exact ih he
  | onward hn _ ih =>
    refine .head ?_ (ih he)
    simp only [Story.step, hn]
  | _ => cases he _ rfl

/-- Where the story ends the script does. -/
theorem Leads.ended {placed : Bool} (h : Leads script story placed .ret items) :
    ∀ i ∈ items.head?, i = .leave := by
  cases h with
  | done => simp
  | leave => simp

theorem Leads.forward_run {s s' : List Event × List Item} {placed : Bool} (hp : script.IsPlaced story)
    (hr : Runs (script.step oracle) s s') (h : Leads script story placed target s.2) :
    ∃ target', Runs (story.step oracle) (s.1, target) (s'.1, target') ∧
      ∃ placed', Leads script story placed' target' s'.2 := by
  induction hr with
  | refl => exact ⟨target, .refl, placed, h⟩
  | @tail mid last _ hs ih =>
    obtain ⟨between, hr, placed', h'⟩ := ih
    obtain ⟨target', hr', hl⟩ := h'.forward hp hs
    exact ⟨target', hr.trans hr', hl⟩

theorem Leads.backward_run {s s' : List Event × Target} {placed : Bool} (hp : script.IsPlaced story)
    (hr : Runs (story.step oracle) s s') (h : Leads script story placed s.2 items) :
    ∃ items', Runs (script.step oracle) (s.1, items) (s'.1, items') ∧
      ∃ placed', Leads script story placed' s'.2 items' := by
  induction hr with
  | refl => exact ⟨items, .refl, placed, h⟩
  | @tail mid last _ hs ih =>
    obtain ⟨between, hr, placed', h'⟩ := ih
    obtain ⟨items', hr', hl⟩ := h'.backward hp hs
    exact ⟨items', hr.trans hr', false, hl⟩

/-- Running the story and running the script come to the same. -/
theorem Leads.same {placed : Bool} (hp : script.IsPlaced story)
    (h : Leads script story placed (.node story.start) script) (oracle : Oracle) (past : List Event) :
    (Happens (story.step oracle) (.node story.start) past ↔
      Happens (script.step oracle) script past) ∧
    (story.Halts oracle past ↔ script.Halts oracle past) := by
  refine ⟨⟨fun ⟨t, hr⟩ => ?_, fun ⟨items, hr⟩ => ?_⟩, fun hr => ?_, fun ⟨items, hr, he⟩ => ?_⟩
  · obtain ⟨items, hr', -⟩ := Leads.backward_run hp hr h
    exact ⟨items, hr'⟩
  · obtain ⟨t, hr', -⟩ := Leads.forward_run hp hr h
    exact ⟨t, hr'⟩
  · obtain ⟨items, hr', _, hl⟩ := Leads.backward_run hp hr h
    exact ⟨items, hr', hl.ended⟩
  · obtain ⟨t, hr', _, hl⟩ := Leads.forward_run hp hr h
    exact hr'.trans (hl.ends he)

end Storyline
