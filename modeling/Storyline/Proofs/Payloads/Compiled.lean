import Storyline.Proofs.Origins.Compiled
import Storyline.Proofs.Payloads.Threads

namespace Storyline

/-- What the node carries is in order. -/
def Body.IsValid : Body → Prop
  | content c _ => c.IsValid
  | jump condition _ _ => condition.WellSpliced
  | switch _ _ value _ weights _ => value.WellSpliced ∧ ∀ e, some e ∈ weights → e.WellSpliced
  | call _ args _ _ => ∀ e ∈ args, e.WellSpliced
  | option _ answer _ _ => answer ≠ []
  | _ => True

namespace Body

variable {body after : Body}

theorem isValid_cleared : body.cleared.IsValid ↔ body.IsValid := by
  cases body <;> exact Iff.rfl

theorem IsValid.grows (h : body.IsValid) (hg : body.Grows after) : after.IsValid := by
  rw [← isValid_cleared, hg.same, isValid_cleared]
  exact h

theorem IsValid.spliced (h : body.IsValid) : ∀ e, some e ∈ body.exprs → e.WellSpliced := by
  intro e he
  cases body with
  | content c next =>
    cases c with
    | move target source =>
      rcases List.mem_cons.mp he with he | he
      · exact Option.some.inj he ▸ h.target.2
      · exact Option.some.inj (List.mem_singleton.mp he) ▸ h.source
    | echo value => exact Option.some.inj (List.mem_singleton.mp he) ▸ h
    | _ => cases he
  | jump condition branch next => exact Option.some.inj (List.mem_singleton.mp he) ▸ h
  | switch mode counter value branches weights next =>
    rcases List.mem_cons.mp he with he | he
    · exact Option.some.inj he ▸ h.1
    · exact h.2 e he
  | call label args next branch =>
    obtain ⟨arg, ha, he⟩ := List.mem_map.mp he
    exact Option.some.inj he ▸ h arg ha
  | _ => cases he

end Body

theorem Terms.IsValid.ledBy {terms : Terms} (h : terms.IsValid) (leader : Leader) (path : Path) :
    (terms.ledBy leader path).IsValid := by
  cases leader with
  | repeated => exact h
  | once =>
    have hcounter : Expr.IsTarget (.var path.name) := ⟨rfl, .var path.name⟩
    have hguard : Expr.WellSpliced (.binary .eq (.var path.name) (.number 0)) :=
      .binary (.var path.name) (.number 0)
    have hcount : Assignment.IsValid ⟨.var path.name, .binary .add (.var path.name) (.number 1)⟩ :=
      Script.isValid_change hcounter .add (.number 1)
    exact ⟨List.forall_mem_cons.mpr ⟨hguard, h.guards⟩,
      List.forall_mem_cons.mpr ⟨hcount, h.consequences⟩⟩

open Script in
/-- The value and the weights of a switch are in order. -/
theorem Script.IsSwitch.body_valid {tokens : List Token} {pos : Position} {selection : Selection}
    {found : List Case} (h : IsSwitch tokens pos selection found) (path : Path) :
    (selection.body path found).IsValid := by
  refine ⟨?_, fun e he => ?_⟩
  · cases selection with
    | walk => exact .var path.name
    | loop => exact .var path.name
    | rand => exact .unary (.number _)
    | index e => exact h.value e (.inl rfl)
    | pick e => exact h.value e (.inr rfl)
  · obtain ⟨c, hc, hweight⟩ := List.mem_map.mp he
    exact (h.cases c hc).spliced e hweight

open Script in
/-- What an item makes is in order if the item is. -/
theorem Item.Makes.isValid {tokens : List Token} {i : Item} {path : Path} {pos : Position}
    {body : Body} (h : i.Makes path pos body) (hi : IsValid tokens i) : body.IsValid := by
  cases h with
  | content => exact hi
  | ask => trivial
  | call => exact hi
  | label => trivial
  | loop => trivial
  | define => trivial
  | jump => exact Expr.WellSpliced.inverted hi
  | switch => exact hi.body_valid path
  | @guard entry _ _ leader _ _ _ hg => exact ((hi.ledBy leader entry).guards _ hg).inverted
  | option ha => exact ha
  | @consequence entry _ _ leader _ _ _ ha => exact (hi.ledBy leader entry).consequences _ ha
  | part => trivial
  | conclude => trivial

open Script in
/-- What a node of a compiled story carries is in order. -/
theorem compile_isValid {start : String} {tokens : List Token} {story : Story}
    (h : compile start tokens = .ok story) : ∀ node ∈ story.nodes, node.body.IsValid := by
  intro node hn
  obtain ⟨was, ht, hentry | ⟨i, path, hi, hm, -⟩⟩ := compile_origin h node hn
  · have hstep : was.body.IsValid := by
      rw [hentry.2.2]
      trivial
    exact hstep.grows ht.grows
  · have hitem : IsValid tokens i :=
      each_within (script_valid tokens (List.suffix_refl tokens)) hi
    exact (hm.isValid hitem).grows ht.grows

/-- Whatever mistakes a script has, if it compiles then all expressions of the story have their
splices in order, however deep, every move assigns to a variable, and every option has an answer. -/
theorem compile_payloads_valid {start : String} {tokens : List Token} {story : Story}
    (h : compile start tokens = .ok story) : ∀ node ∈ story.nodes,
      (∀ e, some e ∈ node.body.exprs → e.WellSpliced) ∧
      (∀ target source next, node.body = .content (.move target source) next →
        target.isVariable = true) ∧
      (∀ question answer keywords next, node.body = .option question answer keywords next →
        answer ≠ []) := by
  intro node hn
  have hvalid := compile_isValid h node hn
  refine ⟨hvalid.spliced, ?_, ?_⟩
  · intro target source next hbody
    rw [hbody] at hvalid
    exact hvalid.target.1
  · intro question answer keywords next hbody
    rw [hbody] at hvalid
    exact hvalid

/-- A variable with a splice that counts up, and a brace that nothing can be assigned in. -/
theorem compile_payloads_valid_spliced : ∃ story,
    compile "start" [⟨.mark, "", "\x7b", ⟨1, 1⟩⟩, ⟨.symbol, "", "+", ⟨1, 2⟩⟩,
      ⟨.word, " ", "a", ⟨1, 4⟩⟩, ⟨.mark, "", "\x7b", ⟨1, 5⟩⟩, ⟨.word, "", "b", ⟨1, 6⟩⟩,
      ⟨.mark, "", "\x7d", ⟨1, 7⟩⟩, ⟨.mark, "", "\x7d", ⟨1, 8⟩⟩, ⟨.mark, " ", "\x7b", ⟨1, 10⟩⟩,
      ⟨.symbol, "", "+", ⟨1, 11⟩⟩, ⟨.mark, "", "\x7d", ⟨1, 12⟩⟩, .stop ⟨2, 1⟩] = .ok story ∧
    story.names = ["start"] ∧ story.diagnostics.size = 1 ∧
    ∀ node ∈ story.nodes, ∀ e, some e ∈ node.body.exprs → e.WellSpliced := by
  let tokens : List Token := [⟨.mark, "", "\x7b", ⟨1, 1⟩⟩, ⟨.symbol, "", "+", ⟨1, 2⟩⟩,
    ⟨.word, " ", "a", ⟨1, 4⟩⟩, ⟨.mark, "", "\x7b", ⟨1, 5⟩⟩, ⟨.word, "", "b", ⟨1, 6⟩⟩,
    ⟨.mark, "", "\x7d", ⟨1, 7⟩⟩, ⟨.mark, "", "\x7d", ⟨1, 8⟩⟩, ⟨.mark, " ", "\x7b", ⟨1, 10⟩⟩,
    ⟨.symbol, "", "+", ⟨1, 11⟩⟩, ⟨.mark, "", "\x7d", ⟨1, 12⟩⟩, .stop ⟨2, 1⟩]
  have hn : (compile "start" tokens).toOption.map (fun story =>
      (story.names, story.diagnostics.size)) = some (["start"], 1) := by
    decide +kernel
  cases hc : compile "start" tokens with
  | error e =>
    rw [hc] at hn
    cases hn
  | ok story =>
    have hvalid := compile_payloads_valid hc
    rw [hc] at hn
    obtain ⟨hnames, hsize⟩ := Prod.mk.inj (Option.some.inj hn)
    exact ⟨story, rfl, hnames, hsize, fun node hm => (hvalid node hm).1⟩

end Storyline
