import Storyline.Proofs.Compiling
import Storyline.Proofs.Wording.Linking
import Storyline.Proofs.Wording.Threads

namespace Storyline

/-- The failures are the same, but for the wording of a token after the end. -/
def CompileError.Alike : CompileError → CompileError → Prop
  | tokenAfterStop t, tokenAfterStop u => t.Alike u
  | e, f => e = f

/-- The stories have nodes of the same names in the same order, of the same kinds and with the same
links, expressions and references, and mistakes at the same positions; in all, the nodes are the same
but for texts, cues and keywords. -/
structure Story.Alike (a b : Story) : Prop where
  names : a.names = b.names
  kinds : (a.nodes.map fun node => node.body.kind) = b.nodes.map fun node => node.body.kind
  links : (a.nodes.map fun node => node.body.links) = b.nodes.map fun node => node.body.links
  exprs : (a.nodes.map fun node => node.body.exprs) = b.nodes.map fun node => node.body.exprs
  references :
    (a.nodes.map fun node => node.body.references) = b.nodes.map fun node => node.body.references
  nodes : a.nodes.map Node.outline = b.nodes.map Node.outline
  mistakes : positions a.diagnostics.toList = positions b.diagnostics.toList

namespace Build

namespace Same

theorem whole (start : String) (pos : Position) {items items' : List Item}
    (h : Script.outline items = Script.outline items') :
    Same (whole start pos items) (whole start pos items') := by
  refine (createPlaceholder (.root start) pos).bind fun entry => ?_
  have hthread := thread items (entering (.root start) (nextEnd entry))
  rw [h] at hthread
  exact hthread.trans (thread items' _).symm

theorem close (front : Front) : Same (close front) (close front) :=
  (tie .ret front.ends.rets).bind fun _ => (tie .esc front.ends.escs).bind fun _ => check

end Same

end Build

theorem Story.dangling_outline (story : Story) : story.outline.dangling = story.dangling := by
  have hlinks (node : Node) : node.outline.body.links = node.body.links :=
    node.body.links_outline
  unfold dangling
  simp only [nodes_outline, List.flatMap_map, hlinks]
  rfl

theorem Story.alike_of_outline {a b : Story} (h : a.outline = b.outline) : a.Alike b := by
  have hnodes : a.nodes.map Node.outline = b.nodes.map Node.outline := by
    rw [← nodes_outline, h, nodes_outline]
  have same {α : Type} (f : Node → α) (hf : ∀ node : Node, f node.outline = f node) :
      a.nodes.map f = b.nodes.map f := by
    have hmap := congrArg (List.map f) hnodes
    simpa only [List.map_map, Function.comp_def, hf] using hmap
  have hpos (story : Story) :
      positions story.diagnostics.toList = positions story.outline.diagnostics.toList := by
    rw [Story.outline, Array.toList_map, positions, positions, List.map_map]
    rfl
  exact {
    names := same _ fun _ => rfl
    kinds := same _ fun node => node.body.kind_outline
    links := same _ fun node => node.body.links_outline
    exprs := same _ fun node => node.body.exprs_outline
    references := same _ fun node => node.body.references_outline
    nodes := hnodes
    mistakes := by rw [hpos, h, ← hpos] }

theorem lastPosition_alike {ts us : List Token} (h : AlikeTokens ts us) :
    lastPosition ts = lastPosition us := by
  induction h with
  | nil => rfl
  | @cons t u ts us ht hts ih =>
    cases hts with
    | nil => exact ht.pos
    | cons hv hvs =>
      unfold lastPosition at ih ⊢
      rw [List.getLast?_cons_cons, List.getLast?_cons_cons]
      exact ih

/-- The outcomes cannot be told apart but for wording. -/
def AlikeOutcomes : Except CompileError Story → Except CompileError Story → Prop
  | .ok a, .ok b => a.Alike b
  | .error e, .error f => e.Alike f
  | .ok _, .error _ => False
  | .error _, .ok _ => False

theorem complete_alike {a b : Story} (h : a.outline = b.outline) :
    AlikeOutcomes (complete a) (complete b) := by
  unfold complete
  rw [← a.dangling_outline, h, b.dangling_outline]
  split
  · exact Story.alike_of_outline h
  · exact rfl

/-- Tokens that differ only in texts that are escaped or free, and not empty, compile to stories that
differ in texts, cues and keywords alone, or fail in the same way. -/
theorem compile_alike (start : String) {ts us : List Token} (h : AlikeTokens ts us) :
    AlikeOutcomes (compile start ts) (compile start us) := by
  obtain ⟨hitems, hrest⟩ := Script.script_alike h
  have hwhole := Build.Same.whole start (here ts) hitems (.empty start) (.empty start) rfl
  unfold compile
  dsimp only
  rw [← here_alike h, ← lastPosition_alike h]
  generalize Build.whole start (here ts) (Script.script ts).value (.empty start) = r at hwhole ⊢
  generalize Build.whole start (here ts) (Script.script us).value (.empty start) = s at hwhole ⊢
  cases hwhole with
  | error e => cases e <;> exact rfl
  | @ok front a b hstory =>
    dsimp only
    generalize (Script.script ts).rest = rest at hrest ⊢
    generalize (Script.script us).rest = rest' at hrest ⊢
    cases hrest with
    | cons ht _ => exact ht
    | nil =>
      dsimp only
      have hclose := Build.Same.close front a b hstory
      generalize Build.close front a = r at hclose ⊢
      generalize Build.close front b = s at hclose ⊢
      cases hclose with
      | error e => exact rfl
      | ok _ hend => exact complete_alike hend

/-- An escaped brace reads like an escaped word. -/
theorem compile_alike_brace : ∃ a b,
    compile "start" [⟨.word, "", "Use", ⟨1, 1⟩⟩, ⟨.literal, " ", "\x7b", ⟨1, 5⟩⟩, .stop ⟨2, 1⟩] =
      .ok a ∧
    compile "start" [⟨.word, "", "Use", ⟨1, 1⟩⟩, ⟨.literal, " ", "it", ⟨1, 5⟩⟩, .stop ⟨2, 1⟩] =
      .ok b ∧ a.names = ["start"] ∧ a.Alike b := by
  let ts : List Token := [⟨.word, "", "Use", ⟨1, 1⟩⟩, ⟨.literal, " ", "\x7b", ⟨1, 5⟩⟩, .stop ⟨2, 1⟩]
  let us : List Token := [⟨.word, "", "Use", ⟨1, 1⟩⟩, ⟨.literal, " ", "it", ⟨1, 5⟩⟩, .stop ⟨2, 1⟩]
  have same (t : Token) : t.Alike t := ⟨rfl, rfl, rfl, .inl rfl⟩
  have hliteral : Token.Alike ⟨.literal, " ", "\x7b", ⟨1, 5⟩⟩ ⟨.literal, " ", "it", ⟨1, 5⟩⟩ :=
    ⟨rfl, rfl, rfl, .inr ⟨rfl, by decide, by decide⟩⟩
  have h : AlikeTokens ts us := .cons (same _) (.cons hliteral (.cons (same _) .nil))
  have hn : (compile "start" ts).toOption.map Story.names = some ["start"] := by decide +kernel
  have hm : (compile "start" us).toOption.isSome = true := by decide +kernel
  have halike := compile_alike "start" h
  cases ha : compile "start" ts with
  | error e =>
    rw [ha] at hn
    cases hn
  | ok a =>
    cases hb : compile "start" us with
    | error e =>
      rw [hb] at hm
      cases hm
    | ok b =>
      rw [ha] at hn
      rw [ha, hb] at halike
      exact ⟨a, b, rfl, rfl, Option.some.inj hn, halike⟩

end Storyline
