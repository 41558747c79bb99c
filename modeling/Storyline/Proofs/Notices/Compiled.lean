import Storyline.Proofs.Definitions.Compiled
import Storyline.Proofs.Notices.Linking
import Storyline.Proofs.Notices.Missing
import Storyline.Proofs.Notices.Threads
import Storyline.Proofs.Origins.Compiled

namespace Storyline

/-- What an item makes stands where the item says. -/
theorem Item.Makes.stands {i : Item} {path : Path} {pos : Position} {body : Body}
    {ok : Position → Prop} (h : i.Makes path pos body) (hi : i.StandsAt ok) : ok pos := by
  cases h with
  | guard => exact hi.1
  | option => exact hi.1
  | consequence => exact hi.1
  | part hp => exact hi.2 _ _ _ hp
  | conclude => exact hi.1
  | _ => exact hi

open Build Script

variable {start : String} {tokens : List Token} {story : Story}

/-- Linking a whole script reports what is noticed in it. -/
theorem noteWhole_recalls (start : String) (pos : Position) (items : Script) :
    Recalls [] (notices items) (noteWhole start pos items) :=
  .step (.placeholder (.root start) pos) fun _ => thread_recalls items _

/-- The end of a script reports nothing but the labels that are missing then. -/
theorem close_reports (front : Front) (story : Story) :
    Yields Anything (fun _ after => after.diagnostics.toList =
      story.diagnostics.toList ++ after.missingLabels) (close front) story := by
  refine (Silent.tie .ret front.ends.rets story).bind fun _ mid hmid => ?_
  refine (Silent.tie .esc front.ends.escs mid).bind fun _ last hlast => ?_
  have hcheck : (last.diagnostics ++ last.missingLabels).toList =
      story.diagnostics.toList ++ last.missingLabels := by
    rw [Array.toList_appendList, hlast, hmid]
  exact hcheck

/-- A script that compiles is met to a token that is left. -/
theorem compile_met (h : compile start tokens = .ok story) :
    ∃ u us, ItemsMet tokens tokens (script tokens).value (u :: us) := by
  obtain ⟨front, mid, hrun, -⟩ := compile_eq_ok h
  have hwhole : none ∉ gaps (script tokens).value :=
    (Links.whole start (here tokens) _ _).of_ok hrun
  exact (script_met tokens (List.suffix_refl tokens)).resolve_left hwhole

/-- Every node of a compiled story stands at a token. -/
theorem compile_node_at_token (h : compile start tokens = .ok story) :
    ∀ node ∈ story.nodes, ∃ t ∈ tokens, t.pos = node.pos := by
  obtain ⟨u, us, hmet⟩ := compile_met h
  -- No position was taken behind the last token, since one was left when all of them were taken.
  have hlast : u :: us ≠ [] := List.cons_ne_nil u us
  intro node hn
  obtain ⟨was, hties, hentry | ⟨i, path, hi, hmakes, -⟩⟩ := compile_origin h node hn
  · have hfirst : Placed tokens (u :: us) (here tokens) := .here (List.suffix_refl _) hmet.suffix
    rw [hties.pos, hentry.2.1]
    exact hfirst.mem hlast
  · have hstands := each_within (hmet.stands _ (List.suffix_refl _)) hi
    rw [hties.pos]
    exact (hmakes.stands hstands).mem hlast

/-- The diagnostics of a compiled story are first those of the script: all mistakes noticed when it
was read and in the names it defines, in that order, each at a token, at indices that never go down.
Then come those of the link check: for each link and each reference to a name that no node bears one,
in the order of the nodes and at the position of its node. Each node stands at a token. -/
theorem compile_diagnostics_in_order (h : compile start tokens = .ok story) :
    ∃ noted missing unmet, story.diagnostics.toList = noted ++ unmet ∧
      Recounts (notices (script tokens).value) (definitions start tokens) noted ∧
      (∃ indices : List Nat, indices.Pairwise (· ≤ ·) ∧
        List.Forall₂ (fun d i => (tokens[i]?).map Token.pos = some d.pos) noted indices) ∧
      story.Misses missing unmet ∧ ∀ node ∈ story.nodes, ∃ t ∈ tokens, t.pos = node.pos := by
  obtain ⟨front, mid, hrun, hclose⟩ := compile_eq_noted h
  obtain ⟨_, noted, rfl, hnoted, hmid⟩ := (noteWhole_recalls start (here tokens) _ _).of_ok hrun
  have hend := (close_reports front mid).of_ok hclose
  obtain ⟨u, us, hmet⟩ := compile_met h
  have hpasses := hmet.passes.sublist hnoted.sublist
  obtain ⟨indices, hle, hat⟩ := hpasses.indices (List.cons_ne_nil u us)
  refine ⟨noted, story.missing, story.missingLabels, ?_, hnoted, ⟨indices, hle, ?_⟩, story.misses,
    compile_node_at_token h⟩
  · rw [hend, hmid]
    rfl
  · exact List.forall₂_map_left_iff.mp hat

/-- A stray bar, and a label that does not exist. -/
theorem compile_diagnostics_in_order_stray : ∃ story noted missing unmet,
    compile "start" [⟨.mark, "", "|", ⟨1, 1⟩⟩, ⟨.word, " ", "x", ⟨1, 3⟩⟩, ⟨.mark, " ", "->", ⟨1, 5⟩⟩,
      ⟨.word, " ", "a", ⟨1, 8⟩⟩, .stop ⟨2, 1⟩] = .ok story ∧
    story.diagnostics.toList = noted ++ unmet ∧
    story.diagnostics.toList.map Diagnostic.pos = [⟨1, 1⟩, ⟨1, 3⟩] ∧
    story.Misses missing unmet := by
  let tokens : List Token := [⟨.mark, "", "|", ⟨1, 1⟩⟩, ⟨.word, " ", "x", ⟨1, 3⟩⟩,
    ⟨.mark, " ", "->", ⟨1, 5⟩⟩, ⟨.word, " ", "a", ⟨1, 8⟩⟩, .stop ⟨2, 1⟩]
  have hpos : (compile "start" tokens).toOption.map
      (fun s => s.diagnostics.toList.map Diagnostic.pos) = some [⟨1, 1⟩, ⟨1, 3⟩] := by
    decide +kernel
  cases hc : compile "start" tokens with
  | error e =>
    rw [hc] at hpos
    cases hpos
  | ok story =>
    obtain ⟨noted, missing, unmet, hall, -, -, hmisses, -⟩ := compile_diagnostics_in_order hc
    rw [hc] at hpos
    exact ⟨story, noted, missing, unmet, rfl, hall, Option.some.inj hpos, hmisses⟩

end Storyline
