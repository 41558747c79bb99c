import Storyline.Proofs.Compiling
import Storyline.Proofs.Targets.Linking

namespace Storyline

namespace Build

open Story Script

theorem sound_empty (asked : String → Prop) (start : String) :
    (Story.empty start).Sound asked fun _ => False where
  known id node hn := by simp [Story.empty, node?] at hn
  reports d hd := by simp [Story.empty] at hd

theorem whole_keeps {tokens : List Token} (start : String) (pos : Position) {items : Script}
    {story : Story} (h : Each (IsWritten tokens) items) :
    Keeps (Written tokens) (fun _ after => after.contains start = true) (whole start pos items)
      story := by
  refine (placeholder_keeps (.root start) pos).bind fun entry mid _ hn => ?_
  rw [Path.name_root] at hn
  exact (thread_keeps items _ h).mono fun _ after hl _ => hl start hn

/-- The end of a script adds nothing but reports of labels that do not exist. -/
theorem close_keeps {asked : String → Prop} {story : Story} (front : Front)
    (s : story.Sound asked fun _ => False) :
    Yields Anything (fun _ after => ∃ mid : Story, mid.Sound asked (fun _ => False) ∧
      story.Lasts mid ∧ after = { mid with diagnostics := mid.diagnostics ++ mid.missingLabels })
      (close front) story := by
  refine Yields.bind (sound_tie front.ends.rets .ret s) fun _ mid ⟨hs, hl⟩ => ?_
  refine Yields.bind (sound_tie front.ends.escs .esc hs) fun _ mid' ⟨hs', hl'⟩ => ?_
  exact ⟨mid', hs', hl.trans hl', rfl⟩

end Build

open Build Script

theorem mem_needed {node : Node} {name : String} : name ∈ Story.needed node ↔
    (∃ outlet, (outlet, some (.node name)) ∈ node.body.links) ∨ name ∈ node.body.references := by
  unfold Story.needed
  rw [List.mem_append, List.mem_filterMap]
  constructor
  · rintro (⟨⟨outlet, link⟩, hm, hl⟩ | h)
    · left
      refine ⟨outlet, ?_⟩
      dsimp only at hl
      split at hl
      · obtain rfl := Option.some.inj hl
        exact hm
      · cases hl
    · exact .inr h
  · rintro (⟨outlet, hm⟩ | h)
    · exact .inl ⟨_, hm, rfl⟩
    · exact .inr h

theorem mem_missingLabels {story : Story} {d : Diagnostic} : d ∈ story.missingLabels ↔
    ∃ node ∈ story.nodes, ∃ name ∈ Story.needed node, story.contains name = false ∧
      d = ⟨node.pos, .noLabel name⟩ := by
  unfold Story.missingLabels
  simp only [List.mem_flatMap, List.mem_map, List.mem_filter, Bool.not_eq_true']
  constructor
  · rintro ⟨node, hn, name, ⟨hm, hc⟩, rfl⟩
    exact ⟨node, hn, name, hm, hc, rfl⟩
  · rintro ⟨node, hn, name, hm, hc, rfl⟩
    exact ⟨node, hn, name, ⟨hm, hc⟩, rfl⟩

theorem mem_checked {story : Story} {d : Diagnostic} :
    d ∈ story.diagnostics ++ story.missingLabels ↔
      d ∈ story.diagnostics ∨ d ∈ story.missingLabels := by
  rw [← Array.mem_toList_iff, Array.toList_appendList, List.mem_append, Array.mem_toList_iff]

/-- A name that a sound story mentions and does not have is asked for. -/
theorem Story.Sound.asked_of_missing {asked : String → Prop} {story : Story}
    (s : story.Sound asked fun _ => False) {node : Node} (hn : node ∈ story.nodes) {name : String}
    (hm : name ∈ Story.needed node) (hc : story.contains name = false) : asked name := by
  obtain ⟨id, hlive⟩ := Story.exists_node?_of_mem hn
  have hknown := s.known id node hlive
  have missing : ¬ (story.contains name = true ∨ False) := by simp [hc]
  rcases mem_needed.mp hm with ⟨outlet, hl⟩ | hr
  · exact (hknown.links outlet name (Body.mem_links_iff.mp hl)).resolve_left missing
  · rw [Body.references_eq, List.mem_append, Option.mem_toList] at hr
    rcases hr with ht | hcallee
    · exact absurd (hknown.threads name ht) missing
    · exact hknown.callee name hcallee

/-- A compilation comes to a sound story and then reports the labels it has not. -/
theorem compile_sound {start : String} {tokens : List Token} {story : Story}
    (h : compile start tokens = .ok story) :
    ∃ mid : Story, mid.Sound (Written tokens) (fun _ => False) ∧ mid.contains start = true ∧
      story = { mid with diagnostics := mid.diagnostics ++ mid.missingLabels } := by
  have hwritten : Each (IsWritten tokens) (script tokens).value :=
    script_written tokens (List.suffix_refl tokens)
  have hw := whole_keeps start (here tokens) hwritten (sound_empty (Written tokens) start)
  obtain ⟨front, after, hrun, hclose⟩ := compile_eq_ok h
  obtain ⟨hsound, -, hstart⟩ := hw.of_ok hrun
  obtain ⟨mid, hmid, hl, rfl⟩ := (close_keeps front hsound).of_ok hclose
  exact ⟨mid, hmid, hl start hstart, rfl⟩

/-- A compiled story has its entry node and every thread its options list, and a link to a label it
has not leads to one that the script names behind an arrow. A mistake about a missing label is about
such a label, and there is one for every link and call that needs a label the story has not, at the
node that needs it. -/
theorem compile_names_known {start : String} {tokens : List Token} {story : Story}
    (h : compile start tokens = .ok story) :
    story.contains start = true ∧
    (∀ node ∈ story.nodes, ∀ question answer keywords next,
      node.body = .option question answer keywords next →
      ∀ name ∈ question ++ answer, story.contains name = true) ∧
    (∀ node ∈ story.nodes, ∀ outlet name, (outlet, some (.node name)) ∈ node.body.links →
      story.contains name = false → Written tokens name) ∧
    (∀ d ∈ story.diagnostics, ∀ name, d.mistake = .noLabel name →
      Written tokens name ∧ story.contains name = false) ∧
    (∀ node ∈ story.nodes, ∀ name,
      ((∃ outlet, (outlet, some (.node name)) ∈ node.body.links) ∨
        ∃ args next branch, node.body = .call name args next branch) →
      story.contains name = false → ⟨node.pos, .noLabel name⟩ ∈ story.diagnostics) := by
  obtain ⟨mid, s, hstart, rfl⟩ := compile_sound h
  refine ⟨hstart, ?_, ?_, ?_, ?_⟩
  · intro node hn question answer keywords next hbody name hm
    obtain ⟨id, hlive⟩ := Story.exists_node?_of_mem hn
    have hthreads := (s.known id node hlive).threads name
    rw [hbody] at hthreads
    exact (hthreads hm).resolve_right fun hf => hf
  · intro node hn outlet name hl hc
    exact s.asked_of_missing hn (mem_needed.mpr (.inl ⟨outlet, hl⟩)) hc
  · intro d hd name hmistake
    have hd : d ∈ mid.diagnostics ++ mid.missingLabels := hd
    rcases mem_checked.mp hd with hd | hd
    · exact absurd hmistake (s.reports d hd name)
    · obtain ⟨node, hn, other, hm, hc, rfl⟩ := mem_missingLabels.mp hd
      obtain rfl := Mistake.noLabel.inj hmistake
      exact ⟨s.asked_of_missing hn hm hc, hc⟩
  · intro node hn name hneeds hc
    have hm : name ∈ Story.needed node := by
      refine mem_needed.mpr (hneeds.imp_right ?_)
      rintro ⟨args, next, branch, hbody⟩
      rw [hbody]
      exact List.mem_singleton_self name
    have hd : (⟨node.pos, .noLabel name⟩ : Diagnostic) ∈ mid.missingLabels :=
      mem_missingLabels.mpr ⟨node, hn, name, hm, hc, rfl⟩
    exact mem_checked.mpr (.inr hd)

/-- A move to a label and a call of one, neither of which the story has. -/
theorem compile_names_known_missing : ∃ story,
    compile "start" [⟨.mark, "", "->", ⟨1, 1⟩⟩, ⟨.word, " ", "a", ⟨1, 4⟩⟩, ⟨.mark, "", "(", ⟨1, 5⟩⟩,
      ⟨.mark, "", ")", ⟨1, 6⟩⟩, ⟨.mark, " ", "->", ⟨1, 8⟩⟩, ⟨.word, " ", "b", ⟨1, 11⟩⟩,
      .stop ⟨2, 1⟩] = .ok story ∧ story.names = ["start"] ∧ story.contains "start" = true ∧
    ∀ node ∈ story.nodes, ∀ name,
      ((∃ outlet, (outlet, some (.node name)) ∈ node.body.links) ∨
        ∃ args next branch, node.body = .call name args next branch) →
      story.contains name = false → ⟨node.pos, .noLabel name⟩ ∈ story.diagnostics := by
  let tokens : List Token := [⟨.mark, "", "->", ⟨1, 1⟩⟩, ⟨.word, " ", "a", ⟨1, 4⟩⟩,
    ⟨.mark, "", "(", ⟨1, 5⟩⟩, ⟨.mark, "", ")", ⟨1, 6⟩⟩, ⟨.mark, " ", "->", ⟨1, 8⟩⟩,
    ⟨.word, " ", "b", ⟨1, 11⟩⟩, .stop ⟨2, 1⟩]
  have hn : (compile "start" tokens).toOption.map Story.names = some ["start"] := by
    decide +kernel
  cases hc : compile "start" tokens with
  | error e =>
    rw [hc] at hn
    cases hn
  | ok story =>
    obtain ⟨hstart, -, -, -, hreported⟩ := compile_names_known hc
    rw [hc] at hn
    exact ⟨story, rfl, Option.some.inj hn, hstart, hreported⟩

end Storyline
