import Storyline.Proofs.Ends.Resolved
import Storyline.Proofs.Names.Apart
import Storyline.Proofs.Names.Linking

namespace Storyline

namespace Build

open Story

theorem tidy_empty (avoid : List String) (start : String) : Tidy avoid (.empty start) := by
  refine ⟨distinct_empty start, fun name hs => ?_, fun p _ _ hw _ => status_empty start p.name⟩
  exact absurd (status_empty start name) hs

theorem whole_goes {start : String} (hl : IsLabel start) (pos : Position) (items : Script) :
    Goes (Script.wholeCourse start items) (fun _ _ after => after.Distinct)
      (whole start pos items) (.empty start) := by
  have t := tidy_empty [] start
  have w : Writable [] (.root start) (.empty start) :=
    t.writable_root hl (.inl (status_empty start start))
  refine Goes.step (yields_createPlaceholder t w pos) fun entry story ⟨he, hw⟩ => ?_
  have s : Stands [] ⟨.label, start, []⟩ (.root start) [nextEnd entry] story :=
    ⟨hl, .inl rfl, hw.ahead w, fun hp => absurd Path.indices_root hp, Path.indices_root,
      nextEnd entry, List.mem_singleton_self _, hw.here⟩
  have b : Within story [nextEnd entry] := by
    intro l hl
    rw [List.mem_singleton.mp hl, nextEnd, hw.size, he]
    exact Nat.lt_succ_self _
  exact (Goes.thread items [] ⟨.label, start, []⟩ (entering (.root start) (nextEnd entry))
    (hw.tidy w t) s b).mono fun _ _ _ h => h.tidy.distinct

theorem yields_close {front : Front} {story : Story} (hd : story.Distinct) :
    Yields (fun e => ¬ IsNoLinkError e) (fun _ _ => True) (close front) story := by
  refine Yields.bind (yields_tied hd .ret front.ends.rets) fun _ s ht => ?_
  refine Yields.bind (yields_tied ht.distinct .esc front.ends.escs) fun _ _ _ => ?_
  exact Yields.mono (Q := fun _ _ => True) trivial fun _ _ h => h

end Build

/-- A script that was linked and has nothing behind its final stop compiles. -/
theorem linked_compiles {start : String} {tokens : List Token} {front : Front} {story : Story}
    (h : Build.whole start (here tokens) (Script.script tokens).value (.empty start) =
      .ok front story) (hd : story.Distinct) (hrest : (Script.script tokens).rest = []) :
    ∃ after, Build.close front story = .ok () after ∧ compile start tokens = .ok after := by
  have hrec := Build.recorded_close ((Build.recorded_whole start (here tokens) _).of_ok h)
  cases hclose : Build.close front story with
  | error e after =>
    have hno := (Build.yields_close hd).of_error hclose
    exact absurd (hrec.of_error hclose) hno
  | ok u after =>
    obtain ⟨history, -, hb⟩ := hrec.of_ok hclose
    refine ⟨after, rfl, ?_⟩
    rw [compile_of_close h hrest hclose, complete, hb.dangling_eq_nil]

/-- The ways a compilation ends in two nodes of one name. -/
theorem compile_eq_duplicate {start name : String} {tokens : List Token}
    (h : compile start tokens = .error (.build (.duplicateNode name))) :
    (∃ story, Build.whole start (here tokens) (Script.script tokens).value (.empty start) =
      .error (.duplicateNode name) story) ∨
    ∃ front story after, Build.whole start (here tokens) (Script.script tokens).value
      (.empty start) = .ok front story ∧ Build.close front story = .error (.duplicateNode name) after := by
  cases hrun : Build.whole start (here tokens) (Script.script tokens).value (.empty start) with
  | error e story =>
    by_cases he : e = .unfinished
    · rw [compile_of_unfinished (he ▸ hrun)] at h
      cases h
    · rw [compile_of_error he hrun] at h
      cases h
      exact .inl ⟨story, rfl⟩
  | ok front story =>
    cases hrest : (Script.script tokens).rest with
    | cons t rest =>
      rw [compile_of_rest hrun hrest] at h
      cases h
    | nil =>
      cases hclose : Build.close front story with
      | error e after =>
        rw [compile_of_close_error hrun hrest hclose] at h
        cases h
        exact .inr ⟨front, story, after, rfl, hclose⟩
      | ok u after =>
        rw [compile_of_close hrun hrest hclose, complete] at h
        split at h <;> cases h

/-- Where the walk is in no doubt it foresees whether a script writes two nodes at one name, and it
is in no doubt about a script whose labels are apart from each other and from the start label. -/
theorem compile_duplicate (start : String) (tokens : List Token)
    (hs : Build.hasNumericPart start = false) :
    (Script.wholeCourse start (Script.script tokens).value ≠ .doubtful →
      ((∃ name, compile start tokens = .error (.build (.duplicateNode name))) ↔
        Script.wholeCourse start (Script.script tokens).value = .clash)) ∧
    (Apart (start :: Script.labels (Script.script tokens).value) →
      Script.wholeCourse start (Script.script tokens).value ≠ .doubtful) := by
  refine ⟨fun hdoubt => ?_, Script.wholeCourse_ne_doubtful⟩
  have hg := Build.whole_goes (isLabel_of_not_numeric hs) (here tokens) (Script.script tokens).value
  have hl := Build.recorded_whole start (here tokens) (Script.script tokens).value
  cases hc : Script.wholeCourse start (Script.script tokens).value with
  | on st =>
    rw [hc] at hg
    refine ⟨fun ⟨name, h⟩ => ?_, fun h => by cases h⟩
    obtain ⟨story, hrun⟩ | ⟨front, story, after, hrun, hclose⟩ := compile_eq_duplicate h
    · exact absurd trivial (hg.of_error hrun)
    · exact absurd trivial ((Build.yields_close (hg.of_ok hrun)).of_error hclose)
  | clash =>
    rw [hc] at hg
    refine ⟨fun _ => rfl, fun _ => ?_⟩
    cases hrun : Build.whole start (here tokens) (Script.script tokens).value (.empty start) with
    | ok front story => exact (hg.of_ok hrun).elim
    | error e story =>
      obtain ⟨name, rfl⟩ := hg.of_error hrun (hl.of_error hrun)
      exact ⟨name, compile_of_error (by simp) hrun⟩
  | cut =>
    rw [hc] at hg
    refine ⟨fun ⟨name, h⟩ => ?_, fun h => by cases h⟩
    obtain ⟨story, hrun⟩ | ⟨front, story, after, hrun, hclose⟩ := compile_eq_duplicate h
    · cases hg.of_error hrun trivial
    · exact (hg.of_ok hrun).elim
  | doubtful => exact absurd hc hdoubt

/-- A label after a loop that some item ends. -/
theorem compile_duplicate_label : ¬ ∃ name,
    compile "start" [⟨.mark, "", "@", ⟨1, 1⟩⟩, ⟨.mark, "", "...", ⟨1, 2⟩⟩, ⟨.word, " ", "hi", ⟨1, 6⟩⟩,
      ⟨.mark, " ", "@", ⟨2, 1⟩⟩, ⟨.word, "", "on", ⟨2, 2⟩⟩, .stop ⟨3, 1⟩] =
        .error (.build (.duplicateNode name)) := by
  let tokens : List Token := [⟨.mark, "", "@", ⟨1, 1⟩⟩, ⟨.mark, "", "...", ⟨1, 2⟩⟩,
    ⟨.word, " ", "hi", ⟨1, 6⟩⟩, ⟨.mark, " ", "@", ⟨2, 1⟩⟩, ⟨.word, "", "on", ⟨2, 2⟩⟩, .stop ⟨3, 1⟩]
  have hs : Build.hasNumericPart "start" = false := by decide +kernel
  have hno : Script.wholeCourse "start" (Script.script tokens).value ≠ .clash := by decide +kernel
  have hapart : Apart ("start" :: Script.labels (Script.script tokens).value) := by decide +kernel
  obtain ⟨h, hd⟩ := compile_duplicate "start" tokens hs
  exact fun hex => hno ((h (hd hapart)).mp hex)

/-- An empty loop leaves its node where the next one is written: here in a block with text after
it. -/
theorem duplicate_after_empty_loop : ¬ ∀ start tokens, Build.hasNumericPart start = false →
    ∀ name, compile start tokens ≠ .error (.build (.duplicateNode name)) := by
  intro h
  let tokens : List Token := [⟨.start, " ", "-", ⟨1, 1⟩⟩, ⟨.mark, " ", "@", ⟨1, 2⟩⟩,
    ⟨.mark, "", "...", ⟨1, 3⟩⟩, .stop ⟨1, 5⟩, ⟨.word, "", "hi", ⟨2, 1⟩⟩, .stop ⟨2, 2⟩]
  have hc : (match compile "start" tokens with
      | .error (.build (.duplicateNode _)) => true | _ => false) = true := by
    decide +kernel
  have hs : Build.hasNumericPart "start" = false := by decide +kernel
  split at hc
  · next name he => exact h "start" tokens hs name he
  · cases hc

end Storyline
