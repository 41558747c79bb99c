import Storyline.Proofs.Grammar.Threads
import Storyline.Proofs.Meaning.Walking
import Storyline.Proofs.Names.Duplicate

namespace Storyline

namespace Script

/-- A script whose last token is the final stop. -/
theorem script_gives {ts : List Token} {u : Token} {items : List Item}
    (h : (thread ts).Gives items [u]) (hu : u.kind = .stop) : (script ts).Gives items [] := by
  have hend : (script ts).Gives (items ++ []) [] := by
    rw [script]
    refine h.andThen fun _ => ?_
    simp only [if_pos hu]
    exact Span.Gives.past (.stay _ _)
  rwa [List.append_nil] at hend

end Script

namespace Neat

variable {entered labels : List String} {story : Story}

/-- Every link and reference of a node leads to a node. -/
theorem contains_needed (n : Neat entered labels story)
    (hl : ∀ name ∈ labels, story.contains name = true) {node : Node} (hn : node ∈ story.nodes)
    {name : String} (hm : name ∈ Story.needed node) : story.contains name = true := by
  obtain ⟨id, hnode⟩ := Story.exists_node?_of_mem hn
  have hplain := n.plain id node hnode
  rw [Story.needed, hplain, List.append_nil] at hm
  obtain ⟨⟨outlet, link⟩, hlink, htarget⟩ := List.mem_filterMap.mp hm
  have hget := Body.mem_links_iff.mp hlink
  cases link with
  | none => cases htarget
  | some target =>
    cases target with
    | node other =>
      obtain rfl := Option.some.inj htarget
      rcases n.aims id node hnode outlet other hget with hc | hc
      · exact hc
      · exact hl other hc
    | _ => cases htarget

theorem missingLabels_eq_nil (n : Neat entered labels story)
    (hl : ∀ name ∈ labels, story.contains name = true) : story.missingLabels = [] := by
  refine List.flatMap_eq_nil_iff.mpr fun node hn => ?_
  have hnone : (Story.needed node).filter (fun name => !story.contains name) = [] := by
    refine List.filter_eq_nil_iff.mpr fun name hm => ?_
    rw [n.contains_needed hl hn hm]
    simp
  rw [hnone, List.map_nil]

end Neat

namespace Build

open Story

variable {script : Script} {entered labels : List String} {story : Story} {front : Front}

/-- What ending a story comes to where nothing is missing. -/
structure Closed (front : Front) (story after : Story) : Prop where
  later : story.Later after
  distinct : after.Distinct
  gone : ∀ l ∈ front.ends.rets, after.Gone .ret l

theorem close_links (n : Neat entered labels story)
    (hl : ∀ name ∈ labels, story.contains name = true)
    (hw : ∀ l ∈ front.ends.rets, story.Waits front.path l) (he : front.ends.escs = []) :
    Yields (fun _ => True) (fun _ => Closed front story) (close front) story := by
  have hret (name : String) (h : Target.ret = .node name) :
      story.contains name = true ∨ name ∈ labels := by cases h
  refine Yields.bind (yields_sent n.distinct .ret front.ends.rets) fun _ s hs => ?_
  have hn : Neat entered labels s := n.sent hs hret
  have hmissing : s.missingLabels = [] :=
    hn.missingLabels_eq_nil fun name hm => hs.later.contains name (hl name hm)
  rw [he]
  have hcheck : check s = .ok () s := by
    unfold check
    rw [hmissing]
    simp
  have hgone (l : LooseEnd) (hm : l ∈ front.ends.rets) : s.Gone .ret l := hs.gone l hm (hw l hm).live
  have hyields : Yields (fun _ => True) (fun _ => Closed front story) check s := by
    unfold Yields
    rw [hcheck]
    exact ⟨hs.later, hs.distinct, hgone⟩
  exact hyields

/-- What linking an opening thread and sections comes to. -/
structure Linking (script : Script) (start : String) (sections : List Section) (front : Front)
    (story : Story) : Prop where
  neat : ∃ entered, Neat entered (sections.map Section.name) story
  diagnostics : story.diagnostics = #[]
  begins : story.start = start
  escs : front.ends.escs = []
  waits : ∀ l ∈ front.ends.rets, story.Waits front.path l
  here : ∀ s ∈ sections, story.contains s.name = true
  leads : ∀ final : Story, final.Distinct → story.Grows final →
    (∀ l ∈ front.ends.rets, final.Does script l []) →
    Leads script final true (.node start) script ∧ script.IsPlaced final

end Build

/-- An opening thread and sections whose labels differ from each other and from the start label,
and have no part like a number behind a dot, nor has the start label. -/
structure IsLaidOut (start : String) (opening : List Item) (sections : List Section) : Prop where
  opens : Script.Flows (sections.map Section.name) opening
  bodies : ∀ s ∈ sections, Script.Flows (sections.map Section.name) s.body
  differ : (start :: sections.map Section.name).Nodup
  plain : ∀ name ∈ start :: sections.map Section.name, Build.hasNumericPart name = false

namespace IsLaidOut

open Build Story

variable {start : String} {opening : List Item} {sections : List Section} {script : Script}

theorem behind (h : IsLaidOut start opening sections) (hs : script = opening ++ Section.laid sections)
    {before rest : List Section} {s : Section} (he : sections = before ++ s :: rest) :
    Script.behind s.name script = some (s.body ++ Section.laid rest) := by
  have hn := (List.nodup_cons.mp h.differ).2
  rw [hs, Section.behind_append h.opens]
  exact Section.behind_laid h.bodies hn he

theorem behind_isSome (h : IsLaidOut start opening sections)
    (hs : script = opening ++ Section.laid sections) :
    ∀ name ∈ sections.map Section.name, (Script.behind name script).isSome := by
  intro name hm
  obtain ⟨s, hmem, rfl⟩ := List.mem_map.mp hm
  obtain ⟨before, rest, he⟩ := List.append_of_mem hmem
  rw [h.behind hs he]
  rfl

theorem whole_links (h : IsLaidOut start opening sections)
    (hs : script = opening ++ Section.laid sections) (pos : Position) :
    Yields (fun _ => True) (Linking script start sections) (whole start pos script)
      (.empty start) := by
  have hlabel : IsLabel start := isLabel_of_not_numeric (h.plain start List.mem_cons_self)
  have hbehind := h.behind_isSome hs
  have hempty := Neat.empty (sections.map Section.name) start
  refine Yields.bind (begin_links hempty (fun _ hm => by cases hm) hlabel List.not_mem_nil pos)
    fun id s1 h1 => ?_
  have hentry : s1.Enters id (Path.root start).name := (Path.name_root start).symm ▸ h1.entry
  have hw1 := hentry.waits h1.neat.distinct
  have hthread : thread script (entering (.root start) (nextEnd id)) =
      thread opening (entering (.root start) (nextEnd id)) >>= thread (Section.laid sections) := by
    rw [hs, thread_append]
  rw [hthread]
  refine Yields.bind (thread_links opening hbehind h.opens (entering (.root start) (nextEnd id))
    h1.neat List.mem_cons_self hw1) fun front2 s2 h2 => ?_
  have hd : (sections.map Section.name ++ [start]).Nodup :=
    (List.perm_append_singleton start _).nodup_iff.mpr h.differ
  have hl : ∀ label ∈ [start], IsLabel label := by
    intro label hm
    rw [List.mem_singleton.mp hm]
    exact hlabel
  have hn : ∀ s ∈ sections, hasNumericPart s.name = false := fun s hm =>
    h.plain s.name (List.mem_cons_of_mem _ (List.mem_map_of_mem hm))
  refine (sections_links sections hbehind (fun _ _ _ he => h.behind hs he) h.bodies hn hd hl h2.neat
    (h2.waits hw1)).mono fun front3 after h3 => ?_
  have hlater : (Story.empty start).Later after := h1.later.trans (h2.later.trans h3.later)
  refine ⟨h3.neat, hlater.diagnostics, hlater.start, h3.escs.trans h2.escs, h3.waits, h3.here,
    fun final hdf hg hr => ?_⟩
  have hopening := h2.does final hdf (h3.later.grows.trans hg) (Section.laid sections)
    (h3.does final hdf hg hr) _ (List.mem_singleton_self _)
  have hgrows := h2.later.grows.trans (h3.later.grows.trans hg)
  refine ⟨?_, fun label items hb => ?_⟩
  · have hleads := h1.entry.leads hgrows hdf hopening
    rwa [← hs] at hleads
  · rw [hs, Section.behind_append h.opens] at hb
    obtain ⟨before, s, rest, he, rfl, rfl⟩ := Section.of_behind h.bodies hb
    exact h3.leads final hdf hg hr before s rest he

end IsLaidOut

/-- Where the walk foresees no clash a script with a final stop becomes a story. -/
theorem compile_succeeds {start : String} {tokens : List Token} {st : Stance}
    (hs : IsLabel start) (hc : Script.wholeCourse start (Script.script tokens).value = .on st)
    (hrest : (Script.script tokens).rest = []) :
    ∃ front story after, Build.whole start (here tokens) (Script.script tokens).value
      (.empty start) = .ok front story ∧ story.Distinct ∧ Build.close front story = .ok () after ∧
        compile start tokens = .ok after := by
  have hg := Build.whole_goes hs (here tokens) (Script.script tokens).value
  have hw := Build.recorded_whole start (here tokens) (Script.script tokens).value
  rw [hc] at hg
  cases hrun : Build.whole start (here tokens) (Script.script tokens).value (.empty start) with
  | error e story => exact absurd (hw.of_error hrun) (hg.of_error hrun)
  | ok front story =>
    have hd := hg.of_ok hrun
    obtain ⟨after, hclose, hcompile⟩ := linked_compiles hrun hd hrest
    exact ⟨front, story, after, rfl, hd, hclose, hcompile⟩

/-- A script that is an opening thread with sections behind it becomes a story without diagnostics.
Whatever decides its conditions and the cases of its switches, the same things happen in the story
and in the script, in the same order, and both end after the same things or go on alike. -/
theorem compile_keeps_meaning (start : String) (tokens : List Token) (opening : List Item)
    (sections : List Section) (u : Token) (hl : IsLaidOut start opening sections)
    (hw : Script.Writes (.thread (opening ++ Section.laid sections)) tokens [u])
    (hu : u.kind = .stop) :
    ∃ story, compile start tokens = .ok story ∧ story.diagnostics = #[] ∧
      ∀ (oracle : Oracle) (past : List Event),
        (Happens (story.step oracle) (.node story.start) past ↔
          Happens (Script.step (opening ++ Section.laid sections) oracle)
            (opening ++ Section.laid sections) past) ∧
        (story.Halts oracle past ↔ Script.Halts (opening ++ Section.laid sections) oracle past) := by
  have hgives := Script.script_gives hw.reads hu
  have hvalue : (Script.script tokens).value = opening ++ Section.laid sections := hgives.1
  have hrest : (Script.script tokens).rest = [] := hgives.2
  have hlabel : IsLabel start := isLabel_of_not_numeric (hl.plain start List.mem_cons_self)
  obtain ⟨st, hcourse⟩ := wholeCourse_laid start hl.opens hl.bodies
  rw [← hvalue] at hcourse
  obtain ⟨front, story, after, hrun, -, hclose, hcompile⟩ := compile_succeeds hlabel hcourse hrest
  have hlinks := hl.whole_links hvalue (here tokens)
  have hlinked := hlinks.of_ok hrun
  obtain ⟨entered, hneat⟩ := hlinked.neat
  have hhere : ∀ name ∈ sections.map Section.name, story.contains name = true := by
    intro name hm
    obtain ⟨s, hs, rfl⟩ := List.mem_map.mp hm
    exact hlinked.here s hs
  have hclosed := (Build.close_links hneat hhere hlinked.waits hlinked.escs).of_ok hclose
  have hends : ∀ l ∈ front.ends.rets, after.Does (Script.script tokens).value l [] :=
    fun l hm => .of_gone (hclosed.gone l hm) (.refl after) .done
  obtain ⟨hleads, hplaced⟩ := hlinked.leads after hclosed.distinct hclosed.later.grows hends
  have hstart : after.start = start := hclosed.later.start.trans hlinked.begins
  refine ⟨after, hcompile, hclosed.later.diagnostics.trans hlinked.diagnostics, fun oracle past => ?_⟩
  rw [← hstart] at hleads
  have hsame := hleads.same hplaced oracle past
  rwa [hvalue] at hsame

/-- A condition that may lead to the section behind it. -/
theorem compile_keeps_meaning_branch : ∃ story,
    compile "start" [⟨.mark, "", "\x7b", ⟨1, 1⟩⟩, ⟨.word, "", "x", ⟨1, 2⟩⟩, ⟨.mark, "", "?", ⟨1, 3⟩⟩,
      ⟨.mark, " ", "->", ⟨1, 5⟩⟩, ⟨.word, " ", "on", ⟨1, 8⟩⟩, ⟨.mark, "", "\x7d", ⟨1, 10⟩⟩,
      ⟨.mark, " ", "@", ⟨2, 1⟩⟩, ⟨.word, "", "on", ⟨2, 2⟩⟩, ⟨.word, " ", "bye", ⟨2, 5⟩⟩,
      .stop ⟨3, 1⟩] = .ok story ∧
    story.diagnostics = #[] ∧ ∀ picks, story.Halts (Oracle.deciding (fun _ _ => true) picks)
      [.shown (.text "bye" " " ""), .tested] := by
  let t1 : Token := ⟨.mark, "", "\x7b", ⟨1, 1⟩⟩
  let t2 : Token := ⟨.word, "", "x", ⟨1, 2⟩⟩
  let t3 : Token := ⟨.mark, "", "?", ⟨1, 3⟩⟩
  let t4 : Token := ⟨.mark, " ", "->", ⟨1, 5⟩⟩
  let t5 : Token := ⟨.word, " ", "on", ⟨1, 8⟩⟩
  let t6 : Token := ⟨.mark, "", "\x7d", ⟨1, 10⟩⟩
  let t7 : Token := ⟨.mark, " ", "@", ⟨2, 1⟩⟩
  let t8 : Token := ⟨.word, "", "on", ⟨2, 2⟩⟩
  let t9 : Token := ⟨.word, " ", "bye", ⟨2, 5⟩⟩
  let t10 : Token := .stop ⟨3, 1⟩
  let bye : Item := .content t9.pos (.text t9.text t9.space t10.space)
  let opening : List Item := [.jump t1.pos (.var t2.text) [.goto t5.text] []]
  let sections : List Section := [⟨t7.pos, t8.text, t9.pos, [bye]⟩]
  have hl : IsLaidOut "start" opening sections := by
    refine ⟨⟨⟨⟨List.mem_cons_self, trivial⟩, trivial⟩, trivial⟩, ?_, ?_, ?_⟩
    · intro s hs
      rw [List.mem_singleton.mp hs]
      exact ⟨trivial, trivial⟩
    · show ["start", "on"].Nodup
      decide
    · show ∀ name ∈ ["start", "on"], Build.hasNumericPart name = false
      decide +kernel
  have hx : Script.SpellsSelector [t2, t3, t4, t5, t6, t7, t8, t9, t10] (.var t2.text)
      [t3, t4, t5, t6, t7, t8, t9, t10] := by
    refine .word rfl rfl rfl rfl rfl ?_
    show ∀ ops ∈ Script.selectorTiers, Script.infixOp? ops ⟨.mark, "", "?", ⟨1, 3⟩⟩ = none
    decide +kernel
  have hon : Script.Writes (.thread [.goto t5.text]) [t4, t5, t6, t7, t8, t9, t10]
      [t6, t7, t8, t9, t10] := .goto rfl (.word rfl rfl) rfl (.close rfl)
  have hbye : Script.Writes (.thread [bye]) [t9, t10] [t10] := .word rfl rfl (.close rfl)
  have hsection : Script.Writes (.thread [.label t7.pos t8.text t9.pos, bye]) [t7, t8, t9, t10]
      [t10] := .label rfl (.word rfl rfl) rfl hbye
  have hw : Script.Writes (.thread (opening ++ Section.laid sections))
      [t1, t2, t3, t4, t5, t6, t7, t8, t9, t10] [t10] :=
    .condition rfl ⟨rfl, rfl, rfl⟩ hx rfl hon rfl hsection
  obtain ⟨story, hc, hd, hsame⟩ := compile_keeps_meaning "start"
    [t1, t2, t3, t4, t5, t6, t7, t8, t9, t10] opening sections t10 hl hw rfl
  refine ⟨story, hc, hd, fun picks => (hsame _ _).2.mpr ⟨[], ?_, ?_⟩⟩
  · refine .head (b := ([.tested], .goto t5.text :: Section.laid sections)) rfl ?_
    refine .head (b := ([.tested], [bye])) rfl ?_
    exact .single rfl
  · intro i hi
    cases hi

/-- A start label may be the name of a node below another label: here `a.1`, where the second node
of the section `a` is written. -/
theorem start_label_below_section : ¬ ∀ start tokens opening sections u,
    Script.Flows (sections.map Section.name) opening →
    (∀ s ∈ sections, Script.Flows (sections.map Section.name) s.body) →
    (start :: sections.map Section.name).Nodup →
    (∀ name ∈ sections.map Section.name, Build.hasNumericPart name = false) →
    Script.Writes (.thread (opening ++ Section.laid sections)) tokens [u] → u.kind = .stop →
    ∃ story, compile start tokens = .ok story := by
  intro h
  let t1 : Token := ⟨.mark, "", "@", ⟨1, 1⟩⟩
  let t2 : Token := ⟨.word, "", "a", ⟨1, 2⟩⟩
  let t3 : Token := ⟨.word, " ", "one", ⟨1, 4⟩⟩
  let t4 : Token := ⟨.mark, " ", "/", ⟨1, 8⟩⟩
  let t5 : Token := .stop ⟨2, 1⟩
  let one : Item := .content t3.pos (.text t3.text t3.space t4.space)
  let sections : List Section := [⟨t1.pos, t2.text, t3.pos, [one, .content t4.pos .lineBreak]⟩]
  have hf : ∀ s ∈ sections, Script.Flows (sections.map Section.name) s.body := by
    intro s hs
    rw [List.mem_singleton.mp hs]
    exact ⟨trivial, trivial, trivial⟩
  have hd : ["a.1", "a"].Nodup := by decide
  have hn : ∀ name ∈ ["a"], Build.hasNumericPart name = false := by decide +kernel
  have hbody : Script.Writes (.thread [one, .content t4.pos .lineBreak]) [t3, t4, t5] [t5] :=
    .word rfl rfl (.content rfl (.close rfl))
  have hw : Script.Writes (.thread [.label t1.pos t2.text t3.pos, one, .content t4.pos .lineBreak])
      [t1, t2, t3, t4, t5] [t5] := .label rfl (.word rfl rfl) rfl hbody
  obtain ⟨story, hc⟩ := h "a.1" [t1, t2, t3, t4, t5] [] sections t5 trivial hf hd hn hw rfl
  have hno : (compile "a.1" [⟨.mark, "", "@", ⟨1, 1⟩⟩, ⟨.word, "", "a", ⟨1, 2⟩⟩,
      ⟨.word, " ", "one", ⟨1, 4⟩⟩, ⟨.mark, " ", "/", ⟨1, 8⟩⟩, .stop ⟨2, 1⟩]).toOption.isSome =
        false := by
    decide +kernel
  have hsome : (compile "a.1" [t1, t2, t3, t4, t5]).toOption.isSome = true := by
    rw [hc]
    rfl
  exact absurd (hsome.symm.trans hno) (by decide)

end Storyline
