import Storyline.Proofs.Definitions.Linking
import Storyline.Proofs.Targets.Compiled

namespace Storyline

mutual

/-- The labels that the moves in an item lead to. -/
def Item.gotos : Item → List String
  | .goto label => [label]
  | .loop _ body => Script.gotos body
  | .define _ _ _ _ body => Script.gotos body
  | .jump _ _ yes no => Script.gotos yes ++ Script.gotos no
  | .switch _ _ found => Script.caseGotos found
  | .option _ _ _ parts => Script.segmentGotos parts
  | _ => []

def Script.gotos : List Item → List String
  | [] => []
  | i :: rest => i.gotos ++ Script.gotos rest

def Script.caseGotos : List Case → List String
  | [] => []
  | .mk _ body :: rest => Script.gotos body ++ Script.caseGotos rest

def Script.segmentGotos : List Segment → List String
  | [] => []
  | .mk _ _ body :: rest => Script.gotos body ++ Script.segmentGotos rest

end

namespace Build

variable {tokens : List Token} {asked : String → Prop}

section

variable {a b : List String}

theorem asks_append (h : ∀ l ∈ a ++ b, asked l) : (∀ l ∈ a, asked l) ∧ ∀ l ∈ b, asked l :=
  List.forall_mem_append.mp h

end

mutual

theorem asks_item (i : Item) (h : i.Each (Script.IsWritten tokens)) (ha : ∀ l ∈ i.gotos, asked l) :
    i.Each (Asks asked) := by
  cases i with
  | report d => exact Mistake.isNaming_of_isRead h
  | goto label => exact ha label (List.mem_singleton_self label)
  | loop pos body => exact ⟨trivial, asks_thread body h.2 ha⟩
  | define pos name params seen body => exact ⟨trivial, asks_thread body h.2 ha⟩
  | jump pos condition yes no =>
    obtain ⟨hyes, hno⟩ := asks_append ha
    exact ⟨trivial, asks_thread yes h.2.1 hyes, asks_thread no h.2.2 hno⟩
  | switch pos selection found => exact ⟨trivial, asks_cases found h.2 ha⟩
  | option pos leader terms parts => exact ⟨trivial, asks_segments parts h.2 ha⟩
  | _ => trivial

/-- What the moves of a script lead to is all it asks for. -/
theorem asks_thread (items : List Item) (h : Script.Each (Script.IsWritten tokens) items)
    (ha : ∀ l ∈ Script.gotos items, asked l) : Script.Each (Asks asked) items := by
  cases items with
  | nil => trivial
  | cons i rest =>
    obtain ⟨hi, hrest⟩ := asks_append ha
    exact ⟨asks_item i h.1 hi, asks_thread rest h.2 hrest⟩

theorem asks_cases (found : List Case) (h : Script.EachCase (Script.IsWritten tokens) found)
    (ha : ∀ l ∈ Script.caseGotos found, asked l) : Script.EachCase (Asks asked) found := by
  cases found with
  | nil => trivial
  | cons c rest =>
    obtain ⟨weight, body⟩ := c
    obtain ⟨hbody, hrest⟩ := asks_append ha
    exact ⟨asks_thread body h.1 hbody, asks_cases rest h.2 hrest⟩

theorem asks_segments (parts : List Segment)
    (h : Script.EachPart (Script.IsWritten tokens) parts)
    (ha : ∀ l ∈ Script.segmentGotos parts, asked l) : Script.EachPart (Asks asked) parts := by
  cases parts with
  | nil => trivial
  | cons part rest =>
    obtain ⟨pos, role, body⟩ := part
    obtain ⟨hbody, hrest⟩ := asks_append ha
    exact ⟨asks_thread body h.1 hbody, asks_segments rest h.2 hrest⟩

end

/-- Links a whole script and notes its definitions. -/
def noteWhole (start : String) (pos : Position) (items : Script) :
    Build (Front × List Definition) := do
  let entry ← createPlaceholder (.root start) pos
  noteThread items (entering (.root start) (nextEnd entry))

theorem noteWhole_forget (start : String) (pos : Position) (items : Script) :
    Forgets (whole start pos items) (noteWhole start pos items) := by
  apply Forgets.step
  intro entry
  exact noteThread_forget items _

end Build

/-- The definitions of a script, in the order of its tokens. -/
def definitions (start : String) (tokens : List Token) : List Definition :=
  match Build.noteWhole start (here tokens) (Script.script tokens).value (.empty start) with
  | .ok (_, found) _ => found
  | .error _ _ => []

open Build Script

variable {start : String} {tokens : List Token} {story : Story} {asked : String → Prop}

/-- A compiled story is one that was linked while its definitions were noted, and closed. -/
theorem compile_eq_noted (h : compile start tokens = .ok story) : ∃ front mid,
    noteWhole start (here tokens) (script tokens).value (.empty start) =
      .ok (front, definitions start tokens) mid ∧ close front mid = .ok () story := by
  obtain ⟨front, mid, hrun, hclose⟩ := compile_eq_ok h
  have hforget := noteWhole_forget start (here tokens) (script tokens).value (.empty start)
  rw [hrun] at hforget
  cases hnote : noteWhole start (here tokens) (script tokens).value (.empty start) with
  | error e after =>
    rw [hnote] at hforget
    cases hforget
  | ok noted after =>
    obtain ⟨front', found⟩ := noted
    rw [hnote] at hforget
    cases hforget
    refine ⟨front, mid, ?_, hclose⟩
    rw [definitions, hnote]

/-- The definitions of a compiled story are those of the script, and they account for all names and
links in it. -/
theorem compile_told (h : compile start tokens = .ok story)
    (ha : ∀ label ∈ gotos (script tokens).value, asked label) :
    (definitions start tokens).map Definition.name = labels (script tokens).value ∧
      story.Told start asked (definitions start tokens) := by
  have hasks : Each (Asks asked) (script tokens).value :=
    asks_thread _ (script_written tokens (List.suffix_refl tokens)) ha
  have hstart : HasLabel start [] (Path.root start).label := .inl rfl
  have hwhole : Yields Anything (fun r s =>
      r.2.map Definition.name = labels (script tokens).value ∧
        Reached start asked ([] ++ r.2) r.1 s)
      (noteWhole start (here tokens) (script tokens).value) (.empty start) :=
    (told_placeholder (here tokens) hstart (.empty start)).bind fun entry _ hs =>
      notes_thread (script tokens).value (entering (.root start) (nextEnd entry)) hasks hstart hs
  obtain ⟨front, mid, hnote, hclose⟩ := compile_eq_noted h
  obtain ⟨hnames, -, hmid⟩ := hwhole.of_ok hnote
  have hend : Yields Anything (fun _ s => s.Told start asked (definitions start tokens))
      (close front) mid := by
    apply (told_tie front.ends.rets .ret hmid).bind
    intro _ s hs
    apply (told_tie front.ends.escs .esc hs).bind
    intro _ s hs
    apply hs.reports
    intro d hd
    obtain ⟨node, -, name, -, -, rfl⟩ := mem_missingLabels.mp hd
    rfl
  exact ⟨hnames, hend.of_ok hclose⟩

/-- Each firm label stands in a compiled story, and no later definition is given it. -/
theorem compile_sealed (h : compile start tokens = .ok story) : ∃ marks,
    marks.map Prod.fst = definitions start tokens ∧
      marks.map Prod.snd = firm true (script tokens).value ∧ Sealed marks story := by
  have hempty : Sealed [] (.empty start) :=
    ⟨Story.distinct_empty start, List.forall_mem_nil _, List.Pairwise.nil⟩
  have hwhole : Firms [] (firm true (script tokens).value) (WaitsAt fun _ => true)
      (noteWhole start (here tokens) (script tokens).value) (.empty start) := by
    apply (stands_placeholder (.root start) (here tokens) hempty).bind
    intro entry s hs
    exact firms_thread _ (entering (.root start) (nextEnd entry)) true (.of_sealed _ hs.none)
  obtain ⟨front, mid, hnote, hclose⟩ := compile_eq_noted h
  obtain ⟨marks, ⟨more, hmarks, hfound, hflags⟩, hmid⟩ := hwhole.of_ok hnote
  obtain rfl : marks = more := hmarks
  have hend : Yields Anything (fun _ s => Sealed marks s) (close front) mid := by
    apply (sealed_tie .ret front.ends.rets hmid).bind
    intro _ s hs
    apply (sealed_tie .esc front.ends.escs (.of_sealed (fun _ => true) hs)).bind
    intro _ s hs
    exact hs.same hs.distinct fun _ => rfl
  exact ⟨marks, hfound, hflags, hend.of_ok hclose⟩

/-- Who is told that a name is taken. -/
theorem Definition.mem_mistakes {d : Definition} (hn : Build.hasNumericPart d.name = false)
    (hd : d.story.isDefined d.name = true) : ⟨d.seen, .definedTwice d.name⟩ ∈ d.mistakes := by
  unfold mistakes
  simp [hn, hd]

/-- The definitions of a compiled script are those of its labels and subroutines, the mistakes reported
of label names are theirs, and every node is named below the start label or a label of theirs. A firm
label stands in the story. A label that is firm, or has come to be settled, is given to no later
definition, and one that writes it again is told so unless the name is no label at all. -/
theorem compile_definitions (h : compile start tokens = .ok story) :
    (definitions start tokens).map Definition.name = labels (script tokens).value ∧
    (firm true (script tokens).value).length = (definitions start tokens).length ∧
    (story.diagnostics.toList.filter fun d => d.mistake.isNaming) =
      (definitions start tokens).flatMap Definition.mistakes ∧
    (∀ node ∈ story.nodes, ∃ p : Path, p.name = node.name ∧
      (p.label = start ∨ ∃ d ∈ definitions start tokens, d.label = p.label)) ∧
    (∀ d ∈ (definitions start tokens).zip (firm true (script tokens).value),
      d.2 = true → story.isDefined d.1.label = true) ∧
    ((definitions start tokens).zip (firm true (script tokens).value)).Pairwise fun d e =>
      d.2 = true ∨ e.1.story.isDefined d.1.label = true → e.1.label ≠ d.1.label ∧
        (e.1.name = d.1.label → hasNumericPart e.1.name = false →
          ⟨e.1.seen, .definedTwice e.1.name⟩ ∈ story.diagnostics) := by
  obtain ⟨hnames, htold⟩ := @compile_told start tokens story (fun _ => True) h fun _ _ => trivial
  obtain ⟨marks, hfound, hflags, hsealed⟩ := compile_sealed h
  have hzip : (definitions start tokens).zip (firm true (script tokens).value) = marks := by
    rw [← hfound, ← hflags]
    exact (List.zip_of_prod rfl rfl).symm
  have hlen : (firm true (script tokens).value).length = (definitions start tokens).length := by
    rw [← hfound, ← hflags, List.length_map, List.length_map]
  refine ⟨hnames, hlen, htold.naming, ?_, ?_, ?_⟩
  · intro node hn
    obtain ⟨id, hlive⟩ := Story.exists_node?_of_mem hn
    obtain ⟨p, hp, hname⟩ := (htold.nodes id node hlive).name
    exact ⟨p, hname, hp⟩
  · rw [hzip]
    intro d hd hf
    exact Story.isDefined_iff.mpr (Standing.settled hsealed hd hf)
  · rw [hzip]
    apply hsealed.kept.imp_of_mem
    intro d e hd he hsecure hcase
    have hkeeps : d.1.Withstands e.1 := by
      rcases hcase with hf | hs
      · exact hsecure hf
      · exact .inl (Story.isDefined_iff.mp hs)
    refine ⟨hkeeps.label_ne, fun hname hn => ?_⟩
    have hmistake := Definition.mem_mistakes hn (hkeeps.isDefined hname)
    have hdef : e.1 ∈ definitions start tokens := by
      rw [← hfound]
      exact List.mem_map_of_mem he
    have hall : ⟨e.1.seen, .definedTwice e.1.name⟩ ∈
        story.diagnostics.toList.filter fun d => d.mistake.isNaming := by
      rw [htold.naming]
      exact List.mem_flatMap.mpr ⟨e.1, hdef, hmistake⟩
    exact Array.mem_toList_iff.mp (List.mem_filter.mp hall).1

/-- A label that is written twice, with text behind it each time. -/
theorem compile_definitions_twice : ∃ story seen,
    compile "start" [⟨.mark, "", "@", ⟨1, 1⟩⟩, ⟨.word, "", "a", ⟨1, 2⟩⟩, ⟨.word, " ", "x", ⟨1, 4⟩⟩,
      ⟨.mark, " ", "@", ⟨1, 6⟩⟩, ⟨.word, "", "a", ⟨1, 7⟩⟩, ⟨.word, " ", "y", ⟨1, 9⟩⟩,
      .stop ⟨2, 1⟩] = .ok story ∧ ⟨seen, .definedTwice "a"⟩ ∈ story.diagnostics := by
  let tokens : List Token := [⟨.mark, "", "@", ⟨1, 1⟩⟩, ⟨.word, "", "a", ⟨1, 2⟩⟩,
    ⟨.word, " ", "x", ⟨1, 4⟩⟩, ⟨.mark, " ", "@", ⟨1, 6⟩⟩, ⟨.word, "", "a", ⟨1, 7⟩⟩,
    ⟨.word, " ", "y", ⟨1, 9⟩⟩, .stop ⟨2, 1⟩]
  have hok : (compile "start" tokens).toOption.isSome = true := by decide +kernel
  have hfirm : firm true (script tokens).value = [true, true] := by decide +kernel
  have hnames : (definitions "start" tokens).map (fun d => (d.name, d.label)) =
      [("a", "a"), ("a", "a'2")] := by decide +kernel
  cases hc : compile "start" tokens with
  | error e =>
    rw [hc] at hok
    cases hok
  | ok story =>
    obtain ⟨-, hlen, -, -, -, hpairs⟩ := compile_definitions hc
    rw [hfirm] at hlen hpairs
    obtain ⟨d, e, hde⟩ := List.length_eq_two.mp hlen.symm
    rw [hde] at hnames hpairs
    simp only [List.map_cons, List.map_nil, List.cons.injEq, Prod.mk.injEq, and_true] at hnames
    obtain ⟨⟨-, hlabel⟩, hname, -⟩ := hnames
    have hn : hasNumericPart e.name = false := by
      rw [hname]
      decide +kernel
    have hpair := List.rel_of_pairwise_cons hpairs List.mem_cons_self (.inl rfl)
    refine ⟨story, e.seen, rfl, ?_⟩
    rw [← hname]
    exact hpair.2 (hname.trans hlabel.symm) hn

/-- Two labels of one name with nothing between them: the second takes the place of the first, and
nobody is told. -/
theorem label_taken_over : ¬ ∀ start tokens story, compile start tokens = .ok story →
    (definitions start tokens).Pairwise fun d e => e.name = d.label →
      e.label ≠ d.label ∧ ∃ seen, ⟨seen, .definedTwice e.name⟩ ∈ story.diagnostics := by
  intro h
  let tokens : List Token := [⟨.mark, "", "@", ⟨1, 1⟩⟩, ⟨.word, "", "a", ⟨1, 2⟩⟩,
    ⟨.mark, " ", "@", ⟨1, 4⟩⟩, ⟨.word, "", "a", ⟨1, 5⟩⟩, ⟨.word, " ", "x", ⟨1, 7⟩⟩, .stop ⟨2, 1⟩]
  have hnone : (compile "start" tokens).toOption.map (fun s => s.diagnostics.size) = some 0 := by
    decide +kernel
  have hnames : (definitions "start" tokens).map (fun d => (d.name, d.label)) =
      [("a", "a"), ("a", "a")] := by decide +kernel
  cases hc : compile "start" tokens with
  | error e =>
    rw [hc] at hnone
    cases hnone
  | ok story =>
    have hpairs := h "start" tokens story hc
    have hlen := congrArg List.length hnames
    rw [List.length_map] at hlen
    obtain ⟨d, e, hde⟩ := List.length_eq_two.mp hlen
    rw [hde] at hnames hpairs
    simp only [List.map_cons, List.map_nil, List.cons.injEq, Prod.mk.injEq, and_true] at hnames
    obtain ⟨⟨-, hlabel⟩, hname, hlabel'⟩ := hnames
    have hpair := List.rel_of_pairwise_cons hpairs List.mem_cons_self (hname.trans hlabel.symm)
    exact hpair.1 (hlabel'.trans hlabel.symm)

end Storyline
