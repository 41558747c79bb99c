import Storyline.Proofs.Options.Clauses
import Storyline.Proofs.Options.Mirrored
import Storyline.Proofs.Options.Plain

namespace Storyline

/-- A mistake at the same place about the other bracket. -/
def Diagnostic.Mirrors (d d' : Diagnostic) : Prop :=
  d'.pos = d.pos ∧ d'.mistake.message = exchanged d.mistake.message

theorem Role.asks_mirrored (role : Role) : role.mirrored.asks = role.answers := by
  cases role <;> rfl

theorem Role.answers_mirrored (role : Role) : role.mirrored.answers = role.asks := by
  cases role <;> rfl

namespace Item.Mirrors

variable {i i' : Item} {items items' : List Item}

theorem plain (h : i.Mirrors i') : i.IsPlain ∧ i'.IsPlain := by
  cases h <;> exact ⟨trivial, trivial⟩

theorem contents (h : List.Forall₂ Item.Mirrors items items') :
    Script.contents items' = Script.contents items := by
  induction h with
  | nil => rfl
  | cons hi _ ih =>
    cases hi with
    | @content _ c => exact congrArg (c :: ·) ih
    | report => exact ih

theorem reports (h : List.Forall₂ Item.Mirrors items items') :
    List.Forall₂ Diagnostic.Mirrors (Script.reports items) (Script.reports items') := by
  induction h with
  | nil => exact .nil
  | cons hi _ ih =>
    cases hi with
    | content => exact ih
    | report hpos hmessage => exact .cons ⟨hpos, hmessage⟩ ih

theorem all_plain (h : List.Forall₂ Item.Mirrors items items') :
    (∀ i ∈ items, i.IsPlain) ∧ ∀ i ∈ items', i.IsPlain := by
  induction h with
  | nil => exact ⟨fun i hi => (by cases hi), fun i hi => by cases hi⟩
  | cons hi _ ih =>
    exact ⟨List.forall_mem_cons.mpr ⟨hi.plain.1, ih.1⟩, List.forall_mem_cons.mpr ⟨hi.plain.2, ih.2⟩⟩

end Item.Mirrors

namespace Segment.Mirrors

variable {part part' : Segment} {parts parts' : List Segment}

theorem same (h : part.Mirrors part') :
    part'.contents = part.contents ∧ part'.role = part.role.mirrored := by
  cases h with
  | mk hbody => exact ⟨Item.Mirrors.contents hbody, rfl⟩

theorem plain (h : List.Forall₂ Segment.Mirrors parts parts') :
    (∀ part ∈ parts, part.IsPlain) ∧ ∀ part ∈ parts', part.IsPlain := by
  induction h with
  | nil => exact ⟨fun part hp => (by cases hp), fun part hp => by cases hp⟩
  | cons hp _ ih =>
    cases hp with
    | mk hbody =>
      obtain ⟨hb, hb'⟩ := Item.Mirrors.all_plain hbody
      exact ⟨List.forall_mem_cons.mpr ⟨hb, ih.1⟩, List.forall_mem_cons.mpr ⟨hb', ih.2⟩⟩

theorem reports (h : List.Forall₂ Segment.Mirrors parts parts') :
    List.Forall₂ Diagnostic.Mirrors (parts.flatMap Segment.reports)
      (parts'.flatMap Segment.reports) := by
  induction h with
  | nil => exact .nil
  | cons hp _ ih =>
    cases hp with
    | mk hbody =>
      rw [List.flatMap_cons, List.flatMap_cons]
      exact List.rel_append (Item.Mirrors.reports hbody) ih

/-- What is shown in the one is answered in the other. -/
theorem asked (h : List.Forall₂ Segment.Mirrors parts parts') (path : Path) :
    Segment.entries Role.asks parts' path = Segment.entries Role.answers parts path := by
  refine (Segment.entries_congr (h.imp fun part part' hp => ?_)).symm
  obtain ⟨hcontents, hrole⟩ := hp.same
  exact ⟨hcontents.symm, by rw [hrole, Role.asks_mirrored]⟩

theorem answered (h : List.Forall₂ Segment.Mirrors parts parts') (path : Path) :
    Segment.entries Role.answers parts' path = Segment.entries Role.asks parts path := by
  refine (Segment.entries_congr (h.imp fun part part' hp => ?_)).symm
  obtain ⟨hcontents, hrole⟩ := hp.same
  exact ⟨hcontents.symm, by rw [hrole, Role.answers_mirrored]⟩

/-- Both take the same number of nodes. -/
theorem span (h : List.Forall₂ Segment.Mirrors parts parts') :
    Segment.span parts' = Segment.span parts := by
  induction h with
  | nil => rfl
  | cons hp _ ih => rw [Segment.span, Segment.span, hp.same.1, ih]

end Segment.Mirrors

open Build Script Story

/-- An option with text and brackets for its body, in whatever order, and the option with its
brackets exchanged are read as the same parts with mirrored roles; each mistake in the one has its like
in the other. Once they are linked, whatever was linked before, the parts of both stand at the same
places. The question of the one is the answer of the other, but for the consequences in front of it and
the step that goes on behind it. Where there is room, linking both succeeds. -/
theorem option_reversed (pos : Position) (leader : Leader) {ts ts' body rest : List Token}
    {clauses : List Clause} {u : Token}
    (hb : ∀ t ∈ body, t.isText = true ∨ t.is "[" = true ∨ t.is "]" = true)
    (hd : ∃ d ∈ body, d.is "[" = true ∨ d.is "]" = true) (hu : EndsBody u)
    (ha : SpellsClauses ts clauses (body ++ u :: rest))
    (ha' : SpellsClauses ts' clauses (body.map Token.mirrored ++ u :: rest)) :
    ∃ parts parts',
      (Script.option pos leader ts).Gives
        [.option pos leader (Clause.terms clauses) parts] (u :: rest) ∧
      (Script.option pos leader ts').Gives
        [.option pos leader (Clause.terms clauses) parts'] (u :: rest) ∧
      List.Forall₂ Segment.Mirrors parts parts' ∧
      List.Forall₂ Diagnostic.Mirrors (parts.flatMap Segment.reports)
        (parts'.flatMap Segment.reports) ∧
      ∀ (front : Front) (story : Story),
        let linked (parts : List Segment) :=
          item (.option pos leader (Clause.terms clauses) parts) front story
        let terms := (Clause.terms clauses).ledBy leader front.path
        let path := terms.behind front.path
        let shown := Segment.entries Role.asks parts path
        let given := Segment.entries Role.answers parts path
        let step := [(path.onward (Segment.span parts)).name]
        (∀ front1 after1, linked parts = .ok front1 after1 → ∃ id1 out1,
          after1.Laid parts path out1 ∧
          after1.Holds id1 (terms.place front.path).name (.option shown
            (terms.entry front.path ++ (given ++ if Segment.advances parts then [] else step))
            (Body.wordSet terms.keywords) none) ∧
          after1.diagnostics.toList =
            story.diagnostics.toList ++ parts.flatMap Segment.reports) ∧
        (∀ front2 after2, linked parts' = .ok front2 after2 → ∃ id2 out2,
          after2.Laid parts' path out2 ∧
          after2.Holds id2 (terms.place front.path).name (.option given
            (terms.entry front.path ++ (shown ++ if Segment.advances parts' then [] else step))
            (Body.wordSet terms.keywords) none) ∧
          after2.diagnostics.toList =
            story.diagnostics.toList ++ parts'.flatMap Segment.reports) ∧
        ∀ (start : String) (frame : List LooseEnd), Recorded start (frame ++ front.held) story →
          story.Room front.path → (∃ front1 after1, linked parts = .ok front1 after1) ∧
            ∃ front2 after2, linked parts' = .ok front2 after2 := by
  obtain ⟨parts, parts', hparts, hparts', hm⟩ :=
    segments_mirrored rest (bracketed_of_forall hb) hd hu
  obtain ⟨hplain, hplain'⟩ := Segment.Mirrors.plain hm
  refine ⟨parts, parts', ha.option pos leader hparts, ha'.option pos leader hparts', hm,
    Segment.Mirrors.reports hm, fun front story => ⟨fun front1 after1 hrun => ?_,
      fun front2 after2 hrun => ?_, fun start frame hr hroom =>
        ⟨option_total _ _ _ _ hplain hr hroom, option_total _ _ _ _ hplain' hr hroom⟩⟩⟩
  · obtain ⟨ids1, id1, out1, h1⟩ :=
      (option_standing pos leader (Clause.terms clauses) parts hplain front).of_ok hrun
    exact ⟨id1, out1, h1.laid, h1.option, h1.retains.diagnostics⟩
  · obtain ⟨ids2, id2, out2, h2⟩ :=
      (option_standing pos leader (Clause.terms clauses) parts' hplain' front).of_ok hrun
    have hoption := h2.option
    rw [Segment.Mirrors.asked hm, Segment.Mirrors.answered hm, Segment.Mirrors.span hm] at hoption
    exact ⟨id2, out2, h2.laid, hoption, h2.retains.diagnostics⟩

/-- A question whose bracket is not closed, and an answer whose bracket is not. -/
theorem option_reversed_unclosed : ∃ parts parts' front story front1 after1 front2 after2 noted1
      noted2,
    (Script.option ⟨1, 1⟩ .once [⟨.word, " ", "so", ⟨1, 3⟩⟩, ⟨.mark, " ", "[", ⟨1, 6⟩⟩,
      ⟨.word, "", "what", ⟨1, 7⟩⟩, .stop ⟨2, 1⟩]).Gives
        [.option ⟨1, 1⟩ .once (Clause.terms []) parts] [.stop ⟨2, 1⟩] ∧
    (Script.option ⟨1, 1⟩ .once [⟨.word, " ", "so", ⟨1, 3⟩⟩, ⟨.mark, " ", "]", ⟨1, 6⟩⟩,
      ⟨.word, "", "what", ⟨1, 7⟩⟩, .stop ⟨2, 1⟩]).Gives
        [.option ⟨1, 1⟩ .once (Clause.terms []) parts'] [.stop ⟨2, 1⟩] ∧
    List.Forall₂ Segment.Mirrors parts parts' ∧
    item (.option ⟨1, 1⟩ .once (Clause.terms []) parts) front story = .ok front1 after1 ∧
    item (.option ⟨1, 1⟩ .once (Clause.terms []) parts') front story = .ok front2 after2 ∧
    after1.diagnostics.toList = story.diagnostics.toList ++ noted1 ∧
    after2.diagnostics.toList = story.diagnostics.toList ++ noted2 ∧
    List.Forall₂ Diagnostic.Mirrors noted1 noted2 := by
  let so : Token := ⟨.word, " ", "so", ⟨1, 3⟩⟩
  let o : Token := ⟨.mark, " ", "[", ⟨1, 6⟩⟩
  let what : Token := ⟨.word, "", "what", ⟨1, 7⟩⟩
  have hb : ∀ t ∈ [so, o, what], t.isText = true ∨ t.is "[" = true ∨ t.is "]" = true := by
    intro t ht
    simp only [List.mem_cons, List.not_mem_nil, or_false] at ht
    rcases ht with rfl | rfl | rfl
    · exact .inl rfl
    · exact .inr (.inl rfl)
    · exact .inl rfl
  have hd : ∃ d ∈ [so, o, what], d.is "[" = true ∨ d.is "]" = true :=
    ⟨o, List.mem_cons_of_mem so List.mem_cons_self, .inl rfl⟩
  have hu : EndsBody (.stop ⟨2, 1⟩) := ⟨rfl, rfl, rfl⟩
  obtain ⟨parts, parts', hread, hread', hm, hreports, hlinks⟩ :=
    option_reversed ⟨1, 1⟩ .once hb hd hu (.done rfl rfl) (.done rfl rfl)
  obtain ⟨entry, story, -, hr, hroom⟩ := begin_room "start" ⟨1, 1⟩
  obtain ⟨hlinked, hlinked', hruns⟩ := hlinks (entering (.root "start") (nextEnd entry)) story
  obtain ⟨⟨front1, after1, hrun1⟩, front2, after2, hrun2⟩ := hruns "start" [] hr hroom
  obtain ⟨-, -, -, -, h1⟩ := hlinked front1 after1 hrun1
  obtain ⟨-, -, -, -, h2⟩ := hlinked' front2 after2 hrun2
  exact ⟨parts, parts', _, story, front1, after1, front2, after2, _, _, hread, hread', hm, hrun1,
    hrun2, h1, h2, hreports⟩

end Storyline
