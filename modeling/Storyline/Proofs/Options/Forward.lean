import Storyline.Proofs.Options.Clauses
import Storyline.Proofs.Options.Brackets
import Storyline.Proofs.Options.Plain

namespace Storyline

namespace Script

variable {run : List Token} {after : Token} {parts : List Segment} {stretches : List Stretch}

theorem plain_runItems (run : List Token) (after : Token) :
    (∀ i ∈ runItems run after, i.IsPlain) ∧ reports (runItems run after) = [] := by
  cases run with
  | nil => exact ⟨fun i hi => (by cases hi), rfl⟩
  | cons t run =>
    refine ⟨fun i hi => ?_, rfl⟩
    rw [List.mem_singleton.mp hi]
    trivial

/-- A part has contents if its run is not empty. -/
theorem contents_runItems (run : List Token) (after : Token) :
    (contents (runItems run after)).isEmpty = run.isEmpty := by
  cases run <;> rfl

/-- Parts that hold text alone are plain, and have no mistakes. -/
theorem plain_of_outline (h : parts.map Segment.outline = stretches.map Stretch.outline) :
    (∀ part ∈ parts, part.IsPlain) ∧ parts.flatMap Segment.reports = [] := by
  have hpart : ∀ part ∈ parts, part.IsPlain ∧ part.reports = [] := by
    intro part hm
    obtain ⟨s, -, hs⟩ := List.mem_map.mp (h ▸ List.mem_map_of_mem hm)
    obtain ⟨pos, role, body⟩ := part
    obtain ⟨-, hbody⟩ := Prod.mk.inj hs
    obtain ⟨hp, hr⟩ := plain_runItems s.run s.after
    rw [hbody] at hp hr
    exact ⟨hp, hr⟩
  exact ⟨fun part hm => (hpart part hm).1,
    List.flatMap_eq_nil_iff.mpr fun part hm => (hpart part hm).2⟩

/-- The parts go on after the next prompt if the last of them is a run for the answer. -/
theorem advances_of_outline {last : List Token} {u : Token}
    (h : parts.map Segment.outline =
      (stretches ++ [Stretch.mk .answer last u]).map Stretch.outline) :
    Segment.advances parts = !last.isEmpty := by
  induction parts generalizing stretches with
  | nil => simp at h
  | cons part rest ih =>
    cases stretches with
    | nil =>
      simp only [List.nil_append, List.map_cons, List.map_nil, List.cons.injEq,
        List.map_eq_nil_iff] at h
      obtain ⟨hpart, rfl⟩ := h
      obtain ⟨pos, role, body⟩ := part
      obtain ⟨rfl, rfl⟩ := Prod.mk.inj hpart
      simp [Segment.advances, Segment.role, Segment.contents, contents_runItems]
    | cons s more =>
      simp only [List.cons_append, List.map_cons, List.cons.injEq] at h
      have hrest := ih h.2
      cases rest with
      | nil => simp at h
      | cons next rest => exact hrest

end Script

open Build Script Story

/-- An option with clauses and a body in forward brackets is read as one with these terms and
parts. Once it is linked, whatever was linked before it, there is no mistake in it. Its question is made
of the parts in inner brackets and those behind them, its answer of the consequences, of what is in no
brackets or in the outer ones alone, and of a step that goes on if the last part is empty. Every part
returns but for the last, and the end of that or of the step is what the option leaves for the next
prompt. Where there is room, linking it succeeds. -/
theorem option_forward (pos : Position) (leader : Leader) {ts body last rest : List Token}
    {clauses : List Clause} {stretches : List Stretch} {u : Token}
    (ha : SpellsClauses ts clauses body) (hb : IsForward body stretches last u rest) :
    ∃ parts, (Script.option pos leader ts).Gives
        [.option pos leader (Clause.terms clauses) parts] (u :: rest) ∧
      parts.map Segment.outline =
        (stretches ++ [Stretch.mk .answer last u]).map Stretch.outline ∧
      ∀ (front : Front) (story : Story),
        let linked := item (.option pos leader (Clause.terms clauses) parts) front story
        let terms := (Clause.terms clauses).ledBy leader front.path
        let path := terms.behind front.path
        (∀ front' after, linked = .ok front' after → ∃ id out,
          after.diagnostics = story.diagnostics ∧
          after.Holds id (terms.place front.path).name
            (.option (Segment.entries Role.asks parts path)
              (terms.entry front.path ++ (Segment.entries Role.answers parts path ++
                if last = [] then [(path.onward (Segment.span parts)).name] else []))
              (Body.wordSet terms.keywords) none) ∧
          after.Laid parts path out ∧
          (last = [] → ∃ goto, out = nextEnd goto ∧
            after.Holds goto (path.onward (Segment.span parts)).name (.goto none)) ∧
          front'.ends.escs = front.ends.escs ++ [out]) ∧
        ∀ (start : String) (frame : List LooseEnd), Recorded start (frame ++ front.held) story →
          story.Room front.path → ∃ front' after, linked = .ok front' after := by
  obtain ⟨parts, hparts, houtline⟩ := hb.gives
  obtain ⟨hplain, hreports⟩ := plain_of_outline houtline
  have hadv := advances_of_outline houtline
  refine ⟨parts, ha.option pos leader hparts, houtline, fun front story =>
    ⟨fun front' after hrun => ?_, fun start frame hr hroom => option_total _ _ _ _ hplain hr hroom⟩⟩
  obtain ⟨ids, id, out, h⟩ :=
    (option_standing pos leader (Clause.terms clauses) parts hplain front).of_ok hrun
  have hdiagnostics : after.diagnostics = story.diagnostics := by
    have hnoted := h.retains.diagnostics
    rw [hreports, List.append_nil] at hnoted
    exact Array.toList_inj.mp hnoted
  have hgoes (hl : last = []) : Segment.advances parts = false := by rw [hadv, hl]; rfl
  have hsame : (if Segment.advances parts then []
      else [(((Terms.ledBy leader front.path (Clause.terms clauses)).behind
        front.path).onward (Segment.span parts)).name]) =
      if last = [] then [(((Terms.ledBy leader front.path (Clause.terms clauses)).behind
        front.path).onward (Segment.span parts)).name] else [] := by
    rw [hadv]
    cases last <;> rfl
  refine ⟨id, out, hdiagnostics, hsame ▸ h.option, h.laid, fun hl => h.goes (hgoes hl), ?_⟩
  rw [h.onward]

/-- An option with a part of its answer in brackets, one question, and nothing behind the brackets. -/
theorem option_forward_split : ∃ parts front story front' after id,
    item (.option ⟨1, 1⟩ .repeated (Clause.terms []) parts) front story = .ok front' after ∧
    after.diagnostics = story.diagnostics ∧
    after.Holds id "start" (.option ["start.0.2", "start.0.3"]
      ["start.0.1", "start.0.3", "start.0.4"] [] none) := by
  let o1 : Token := ⟨.mark, " ", "[", ⟨1, 3⟩⟩
  let a : Token := ⟨.word, "", "yes", ⟨1, 4⟩⟩
  let o2 : Token := ⟨.mark, " ", "[", ⟨1, 8⟩⟩
  let q : Token := ⟨.word, "", "said", ⟨1, 9⟩⟩
  let c : Token := ⟨.mark, "", "]", ⟨1, 13⟩⟩
  let b : Token := ⟨.word, " ", "he", ⟨1, 15⟩⟩
  let d : Token := ⟨.mark, "", "]", ⟨1, 17⟩⟩
  let u : Token := .stop ⟨2, 1⟩
  have hinner : Alternates ([q] ++ c :: ([b] ++ [d])) [⟨.question, [q], c⟩, ⟨.both, [b], d⟩] :=
    .last (isRun_singleton rfl) rfl (isRun_singleton rfl) rfl
  have hbody : IsForward [o1, a, o2, q, c, b, d, u]
      [⟨.answer, [], o1⟩, ⟨.answer, [a], o2⟩, ⟨.question, [q], c⟩, ⟨.both, [b], d⟩] [] u [] :=
    ⟨⟨[], o1, _, _, isRun_nil, rfl, .split (isRun_singleton rfl) rfl hinner, rfl, rfl⟩, isRun_nil,
      rfl, rfl, rfl⟩
  obtain ⟨parts, -, houtline, hlinks⟩ := option_forward ⟨1, 1⟩ .repeated (.done rfl rfl) hbody
  obtain ⟨entry, story, -, hr, hroom⟩ := begin_room "start" ⟨1, 1⟩
  obtain ⟨hlinked, hruns⟩ := hlinks (entering (.root "start") (nextEnd entry)) story
  obtain ⟨front', after, hrun⟩ := hruns "start" [] hr hroom
  obtain ⟨id, out, hd, hh, -⟩ := hlinked front' after hrun
  refine ⟨parts, _, story, front', after, id, hrun, hd, ?_⟩
  obtain ⟨⟨p1, r1, b1⟩, parts, rfl, h1, houtline⟩ := List.map_eq_cons_iff.mp houtline
  obtain ⟨⟨p2, r2, b2⟩, parts, rfl, h2, houtline⟩ := List.map_eq_cons_iff.mp houtline
  obtain ⟨⟨p3, r3, b3⟩, parts, rfl, h3, houtline⟩ := List.map_eq_cons_iff.mp houtline
  obtain ⟨⟨p4, r4, b4⟩, parts, rfl, h4, houtline⟩ := List.map_eq_cons_iff.mp houtline
  obtain ⟨⟨p5, r5, b5⟩, parts, rfl, h5, houtline⟩ := List.map_eq_cons_iff.mp houtline
  obtain rfl := List.map_eq_nil_iff.mp houtline
  obtain ⟨rfl, rfl⟩ := Prod.mk.inj h1
  obtain ⟨rfl, rfl⟩ := Prod.mk.inj h2
  obtain ⟨rfl, rfl⟩ := Prod.mk.inj h3
  obtain ⟨rfl, rfl⟩ := Prod.mk.inj h4
  obtain ⟨rfl, rfl⟩ := Prod.mk.inj h5
  let below (n : Nat) : Path := ⟨"start", [0], n⟩
  have hall : after.Holds id (Path.root "start").name (.option [(below 2).name, (below 3).name]
      [(below 1).name, (below 3).name, (below 4).name] [] none) := hh
  have hnames : [(below 1).name, (below 2).name, (below 3).name, (below 4).name] =
      ["start.0.1", "start.0.2", "start.0.3", "start.0.4"] := by decide +kernel
  simp only [List.cons.injEq, and_true] at hnames
  obtain ⟨hn1, hn2, hn3, hn4⟩ := hnames
  rwa [hn1, hn2, hn3, hn4, Path.name_root] at hall

end Storyline
