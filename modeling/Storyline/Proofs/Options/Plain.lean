import Storyline.Proofs.Ends.Resolved
import Storyline.Proofs.Options.Room

namespace Storyline.Build

open Story Script

/-- An option with these terms and plain parts was linked from `front`, its guards in the slots `ids`
and itself in the slot `id`; the story behind the next prompt goes on from `out`. -/
structure Standing (terms : Terms) (parts : List Segment) (front : Front) (story : Story)
    (ids : List NodeId) (id : NodeId) (out : LooseEnd) (front' : Front) (after : Story) : Prop where
  guarded : after.Guarded terms.guards front.path ids
  entered : ∀ l ∈ front.ends.rets, story.Settled l → after.Gone (.node front.path.name) l
  option : after.Holds id (terms.place front.path).name
    (.option (Segment.entries Role.asks parts (terms.behind front.path))
      (terms.entry front.path ++ (Segment.entries Role.answers parts (terms.behind front.path) ++
        if Segment.advances parts then []
        else [((terms.behind front.path).onward (Segment.span parts)).name]))
      (Body.wordSet terms.keywords) none)
  consequences : terms.consequences ≠ [] → ∃ last, after.Gone .ret last ∧
    after.Strung (terms.consequences.map Assignment.content)
      (terms.place front.path).firstChild last
  laid : after.Laid parts (terms.behind front.path) out
  goes : Segment.advances parts = false → ∃ goto, out = nextEnd goto ∧
    after.Holds goto ((terms.behind front.path).onward (Segment.span parts)).name (.goto none)
  onward : front' = ⟨(terms.place front.path).next, ids.map (⟨·, .branch⟩) ++ [nextEnd id],
    front.ends.escs ++ [out]⟩
  retains : story.Retains EverySlot (parts.flatMap Segment.reports) after

/-- A plain option that was linked stands. -/
theorem option_standing (pos : Position) (leader : Leader) (terms : Terms) (parts : List Segment)
    (hp : ∀ part ∈ parts, part.IsPlain) (front : Front) {story : Story} :
    Yields Anything (fun front' after => ∃ ids id out,
      Standing (terms.ledBy leader front.path) parts front story ids id out front' after)
      (item (.option pos leader terms parts) front) story := by
  refine Yields.mono (Yields.and (option_offered pos leader terms parts front)
    (item_persists (.option pos leader terms parts) front)) fun front' after h => ?_
  obtain ⟨⟨ids, id, draft, h⟩, noted, hr⟩ := h
  obtain ⟨before, mid, hbefore, hbody, ⟨question, answer, keywords, hid⟩, hmid⟩ := h.body
  obtain ⟨out, hend⟩ := (body_plain pos parts hp _).of_ok hbody
  have hother : ∀ other name c link, mid.Holds other name (.content c link) → other ≠ id :=
    fun other name c link hc => hc.ne hid (by cases c <;> simp [Body.kind, Content.kind])
  have hnoted : noted = parts.flatMap Segment.reports := by
    have hdiagnostics := hr.diagnostics
    rw [hmid.diagnostics, hend.retains.diagnostics, hbefore.diagnostics] at hdiagnostics
    simpa using hdiagnostics.symm
  rw [hnoted] at hr
  have hoption := h.option
  rw [hend.question, hend.answer] at hoption
  refine ⟨ids, id, out, h.guarded, h.entered, hoption, h.consequences, hend.laid.retained hmid hother,
    fun hadv => ?_, hend.escs ▸ h.onward, hr⟩
  obtain ⟨goto, hout, hgoto⟩ := hend.goes hadv
  exact ⟨goto, hout, hgoto.retained hmid (hgoto.ne hid (by simp [Body.kind]))⟩

/-- Wherever there is room for a plain option it is linked. -/
theorem option_total (pos : Position) (leader : Leader) (terms : Terms) (parts : List Segment)
    (hp : ∀ part ∈ parts, part.IsPlain) {start : String} {frame : List LooseEnd} {front : Front}
    {story : Story} (hr : Recorded start (frame ++ front.held) story) (h : story.Room front.path) :
    ∃ front' after, item (.option pos leader terms parts) front story = .ok front' after := by
  obtain ⟨front', after, hrun, -⟩ := Yields.total (option_room pos leader terms parts hp front h)
    ((kept_recorded start).item (.option pos leader terms parts) front hr)
  exact ⟨front', after, hrun⟩

/-- A script starts with room for whatever it starts with. -/
theorem begin_room (start : String) (pos : Position) : ∃ entry story,
    createPlaceholder (.root start) pos (.empty start) = .ok entry story ∧
    Recorded start (entering (.root start) (nextEnd entry)).held story ∧
    story.Room (.root start) := by
  have hempty : (Story.empty start).Clear (.root start) :=
    ⟨distinct_empty start, fun p _ => status_empty start p.name⟩
  have hrec : Recorded start [] (.empty start) := ⟨[], rfl, balanced_empty start⟩
  obtain ⟨entry, story, hrun, ⟨hpast, hwait⟩, hr⟩ := Yields.total
    (addSlot_room hempty.room (.placeholder ⟨(Path.root start).name, .goto none, pos⟩) rfl rfl)
    ((kept_recorded start).placeholder (.root start) pos hrec)
  refine ⟨entry, story, hrun, hr, hpast.distinct, ?_, hpast.ahead⟩
  rw [hwait]
  simp [slotStatus]

end Storyline.Build
