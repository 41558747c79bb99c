import Storyline.Proofs.Loops.Executions
import Storyline.Proofs.Options.Room

namespace Storyline.Build

open Story Script

variable {story : Story} {front : Front} {body items : List Item}

section Room

theorem Yields.roomy {m : Build Front}
    (hm : Yields Unlinked (fun front' after => (items = [] → front' = front ∧ after = story) ∧
      (items ≠ [] → Roomy front.path story front'.path after)) m story)
    (h : story.Clear front.path) :
    Yields Unlinked (fun front' after => Roomy front.path story front'.path after) m story := by
  refine hm.mono fun front' after ⟨hnil, hsome⟩ => ?_
  by_cases he : items = []
  · obtain ⟨rfl, rfl⟩ := hnil he
    exact .refl h
  · exact hsome he

mutual

/-- Where there is room an item that falls through fails on no name, and there is nothing where it
leaves off. -/
theorem item_fits (i : Item) (hi : i.Each Item.FallsThrough) (front : Front) {story : Story}
    (h : story.Room front.path) :
    Yields Unlinked (fun front' after => Roomy front.path story front'.path after) (item i front)
      story := by
  cases i with
  | content pos c =>
    exact Yields.bind (arrive_room front h (.content c none) pos) fun _ _ hpast =>
      Yields.pure (.of_past hpast)
  | jump pos condition yes no =>
    refine Yields.bind (arrive_room front h _ pos) fun id s1 hpast => ?_
    have hchild := hpast.clear (front.path.covers_child 1) (front.path.child_ne 1)
    have hyes := thread_fits yes hi.2.1 (entering front.path.firstChild (nextEnd id)) hchild.room
    refine Yields.bind (hyes.roomy hchild) fun front2 s2 h2 => ?_
    have hno := thread_fits no hi.2.2 (entering front2.path ⟨id, .branch⟩) h2.clear.room
    refine Yields.bind (hno.roomy h2.clear) fun front3 s3 h3 => Yields.pure ?_
    have hinner := h2.trans h3
    exact .around hpast hinner.spares hinner.clear.distinct
  | switch pos selection found =>
    refine Yields.bind (arrive_room front h _ pos) fun id s1 hpast => ?_
    have hchild := hpast.clear (front.path.covers_child 1) (front.path.child_ne 1)
    refine Yields.bind (cases_fits found hi.2 id 0 front.path.firstChild hchild)
      fun front2 s2 h2 => Yields.pure ?_
    exact .around hpast h2.spares h2.clear.distinct
  | loop => exact hi.1.elim
  | define => exact hi.1.elim
  | option => exact hi.1.elim
  | _ => exact hi.elim

theorem thread_fits (items : List Item) (hi : Each Item.FallsThrough items) (front : Front)
    {story : Story} (h : story.Room front.path) :
    Yields Unlinked (fun front' after => (items = [] → front' = front ∧ after = story) ∧
      (items ≠ [] → Roomy front.path story front'.path after)) (thread items front) story := by
  cases items with
  | nil => exact Yields.pure ⟨fun _ => ⟨rfl, rfl⟩, fun hne => absurd rfl hne⟩
  | cons i items =>
    refine Yields.bind (item_fits i hi.1 front h) fun front1 s1 h1 => ?_
    have hrest := thread_fits items hi.2 front1 h1.clear.room
    refine (hrest.roomy h1.clear).mono fun front2 s2 h2 => ⟨fun he => ?_, fun _ => h1.trans h2⟩
    cases he

theorem cases_fits (found : List Case) (hi : EachCase Item.FallsThrough found) (id : NodeId)
    (index : Nat) (path : Path) {story : Story} (h : story.Clear path) :
    Yields Unlinked (fun front' after => Roomy path story front'.path after)
      (cases id index found path) story := by
  cases found with
  | nil => exact Yields.pure (.refl h)
  | cons first found =>
    obtain ⟨weight, body⟩ := first
    have hbody := thread_fits body hi.1 (entering path ⟨id, .case index⟩) h.room
    refine Yields.bind (hbody.roomy h) fun front1 s1 h1 => ?_
    exact Yields.bind (cases_fits found hi.2 id (index + 1) front1.path h1.clear)
      fun front2 s2 h2 => Yields.pure (h1.trans h2)

end

/-- Where there is room for a loop it fails on no name. -/
theorem loop_fits (pos : Position) (hb : Each Item.FallsThrough body) (hne : body ≠ [])
    (front : Front) (h : story.Room front.path)
    (hl : ∀ l ∈ front.ends.rets, l.node < story.slots.size) :
    Yields Unlinked (fun front' after => Roomy front.path story front'.path after)
      (item (.loop pos body) front) story := by
  have hslot : (Slot.placeholder ⟨front.path.name, .goto none, pos⟩).node? =
      some ⟨front.path.name, .goto none, pos⟩ := rfl
  refine Yields.bind (Yields.and (addSlot_room h _ hslot rfl)
    (yields_added h.distinct hslot rfl)) fun id s1 h1 => ?_
  obtain ⟨⟨hpast, hwait⟩, ha⟩ := h1
  have hnot : id ∉ front.ends.rets.map LooseEnd.node := by
    intro hm
    obtain ⟨l, hmem, rfl⟩ := List.mem_map.mp hm
    exact absurd (hl l hmem) (Nat.not_lt.mpr (Array.getElem?_eq_none_iff.mp ha.fresh))
  have htie : Yields Unlinked _ (tieTo front.path front.ends.rets) s1 :=
    status_tie hpast.distinct (.node front.path.name) front.ends.rets
  refine Yields.bind htie ?_
  rintro _ s2 ⟨hd, -, hs⟩
  have hfree (name : String) (hf : s1.status name = .free) : s2.status name = .free := by
    rw [hs, hf]
    rfl
  have hroom : s2.Room front.path := by
    refine ⟨hd, ?_, fun p hp hne => hfree p.name (hpast.ahead p hp hne)⟩
    rw [hs, hwait]
    simp [slotStatus, Status.tied, hnot]
  refine Yields.bind (thread_fits body hb (entering front.path (nextEnd id)) hroom)
    fun front2 s3 h3 => ?_
  have hr := h3.2 hne
  refine Yields.bind (tie_room hr.clear.distinct _ _) ?_
  rintro _ s4 ⟨hd', hfree'⟩
  refine Yields.pure ?_
  have hspares : story.Spares front.path s3 :=
    (hpast.spares.kept hfree).trans hr.spares front.path.covers_self
  exact ⟨hr.clear.kept hd' hfree', hspares.kept hfree', hr.covers⟩

end Room

section Links

variable {script : Script} {entered : List String}

/-- What linking a loop comes to. -/
structure Looping (script : Script) (entered : List String) (body : List Item) (front : Front)
    (story : Story) (front' : Front) (after : Story) : Prop where
  later : story.Later after
  neat : Neat entered [] after
  rets : front'.ends.rets = []
  escs : front'.ends.escs = front.ends.escs
  brought : ∀ l ∈ front.ends.rets, after.Brought front.path.name l
  leads : ∀ final : Story, final.Distinct → after.Grows final →
    Leads script final true (.node front.path.name) (body ++ [.goto front.path.name])

/-- A loop that was linked does its body, and then what stands behind its own name. -/
theorem loop_links (pos : Position) (hb : Each Item.FallsThrough body) (hne : body ≠ [])
    (hbehind : Script.behind front.path.name script = some (body ++ [.goto front.path.name]))
    (n : Neat entered [] story) (hp : front.path.label ∈ entered)
    (hw : ∀ l ∈ front.ends.rets, story.Waits front.path l) :
    Yields (fun _ => True) (Looping script entered body front story)
      (item (.loop pos body) front) story := by
  refine Yields.bind (yields_added n.distinct rfl rfl) fun id s1 h1 => ?_
  have n1 : Neat entered [] s1 := n.added h1 hp rfl rfl isOpen_goto rfl
  have hhere (name : String) (he : Target.node front.path.name = .node name) :
      s1.contains name = true ∨ name ∈ [] := by
    cases he
    exact .inl h1.here
  refine Yields.bind (yields_sent h1.distinct _ front.ends.rets) fun _ s2 h2 => ?_
  have n2 : Neat entered [] s2 := n1.sent h2 hhere
  have hentry : s2.Enters id front.path.name :=
    Enters.sent ⟨pos, h1.stored⟩ h1.distinct h2 (Waits.not_mem hw h1.fresh)
  have hlabels : ∀ name ∈ ([] : List String), (Script.behind name script).isSome :=
    fun _ hm => absurd hm List.not_mem_nil
  refine Yields.bind (thread_links body hlabels (thread_flows [] body hb)
    (entering front.path (nextEnd id)) n2 hp (hentry.waits n2.distinct)) fun front3 s3 h3 => ?_
  have hlater := h2.later.trans h3.later
  refine Yields.bind (yields_sent h3.neat.distinct _ front3.ends.rets) fun _ s4 h4 => Yields.pure ?_
  have hsettled : ∀ l ∈ front3.ends.rets, s3.Settled l := h3.moved.resolve_left fun h => hne h.1
  refine ⟨h1.later.trans (hlater.trans h4.later), h3.neat.sent h4 fun name he => ?_, rfl, ?_,
    fun l hl => ?_, fun final hd hg => ?_⟩
  · exact (hhere name he).imp_left (hlater.contains name)
  · rw [h3.escs]
    exact List.append_nil _
  · exact (h1.brought h2 hw l hl).later (h3.later.trans h4.later).grows
  -- Each end of the body was tied to the name of the loop.
  · have hends : ∀ l ∈ front3.ends.rets, final.Does script l [.goto front.path.name] := by
      intro l hl
      have hlive : (s3.node? l.node).isSome := by
        obtain ⟨node, hs⟩ := hsettled l hl
        rw [node?_eq_some_iff.mpr (.inl hs)]
        rfl
      exact .of_gone (h4.gone l hl hlive) hg (.goto hbehind)
    have hdoes := h3.does final hd (h4.later.grows.trans hg) [.goto front.path.name] hends
    have hgrows := h3.later.grows.trans (h4.later.grows.trans hg)
    exact hentry.leads hgrows hd (hdoes _ (List.mem_singleton_self _))

end Links

end Storyline.Build
