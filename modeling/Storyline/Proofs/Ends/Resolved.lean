import Storyline.Proofs.Compiling
import Storyline.Proofs.Ends.Ledger

namespace Storyline

namespace Build

theorem balanced_empty (start : String) : Balanced [] [] (.empty start) where
  counts id node outlet link hn := by simp [Story.node?, Story.empty] at hn
  linked loose hm := by cases hm
  inRange loose hm := by simp at hm
  placeholder id node hs := by simp [Story.empty] at hs

theorem recorded_whole (start : String) (pos : Position) (items : Script) :
    Yields IsNoLinkError (fun front => Recorded start front.held) (whole start pos items)
      (.empty start) := by
  have k := kept_recorded start
  have h : Recorded start [] (.empty start) := ⟨[], rfl, balanced_empty start⟩
  refine Yields.bind (k.placeholder (.root start) pos h) fun entry s hs => ?_
  have hf : Recorded start ([] ++ (entering (.root start) (nextEnd entry)).held) s := hs
  exact (k.thread items _ hf).mono fun _ _ ha => ha

theorem recorded_close {start : String} {front : Front} {story : Story}
    (h : Recorded start front.held story) :
    Yields IsNoLinkError (fun _ => Recorded start []) (close front) story := by
  have k := kept_recorded start
  have hp : front.held.Perm (front.ends.escs ++ front.ends.rets) := List.perm_append_comm
  refine Yields.bind (k.tie .ret front.ends.rets (k.perm hp h)) fun _ s hs => ?_
  have he : Recorded start ([] ++ front.ends.escs) s := hs
  refine Yields.bind (k.tie .esc front.ends.escs he) fun _ s hs => ?_
  refine hs.change .check (fun _ => .done) rfl fun done b => ?_
  simp only [Edit.tied, List.append_nil]
  exact ⟨b.counts, b.linked, b.inRange, b.placeholder⟩

end Build

namespace Balanced

variable {done : List LooseEnd} {story : Story}

theorem link_ne_none (b : Balanced [] done story) {node : Node} (hn : node ∈ story.nodes)
    {p : Outlet × Link} (hp : p ∈ node.body.links) : p.2 ≠ none := by
  obtain ⟨id, hlive⟩ := Story.exists_node?_of_mem hn
  have := (b.counts id node p.1 p.2 hlive (Body.mem_links_iff.mp hp)).1
  intro hopen
  simp [hopen] at this

theorem dangling_eq_nil (b : Balanced [] done story) : story.dangling = [] := by
  refine List.flatMap_eq_nil_iff.mpr fun node hn => ?_
  refine List.map_eq_nil_iff.mpr (List.filter_eq_nil_iff.mpr fun p hp hopen => ?_)
  exact b.link_ne_none hn hp (by simpa using hopen)

theorem not_isPlaceholder (b : Balanced [] done story) (id : NodeId) :
    story.isPlaceholder id = false := by
  rw [← Bool.not_eq_true]
  intro h
  obtain ⟨node, hs⟩ := Story.isPlaceholder_iff.mp h
  have hlive := Story.node?_eq_some_iff.mpr (.inr hs)
  have hl : node.body.link? .next = some none := by rw [b.placeholder id node hs]; rfl
  simpa using (b.counts id node .next none hlive hl).1

end Balanced

theorem isDefined_eq_contains {story : Story} (h : ∀ id, story.isPlaceholder id = false)
    (name : String) : story.isDefined name = story.contains name := by
  unfold Story.isDefined Story.contains
  cases story.find? name with
  | none => rfl
  | some id => simp [h id]

/-- What the balance of the loose ends makes of a compilation. -/
theorem compile_recorded (start : String) (tokens : List Token) :
    match compile start tokens with
    | .ok story => Build.Recorded start [] story
    | .error (.build e) => Build.IsNoLinkError e
    | .error (.missingStop _) => True
    | .error (.tokenAfterStop _) => True
    | .error (.dangling ..) => False := by
  have hw := Build.recorded_whole start (here tokens) (Script.script tokens).value
  cases hrun : Build.whole start (here tokens) (Script.script tokens).value (.empty start) with
  | error e story =>
    have he := hw.of_error hrun
    by_cases hu : e = .unfinished
    · subst hu
      rw [compile_of_unfinished hrun]
      trivial
    · rw [compile_of_error hu hrun]
      exact he
  | ok front story =>
    cases hrest : (Script.script tokens).rest with
    | cons t rest =>
      rw [compile_of_rest hrun hrest]
      trivial
    | nil =>
      have hc := Build.recorded_close (hw.of_ok hrun)
      cases hclose : Build.close front story with
      | error e after =>
        rw [compile_of_close_error hrun hrest hclose]
        exact hc.of_error hclose
      | ok u after =>
        obtain ⟨history, hr, hb⟩ := hc.of_ok hclose
        rw [compile_of_close hrun hrest hclose, complete, hb.dangling_eq_nil]
        exact ⟨history, hr, hb⟩

/-- Compiling never ties a link twice, never ties a link a node does not have, and leaves no link
without a target. Every story it gives has all links of all nodes tied and no placeholder left, and
comes from a history of changes in which each link of each live node is tied exactly once. -/
theorem compile_ties_every_link_once (start : String) (tokens : List Token) :
    (∀ name outlet, compile start tokens ≠ .error (.build (.retied name outlet))) ∧
    (∀ name outlet, compile start tokens ≠ .error (.build (.noSuchLink name outlet))) ∧
    (∀ name outlet count, compile start tokens ≠ .error (.dangling name outlet count)) ∧
    ∀ story, compile start tokens = .ok story →
      (∀ node ∈ story.nodes, ∀ p ∈ node.body.links, p.2 ≠ none) ∧
      (∀ id, story.isPlaceholder id = false) ∧
      (∀ name, story.isDefined name = story.contains name) ∧
      ∃ history, Edit.replay history (.empty start) = some story ∧
        ∀ id node, story.node? id = some node → ∀ p ∈ node.body.links,
          (history.flatMap Edit.tied).count ⟨id, p.1⟩ = 1 := by
  have h := compile_recorded start tokens
  refine ⟨?_, ?_, ?_, ?_⟩
  · intro name outlet he
    rw [he] at h
    exact h
  · intro name outlet he
    rw [he] at h
    exact h
  · intro name outlet count he
    rw [he] at h
    exact h
  · intro story hs
    rw [hs] at h
    obtain ⟨history, hr, hb⟩ := h
    refine ⟨fun node hn p hp => hb.link_ne_none hn hp, hb.not_isPlaceholder,
      isDefined_eq_contains hb.not_isPlaceholder, history, hr, fun id node hn p hp => ?_⟩
    have hl := Body.mem_links_iff.mp hp
    obtain ⟨hheld, hdone⟩ := hb.counts id node p.1 p.2 hn hl
    have htied : p.2 ≠ none := by
      intro hopen
      simp [hopen] at hheld
    rw [hdone, if_neg htied]

/-- A switch whose last case is empty. -/
theorem compile_ties_every_link_once_switch : ∃ story,
    compile "start" [⟨.mark, "", "\x7b", ⟨1, 1⟩⟩, ⟨.mark, "", "|", ⟨1, 2⟩⟩,
      ⟨.word, " ", "one", ⟨1, 4⟩⟩, ⟨.mark, " ", "|", ⟨1, 8⟩⟩, ⟨.mark, "", "\x7d", ⟨1, 9⟩⟩,
      .stop ⟨2, 1⟩] = .ok story ∧
    story.names = ["start", "start.0.1"] ∧ ∀ node ∈ story.nodes, ∀ p ∈ node.body.links, p.2 ≠ none := by
  let tokens : List Token := [⟨.mark, "", "\x7b", ⟨1, 1⟩⟩, ⟨.mark, "", "|", ⟨1, 2⟩⟩,
    ⟨.word, " ", "one", ⟨1, 4⟩⟩, ⟨.mark, " ", "|", ⟨1, 8⟩⟩, ⟨.mark, "", "\x7d", ⟨1, 9⟩⟩,
    .stop ⟨2, 1⟩]
  have hn : (compile "start" tokens).toOption.map Story.names = some ["start", "start.0.1"] := by
    decide +kernel
  cases hc : compile "start" tokens with
  | error e =>
    rw [hc] at hn
    cases hn
  | ok story =>
    have hs := (compile_ties_every_link_once "start" tokens).2.2.2 story hc
    rw [hc] at hn
    exact ⟨story, rfl, Option.some.inj hn, hs.1⟩

end Storyline
