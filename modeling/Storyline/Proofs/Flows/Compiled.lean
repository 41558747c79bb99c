import Storyline.Proofs.Compiling
import Storyline.Proofs.Flows.Closed
import Storyline.Proofs.Flows.Linking
import Storyline.Proofs.Names.Duplicate

namespace Storyline

namespace Build

open Story

theorem led_empty (start : String) : Led [] (.empty start) := by
  refine ⟨fun l hl => (by cases hl), fun id slot hs => ?_⟩
  simp [Story.empty] at hs

theorem whole_led {start : String} (hl : IsLabel start) (pos : Position) (items : Script) :
    Goes (Script.wholeWaits start items) (fun _ front after => after.Distinct ∧ Led front.held after)
      (whole start pos items) (.empty start) := by
  have t := tidy_empty [] start
  have wr : Writable [] (.root start) (.empty start) :=
    t.writable_root hl (.inl (status_empty start start))
  have hnone (id : NodeId) (hw : (Story.empty start).status (Path.root start).name = .waiting id) :
      ∃ l ∈ ([] : List LooseEnd), l.node = id := by
    rw [status_empty] at hw
    cases hw
  have hheld : Led ([] ++ []) (.empty start) := led_empty start
  refine Goes.step (Yields.and (yields_createPlaceholder t wr pos)
    (tying_createPlaceholder pos hheld hnone)) fun entry story ⟨⟨_, hw⟩, _, htie⟩ => ?_
  have hwait : story.status (Path.root start).name = .waiting entry := hw.here
  have s : Stands [] ⟨.label, start, []⟩ (.root start) [nextEnd entry] story :=
    ⟨hl, .inl rfl, hw.ahead wr, fun hp => absurd Path.indices_root hp, Path.indices_root,
      nextEnd entry, List.mem_singleton_self _, hwait⟩
  have hfront : FrontLed [] ⟨[start], []⟩ (entering (.root start) (nextEnd entry)) story := by
    rw [Path.name_root] at hwait
    exact ⟨htie.done, .of_label hwait (.inl rfl), .of_idle fun l hm => by cases hm⟩
  have hthread := thread_led items [] [] ⟨.label, start, []⟩ ⟨[start], []⟩
    (entering (.root start) (nextEnd entry)) (hw.tidy wr t) s hfront
    (.of_idle fun l hm => by cases hm)
  refine hthread.mono fun _ front after ⟨hwent, hled⟩ => ⟨hwent.tidy.distinct, ?_⟩
  have := hled.led
  rwa [List.append_nil] at this

theorem close_led {front : Front} {story : Story} (h : Led front.held story) :
    Yields (fun _ => True) (fun _ => Led []) (close front) story := by
  refine Yields.bind (led_tie (h.tying .ret)) fun _ s hs => ?_
  have hheld : Led (front.ends.escs ++ []) s := by
    rw [List.append_nil]
    exact hs
  refine Yields.bind (led_tie (hheld.tying .esc)) fun _ after hl => ?_
  exact hl.same rfl

end Build

/-- Where the walk is in no doubt the flow of every placeholder that gave way goes on at the node that
took its name, or at the return if it was the entry of a part of an option that wrote nothing, and is
tied there once. The walk is in no doubt about a script whose labels are apart from each other and from
the start label and whose branches do not end at a label before another branch. -/
theorem compile_keeps_flows (start : String) (tokens : List Token)
    (hs : Build.hasNumericPart start = false) :
    (Script.wholeWaits start (Script.script tokens).value ≠ .doubtful →
      ∀ story, compile start tokens = .ok story → ∀ slot ∈ story.slots, slot.IsLed) ∧
    (Apart (start :: Script.labels (Script.script tokens).value) →
      Script.closed (Script.script tokens).value = true →
      Script.wholeWaits start (Script.script tokens).value ≠ .doubtful) := by
  refine ⟨fun hdoubt story h => ?_, Script.wholeWaits_ne_doubtful⟩
  obtain ⟨front, mid, hrun, hclose⟩ := compile_eq_ok h
  have hg := Build.whole_led (isLabel_of_not_numeric hs) (here tokens) (Script.script tokens).value
  cases hc : Script.wholeWaits start (Script.script tokens).value with
  | on p =>
    rw [hc] at hg
    obtain ⟨-, hled⟩ := hg.of_ok hrun
    exact ((Build.close_led hled).of_ok hclose).isLed
  | clash =>
    rw [hc] at hg
    exact (hg.of_ok hrun).elim
  | cut =>
    rw [hc] at hg
    exact (hg.of_ok hrun).elim
  | doubtful => exact absurd hc hdoubt

/-- A jump whose last branch ends at a label, and a label behind it that gives way to a text. -/
theorem compile_keeps_flows_label : ∃ story,
    compile "start" [⟨.mark, "", "\x7b", ⟨1, 1⟩⟩, ⟨.word, "", "c", ⟨1, 2⟩⟩, ⟨.mark, "", "?", ⟨1, 3⟩⟩,
      ⟨.word, " ", "one", ⟨1, 5⟩⟩, ⟨.mark, " ", "|", ⟨1, 9⟩⟩, ⟨.mark, " ", "@", ⟨1, 11⟩⟩,
      ⟨.word, "", "x", ⟨1, 12⟩⟩, ⟨.mark, "", "\x7d", ⟨1, 13⟩⟩, ⟨.mark, " ", "@", ⟨2, 1⟩⟩,
      ⟨.word, "", "y", ⟨2, 2⟩⟩, ⟨.word, " ", "two", ⟨2, 4⟩⟩, .stop ⟨3, 1⟩] = .ok story ∧
    (∃ flows, Slot.replaced "y" flows ∈ story.slots) ∧ ∀ slot ∈ story.slots, slot.IsLed := by
  let tokens : List Token := [⟨.mark, "", "\x7b", ⟨1, 1⟩⟩, ⟨.word, "", "c", ⟨1, 2⟩⟩,
    ⟨.mark, "", "?", ⟨1, 3⟩⟩, ⟨.word, " ", "one", ⟨1, 5⟩⟩, ⟨.mark, " ", "|", ⟨1, 9⟩⟩,
    ⟨.mark, " ", "@", ⟨1, 11⟩⟩, ⟨.word, "", "x", ⟨1, 12⟩⟩, ⟨.mark, "", "\x7d", ⟨1, 13⟩⟩,
    ⟨.mark, " ", "@", ⟨2, 1⟩⟩, ⟨.word, "", "y", ⟨2, 2⟩⟩, ⟨.word, " ", "two", ⟨2, 4⟩⟩, .stop ⟨3, 1⟩]
  have hs : Build.hasNumericPart "start" = false := by decide +kernel
  have hapart : Apart ("start" :: Script.labels (Script.script tokens).value) := by decide +kernel
  have hclosed : Script.closed (Script.script tokens).value = true := by decide +kernel
  have hgone : (compile "start" tokens).toOption.map (fun story => story.slots.any fun
      | .replaced name _ => name == "y"
      | _ => false) = some true := by decide +kernel
  obtain ⟨h, hd⟩ := compile_keeps_flows "start" tokens hs
  cases hc : compile "start" tokens with
  | error e =>
    rw [hc] at hgone
    cases hgone
  | ok story =>
    rw [hc] at hgone
    obtain ⟨id, hlt, hid⟩ := Array.any_eq_true.mp (Option.some.inj hgone)
    refine ⟨story, rfl, ?_, h (hd hapart hclosed) story hc⟩
    split at hid
    · next name flows he =>
      obtain rfl := beq_iff_eq.mp hid
      exact ⟨flows, he ▸ Array.getElem_mem hlt⟩
    · cases hid

/-- The branch behind one that ends at a label begins at that label: here a text takes the place of the
label, so that the branch before leads into the text. -/
theorem flow_led_into_next_branch : ¬ ∀ start tokens story, Build.hasNumericPart start = false →
    compile start tokens = .ok story →
    (∀ name flows, Slot.replaced name flows ∈ story.slots → ∀ target ∈ flows, target = .node name) ∧
    (∀ name flows, Slot.discarded name flows ∈ story.slots → ∀ target ∈ flows, target = .ret) := by
  intro h
  let tokens : List Token := [⟨.mark, "", "\x7b", ⟨1, 1⟩⟩, ⟨.word, "", "c", ⟨1, 2⟩⟩,
    ⟨.mark, "", "?", ⟨1, 3⟩⟩, ⟨.mark, " ", "@", ⟨1, 5⟩⟩, ⟨.word, "", "x", ⟨1, 6⟩⟩,
    ⟨.mark, " ", "|", ⟨1, 8⟩⟩, ⟨.word, " ", "B", ⟨1, 10⟩⟩, ⟨.mark, "", "\x7d", ⟨1, 11⟩⟩,
    ⟨.word, " ", "C", ⟨1, 13⟩⟩, .stop ⟨2, 1⟩]
  have hs : Build.hasNumericPart "start" = false := by decide +kernel
  have hgone : (compile "start" tokens).toOption.map (fun story => story.slots.any fun
      | .replaced name flows => name == "x" && flows == [.node "start.1"]
      | _ => false) = some true := by decide +kernel
  cases hc : compile "start" tokens with
  | error e =>
    rw [hc] at hgone
    cases hgone
  | ok story =>
    rw [hc] at hgone
    obtain ⟨id, hlt, hid⟩ := Array.any_eq_true.mp (Option.some.inj hgone)
    split at hid
    · next name flows he =>
      obtain ⟨hname, hflows⟩ := Bool.and_eq_true_iff.mp hid
      obtain rfl := beq_iff_eq.mp hname
      obtain rfl := beq_iff_eq.mp hflows
      have hm : Slot.replaced "x" [.node "start.1"] ∈ story.slots := he ▸ Array.getElem_mem hlt
      have := (h "start" tokens story hs hc).1 "x" _ hm _ (List.mem_singleton_self _)
      simp at this
    · cases hid

end Storyline
