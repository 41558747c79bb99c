import Storyline.Proofs.Ends.Resolved
import Storyline.Proofs.Origins.Linking
import Storyline.Proofs.Subroutines.Tasks

namespace Storyline.Build

open Story Script

variable {start : String} {tokens : List Token} {frame : List LooseEnd} {front front' : Front}
  {before after : Story}

/-- Linking the script comes to the rule, and the rules around it hold these ends. -/
def Attained (start : String) (tokens : List Token) (frame : List LooseEnd) (task : Task)
    (before : Story) : Prop :=
  ∃ entry mid, createPlaceholder (.root start) (here tokens) (.empty start) = .ok entry mid ∧
    Reaches (.thread (script tokens).value (entering (.root start) (nextEnd entry))) mid frame task
      before

/-- Wherever linking has come to, all open links are held once, by the rule at work or around it. -/
theorem Attained.recorded {task : Task} (h : Attained start tokens frame task before) :
    Recorded start (frame ++ task.held) before := by
  obtain ⟨entry, mid, hentry, hreach⟩ := h
  have k := kept_recorded start
  have hempty : Recorded start [] (.empty start) := ⟨[], rfl, balanced_empty start⟩
  have hmid : Recorded start ([] ++ [nextEnd entry]) mid :=
    (k.placeholder _ _ hempty).of_ok hentry
  exact k.reaches hreach hmid

section Define

variable {pos seen : Position} {name : String} {params : List String} {body : List Item}

theorem covers_define :
    Covers (fun _ _ body' => body'.IsOpen) (fun label => (Item.goto label).Within body)
      [.define pos name params seen body] := by
  refine ⟨fun i _ path pos' body' hm => hm.isOpen, fun label h => ?_⟩
  cases h with
  | later h => cases h
  | inside hb h =>
    obtain rfl := List.mem_singleton.mp hb
    exact h

/-- A definition gives back the front it was handed. -/
theorem define_front (h : item (.define pos name params seen body) front before = .ok front' after) :
    front' = front := by
  rw [item] at h
  obtain ⟨label, s, -, h⟩ := of_run_bind h
  obtain ⟨id, s, -, h⟩ := of_run_bind h
  obtain ⟨last, s, -, h⟩ := of_run_bind h
  obtain ⟨⟨⟩, s, -, h⟩ := of_run_bind h
  obtain ⟨⟨⟩, s, -, h⟩ := of_run_bind h
  cases h
  rfl

/-- Links of nodes written while a definition is linked are tied when it ends. -/
theorem define_links (hr : Recorded start (frame ++ front.held) before)
    (h : item (.define pos name params seen body) front before = .ok front' after) :
    ∀ id node, before.slots.size ≤ id → after.node? id = some node → ∀ p ∈ node.body.links,
      ∃ target, p.2 = some target ∧ Confined before.slots.size
        (fun label => (Item.goto label).Within body) after target := by
  have hafter := ((kept_recorded start).item _ front hr).of_ok h
  rw [define_front h] at hafter
  obtain ⟨hadds, -⟩ := (item_adding _ front covers_define (Nat.le_refl _)).of_ok h
  intro id node hid hn p hp
  have hlink := Body.mem_links_iff.mp hp
  obtain ⟨was, hopen, hties⟩ := hadds.new id node hid hn
  cases hp2 : p.2 with
  | none =>
    -- an open link would be held, but only what was there before is
    rw [hp2] at hlink
    have hlt := hr.lt_size _ (hafter.mem hn hlink)
    exact absurd hid (Nat.not_le.mpr hlt)
  | some target =>
    rw [hp2] at hlink
    refine ⟨target, rfl, (hties.links p.1 target hlink).resolve_left fun hwas => ?_⟩
    cases hopen _ _ hwas

end Define

/-- No subroutine leaks into what is around it. Wherever linking a script comes to a definition and
the definition ends without an error, it gives back the ends it was handed; no end that was left in
its body is held, by it or by the rules around it, and whatever they hold is still open; and each link
of a node written meanwhile returns, escapes, or leads to a name given meanwhile or to a label that
the body goes to. And linking that comes to the end of the script has come to each of its
definitions, however deep, and ended it. -/
theorem subroutines_stay_closed (start : String) (tokens : List Token) :
    (∀ frame pos name params seen body front before front' after,
      Attained start tokens frame (.item (.define pos name params seen body) front) before →
      item (.define pos name params seen body) front before = .ok front' after →
        front' = front ∧ (∀ l ∈ frame ++ front'.held, l.node < before.slots.size) ∧
        (∀ l ∈ frame ++ front'.held, ∀ node, after.node? l.node = some node →
          node.body.link? l.outlet = some none) ∧
        ∀ id node, before.slots.size ≤ id → after.node? id = some node → ∀ p ∈ node.body.links,
          ∃ target, p.2 = some target ∧ Confined before.slots.size
            (fun label => (Item.goto label).Within body) after target) ∧
    ∀ last done, whole start (here tokens) (script tokens).value (.empty start) = .ok last done →
      ∀ pos name params seen body,
        (Item.define pos name params seen body).Within (script tokens).value →
        ∃ frame front before front' after,
          Attained start tokens frame (.item (.define pos name params seen body) front) before ∧
          item (.define pos name params seen body) front before = .ok front' after := by
  refine ⟨?_, ?_⟩
  · intro frame pos name params seen body front before front' after hreached h
    have hr := hreached.recorded
    have hafter := ((kept_recorded start).item _ front hr).of_ok h
    obtain rfl := define_front h
    exact ⟨rfl, hr.lt_size, hafter.isOpen, define_links hr h⟩
  · intro last done h pos name params seen body hi
    obtain ⟨entry, mid, hentry, hthread⟩ := of_run_bind h
    obtain ⟨frame, front, before, front', after, hreach, hitem⟩ := reaches_within hi hthread
    exact ⟨frame, front, before, front', after, ⟨entry, mid, hentry, hreach⟩, hitem⟩

/-- A subroutine of one node that goes to a label elsewhere. -/
theorem subroutines_stay_closed_goto :
    ∃ frame front before after,
      Attained "start" [⟨.mark, "", "@", ⟨1, 1⟩⟩, ⟨.word, "", "f", ⟨1, 2⟩⟩, ⟨.mark, "", "(", ⟨1, 3⟩⟩,
        ⟨.mark, "", ")", ⟨1, 4⟩⟩, ⟨.word, " ", "a", ⟨1, 6⟩⟩, ⟨.mark, " ", "->", ⟨1, 8⟩⟩,
        ⟨.word, " ", "b", ⟨1, 11⟩⟩, .stop ⟨2, 1⟩] frame
        (.item (.define ⟨1, 1⟩ "f" [] ⟨1, 6⟩ [.content ⟨1, 6⟩ (.text "a" " " " "), .goto "b"]) front)
        before ∧
      item (.define ⟨1, 1⟩ "f" [] ⟨1, 6⟩ [.content ⟨1, 6⟩ (.text "a" " " " "), .goto "b"]) front
        before = .ok front after ∧
      ∀ id node, before.slots.size ≤ id → after.node? id = some node → ∀ p ∈ node.body.links,
        ∃ target, p.2 = some target ∧ Confined before.slots.size
          (fun label => (Item.goto label).Within
            [.content ⟨1, 6⟩ (.text "a" " " " "), .goto "b"]) after target := by
  let tokens : List Token := [⟨.mark, "", "@", ⟨1, 1⟩⟩, ⟨.word, "", "f", ⟨1, 2⟩⟩,
    ⟨.mark, "", "(", ⟨1, 3⟩⟩, ⟨.mark, "", ")", ⟨1, 4⟩⟩, ⟨.word, " ", "a", ⟨1, 6⟩⟩,
    ⟨.mark, " ", "->", ⟨1, 8⟩⟩, ⟨.word, " ", "b", ⟨1, 11⟩⟩, .stop ⟨2, 1⟩]
  let body : List Item := [.content ⟨1, 6⟩ (.text "a" " " " "), .goto "b"]
  have hvalue : (script tokens).value = [.define ⟨1, 1⟩ "f" [] ⟨1, 6⟩ body] := by
    with_unfolding_all rfl
  have hends : (compile "start" tokens).isOk = true := by decide +kernel
  obtain ⟨story, hstory⟩ : ∃ story, compile "start" tokens = .ok story := by
    cases hc : compile "start" tokens with
    | error e =>
      rw [hc] at hends
      cases hends
    | ok story => exact ⟨story, rfl⟩
  obtain ⟨last, done, hwhole, -⟩ := compile_eq_ok hstory
  obtain ⟨hclosed, hreached⟩ := subroutines_stay_closed "start" tokens
  have hwithin : (Item.define ⟨1, 1⟩ "f" [] ⟨1, 6⟩ body).Within (script tokens).value := by
    rw [hvalue]
    exact .here
  obtain ⟨frame, front, before, front', after, hreach, hitem⟩ :=
    hreached last done hwhole ⟨1, 1⟩ "f" [] ⟨1, 6⟩ body hwithin
  obtain ⟨hfront, -, -, hlinks⟩ :=
    hclosed frame ⟨1, 1⟩ "f" [] ⟨1, 6⟩ body front before front' after hreach hitem
  rw [hfront] at hitem
  exact ⟨frame, front, before, after, hreach, hitem, hlinks⟩

end Storyline.Build
