import Storyline.Proofs.Compiling
import Storyline.Proofs.Origins.Linking
import Storyline.Proofs.Targets.Written

namespace Storyline

section Each

variable {P : Item → Prop} {i j : Item} {body items : List Item}

theorem Item.Each.self (h : i.Each P) : P i := by
  cases i with
  | loop => exact h.1
  | define => exact h.1
  | jump => exact h.1
  | switch => exact h.1
  | option => exact h.1
  | _ => exact h

theorem Script.eachCase_body {found : List Case} (h : Script.EachCase P found) {c : Case}
    (hc : c ∈ found) : Script.Each P c.body := by
  induction found with
  | nil => cases hc
  | cons first rest ih =>
    obtain ⟨weight, body⟩ := first
    rcases List.mem_cons.mp hc with rfl | hc
    · exact h.1
    · exact ih h.2 hc

theorem Script.eachPart_body {parts : List Segment} (h : Script.EachPart P parts) {part : Segment}
    (hp : part ∈ parts) : Script.Each P part.body := by
  induction parts with
  | nil => cases hp
  | cons first rest ih =>
    obtain ⟨pos, role, body⟩ := first
    rcases List.mem_cons.mp hp with rfl | hp
    · exact h.1
    · exact ih h.2 hp

theorem Item.Each.bodies (h : j.Each P) (hb : body ∈ j.bodies) : Script.Each P body := by
  cases j with
  | loop pos inside =>
    obtain rfl := List.mem_singleton.mp hb
    exact h.2
  | define pos name params seen inside =>
    obtain rfl := List.mem_singleton.mp hb
    exact h.2
  | jump pos condition yes no =>
    rcases List.mem_cons.mp hb with rfl | hb
    · exact h.2.1
    · obtain rfl := List.mem_singleton.mp hb
      exact h.2.2
  | switch pos selection found =>
    obtain ⟨c, hc, rfl⟩ := List.mem_map.mp hb
    exact Script.eachCase_body h.2 hc
  | option pos leader terms parts =>
    obtain ⟨part, hp, rfl⟩ := List.mem_map.mp hb
    exact Script.eachPart_body h.2 hp
  | _ => cases hb

/-- What holds of each item holds of the items in the threads they hold. -/
theorem Script.each_within (h : Script.Each P items) (hi : i.Within items) : P i := by
  induction hi with
  | here => exact h.1.self
  | later _ ih => exact ih h.2
  | inside hb _ ih => exact ih (h.1.bodies hb)

end Each

/-- An item of the script makes the node. -/
def Script.Makes (items : Script) (name : String) (pos : Position) (body : Body) : Prop :=
  ∃ (i : Item) (path : Path), i.Within items ∧ i.Makes path pos body ∧ path.name = name

namespace Build

open Story Script

/-- The entry is a step to the script's first node, and all other nodes are made by its items. -/
theorem whole_adding (start : String) (pos : Position) (items : Script) {story : Story} :
    Adding 0 (fun name pos' body => (name = start ∧ pos' = pos ∧ body = .goto none) ∨
        Script.Makes items name pos' body) (fun label => (Item.goto label).Within items)
      (fun _ _ => True) (whole start pos items) story := by
  have hcovers : Covers (fun name pos' body => (name = start ∧ pos' = pos ∧ body = .goto none) ∨
      Script.Makes items name pos' body) (fun label => (Item.goto label).Within items) items :=
    ⟨fun i hi path pos' body hm => .inr ⟨i, path, hi, hm, rfl⟩, fun label h => h⟩
  refine (placeholder_adding (.root start) (.inl ⟨Path.name_root start, rfl, rfl⟩)).bind
    fun entry mid _ _ => ?_
  exact thread_adding items _ hcovers

theorem close_adding {made : String → Position → Body → Prop} {asked : String → Prop} (front : Front)
    {story : Story} : Adding 0 made asked (fun _ _ => True) (close front) story := by
  refine (tie_adding front.ends.rets .ret).bind fun _ mid _ _ => ?_
  refine (tie_adding front.ends.escs .esc).bind fun _ mid _ _ => ?_
  intro _
  have hsame : mid.Adds 0 made asked
      { mid with diagnostics := mid.diagnostics ++ mid.missingLabels } :=
    .of_nodes (NamesLast.refl mid) rfl fun _ node hn => ⟨node, hn, .refl _ node⟩
  exact ⟨hsame, trivial⟩

end Build

open Build in
/-- Every node of a compiled story is the entry's step or made by an item of the script, and differs
from what that was in its links alone. The entry stands at the first token. -/
theorem compile_origin {start : String} {tokens : List Token} {story : Story}
    (h : compile start tokens = .ok story) : ∀ node ∈ story.nodes, ∃ was : Node,
      was.Ties (fun _ => True) node ∧
        (was.name = start ∧ was.pos = here tokens ∧ was.body = .goto none ∨
          Script.Makes (Script.script tokens).value was.name was.pos was.body) := by
  obtain ⟨front, mid, hrun, hclose⟩ := compile_eq_ok h
  obtain ⟨hadds, -⟩ := (whole_adding start (here tokens) _ (Nat.zero_le _)).of_ok hrun
  obtain ⟨hadds', -⟩ := (close_adding front (Nat.zero_le _)).of_ok hclose
  have hall := hadds.trans hadds'
  intro node hn
  obtain ⟨id, hlive⟩ := Story.exists_node?_of_mem hn
  obtain ⟨was, hmade, ht⟩ := hall.new id node (Nat.zero_le id) hlive
  exact ⟨was, ht.mono fun _ _ => trivial, hmade⟩

end Storyline
