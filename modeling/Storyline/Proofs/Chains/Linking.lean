import Storyline.Proofs.Chains.Reading
import Storyline.Proofs.Ends.Ledger
import Storyline.Proofs.Names.Text

namespace Storyline

namespace Flat

/-- The name of the node so many places behind the start. -/
def name (start : String) (place : Nat) : String :=
  if place = 0 then start else start ++ "." ++ toString place

/-- Nodes from a place on, each leading to the next one and the last along this link. -/
def nodes (start : String) (last : Link) (place : Nat) : List (Position × Content) → List Node
  | [] => []
  | [(pos, c)] => [⟨name start place, .content c last, pos⟩]
  | (pos, c) :: more =>
    ⟨name start place, .content c (some (.node (name start (place + 1)))), pos⟩ ::
      nodes start last (place + 1) more

variable {start : String} {last : Link} {found : List (Position × Content)} {pos : Position}
  {c : Content} {place m n : Nat} {node : Node}

theorem path_name (start : String) (n : Nat) : (Path.mk start [] n).name = name start n := by
  have hindices : (Path.mk start [] n).indices = [n] := rfl
  have hdots : ".".intercalate [start, toString n] = start ++ "." ++ toString n := rfl
  by_cases h : n = 0
  · rw [Path.name, hindices, name, h, if_pos rfl, if_pos rfl]
  · rw [Path.name, hindices, name, if_neg h, if_neg (by simp [h])]
    exact hdots

theorem name_injective (h : name start m = name start n) : m = n := by
  have hself (k : Nat) : start ≠ start ++ "." ++ toString k := by
    intro he
    have hlist := congrArg String.toList he
    simp at hlist
  unfold name at h
  split at h
  · next hm =>
    split at h
    · next hn => rw [hm, hn]
    · exact absurd h (hself n)
  · split at h
    · exact absurd h.symm (hself m)
    · have hlist := congrArg String.toList h
      simp only [String.toList_append, List.append_cancel_left_eq] at hlist
      exact digits_injective hlist

/-- One node more: the node in front of it now leads there. -/
theorem nodes_append_singleton (start : String) (last : Link) (place : Nat)
    (found : List (Position × Content)) (pos : Position) (c : Content) :
    nodes start last place (found ++ [(pos, c)]) =
      nodes start (some (.node (name start (place + found.length)))) place found ++
        [⟨name start (place + found.length), .content c last, pos⟩] := by
  induction found generalizing place with
  | nil => rfl
  | cons first rest ih =>
    cases rest with
    | nil => rfl
    | cons second rest =>
      have hlength : place + (first :: second :: rest).length =
          place + 1 + (second :: rest).length := by
        simp only [List.length_cons]
        omega
      rw [hlength]
      exact congrArg (_ :: ·) (ih (place + 1))

/-- The nodes of a row are named by their places. -/
theorem names_nodes (start : String) (last : Link) (place : Nat)
    (found : List (Position × Content)) : (nodes start last place found).map Node.name =
      (List.range' place found.length).map (name start) := by
  induction found generalizing place with
  | nil => rfl
  | cons first rest ih =>
    cases rest with
    | nil => rfl
    | cons second rest => exact congrArg (_ :: ·) (ih (place + 1))

theorem length_nodes (start : String) (last : Link) (place : Nat)
    (found : List (Position × Content)) : (nodes start last place found).length = found.length := by
  simpa using congrArg List.length (names_nodes start last place found)

/-- A node of the row has the name, and the name is that of a place in it. -/
theorem exists_node_named_iff {label : String} :
    (∃ node ∈ nodes start last place found, node.name = label) ↔
      ∃ k, place ≤ k ∧ k < place + found.length ∧ name start k = label := by
  rw [← List.mem_map, names_nodes, List.mem_map]
  simp only [List.mem_range'_1, and_assoc]

/-- The slots of a row whose first node took the place of the entry. -/
def slots (start : String) (last : Link) (found : List (Position × Content)) : List Slot :=
  .replaced start [.node start] :: (nodes start last 0 found).map .settled

theorem length_slots (start : String) (last : Link) (found : List (Position × Content)) :
    (slots start last found).length = found.length + 1 := by
  rw [slots, List.length_cons, List.length_map, length_nodes]

theorem slots_append_singleton (start : String) (last : Link) (found : List (Position × Content))
    (pos : Position) (c : Content) :
    slots start last (found ++ [(pos, c)]) =
      slots start (some (.node (name start found.length))) found ++
        [.settled ⟨name start found.length, .content c last, pos⟩] := by
  rw [slots, nodes_append_singleton, Nat.zero_add, List.map_append]
  rfl

end Flat

namespace Build

open Flat

variable {start : String} {noted : Array Diagnostic} {found : List (Position × Content)}

theorem tieEnd_content {front more : List Slot} {name : String} {c : Content} {pos : Position}
    (target : Target) :
    tieEnd target ⟨front.length, .next⟩
        ⟨start, (front ++ .settled ⟨name, .content c none, pos⟩ :: more).toArray, noted⟩ =
      .ok () ⟨start, (front ++ .settled ⟨name, .content c (some target), pos⟩ :: more).toArray,
        noted⟩ := by
  have hslot : (front ++ Slot.settled ⟨name, .content c none, pos⟩ :: more).toArray[front.length]? =
      some (.settled ⟨name, .content c none, pos⟩) := by simp
  unfold tieEnd
  simp only [hslot, tieSlot, tieNode, Body.link?, Body.setLink]
  simp

/-- The link of the last node of a row is tied. -/
theorem tie_last (target : Target) (hne : found ≠ []) (more : List Slot) :
    tie target [⟨found.length, .next⟩] ⟨start, (slots start none found ++ more).toArray, noted⟩ =
      .ok () ⟨start, (slots start (some target) found ++ more).toArray, noted⟩ := by
  obtain ⟨init, ⟨pos, c⟩, rfl⟩ := (List.eq_nil_or_concat' found).resolve_left hne
  have hlength : (init ++ [(pos, c)]).length =
      (slots start (some (.node (name start init.length))) init).length := by
    rw [length_slots, List.length_append]
    rfl
  rw [tie_singleton, slots_append_singleton, slots_append_singleton, hlength, List.append_assoc,
    List.append_assoc]
  exact tieEnd_content target

/-- Only the row bears names. -/
theorem find?_row (start : String) (noted : Array Diagnostic) (last : Link) {n : Nat}
    (hn : found.length ≤ n) :
    (Story.mk start (slots start last found).toArray noted).find? (name start n) = none := by
  rw [Story.find?_eq_none_iff]
  intro id node hnode hname
  obtain ⟨slot, hslot, hlive⟩ := Option.bind_eq_some_iff.mp hnode
  have hmem : slot ∈ slots start last found := by
    rw [List.getElem?_toArray] at hslot
    exact List.mem_of_getElem? hslot
  rcases List.mem_cons.mp hmem with rfl | hmem
  · cases hlive
  · obtain ⟨other, hother, rfl⟩ := List.mem_map.mp hmem
    obtain rfl := Option.some.inj hlive
    obtain ⟨k, -, hk, hplace⟩ := exists_node_named_iff.mp ⟨other, hother, hname⟩
    have := name_injective hplace
    omega

/-- How far a flat script is linked: these nodes are written, and the last waits for the next. -/
inductive Row (start : String) (pos : Position) (noted : Array Diagnostic) :
    List (Position × Content) → Front → Story → Prop where
  | entry : Row start pos noted [] (entering (.root start) (nextEnd 0))
      ⟨start, #[.placeholder ⟨start, .goto none, pos⟩], noted⟩
  | row {found : List (Position × Content)} {n : Nat} (length : found.length = n + 1) :
      Row start pos noted found ⟨⟨start, [], n + 1⟩, [⟨n + 1, .next⟩], []⟩
        ⟨start, (slots start none found).toArray, noted⟩

variable {pos : Position} {front : Front} {story : Story}

theorem create_first (body : Body) (place : Position) :
    create (.root start) body place ⟨start, #[.placeholder ⟨start, .goto none, pos⟩], noted⟩ =
      .ok 1 ⟨start, #[.replaced start [], .settled ⟨start, body, place⟩], noted⟩ := by
  have hfind : (Story.mk start #[.placeholder ⟨start, .goto none, pos⟩] noted).find? start =
      some 0 := by
    simp [Story.find?, Slot.node?]
  rw [create, Path.name_root]
  simp only [addSlot, hfind]
  rfl

theorem create_row (start : String) (noted : Array Diagnostic) (found : List (Position × Content))
    (last : Link) (body : Body) (place : Position) :
    create ⟨start, [], found.length⟩ body place ⟨start, (slots start last found).toArray, noted⟩ =
      .ok (found.length + 1) ⟨start, (slots start last found ++
        [Slot.settled ⟨name start found.length, body, place⟩]).toArray, noted⟩ := by
  have hfind := find?_row start noted last found.length.le_refl
  rw [create, path_name]
  simp only [addSlot, hfind]
  simp [length_slots]

/-- A node is written and tied to what waits for it. -/
theorem append_of_runs {front : Front} {body : Body} {place : Position} {id : NodeId}
    {story mid after : Story} (hcreate : create front.path body place story = .ok id mid)
    (htie : tieTo front.path front.ends.rets mid = .ok () after) :
    Build.append front body place story =
      .ok ⟨front.path.next, [nextEnd id], front.ends.escs⟩ after := by
  have harrive : arrive front body place story = .ok id after :=
    (run_bind hcreate).trans (run_bind htie)
  exact run_bind harrive

/-- A mistake is noted, and nothing else changes. -/
theorem Row.note (h : Row start pos noted found front story) (d : Diagnostic) :
    Row start pos (noted.push d) found front
      { story with diagnostics := story.diagnostics.push d } := by
  cases h with
  | entry => exact .entry
  | row length => exact .row length

theorem append_row (h : Row start pos noted found front story) (place : Position) (c : Content) :
    ∃ after mid, Build.append front (.content c none) place story = .ok after mid ∧
      Row start pos noted (found ++ [(place, c)]) after mid := by
  cases h with
  | entry =>
    have htie : tieTo (.root start) [nextEnd 0]
        ⟨start, #[.replaced start [], .settled ⟨start, .content c none, place⟩], noted⟩ =
        .ok () ⟨start, (slots start none [(place, c)]).toArray, noted⟩ := by
      rw [tieTo, tie_singleton, Path.name_root]
      rfl
    exact ⟨_, _, append_of_runs (create_first _ place) htie, .row rfl⟩
  | @row _ n length =>
    have hne : found ≠ [] := List.ne_nil_of_length_eq_add_one length
    have hcreate := create_row start noted found none (.content c none) place
    have htie : tieTo ⟨start, [], found.length⟩ [⟨found.length, .next⟩]
        ⟨start, (slots start none found ++
          [Slot.settled ⟨name start found.length, .content c none, place⟩]).toArray, noted⟩ =
        .ok () ⟨start, (slots start none (found ++ [(place, c)])).toArray, noted⟩ := by
      rw [tieTo, path_name, slots_append_singleton]
      exact tie_last _ hne _
    rw [length] at hcreate htie
    refine ⟨_, _, append_of_runs hcreate htie, .row ?_⟩
    rw [List.length_append, length]
    rfl

/-- The items of a flat script are linked one after the other. -/
theorem thread_row {items : List Item} (hp : ∀ i ∈ items, i.IsPlain)
    (h : Row start pos noted found front story) :
    ∃ after mid, thread items front story = .ok after mid ∧
      Row start pos (noted ++ Script.reports items) (found ++ items.filterMap Item.shown?)
        after mid := by
  induction items generalizing noted found front story with
  | nil =>
    refine ⟨front, story, rfl, ?_⟩
    simpa [Script.reports] using h
  | cons i rest ih =>
    obtain ⟨hi, hrest⟩ := List.forall_mem_cons.mp hp
    cases i with
    | report d =>
      obtain ⟨after, last, hrun, hlast⟩ := ih hrest (h.note d)
      have hreport : item (.report d) front story =
          .ok front { story with diagnostics := story.diagnostics.push d } := rfl
      refine ⟨after, last, (run_bind hreport).trans hrun, ?_⟩
      exact hlast
    | content place c =>
      obtain ⟨next, mid, happend, hrow⟩ := append_row h place c
      obtain ⟨after, last, hrun, hlast⟩ := ih hrest hrow
      refine ⟨after, last, (run_bind happend).trans hrun, ?_⟩
      rw [List.append_assoc] at hlast
      exact hlast
    | _ => exact hi.elim

end Build

end Storyline
