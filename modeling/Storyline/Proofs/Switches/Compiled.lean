import Storyline.Proofs.Ends.Resolved
import Storyline.Proofs.Origins.Compiled
import Storyline.Proofs.Payloads.Threads

namespace Storyline

variable {mode : SwitchMode} {counter : Option String} {value : Expr} {branches : List Link}
  {weights : List (Option Expr)} {next : Link}

/-- What grew to a switch was one, with as many cases. -/
theorem Body.Grows.of_switch {body : Body}
    (h : body.Grows (.switch mode counter value branches weights next)) :
    ∃ links link, links.length = branches.length ∧
      body = .switch mode counter value links weights link := by
  have hs := h.same
  cases body <;> simp only [cleared, switch.injEq, reduceCtorEq] at hs
  obtain ⟨rfl, rfl, rfl, hl, rfl, -⟩ := hs
  exact ⟨_, _, by simpa using (congrArg List.length hl).symm, rfl⟩

/-- Only a switch makes a switch. -/
theorem Item.Makes.of_switch {i : Item} {path : Path} {pos : Position}
    (h : i.Makes path pos (.switch mode counter value branches weights next)) :
    ∃ selection found, i = .switch pos selection found ∧
      selection.body path found = .switch mode counter value branches weights next := by
  generalize hb : Body.switch mode counter value branches weights next = body at h
  cases h with
  | switch => exact ⟨_, _, rfl, rfl⟩
  | _ => cases hb

theorem Selection.isWeighted_of_mode {selection : Selection} (h : selection.mode ≠ .pick) :
    selection.isWeighted = false := by
  cases selection with
  | pick e => exact absurd rfl h
  | _ => rfl

section Origin

open Script

variable {start : String} {tokens : List Token} {story : Story} {node : Node}

/-- Where a switch of a compiled story comes from: a brace of the script opens it, and it has the
cases that were read there. -/
theorem compile_switch_origin (h : compile start tokens = .ok story) (hn : node ∈ story.nodes)
    (hbody : node.body = .switch mode counter value branches weights next) :
    ∃ (selection : Selection) (path : Path) (found : List Case),
      IsSwitch tokens node.pos selection found ∧ path.name = node.name ∧
      found.length = branches.length ∧ mode = selection.mode ∧ counter = selection.counter path ∧
      value = selection.value path branches.length ∧ weights = found.map Case.weight ∧
      (mode ≠ .pick → next = none) := by
  obtain ⟨⟨name, body, pos⟩, ht, hwas⟩ := compile_origin h node hn
  have hgrows : body.Grows (.switch mode counter value branches weights next) := hbody ▸ ht.grows
  obtain ⟨links, link, hlength, rfl⟩ := hgrows.of_switch
  rcases hwas with ⟨-, -, hgoto⟩ | ⟨i, path, hi, hm, hname⟩
  · cases hgoto
  obtain ⟨selection, found, rfl, hswitch⟩ := hm.of_switch
  have hitem : IsValid tokens (.switch pos selection found) :=
    each_within (script_valid tokens (List.suffix_refl tokens)) hi
  unfold Selection.body at hswitch
  obtain ⟨rfl, rfl, rfl, rfl, rfl, rfl⟩ := Body.switch.inj hswitch
  rw [List.length_map] at hlength
  refine ⟨selection, path, found, ?_, ?_, hlength, rfl, rfl, by rw [hlength], rfl, fun hmode => ?_⟩
  · rw [ht.pos]
    exact hitem
  · exact hname.trans ht.name.symm
  · have hunused := ht.unused
    rw [hbody] at hunused
    cases hs : selection.mode with
    | pick => exact absurd hs hmode
    | _ => simpa only [hs, Body.unusedNext] using hunused

end Origin

open Script in
/-- Whatever mistakes a script has, if it compiles then every switch is well formed: it has as many
weights as branches and a branch at least; all branches are tied; there are no weights but in a
pick, and `next` is tied in a pick and in no other; a rand draws among its branches; a loop, and a
walk that its sign opens, goes by a variable of its own name; a walk without a variable has two
branches at least. The brace that opens the switch stands in the tokens at its position. -/
theorem compile_switches_well_formed {start : String} {tokens : List Token} {story : Story}
    (h : compile start tokens = .ok story) : ∀ node ∈ story.nodes,
      ∀ mode counter value branches weights next,
      node.body = .switch mode counter value branches weights next →
        weights.length = branches.length ∧ branches ≠ [] ∧ (∀ link ∈ branches, link ≠ none) ∧
        (mode ≠ .pick → ∀ weight ∈ weights, weight = none) ∧ (next ≠ none ↔ mode = .pick) ∧
        (mode = .rand → value = .unary .random (.number (Float.ofNat branches.length))) ∧
        (mode = .loop → counter = some node.name ∧ value = .var node.name) ∧
        (mode = .walk → counter = none → 2 ≤ branches.length) ∧
        ∃ selection, Opens tokens node.pos selection ∧ mode = selection.mode ∧
          (selection = .walk → counter = some node.name ∧ value = .var node.name) ∧
          ∀ e, selection = .index e ∨ selection = .pick e → counter = none ∧ value = e := by
  intro node hn mode counter value branches weights next hbody
  obtain ⟨selection, path, found, hswitch, hname, hlength, rfl, rfl, rfl, rfl, hnext⟩ :=
    compile_switch_origin h hn hbody
  have htied := ((compile_ties_every_link_once start tokens).2.2.2 story h).1 node hn
  rw [← hname]
  refine ⟨?_, ?_, ?_, ?_, ⟨?_, ?_⟩, ?_, ?_, ?_, selection, hswitch.opened, rfl, ?_, ?_⟩
  · rw [List.length_map]
    exact hlength
  · rintro rfl
    exact hswitch.some (List.length_eq_zero_iff.mp hlength)
  · intro link hl
    obtain ⟨index, hindex⟩ := List.mem_iff_getElem?.mp hl
    have hlink : node.body.link? (.case index) = some link := by
      rw [hbody]
      exact hindex
    exact htied _ (Body.mem_links_iff.mpr hlink)
  · intro hmode weight hw
    obtain ⟨c, hc, rfl⟩ := List.mem_map.mp hw
    exact (hswitch.cases c hc).unweighted (Selection.isWeighted_of_mode hmode)
  · intro hne
    by_contra hmode
    exact hne (hnext hmode)
  · intro hmode
    have hlink : node.body.link? .next = some next := by
      rw [hbody, hmode]
      rfl
    exact htied _ (Body.mem_links_iff.mpr hlink)
  · intro hmode
    cases selection <;> cases hmode
    rfl
  · intro hmode
    cases selection <;> cases hmode
    exact ⟨rfl, rfl⟩
  · intro hmode hcounter
    cases selection <;> cases hmode
    · cases hcounter
    · exact hlength ▸ hswitch.two _ rfl
  · rintro rfl
    exact ⟨rfl, rfl⟩
  · rintro e (rfl | rfl) <;> exact ⟨rfl, rfl⟩

/-- A walk with an empty case, a pick with a weight, and a condition that has one case. -/
theorem compile_switches_well_formed_three : ∃ story,
    compile "start" [⟨.mark, "", "\x7b", ⟨1, 1⟩⟩, ⟨.mark, "", "|", ⟨1, 2⟩⟩,
      ⟨.mark, " ", "|", ⟨1, 4⟩⟩, ⟨.mark, "", "\x7d", ⟨1, 5⟩⟩, ⟨.mark, " ", "\x7b", ⟨1, 7⟩⟩,
      ⟨.word, "", "a", ⟨1, 8⟩⟩, ⟨.symbol, "", "~", ⟨1, 9⟩⟩, ⟨.mark, "", "(", ⟨1, 10⟩⟩,
      ⟨.number, "", "2", ⟨1, 11⟩⟩, ⟨.mark, "", ")", ⟨1, 12⟩⟩, ⟨.mark, "", "\x7d", ⟨1, 13⟩⟩,
      ⟨.mark, " ", "\x7b", ⟨1, 15⟩⟩, ⟨.word, "", "a", ⟨1, 16⟩⟩, ⟨.mark, "", "|", ⟨1, 17⟩⟩,
      .stop ⟨2, 1⟩] = .ok story ∧
    story.nodes.map (fun node => node.body.links.length) = [2, 2, 2] ∧
    ∀ node ∈ story.nodes, ∀ mode counter value branches weights next,
      node.body = .switch mode counter value branches weights next →
      weights.length = branches.length ∧ branches ≠ [] := by
  let tokens : List Token := [⟨.mark, "", "\x7b", ⟨1, 1⟩⟩, ⟨.mark, "", "|", ⟨1, 2⟩⟩,
    ⟨.mark, " ", "|", ⟨1, 4⟩⟩, ⟨.mark, "", "\x7d", ⟨1, 5⟩⟩, ⟨.mark, " ", "\x7b", ⟨1, 7⟩⟩,
    ⟨.word, "", "a", ⟨1, 8⟩⟩, ⟨.symbol, "", "~", ⟨1, 9⟩⟩, ⟨.mark, "", "(", ⟨1, 10⟩⟩,
    ⟨.number, "", "2", ⟨1, 11⟩⟩, ⟨.mark, "", ")", ⟨1, 12⟩⟩, ⟨.mark, "", "\x7d", ⟨1, 13⟩⟩,
    ⟨.mark, " ", "\x7b", ⟨1, 15⟩⟩, ⟨.word, "", "a", ⟨1, 16⟩⟩, ⟨.mark, "", "|", ⟨1, 17⟩⟩,
    .stop ⟨2, 1⟩]
  have hn : (compile "start" tokens).toOption.map (fun story =>
      story.nodes.map fun node => node.body.links.length) = some [2, 2, 2] := by
    decide +kernel
  cases hc : compile "start" tokens with
  | error e =>
    rw [hc] at hn
    cases hn
  | ok story =>
    have hformed := compile_switches_well_formed hc
    rw [hc] at hn
    refine ⟨story, rfl, Option.some.inj hn, ?_⟩
    intro node hm mode counter value branches weights next hbody
    obtain ⟨hweights, hsome, -⟩ := hformed node hm mode counter value branches weights next hbody
    exact ⟨hweights, hsome⟩

end Storyline
