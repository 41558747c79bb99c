import Storyline.Proofs.Definitions.Compiled
import Storyline.Proofs.Names.Region
import Storyline.Story.Json

namespace Storyline

/-- The texts of the targets that are no nodes. -/
def Target.sentinels : List String := [Target.ret.text, Target.esc.text]

theorem Target.text_injective {a b : Target} (ha : ∀ name, a = .node name → name ∉ sentinels)
    (hb : ∀ name, b = .node name → name ∉ sentinels) (h : a.text = b.text) : a = b := by
  have hne : Target.ret.text ≠ Target.esc.text := by decide
  have hret : Target.ret.text ∈ sentinels := List.mem_cons_self
  have hesc : Target.esc.text ∈ sentinels := List.mem_cons_of_mem _ (List.mem_singleton_self _)
  cases a with
  | node name =>
    have hname : name = b.text := h
    have hout := ha name rfl
    cases b with
    | node other => exact congrArg Target.node hname
    | ret => exact absurd (hname ▸ hret) hout
    | esc => exact absurd (hname ▸ hesc) hout
  | ret =>
    cases b with
    | node other =>
      have hname : Target.ret.text = other := h
      exact absurd (hname ▸ hret) (hb other rfl)
    | ret => rfl
    | esc => exact absurd h hne
  | esc =>
    cases b with
    | node other =>
      have hname : Target.esc.text = other := h
      exact absurd (hname ▸ hesc) (hb other rfl)
    | ret => exact absurd h.symm hne
    | esc => rfl

theorem Target.json_injective {a b : Target} (ha : ∀ name, a = .node name → name ∉ sentinels)
    (hb : ∀ name, b = .node name → name ∉ sentinels) (h : a.json = b.json) : a = b :=
  text_injective ha hb (Json.string.inj h)

/-- A name with neither the sign of a place below a label nor that of a numbered copy. -/
def IsPlain (name : String) : Prop := '.' ∉ name.toList ∧ '\'' ∉ name.toList

theorem isPlain_of_mem_sentinels {name : String} (h : name ∈ Target.sentinels) : IsPlain name := by
  rcases List.mem_cons.mp h with rfl | h
  · exact ⟨by decide, by decide⟩
  · obtain rfl := List.mem_singleton.mp h
    exact ⟨by decide, by decide⟩

/-- Only the root of a label has a plain name, which is the label. -/
theorem Path.label_eq_of_plain {p : Path} {name : String} (h : p.name = name) (hp : IsPlain name) :
    p.label = name := by
  have hpieces := p.split_name
  rw [h, Text.split_of_not_mem hp.1] at hpieces
  have hroot : p.indices = [0] := by
    by_contra hne
    rw [if_neg hne] at hpieces
    have hlen := congrArg List.length hpieces
    have hlabel := List.length_pos_iff.mpr (Text.split_ne_nil '.' p.label.toList)
    have hindices := List.length_pos_iff.mpr p.indices_ne_nil
    simp only [List.length_singleton, List.length_append, List.length_map] at hlen
    omega
  rw [← h, Path.name_of_indices hroot]

/-- Only a definition written so is given a plain label. -/
theorem Definition.name_eq_of_plain {d : Definition} {name : String} (h : d.label = name)
    (hp : IsPlain name) : d.name = name := by
  rcases d.mayName with hl | ⟨n, hl⟩
  · rw [← h, hl]
  · have hmem : '\'' ∈ name.toList := by
      rw [← h, hl]
      simp
    exact absurd hmem hp.2

open Script

section Sentinels

variable {start : String} {tokens : List Token} {story : Story} {name : String}

/-- A place that bears a plain name lies below a label that the script writes so. -/
theorem mem_labels_of_plain (hnames : (definitions start tokens).map Definition.name =
    labels (script tokens).value) (hp : IsPlain name) (hs : start ≠ name)
    (h : ∃ p : Path, HasLabel start (definitions start tokens) p.label ∧ p.name = name) :
    name ∈ labels (script tokens).value := by
  obtain ⟨p, hlabel, hname⟩ := h
  rw [Path.label_eq_of_plain hname hp] at hlabel
  rcases hlabel with hl | ⟨d, hd, hl⟩
  · exact absurd hl.symm hs
  · rw [← hnames, ← Definition.name_eq_of_plain hl hp]
    exact List.mem_map_of_mem hd

/-- In a story whose start label is no sentinel a node bears the name of one only if a label of the
script is written so, and a link leads to such a name only if a label or a move is. Without either,
links that are written alike are the same. -/
theorem compile_sentinels (h : compile start tokens = .ok story) (hs : start ∉ Target.sentinels) :
    (∀ name ∈ Target.sentinels, story.contains name = true →
      name ∈ labels (script tokens).value) ∧
    (∀ name ∈ Target.sentinels, ∀ node ∈ story.nodes, ∀ outlet,
      (outlet, some (.node name)) ∈ node.body.links →
      name ∈ labels (script tokens).value ∨ name ∈ gotos (script tokens).value) ∧
    ((∀ name ∈ Target.sentinels, name ∉ labels (script tokens).value ∧
        name ∉ gotos (script tokens).value) →
      ∀ node ∈ story.nodes, ∀ other ∈ story.nodes, ∀ outlet target outlet' target',
        (outlet, some target) ∈ node.body.links → (outlet', some target') ∈ other.body.links →
        target.json = target'.json → target = target') := by
  obtain ⟨hnames, htold⟩ := compile_told h fun _ hl => hl
  have hstart {name : String} (hn : name ∈ Target.sentinels) : start ≠ name := by
    rintro rfl
    exact hs hn
  have hlinks : ∀ name ∈ Target.sentinels, ∀ node ∈ story.nodes, ∀ outlet,
      (outlet, some (.node name)) ∈ node.body.links →
      name ∈ labels (script tokens).value ∨ name ∈ gotos (script tokens).value := by
    intro name hn node hnode outlet hl
    obtain ⟨id, hlive⟩ := Story.exists_node?_of_mem hnode
    have haims := (htold.nodes id node hlive).links outlet _ (Body.mem_links_iff.mp hl) name rfl
    exact haims.imp_left (mem_labels_of_plain hnames (isPlain_of_mem_sentinels hn) (hstart hn))
  refine ⟨?_, hlinks, ?_⟩
  · intro name hn hc
    obtain ⟨id, node, hlive, hname⟩ := Story.contains_iff.mp hc
    obtain ⟨p, hp, hpath⟩ := (htold.nodes id node hlive).name
    exact mem_labels_of_plain hnames (isPlain_of_mem_sentinels hn) (hstart hn)
      ⟨p, hp, hpath.trans hname⟩
  · intro hfree node hnode other hother outlet target outlet' target' hl hl' hjson
    refine Target.json_injective ?_ ?_ hjson
    · rintro name rfl hn
      rcases hlinks name hn node hnode outlet hl with hm | hm
      · exact (hfree name hn).1 hm
      · exact (hfree name hn).2 hm
    · rintro name rfl hn
      rcases hlinks name hn other hother outlet' hl' with hm | hm
      · exact (hfree name hn).1 hm
      · exact (hfree name hn).2 hm

end Sentinels

/-- A story of one text, whose link leads back. -/
theorem compile_sentinels_text : ∃ story,
    compile "start" [⟨.word, "", "x", ⟨1, 1⟩⟩, .stop ⟨2, 1⟩] = .ok story ∧
      story.contains "RET" = false ∧
      ∀ node ∈ story.nodes, ∀ outlet name, (outlet, some (.node name)) ∈ node.body.links →
        name ≠ "RET" := by
  let tokens : List Token := [⟨.word, "", "x", ⟨1, 1⟩⟩, .stop ⟨2, 1⟩]
  have hok : (compile "start" tokens).toOption.isSome = true := by decide +kernel
  have hlabels : labels (script tokens).value = [] := by decide +kernel
  have hgotos : gotos (script tokens).value = [] := by decide +kernel
  have hs : "start" ∉ Target.sentinels := by decide
  have hret : "RET" ∈ Target.sentinels := by decide
  cases hc : compile "start" tokens with
  | error e =>
    rw [hc] at hok
    cases hok
  | ok story =>
    obtain ⟨hnodes, hlinks, -⟩ := compile_sentinels hc hs
    rw [hlabels] at hnodes hlinks
    rw [hgotos] at hlinks
    refine ⟨story, rfl, ?_, ?_⟩
    · cases hcontains : story.contains "RET" with
      | false => rfl
      | true => cases hnodes "RET" hret hcontains
    · rintro node hnode outlet name hl rfl
      rcases hlinks "RET" hret node hnode outlet hl with hm | hm <;> cases hm

/-- One branch moves to a label `RET`, which the script has not, the other goes back; both links are
written alike. -/
theorem sentinel_written_as_label : ¬ ∀ start tokens story, start ∉ Target.sentinels →
    compile start tokens = .ok story →
    (∀ name ∈ Target.sentinels, story.contains name = false ∧ ∀ node ∈ story.nodes, ∀ outlet,
      (outlet, some (.node name)) ∉ node.body.links) ∧
    ∀ node ∈ story.nodes, ∀ other ∈ story.nodes, ∀ outlet target outlet' target',
      (outlet, some target) ∈ node.body.links → (outlet', some target') ∈ other.body.links →
      target.json = target'.json → target = target' := by
  intro h
  let tokens : List Token := [⟨.mark, "", "\x7b", ⟨1, 1⟩⟩, ⟨.word, "", "c", ⟨1, 2⟩⟩,
    ⟨.mark, "", "?", ⟨1, 3⟩⟩, ⟨.mark, " ", "->", ⟨1, 5⟩⟩, ⟨.word, " ", "RET", ⟨1, 8⟩⟩,
    ⟨.mark, " ", "|", ⟨1, 12⟩⟩, ⟨.word, " ", "y", ⟨1, 14⟩⟩, ⟨.mark, "", "\x7d", ⟨1, 15⟩⟩,
    .stop ⟨2, 1⟩]
  have hlinks : (compile "start" tokens).toOption.map (fun s =>
      s.nodes.map fun node => node.body.links) =
      some [[(.next, some (.node "RET")), (.branch, some (.node "start.0.2"))],
        [(.next, some .ret)]] := by
    decide +kernel
  cases hc : compile "start" tokens with
  | error e =>
    rw [hc] at hlinks
    cases hlinks
  | ok story =>
    rw [hc] at hlinks
    have hall : story.nodes.map (fun node => node.body.links) =
        [[(.next, some (.node "RET")), (.branch, some (.node "start.0.2"))],
          [(.next, some .ret)]] := Option.some.inj hlinks
    have hlen := congrArg List.length hall
    rw [List.length_map] at hlen
    obtain ⟨jump, text, hnodes⟩ := List.length_eq_two.mp hlen
    rw [hnodes] at hall
    simp only [List.map_cons, List.map_nil, List.cons.injEq, and_true] at hall
    have hjump : (.next, some (.node "RET")) ∈ jump.body.links := by
      rw [hall.1]
      exact List.mem_cons_self
    have htext : (.next, some .ret) ∈ text.body.links := by
      rw [hall.2]
      exact List.mem_singleton_self _
    have hs : "start" ∉ Target.sentinels := by decide
    obtain ⟨-, halike⟩ := h "start" tokens story hs hc
    have hsame := halike jump (by simp [hnodes]) text (by simp [hnodes]) .next (.node "RET") .next .ret
      hjump htext rfl
    cases hsame

end Storyline
