import Storyline.Proofs.Chains.Linking
import Storyline.Proofs.Compiling

namespace Storyline

/-- The nodes of a flat script; without any content the entry ends the story by itself. -/
def Flat.chain (start : String) (pos : Position) : List (Position × Content) → List Node
  | [] => [⟨start, .goto (some .ret), pos⟩]
  | first :: more => Flat.nodes start (some .ret) 0 (first :: more)

namespace Flat

variable {start : String} {last : Link} {found : List (Position × Content)} {node : Node}
  {place : Nat} {noted : Array Diagnostic} {pos : Position}

/-- Each node of a row leads to another of them, or where the row leads. -/
theorem nodes_lead (h : node ∈ nodes start last place found) : ∃ c link,
    node.body = .content c link ∧ (link = last ∨ ∃ k, place ≤ k ∧ k < place + found.length ∧
      link = some (.node (name start k))) := by
  induction found generalizing place with
  | nil => cases h
  | cons first rest ih =>
    cases rest with
    | nil =>
      obtain rfl := List.mem_singleton.mp h
      exact ⟨_, _, rfl, .inl rfl⟩
    | cons second rest =>
      rcases List.mem_cons.mp h with rfl | h
      · exact ⟨_, _, rfl, .inr ⟨place + 1, by omega, by simp, rfl⟩⟩
      · obtain ⟨c, link, hbody, hlink⟩ := ih h
        refine ⟨c, link, hbody, hlink.imp_right ?_⟩
        rintro ⟨k, hle, hlt, hlink⟩
        have hlength : (first :: second :: rest).length = (second :: rest).length + 1 := rfl
        exact ⟨k, by omega, by omega, hlink⟩

/-- The nodes that live in the slots of a row. -/
theorem nodes_slots (start : String) (last : Link) (found : List (Position × Content))
    (noted : Array Diagnostic) :
    (Story.mk start (slots start last found).toArray noted).nodes = nodes start last 0 found := by
  rw [Story.nodes, List.toList_toArray, slots, List.filterMap_cons_none rfl, List.filterMap_map]
  exact List.filterMap_some

/-- A chain leads nowhere but to its own nodes and out of the story. -/
theorem chain_leads (h : node ∈ chain start pos found) : ∃ target,
    node.body.links = [(.next, some target)] ∧ node.body.references = [] ∧
      (target = .ret ∨ ∃ other ∈ chain start pos found, target = .node other.name) := by
  cases found with
  | nil =>
    obtain rfl := List.mem_singleton.mp h
    exact ⟨.ret, rfl, rfl, .inl rfl⟩
  | cons first rest =>
    obtain ⟨c, link, hbody, rfl | ⟨k, hle, hlt, rfl⟩⟩ := nodes_lead h
    · rw [hbody]
      exact ⟨.ret, rfl, rfl, .inl rfl⟩
    · rw [hbody]
      obtain ⟨other, hother, hname⟩ : ∃ other ∈ nodes start (some .ret) 0 (first :: rest),
          other.name = name start k := exists_node_named_iff.mpr ⟨k, hle, hlt, rfl⟩
      exact ⟨_, rfl, rfl, .inr ⟨other, hother, congrArg Target.node hname.symm⟩⟩

end Flat

section Chain

variable {start : String} {pos : Position} {found : List (Position × Content)} {story : Story}

/-- The link check has nothing to say about a chain. -/
theorem missingLabels_chain (h : story.nodes = Flat.chain start pos found) :
    story.missingLabels = [] := by
  refine List.flatMap_eq_nil_iff.mpr fun node hnode => ?_
  rw [h] at hnode
  obtain ⟨target, hlinks, hrefs, htarget⟩ := Flat.chain_leads hnode
  rw [Story.needed, hlinks, hrefs]
  rcases htarget with rfl | ⟨other, hother, rfl⟩
  · rfl
  · rw [← h] at hother
    obtain ⟨id, hid⟩ := Story.exists_node?_of_mem hother
    have hknown : story.contains other.name = true := Story.contains_iff.mpr ⟨id, other, hid, rfl⟩
    simp [hknown]

theorem dangling_chain (h : story.nodes = Flat.chain start pos found) : story.dangling = [] := by
  refine List.flatMap_eq_nil_iff.mpr fun node hnode => ?_
  rw [h] at hnode
  obtain ⟨target, hlinks, -, -⟩ := Flat.chain_leads hnode
  rw [hlinks]
  rfl

end Chain

namespace Build

variable {start : String} {pos : Position} {noted : Array Diagnostic}
  {found : List (Position × Content)} {front : Front} {story : Story}

/-- A flat script is linked to a row of what its items show. -/
theorem whole_row (start : String) (pos : Position) {items : List Item}
    (hp : ∀ i ∈ items, i.IsPlain) :
    ∃ front story, whole start pos items (.empty start) = .ok front story ∧
      Row start pos (Script.reports items).toArray (items.filterMap Item.shown?) front story := by
  have hentry : createPlaceholder (.root start) pos (.empty start) =
      .ok 0 ⟨start, #[.placeholder ⟨start, .goto none, pos⟩], #[]⟩ := by
    simp [createPlaceholder, addSlot, Story.find?, Story.empty, Path.name_root]
  have hrow : Row start pos #[] [] _ _ := .entry
  obtain ⟨front, story, hrun, hrow⟩ := thread_row hp hrow
  refine ⟨front, story, (run_bind hentry).trans hrun, ?_⟩
  rw [List.nil_append] at hrow
  simpa using hrow

/-- What is open at the end of a row ends the story. -/
theorem tie_row (h : Row start pos noted found front story) : ∃ after,
    tie .ret front.ends.rets story = .ok () after ∧ front.ends.escs = [] ∧
      after.nodes = Flat.chain start pos found ∧ after.diagnostics = noted := by
  cases h with
  | entry => exact ⟨_, rfl, rfl, rfl, rfl⟩
  | @row _ n length =>
    have hne : found ≠ [] := List.ne_nil_of_length_eq_add_one length
    have htie : tie .ret [⟨found.length, .next⟩]
        ⟨start, (Flat.slots start none found ++ []).toArray, noted⟩ =
        .ok () ⟨start, (Flat.slots start (some .ret) found ++ []).toArray, noted⟩ :=
      tie_last .ret hne []
    rw [List.append_nil, List.append_nil, length] at htie
    refine ⟨_, htie, rfl, ?_, rfl⟩
    rw [Flat.nodes_slots]
    cases found with
    | nil => exact absurd rfl hne
    | cons first rest => rfl

/-- A row is closed to a chain, and nothing more is noted. -/
theorem close_row (h : Row start pos noted found front story) : ∃ after,
    close front story = .ok () after ∧ after.nodes = Flat.chain start pos found ∧
      after.diagnostics = noted := by
  obtain ⟨mid, htie, hescs, hnodes, hnoted⟩ := tie_row h
  have hcheck : check mid = .ok () mid := by
    rw [check, missingLabels_chain hnodes]
    rfl
  refine ⟨mid, ?_, hnodes, hnoted⟩
  rw [close, run_bind htie, hescs]
  exact hcheck

end Build

/-- A flat script compiles. Its nodes are those of what its tokens show, in a row below the start
label; its mistakes are those of its tokens, in order. -/
theorem compile_flat (start : String) {tokens : List Token} {stop : Token}
    (h : ∀ t ∈ tokens, t.IsFlat) (hs : stop.kind = .stop) :
    ∃ story, compile start (tokens ++ [stop]) = .ok story ∧
      story.nodes = Flat.chain start (here (tokens ++ [stop])) (Flat.contents (tokens ++ [stop])) ∧
      story.diagnostics.toList = Flat.mistakes tokens := by
  obtain ⟨hrest, htally⟩ := Script.script_reads (.of_tokens h hs)
  have hshown : (Script.script (tokens ++ [stop])).value.filterMap Item.shown? =
      Flat.contents (tokens ++ [stop]) := by
    rw [← htally.shown, Flat.contents, List.append_nil]
  have hnoted : Script.reports (Script.script (tokens ++ [stop])).value = Flat.mistakes tokens := by
    have hstop : Flat.mistakes (tokens ++ [stop]) = Flat.mistakes tokens := by
      simp [Flat.mistakes, Token.mistake?, hs]
    rw [← hstop, ← htally.noted]
    exact (List.append_nil _).symm
  obtain ⟨front, mid, hrun, hrow⟩ := Build.whole_row start (here (tokens ++ [stop])) htally.plain
  obtain ⟨story, hclose, hnodes, hdiagnostics⟩ := Build.close_row hrow
  refine ⟨story, ?_, ?_, ?_⟩
  · rw [compile_of_close hrun hrest hclose, complete, dangling_chain hnodes]
  · rw [hnodes, hshown]
  · rw [hdiagnostics, hnoted]

/-- A scanning mistake cuts a run of text in two, and a bracket that closes nothing ends another. -/
def Flat.interrupted : List Token :=
  [⟨.text, "", "Wait", ⟨1, 1⟩⟩, ⟨.mark, " ", "--", ⟨1, 6⟩⟩, ⟨.error, "", "tab", ⟨1, 8⟩⟩,
    ⟨.word, " ", "here", ⟨1, 10⟩⟩, ⟨.mark, "", "]", ⟨1, 14⟩⟩, ⟨.blank, "", "", ⟨2, 1⟩⟩,
    ⟨.mark, "", "/", ⟨3, 1⟩⟩, ⟨.literal, "", "\x7b", ⟨3, 2⟩⟩]

theorem compile_flat_interrupted :
    (∀ t ∈ Flat.interrupted, t.IsFlat) ∧ (Token.stop ⟨4, 1⟩).kind = .stop ∧
    ∃ story, compile "start" (Flat.interrupted ++ [.stop ⟨4, 1⟩]) = .ok story ∧
      story.nodes = [
        ⟨"start", .content (.text "Wait –" "" "") (some (.node "start.1")), ⟨1, 1⟩⟩,
        ⟨"start.1", .content (.text "here" " " "") (some (.node "start.2")), ⟨1, 10⟩⟩,
        ⟨"start.2", .content .lineBreak (some (.node "start.3")), ⟨3, 1⟩⟩,
        ⟨"start.3", .content (.text "\x7b" "" "") (some .ret), ⟨3, 2⟩⟩] ∧
      story.diagnostics.toList = [⟨⟨1, 8⟩, .scanner "tab"⟩,
        ⟨⟨1, 14⟩, .unexpected ⟨.mark, "", "]", ⟨1, 14⟩⟩⟩] := by
  have hflat : ∀ t ∈ Flat.interrupted, t.IsFlat := by
    simp only [Flat.interrupted, List.forall_mem_cons]
    exact ⟨.prose rfl, .prose (by decide), .error rfl, .prose rfl, .stray rfl (by decide),
      .blank rfl, .lineBreak rfl rfl, .prose rfl, List.forall_mem_nil _⟩
  have hstop : (Token.stop ⟨4, 1⟩).kind = .stop := rfl
  have hcontents : Flat.contents (Flat.interrupted ++ [.stop ⟨4, 1⟩]) =
      [(⟨1, 1⟩, .text "Wait –" "" ""), (⟨1, 10⟩, .text "here" " " ""), (⟨3, 1⟩, .lineBreak),
        (⟨3, 2⟩, .text "\x7b" "" "")] := by
    simp [Flat.interrupted, Flat.contents, Flat.runText, Flat.spaceBefore, Token.isProse, Token.content?,
      Token.printed, typographic, Token.stop, terminators, introducers, Kind.isContent]
  obtain ⟨story, hcompile, hnodes, hnoted⟩ := compile_flat "start" hflat hstop
  rw [hcontents] at hnodes
  refine ⟨hflat, hstop, story, hcompile, hnodes.trans ?_, hnoted.trans ?_⟩
  · rfl
  · simp [Flat.interrupted, Flat.mistakes, Token.mistake?, terminators]

end Storyline
