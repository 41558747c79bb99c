import Storyline.Proofs.Compiling
import Storyline.Proofs.Places.Linking
import Storyline.Proofs.Places.Threads

namespace Storyline

/-- The failures are the same but for positions. -/
def CompileError.Same : CompileError → CompileError → Prop
  | build e, build f => e = f
  | missingStop _, missingStop _ => True
  | tokenAfterStop t, tokenAfterStop u => t.Same u
  | dangling name outlet count, dangling name' outlet' count' =>
    name = name' ∧ outlet = outlet' ∧ count = count'
  | _, _ => False

/-- The stories are written as the same text, their nodes were written in the same order and are the
same but for positions, and their mistakes have the same messages in the same order. -/
structure Story.Same (a b : Story) : Prop where
  start : a.start = b.start
  json : a.json = b.json
  order : a.names = b.names
  nodes : a.nodes.map Node.unplaced = b.nodes.map Node.unplaced
  messages : (a.diagnostics.map fun d => d.mistake.message) =
    b.diagnostics.map fun d => d.mistake.message

theorem Story.same_of_unplaced {a b : Story} (h : a.unplaced = b.unplaced) : a.Same b where
  start := congrArg (fun story => story.start) h
  json := by rw [← a.json_unplaced, h, b.json_unplaced]
  order := by rw [← a.names_unplaced, h, b.names_unplaced]
  nodes := by rw [← a.nodes_unplaced, h, b.nodes_unplaced]
  messages := by rw [← a.messages_unplaced, h, b.messages_unplaced]

namespace Build

/-- Runs that came to the same but for positions either both ended in one result or failed in one
way. -/
theorem unplacedResult_cases {α : Type} {r s : EStateM.Result BuildError Story α}
    (h : unplacedResult r = unplacedResult s) :
    (∃ e a b, r = .error e a ∧ s = .error e b) ∨
      ∃ x a b, r = .ok x a ∧ s = .ok x b ∧ a.unplaced = b.unplaced := by
  cases r with
  | ok x a =>
    cases s with
    | ok y b =>
      injection h with hx hab
      subst hx
      exact .inr ⟨x, a, b, rfl, rfl, hab⟩
    | error f b => cases h
  | error e a =>
    cases s with
    | ok y b => cases h
    | error f b =>
      injection h with he
      subst he
      exact .inl ⟨e, a, b, rfl, rfl⟩

theorem whole_unplaced (start : String) (pos pos' : Position) {items items' : Script}
    (h : Script.unplaced items = Script.unplaced items') :
    unplacedResult (whole start pos items (.empty start)) =
      unplacedResult (whole start pos' items' (.empty start)) := by
  have hempty : (Story.empty start).unplaced = .empty start := by
    simp [Story.empty, Story.unplaced]
  have hleft := Blind.whole start pos items (.empty start)
  have hright := Blind.whole start pos' items' (.empty start)
  rw [hempty] at hleft hright
  rw [← hleft, ← hright, h]

theorem close_unplaced (front : Front) {a b : Story} (h : a.unplaced = b.unplaced) :
    unplacedResult (close front a) = unplacedResult (close front b) := by
  rw [← Blind.close front a, ← Blind.close front b, h]

end Build

/-- The outcomes are the same but for positions. -/
def SameOutcomes : Except CompileError Story → Except CompileError Story → Prop
  | .ok a, .ok b => a.Same b
  | .error e, .error f => e.Same f
  | .ok _, .error _ => False
  | .error _, .ok _ => False

theorem complete_same {a b : Story} (h : a.unplaced = b.unplaced) :
    SameOutcomes (complete a) (complete b) := by
  unfold complete
  rw [← a.dangling_unplaced, h, b.dangling_unplaced]
  split
  · exact Story.same_of_unplaced h
  · exact ⟨rfl, rfl, rfl⟩

/-- Tokens that agree in kind, space and text compile to the same, wherever they stand. -/
theorem compile_same (start : String) {ts us : List Token} (h : SameTokens ts us) :
    SameOutcomes (compile start ts) (compile start us) := by
  obtain ⟨hitems, hrest⟩ := Script.script_same h
  have hwhole := Build.whole_unplaced start (here ts) (here us) hitems
  obtain ⟨e, a, b, ha, hb⟩ | ⟨front, a, b, ha, hb, hab⟩ := Build.unplacedResult_cases hwhole
  · by_cases he : e = .unfinished
    · subst he
      rw [compile_of_unfinished ha, compile_of_unfinished hb]
      trivial
    · rw [compile_of_error he ha, compile_of_error he hb]
      exact rfl
  · cases hts : (Script.script ts).rest with
    | cons t rest =>
      rw [hts] at hrest
      cases hus : (Script.script us).rest with
      | nil =>
        rw [hus] at hrest
        cases hrest
      | cons u rest' =>
        rw [hus] at hrest
        rw [compile_of_rest ha hts, compile_of_rest hb hus]
        exact (List.forall₂_cons.mp hrest).1
    | nil =>
      rw [hts] at hrest
      have hus : (Script.script us).rest = [] := List.forall₂_nil_left_iff.mp hrest
      have hclose := Build.close_unplaced front hab
      obtain ⟨e, c, d, hc, hd⟩ | ⟨_, c, d, hc, hd, hcd⟩ := Build.unplacedResult_cases hclose
      · rw [compile_of_close_error ha hts hc, compile_of_close_error hb hus hd]
        exact rfl
      · rw [compile_of_close ha hts hc, compile_of_close hb hus hd]
        exact complete_same hcd

/-- A label that is defined twice, once with every token in its place and once with all of them at one
place. -/
theorem compile_same_label : ∃ a b,
    compile "start" [⟨.mark, "", "@", ⟨1, 1⟩⟩, ⟨.word, "", "a", ⟨1, 2⟩⟩, ⟨.word, " ", "one", ⟨1, 4⟩⟩,
      ⟨.mark, " ", "@", ⟨2, 1⟩⟩, ⟨.word, "", "a", ⟨2, 2⟩⟩, ⟨.word, " ", "two", ⟨2, 4⟩⟩,
      .stop ⟨3, 1⟩] = .ok a ∧
    compile "start" [⟨.mark, "", "@", ⟨7, 7⟩⟩, ⟨.word, "", "a", ⟨7, 7⟩⟩, ⟨.word, " ", "one", ⟨7, 7⟩⟩,
      ⟨.mark, " ", "@", ⟨7, 7⟩⟩, ⟨.word, "", "a", ⟨7, 7⟩⟩, ⟨.word, " ", "two", ⟨7, 7⟩⟩,
      .stop ⟨7, 7⟩] = .ok b ∧
    a.names = ["start", "a", "a'2"] ∧ a.Same b := by
  let ts : List Token := [⟨.mark, "", "@", ⟨1, 1⟩⟩, ⟨.word, "", "a", ⟨1, 2⟩⟩,
    ⟨.word, " ", "one", ⟨1, 4⟩⟩, ⟨.mark, " ", "@", ⟨2, 1⟩⟩, ⟨.word, "", "a", ⟨2, 2⟩⟩,
    ⟨.word, " ", "two", ⟨2, 4⟩⟩, .stop ⟨3, 1⟩]
  let us : List Token := [⟨.mark, "", "@", ⟨7, 7⟩⟩, ⟨.word, "", "a", ⟨7, 7⟩⟩,
    ⟨.word, " ", "one", ⟨7, 7⟩⟩, ⟨.mark, " ", "@", ⟨7, 7⟩⟩, ⟨.word, "", "a", ⟨7, 7⟩⟩,
    ⟨.word, " ", "two", ⟨7, 7⟩⟩, .stop ⟨7, 7⟩]
  have same {t u : Token} (hk : t.kind = u.kind) (hs : t.space = u.space) (ht : t.text = u.text) :
      t.Same u := ⟨hk, hs, ht⟩
  have h : SameTokens ts us := by
    repeat' first | exact List.Forall₂.nil | apply List.Forall₂.cons
    all_goals exact same rfl rfl rfl
  have hn : (compile "start" ts).toOption.map Story.names = some ["start", "a", "a'2"] := by
    decide +kernel
  have hm : (compile "start" us).toOption.isSome = true := by decide +kernel
  have hsame := compile_same "start" h
  cases ha : compile "start" ts with
  | error e =>
    rw [ha] at hn
    cases hn
  | ok a =>
    cases hb : compile "start" us with
    | error e =>
      rw [hb] at hm
      cases hm
    | ok b =>
      rw [ha] at hn
      rw [ha, hb] at hsame
      exact ⟨a, b, rfl, rfl, Option.some.inj hn, hsame⟩

end Storyline
