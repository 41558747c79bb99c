import Storyline.Proofs.Meaning.Compiled
import Storyline.Proofs.Options.Clauses
import Storyline.Proofs.Options.Within

namespace Storyline

/-- Decides conditions. A comparison and its complement are opposites, and `not` negates. -/
structure Valuation where
  holds : Expr → Bool
  complement : ∀ op opposite left right, op.complement? = some opposite →
    holds (.binary opposite left right) = !holds (.binary op left right)
  negated : ∀ e, holds (.unary .not e) = !holds e

/-- Whether a condition holds where all variables do and all numbers are equal. -/
def Expr.holdsEvenly : Expr → Bool
  | unary .not e => !e.holdsEvenly
  | binary op _ _ => op == .eq || op == .le || op == .ge
  | _ => true

instance : Inhabited Valuation where
  default :=
    { holds := Expr.holdsEvenly
      complement := fun op opposite _ _ h => by
        cases op <;> cases h <;> simp only [Expr.holdsEvenly] <;> decide
      negated := fun _ => by rw [Expr.holdsEvenly] }

namespace Valuation

theorem holds_inverted (v : Valuation) (e : Expr) : v.holds e.inverted = !v.holds e := by
  unfold Expr.inverted
  split
  · next op left right =>
    split
    · next opposite hop => exact v.complement op opposite left right hop
    · exact v.negated _
  · exact v.negated _

/-- The guards, from the path on, up to the first that fails. -/
def tried (v : Valuation) : List Expr → Path → List String
  | [], _ => []
  | guard :: rest, path => path.name :: if v.holds guard then v.tried rest path.next else []

end Valuation

namespace Story

/-- A walk from one target to another over jumps and options of these names. -/
inductive Walks (v : Valuation) (story : Story) : Target → List String → Target → Prop where
  | here {target} : Walks v story target [] target
  | jump {name condition branch next names goal} :
      (story.get? name).map Node.body = some (.jump condition (some branch) (some next)) →
      Walks v story (if v.holds condition then branch else next) names goal →
      Walks v story (.node name) (name :: names) goal
  | option {name question answer keywords next names goal} :
      (story.get? name).map Node.body = some (.option question answer keywords (some next)) →
      Walks v story next names goal → Walks v story (.node name) (name :: names) goal

/-- Following the story from one target to the other does these assignments and nothing else. -/
inductive Performs (story : Story) : Target → List Assignment → Target → Prop where
  | done {target} : Performs story target [] target
  | move {name next rest goal} {a : Assignment} :
      (story.get? name).map Node.body = some (.content a.content (some next)) →
      Performs story next rest goal → Performs story (.node name) (a :: rest) goal

variable {v : Valuation} {story : Story} {id : NodeId} {name : String} {body : Body}
  {target middle : Target} {names names' : List String} {gs : List Expr} {path : Path}
  {ids : List NodeId} {last : LooseEnd}

theorem Walks.trans (h : story.Walks v target names middle) {goal : Target}
    (h' : story.Walks v middle names' goal) : story.Walks v target (names ++ names') goal := by
  induction h with
  | here => exact h'
  | jump hb _ ih => exact .jump hb (ih h')
  | option hb _ ih => exact .option hb (ih h')

/-- A node whose links are all tied is what it was written as. -/
theorem Holds.body_eq (h : story.Holds id name body) (hd : story.Distinct)
    (ht : ∀ outlet, body.link? outlet ≠ some none) (hk : body.kind ≠ .switch) :
    (story.get? name).map Node.body = some body := by
  obtain ⟨after, hget, hg⟩ := h.grown hd
  rw [hget, hg.eq_of_tied ht hk]

/-- A content that leads on stays as it is. -/
theorem Holds.content_eq {c : Content} (h : story.Holds id name (.content c (some target)))
    (hd : story.Distinct) :
    (story.get? name).map Node.body = some (.content c (some target)) :=
  h.body_eq hd (fun outlet => by cases outlet <;> simp [Body.link?])
    (by cases c <;> simp [Body.kind, Content.kind])

/-- Each guard is a jump to the target where its opposite holds, and leads on to the next guard. -/
theorem Guarded.jumps (h : story.Guarded gs path ids) (hd : story.Distinct)
    (hg : ∀ id ∈ ids, story.Gone target ⟨id, .branch⟩) {k : Nat} {guard : Expr}
    (hk : gs[k]? = some guard) : (story.get? (path.onward k).name).map Node.body =
      some (.jump guard.inverted (some target) (some (.node (path.onward (k + 1)).name))) := by
  induction gs generalizing path ids k with
  | nil => cases hk
  | cons first rest ih =>
    cases ids with
    | nil => exact h.elim
    | cons id ids =>
      obtain ⟨hid, hrest⟩ := h
      cases k with
      | zero =>
        obtain rfl := Option.some.inj hk
        exact (hid.tied (hg id List.mem_cons_self) rfl).body_eq hd
          (fun outlet => by cases outlet <;> simp [Body.setLink, Body.link?])
          (by simp [Body.setLink, Body.kind])
      | succ k =>
        have hnext := ih hrest (fun other hm => hg other (List.mem_cons_of_mem id hm)) hk
        rwa [Path.onward_next, Path.onward_next] at hnext

/-- Such jumps let a walk through if all of the guards hold, and send it on from the first that
fails. -/
theorem walks_of_jumps (h : ∀ k guard, gs[k]? = some guard →
      (story.get? (path.onward k).name).map Node.body =
        some (.jump guard.inverted (some target) (some (.node (path.onward (k + 1)).name))))
    (v : Valuation) : story.Walks v (.node path.name) (v.tried gs path)
      (if gs.all v.holds then .node (path.onward gs.length).name else target) := by
  induction gs generalizing path with
  | nil => exact .here
  | cons guard rest ih =>
    have hwalk := @ih path.next fun k other hk => by
      rw [Path.onward_next, Path.onward_next]
      exact h (k + 1) other hk
    refine .jump (h 0 guard rfl) ?_
    rw [v.holds_inverted, List.all_cons, List.length_cons, ← Path.onward_next path rest.length]
    cases hv : v.holds guard with
    | false => exact .here
    | true => exact hwalk

/-- A row of assignments that leads to the target. -/
theorem Strung.performs {assignments : List Assignment} (hne : assignments ≠ [])
    (h : story.Strung (assignments.map Assignment.content) path last) (hd : story.Distinct)
    (hg : story.Gone target last) : story.Performs (.node path.name) assignments target := by
  induction assignments generalizing path with
  | nil => exact absurd rfl hne
  | cons a rest ih =>
    cases rest with
    | nil =>
      obtain ⟨id, hid, rfl⟩ := h
      exact .move (Holds.content_eq (hid.tied hg rfl) hd) .done
    | cons b rest =>
      obtain ⟨⟨id, hid⟩, hrest⟩ := h
      exact .move (hid.content_eq hd) (ih (List.cons_ne_nil b rest) hrest)

theorem Guarded.holds (h : story.Guarded gs path ids) (hm : id ∈ ids) :
    ∃ name condition next, story.Holds id name (.jump condition none next) := by
  induction gs generalizing path ids with
  | nil =>
    cases ids with
    | nil => cases hm
    | cons id ids => exact h.elim
  | cons guard rest ih =>
    cases ids with
    | nil => exact h.elim
    | cons first ids =>
      obtain ⟨hfirst, hrest⟩ := h
      rcases List.mem_cons.mp hm with rfl | hm
      · exact ⟨_, _, _, hfirst⟩
      · exact ih hrest hm

/-- What leads past and through an option whose first node stands at the path, with these guards and
assignments. Its own next and each guard that fails lead to the target. -/
structure Leads (story : Story) (path : Path) (guards : List Expr) (assignments : List Assignment)
    (keywords question answer : List String) (target : Target) : Prop where
  option : (story.get? (path.onward guards.length).name).map Node.body =
    some (.option question
      ((if assignments.isEmpty then [] else [(path.onward guards.length).firstChild.name]) ++ answer)
      (Body.wordSet keywords) (some target))
  jumps : ∀ k guard, guards[k]? = some guard → (story.get? (path.onward k).name).map Node.body =
    some (.jump guard.inverted (some target) (some (.node (path.onward (k + 1)).name)))
  walks : ∀ v : Valuation, story.Walks v (.node path.name) (v.tried guards path)
    (if guards.all v.holds then .node (path.onward guards.length).name else target)
  performs : assignments ≠ [] →
    story.Performs (.node (path.onward guards.length).firstChild.name) assignments .ret

/-- An option leads where its ends have gone. -/
theorem Guarded.leads {assignments : List Assignment} {keywords question answer : List String}
    (h : story.Guarded gs path ids) (hd : story.Distinct)
    (ho : story.Holds id (path.onward gs.length).name (.option question
      ((if assignments.isEmpty then [] else [(path.onward gs.length).firstChild.name]) ++ answer)
      (Body.wordSet keywords) none))
    (hc : assignments ≠ [] → ∃ last, story.Gone .ret last ∧
      story.Strung (assignments.map Assignment.content) (path.onward gs.length).firstChild last)
    (hg : ∀ l ∈ ids.map (⟨·, .branch⟩) ++ [Build.nextEnd id], story.Gone target l) :
    story.Leads path gs assignments keywords question answer target := by
  have hjumps : ∀ k guard, gs[k]? = some guard → (story.get? (path.onward k).name).map Node.body =
      some (.jump guard.inverted (some target) (some (.node (path.onward (k + 1)).name))) :=
    fun k guard hk => h.jumps hd
      (fun other hm => hg _ (List.mem_append_left _ (List.mem_map_of_mem hm))) hk
  refine ⟨?_, hjumps, walks_of_jumps hjumps, fun hne => ?_⟩
  · have hnext := hg (Build.nextEnd id) (List.mem_append_right _ (List.mem_singleton_self _))
    exact (ho.tied hnext rfl).body_eq hd
      (fun outlet => by cases outlet <;> simp [Body.setLink, Body.link?])
      (by simp [Body.setLink, Body.kind])
  · obtain ⟨last, hgone, hstr⟩ := hc hne
    exact hstr.performs hne hd hgone

/-- No option lives where another node was written. -/
theorem Holds.not_hasOption {before : Story} (h : story.Holds id name body)
    (hk : body.kind ≠ .option) (p : before.Persists story) : ¬ before.HasOption id := by
  intro ho
  obtain ⟨node, hs, hkind⟩ := ho.persists p
  obtain ⟨found, hf, -, hb⟩ := h
  obtain rfl := Slot.settled.inj (Option.some.inj (hs.symm.trans hf))
  rw [← kind_cleared, hb.same, kind_cleared] at hkind
  exact hk hkind

end Story

open Build Story Script

/-- An option behind well-formed clauses, in a script that was compiled. Its guards are passed in
order, the count of a starred option first: a walk from the first node comes to the option if all of
them hold, and otherwise goes from the first that fails to where the option itself leads. The first
entry of its answer does the assignments in order, the count of a starred option first, and returns;
without assignments there is no such entry, and the answer is that of the body alone. -/
theorem option_walks (pos : Position) (leader : Leader) {ts body : List Token}
    {clauses : List Clause} (ha : SpellsClauses ts clauses body) :
    let i : Item := .option pos leader (Clause.terms clauses) (segments body).value
    (Script.option pos leader ts).Gives [i] (segments body).rest ∧
      ∀ start tokens story, compile start tokens = .ok story →
        Item.Within i (Script.script tokens).value →
        ∃ front before front' mid draft target,
          item i front before = .ok front' mid ∧ before.Spared mid story ∧
          let guards := Clause.guards leader front.path clauses
          let assignments := Clause.assignments leader front.path clauses
          let path := (front.path.onward guards.length).firstChild.onward assignments.length
          (∃ earlier later, Build.body pos (segments body).value ⟨path, [], [], [], false⟩ earlier =
            .ok draft later) ∧
          story.Leads front.path guards assignments (Clause.terms clauses).keywords draft.question
            draft.answer target := by
  refine ⟨ha.option pos leader ⟨rfl, rfl⟩, fun start tokens story hc hi => ?_⟩
  obtain ⟨hd, front, before, front', mid, hrun, hspared, hends⟩ := compile_within hc hi
  obtain ⟨ids, id, draft, h⟩ := (option_offered pos leader _ _ front).of_ok hrun
  have hp := (item_persists _ front).of_ok hrun
  have hkeywords : ((Clause.terms clauses).ledBy leader front.path).keywords =
      (Clause.terms clauses).keywords := by cases leader <;> rfl
  have hguarded := h.guarded
  have hconsequences := h.consequences
  have hoption := h.option
  obtain ⟨earlier, later, -, hbody, -⟩ := h.body
  rw [Clause.guards_ledBy] at hguarded
  simp only [Terms.place, Terms.entry, Terms.behind, Clause.guards_ledBy, Clause.consequences_ledBy,
    hkeywords] at hconsequences hoption hbody
  -- No slot of the option was an option before, so all of them last.
  have hjump : ∀ other name condition branch next,
      mid.Holds other name (.jump condition branch next) → ¬ before.HasOption other :=
    fun other name condition branch next hh => hh.not_hasOption (by simp [Body.kind]) hp
  have hcontent : ∀ other name c link, mid.Holds other name (.content c link) →
      ¬ before.HasOption other :=
    fun other name c link hh =>
      hh.not_hasOption (by cases c <;> simp [Body.kind, Content.kind]) hp
  have hself : ¬ before.HasOption id := by
    rintro ⟨node, hs, -⟩
    exact absurd (Array.getElem?_eq_some_iff.mp hs).1 (Nat.not_lt_of_le h.fresh)
  have hrets : ∀ l ∈ ids.map (⟨·, .branch⟩) ++ [nextEnd id],
      ¬ before.HasOption l.node ∧ mid.Settled l := by
    intro l hl
    rcases List.mem_append.mp hl with hl | hl
    · obtain ⟨other, hm, rfl⟩ := List.mem_map.mp hl
      obtain ⟨name, condition, next, hh⟩ := hguarded.holds hm
      exact ⟨hjump _ _ _ _ _ hh, hh.settled .branch⟩
    · obtain rfl := List.mem_singleton.mp hl
      exact ⟨hself, hoption.settled .next⟩
  obtain ⟨target, hgone⟩ := hends (ids.map (⟨·, .branch⟩) ++ [nextEnd id])
    (by rw [h.onward]; exact List.Subset.refl _) fun l hl => (hrets l hl).1
  obtain ⟨noted, hr⟩ := hspared
  refine ⟨front, before, front', mid, draft, target, hrun, ⟨noted, hr⟩, ⟨earlier, later, hbody⟩, ?_⟩
  refine (hguarded.retained hr hjump).leads hd (hoption.retained hr hself) (fun hne => ?_)
    fun l hl => hgone l hl (hrets l hl).2
  obtain ⟨last, hlast, hstr⟩ := hconsequences hne
  obtain ⟨other, c, -, rfl, hh⟩ := hstr.last_holds (by simpa using hne)
  exact ⟨_, hlast.retained hr (hcontent _ _ _ _ hh), hstr.retained hr hcontent⟩

/-- An option that is offered once, behind a guard and an assignment that is a guard as well. -/
theorem option_walks_starred : ∃ story path target question answer,
    compile "start" [⟨.start, "", "*", ⟨1, 1⟩⟩, ⟨.mark, " ", "\x7b", ⟨1, 3⟩⟩, ⟨.word, "", "met", ⟨1, 4⟩⟩,
      ⟨.mark, "", "\x7d", ⟨1, 7⟩⟩, ⟨.mark, " ", "\x7b", ⟨1, 9⟩⟩, ⟨.symbol, "", "-", ⟨1, 10⟩⟩,
      ⟨.word, " ", "gold", ⟨1, 12⟩⟩, ⟨.mark, "", "\x7d", ⟨1, 16⟩⟩, ⟨.word, " ", "Pay", ⟨1, 18⟩⟩,
      .stop ⟨2, 1⟩, ⟨.word, "", "Wait", ⟨3, 1⟩⟩, .stop ⟨4, 1⟩] = .ok story ∧
    story.Leads path
      [.binary .eq (.var path.name) (.number 0), .var "met", .binary .ge (.var "gold") (.number 1)]
      [⟨.var path.name, .binary .add (.var path.name) (.number 1)⟩,
        ⟨.var "gold", .binary .sub (.var "gold") (.number 1)⟩] [] question answer target := by
  let t : Token := ⟨.start, "", "*", ⟨1, 1⟩⟩
  let body : List Token := [⟨.word, " ", "Pay", ⟨1, 18⟩⟩, .stop ⟨2, 1⟩, ⟨.word, "", "Wait", ⟨3, 1⟩⟩,
    .stop ⟨4, 1⟩]
  let ts : List Token := ⟨.mark, " ", "\x7b", ⟨1, 3⟩⟩ :: ⟨.word, "", "met", ⟨1, 4⟩⟩ ::
    ⟨.mark, "", "\x7d", ⟨1, 7⟩⟩ :: ⟨.mark, " ", "\x7b", ⟨1, 9⟩⟩ :: ⟨.symbol, "", "-", ⟨1, 10⟩⟩ ::
    ⟨.word, " ", "gold", ⟨1, 12⟩⟩ :: ⟨.mark, "", "\x7d", ⟨1, 16⟩⟩ :: body
  have hmet : SpellsExpression (ts.drop 1) (.var "met") (ts.drop 2) :=
    Spells.tier_of_operand (.operand (by decide)
      (.word (t := ⟨.word, "", "met", ⟨1, 4⟩⟩) rfl rfl rfl rfl)) (by decide)
  have hgold : SpellsVariable (ts.drop 5) (.var "gold") (ts.drop 6) :=
    ⟨.word (t := ⟨.word, " ", "gold", ⟨1, 12⟩⟩) rfl rfl rfl rfl, rfl⟩
  have hclauses : SpellsClauses ts [.guard (.var "met"), .change .sub (.var "gold") 1] body := by
    refine .guard rfl ?_ hmet rfl (.change rfl (.inr ⟨rfl, rfl⟩) (.one ?_) hgold rfl (.done rfl rfl))
    all_goals decide
  obtain ⟨hread, hwalks⟩ := option_walks t.pos .once hclauses
  have hparts : (segments body).rest = body.tail := by
    have hthread : (Script.thread body).Gives _ body.tail := (Writes.word rfl rfl (.close rfl)).reads
    obtain ⟨parts, hsegments⟩ : ∃ parts, (segments body).Gives parts body.tail := by
      rw [Script.segments]
      exact ⟨_, hthread.bind fun _ => .stay _ _⟩
    exact hsegments.2
  rw [hparts] at hread
  have hblock := option_block (t := t) rfl hread rfl
  have hthread := thread_gives (thread_start (t := t) rfl) hblock
    (Writes.word (t := ⟨.word, "", "Wait", ⟨3, 1⟩⟩) rfl rfl (.close rfl)).reads
  have hcompiled : (compile "start" (t :: ts)).toOption.isSome = true := by decide +kernel
  cases hc : compile "start" (t :: ts) with
  | error e =>
    rw [hc] at hcompiled
    cases hcompiled
  | ok story =>
    have hscript := (script_gives hthread rfl).1
    obtain ⟨front, -, -, -, draft, target, -, -, -, hleads⟩ :=
      hwalks "start" (t :: ts) story hc (hscript ▸ .here)
    exact ⟨story, front.path, target, draft.question, draft.answer, rfl, hleads⟩

end Storyline
