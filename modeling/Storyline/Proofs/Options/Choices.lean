import Storyline.Proofs.Options.Brackets
import Storyline.Proofs.Options.Walking

namespace Storyline

/-- An option `[question] answer` behind clauses, and the positions of its texts. -/
structure Choice where
  pos : Position
  leader : Leader
  clauses : List Script.Clause
  asked : Position
  question : Content
  answered : Position
  answer : Content

namespace Choice

open Script

def guards (c : Choice) (path : Path) : List Expr := Clause.guards c.leader path c.clauses

def assignments (c : Choice) (path : Path) : List Assignment :=
  Clause.assignments c.leader path c.clauses

def keywords (c : Choice) : List String := (Clause.terms c.clauses).keywords

/-- Where the option stands if its first node stands at the path. -/
def place (c : Choice) (path : Path) : Path := path.onward (c.guards path).length

/-- Where its question stands; its answer stands next to it. -/
def asking (c : Choice) (path : Path) : Path :=
  (c.place path).firstChild.onward (c.assignments path).length

/-- Where whatever follows it stands. -/
def behind (c : Choice) (path : Path) : Path := (c.place path).next

/-- Where whatever follows all of the choices stands. -/
def last : List Choice → Path → Path
  | [], path => path
  | c :: rest, path => last rest (c.behind path)

/-- The names of the answers. -/
def answers : List Choice → Path → List String
  | [], _ => []
  | c :: rest, path => (c.asking path).next.name :: answers rest (c.behind path)

/-- The guards that a walk past the choices meets, and the options it comes to. -/
def visits (v : Valuation) : List Choice → Path → List String
  | [], _ => []
  | c :: rest, path =>
    v.tried (c.guards path) path ++ (if (c.guards path).all v.holds then [(c.place path).name] else [])
      ++ visits v rest (c.behind path)

/-- What the parts of the option belong to and what they hold. -/
def outlines (c : Choice) : List (Role × List Item) :=
  [(.answer, []), (.question, [.content c.asked c.question]),
    (.answer, [.content c.answered c.answer])]

/-- The choice is read as this item. -/
def IsRead (c : Choice) (i : Item) : Prop :=
  ∃ parts, i = .option c.pos c.leader (Clause.terms c.clauses) parts ∧
    parts.map Segment.outline = c.outlines

end Choice

namespace Script

/-- Choices in a row, with blank lines between them. -/
inductive SpellsChoices : List Token → List Choice → List Token → Prop where
  | done {ts} : SpellsChoices ts [] ts
  | blank {t us choices rest} : t.sign = .blank → SpellsChoices us choices rest →
      SpellsChoices (t :: us) choices rest
  | choice {t us o q d a u vs c choices rest} : t.sign = .start → t.text = opens c.leader →
      t.pos = c.pos → SpellsClauses us c.clauses (o :: (q ++ d :: (a ++ u :: vs))) →
      o.is "[" = true → IsRun q → runItems q d = [.content c.asked c.question] →
      d.is "]" = true → IsRun a → runItems a u = [.content c.answered c.answer] →
      u.kind = .stop → SpellsChoices vs choices rest →
      SpellsChoices (t :: us) (c :: choices) rest

variable {t u : Token} {ts vs run rest : List Token} {more : List Item}

theorem endsBody_of_stop (hu : u.kind = .stop) : EndsBody u := by
  refine ⟨by simp [Token.sign, hu], ?_, ?_⟩
  · exact is_eq_false_of_kind (by simp [hu])
  · exact is_eq_false_of_kind (by simp [hu])

/-- A text that is not empty in front of other items. -/
theorem text_gives (hr : IsRun run) (hne : run ≠ []) (hu : u.isText = false)
    (h : (thread (u :: vs)).Gives more rest) :
    (thread (run ++ u :: vs)).Gives (runItems run u ++ more) rest := by
  cases run with
  | nil => exact absurd rfl hne
  | cons t run =>
    have hs : t.sign = .text := by
      have ht := hr t List.mem_cons_self
      unfold Token.isText at ht
      split at ht
      · next h => exact h
      · cases ht
    have hrest : ∀ w ∈ run, w.isText = true := fun w hw => hr w (List.mem_cons_of_mem t hw)
    rw [List.cons_append]
    refine thread_gives ?_ (textRun_gives hrest hu) h
    rw [Script.thread, hs]

/-- An empty prompt in front of other items. -/
theorem prompt_gives (ht : t.sign = .start) (hb : t.text = ">") (hu : u.kind = .stop)
    (h : (thread vs).Gives more rest) : (thread (t :: u :: vs)).Gives (.ask t.pos :: more) rest := by
  have hclose : (thread (u :: vs)).Gives [] (u :: vs) := thread_run vs isRun_nil
    (endsBody_of_stop hu).closes
  have hblock : (block t (u :: vs)).Gives ([.ask t.pos] ++ []) vs := by
    rw [block]
    simp only [hb]
    exact (hclose.after [.ask t.pos]).andThen fun _ => endBlock_gives hu
  exact thread_gives (thread_start ht) hblock h

/-- Choices are read without a mistake, each as one option. -/
theorem SpellsChoices.gives {choices : List Choice} (h : SpellsChoices ts choices rest) :
    ∃ items, List.Forall₂ Choice.IsRead choices items ∧
      ∀ more last, (thread rest).Gives more last → (thread ts).Gives (items ++ more) last := by
  induction h with
  | done => exact ⟨[], .nil, fun _ _ h => h⟩
  | @blank t us choices rest ht _ ih =>
    obtain ⟨items, hitems, hread⟩ := ih
    refine ⟨items, hitems, fun more last h => ?_⟩
    rw [thread, ht]
    exact Span.Gives.past (hread more last h)
  | @choice t us o q d a u vs c choices rest ht hb hpos hclauses ho hq hquestion hd ha hanswer hu _ ih =>
    obtain ⟨items, hitems, hread⟩ := ih
    have hforward : IsForward (o :: (q ++ d :: (a ++ u :: vs)))
        [⟨.answer, [], o⟩, ⟨.question, q, d⟩] a u vs :=
      ⟨⟨[], o, q ++ [d], _, isRun_nil, ho, .question hq hd, by simp, rfl⟩, ha, endsBody_of_stop hu⟩
    obtain ⟨parts, hparts, houtline⟩ := hforward.gives
    have hblock := option_block hb (hclauses.option t.pos c.leader hparts) hu
    rw [hpos] at hblock
    have houtlines : parts.map Segment.outline = c.outlines := by
      rw [houtline, Choice.outlines, ← hquestion, ← hanswer]
      rfl
    refine ⟨_ :: items, .cons ⟨parts, rfl, houtlines⟩ hitems, fun more last h => ?_⟩
    have hall := thread_gives (thread_start ht) hblock (hread more last h)
    exact hall

end Script

namespace Story

variable {story : Story} {v : Valuation} {goal target : Target} {names : List String} {name : String}
  {choices : List Choice} {path : Path}

/-- The choice stands with its first node at the path, leads past itself, and its answer goes on at
`goal`. -/
structure Offer (story : Story) (c : Choice) (path : Path) (goal : Target) : Prop where
  leads : story.Leads path (c.guards path) (c.assignments path) c.keywords [(c.asking path).name]
    [(c.asking path).next.name] (.node (c.behind path).name)
  asked : (story.get? (c.asking path).name).map Node.body = some (.content c.question (some .ret))
  answered : (story.get? (c.asking path).next.name).map Node.body =
    some (.content c.answer (some goal))

def Offers (story : Story) : List Choice → Path → Target → Prop
  | [], _, _ => True
  | c :: rest, path, goal => story.Offer c path goal ∧ story.Offers rest (c.behind path) goal

/-- Past the choices there is one way, whatever is chosen of their guards. -/
theorem Offers.walks (h : story.Offers choices path goal) (v : Valuation) :
    story.Walks v (.node path.name) (Choice.visits v choices path)
      (.node (Choice.last choices path).name) := by
  induction choices generalizing path with
  | nil => exact .here
  | cons c rest ih =>
    obtain ⟨hfirst, hrest⟩ := h
    refine Walks.trans ?_ (ih hrest)
    have hguards := hfirst.leads.walks v
    cases hv : (c.guards path).all v.holds with
    | false =>
      simp only [hv, Bool.false_eq_true, if_false, List.append_nil] at hguards ⊢
      exact hguards
    | true =>
      simp only [hv, if_true] at hguards ⊢
      exact hguards.trans (.option hfirst.leads.option .here)

/-- A walk goes on from every node it passes. -/
theorem Walks.ne_ask (h : story.Walks v target names goal) (hm : name ∈ names) :
    (story.get? name).map Node.body ≠ some .ask := by
  induction h with
  | here => cases hm
  | jump hb _ ih =>
    rcases List.mem_cons.mp hm with rfl | hm
    · rw [hb]
      simp
    · exact ih hm
  | option hb _ ih =>
    rcases List.mem_cons.mp hm with rfl | hm
    · rw [hb]
      simp
    · exact ih hm

end Story

end Storyline
