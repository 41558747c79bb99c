import Storyline.Proofs.Grammar.Threads
import Storyline.Script.Linking

namespace Storyline.Script

inductive Clause where
  | guard (condition : Expr)
  | change (op : BinaryOp) (target : Expr) (amount : Float)
  | put (target : Expr) (value : Float)
  | keyword (name : String)

namespace Clause

/-- What has to hold for the option to be offered. -/
def guard? : Clause → Option Expr
  | guard condition => some condition
  | change .sub target amount => some (.binary .ge target (.number amount))
  | _ => none

/-- What choosing the option does. -/
def assignment? : Clause → Option Assignment
  | change op target amount => some ⟨target, .binary op target (.number amount)⟩
  | put target value => some ⟨target, .number value⟩
  | _ => none

def keyword? : Clause → Option String
  | keyword name => some name
  | _ => none

/-- The terms that the clauses make. -/
def terms (clauses : List Clause) : Terms :=
  ⟨clauses.filterMap guard?, clauses.filterMap assignment?, clauses.filterMap keyword?⟩

/-- The guards of an option with these clauses, whose first node stands at the path. -/
def guards (leader : Leader) (path : Path) (clauses : List Clause) : List Expr :=
  match leader with
  | .once => .binary .eq (.var path.name) (.number 0) :: clauses.filterMap guard?
  | .repeated => clauses.filterMap guard?

/-- The assignments of an option with these clauses, whose first node stands at the path. -/
def assignments (leader : Leader) (path : Path) (clauses : List Clause) : List Assignment :=
  match leader with
  | .once =>
    ⟨.var path.name, .binary .add (.var path.name) (.number 1)⟩ ::
      clauses.filterMap assignment?
  | .repeated => clauses.filterMap assignment?

theorem guards_ledBy (leader : Leader) (path : Path) (clauses : List Clause) :
    ((terms clauses).ledBy leader path).guards = guards leader path clauses := by
  cases leader <;> rfl

theorem consequences_ledBy (leader : Leader) (path : Path) (clauses : List Clause) :
    ((terms clauses).ledBy leader path).consequences =
      assignments leader path clauses := by
  cases leader <;> rfl

end Clause

/-- The signs that make a brace an assignment. -/
def assignmentSigns : List String := ["+", "-", "!", "?"]

/-- The clauses that stand in front of `rest`, which starts with none. -/
inductive SpellsClauses : List Token → List Clause → List Token → Prop where
  | done {u us} : u.is "<" = false → u.is "\x7b" = false → SpellsClauses (u :: us) [] (u :: us)
  | guard {t b us v vs rest e clauses} : t.is "\x7b" = true →
      (∀ sign ∈ assignmentSigns, b.isOp sign = false) → SpellsExpression (b :: us) e (v :: vs) →
      v.is "\x7d" = true → SpellsClauses vs clauses rest →
      SpellsClauses (t :: b :: us) (.guard e :: clauses) rest
  | asked {t b us v w ws rest e clauses} : t.is "\x7b" = true →
      (∀ sign ∈ assignmentSigns, b.isOp sign = false) →
      SpellsExpression (b :: us) e (v :: w :: ws) → v.isOp "?" = true → w.is "\x7d" = true →
      SpellsClauses ws clauses rest →
      SpellsClauses (t :: b :: us) (.guard e :: clauses) rest
  | change {t b us vs w ws rest op n target clauses} : t.is "\x7b" = true →
      (b.isOp "+" = true ∧ op = .add ∨ b.isOp "-" = true ∧ op = .sub) → SpellsAmount us n vs →
      SpellsVariable vs target (w :: ws) → w.is "\x7d" = true →
      SpellsClauses ws clauses rest →
      SpellsClauses (t :: b :: us) (.change op target n :: clauses) rest
  | put {t b us w ws rest x target clauses} : t.is "\x7b" = true →
      (b.isOp "!" = true ∧ x = 1 ∨ b.isOp "?" = true ∧ x = 0) →
      SpellsVariable us target (w :: ws) → w.is "\x7d" = true →
      SpellsClauses ws clauses rest →
      SpellsClauses (t :: b :: us) (.put target x :: clauses) rest
  | keyword {t run v vs rest clauses} : t.is "<" = true → (∀ u ∈ run, IsCueWord u) →
      v.is ">" = true → joined "" run ≠ "" → SpellsClauses vs clauses rest →
      SpellsClauses (t :: run ++ v :: vs) (.keyword (joined "" run) :: clauses) rest

variable {b t v w : Token} {ts us vs ws rest : List Token}

theorem braceForm_other (h : ∀ sign ∈ assignmentSigns, b.isOp sign = false) :
    braceForm b = .other := by
  have hplus := h "+" (by simp [assignmentSigns])
  have hminus := h "-" (by simp [assignmentSigns])
  have hset := h "!" (by simp [assignmentSigns])
  have hclear := h "?" (by simp [assignmentSigns])
  unfold braceForm
  simp [hplus, hminus, hset, hclear]

theorem braceForm_change {op : BinaryOp}
    (h : b.isOp "+" = true ∧ op = .add ∨ b.isOp "-" = true ∧ op = .sub) :
    braceForm b = .change op := by
  rcases h with ⟨hb, rfl⟩ | ⟨hb, rfl⟩
  · unfold braceForm
    rw [if_pos hb]
  · have htext := (isOp_iff.mp hb).2
    have hplus : b.isOp "+" = false := isOp_eq_false (by rw [htext]; decide)
    unfold braceForm
    rw [if_neg (by simp [hplus]), if_pos hb]

theorem braceForm_put {x : Float}
    (h : b.isOp "!" = true ∧ x = 1 ∨ b.isOp "?" = true ∧ x = 0) : braceForm b = .put x := by
  have other {sign : String} (hb : b.isOp sign = true) {text : String} (hne : sign ≠ text) :
      ¬ b.isOp text = true := by
    have htext := (isOp_iff.mp hb).2
    rw [isOp_eq_false (by rw [htext]; exact hne)]
    exact Bool.false_ne_true
  unfold braceForm
  rcases h with ⟨hb, rfl⟩ | ⟨hb, rfl⟩
  · rw [if_neg (other hb (by decide)), if_neg (other hb (by decide)), if_pos hb]
  · rw [if_neg (other hb (by decide)), if_neg (other hb (by decide)), if_neg (other hb (by decide)),
      if_pos hb]

theorem closeTerm_gives (found : Terms) (hw : w.is "\x7d" = true) :
    (closeTerm (some found) (w :: ws)).Gives found ws :=
  (Read.Gives.expect hw).map _

theorem guardTerm_gives {e : Expr} (he : SpellsExpression ts e (v :: vs))
    (hv : v.is "\x7d" = true) : (guardTerm ts).Gives ⟨[e], [], []⟩ vs := by
  refine he.gives.andThen fun _ => ?_
  have hq : v.isOp "?" = false := by
    simp only [Token.is, Bool.and_eq_true, beq_iff_eq] at hv
    exact isOp_eq_false (by rw [hv.2]; decide)
  simp only [hq, Bool.false_eq_true, if_false]
  exact closeTerm_gives _ hv

theorem guardTerm_asked {e : Expr} (he : SpellsExpression ts e (v :: w :: ws))
    (hv : v.isOp "?" = true) (hw : w.is "\x7d" = true) :
    (guardTerm ts).Gives ⟨[e], [], []⟩ ws := by
  refine he.gives.andThen fun _ => ?_
  simp only [hv, if_true]
  exact (closeTerm_gives _ hw).past

theorem changeTerm_gives {op : BinaryOp} {n : Float} {target : Expr}
    (hb : b.isOp "+" = true ∧ op = .add ∨ b.isOp "-" = true ∧ op = .sub)
    (hn : SpellsAmount us n vs) (ht : SpellsVariable vs target (w :: ws))
    (hw : w.is "\x7d" = true) : (braceTerm (b :: us)).Gives (changeTerms op target n) ws := by
  have hm : (mutation us).Gives (some (target, n)) (w :: ws) :=
    hn.gives.andThen fun _ => ht.assignable.map _
  rw [braceTerm, braceForm_change hb]
  exact (hm.andThen fun _ => closeTerm_gives _ hw).past

theorem putTerm_gives {x : Float} {target : Expr}
    (hb : b.isOp "!" = true ∧ x = 1 ∨ b.isOp "?" = true ∧ x = 0)
    (ht : SpellsVariable us target (w :: ws)) (hw : w.is "\x7d" = true) :
    (braceTerm (b :: us)).Gives (putTerms target x) ws := by
  rw [braceTerm, braceForm_put hb]
  exact (ht.assignable.andThen fun _ => closeTerm_gives _ hw).past

theorem keywordTerm_gives {run : List Token} (hr : ∀ u ∈ run, IsCueWord u)
    (hv : v.is ">" = true) (hne : joined "" run ≠ "") :
    (keywordTerm (run ++ v :: vs)).Gives ⟨[], [], [joined "" run]⟩ vs := by
  refine (words_gives "" hr hv).andThen fun _ => ?_
  rw [if_neg hne]
  exact .stay _ _

/-- A term in braces in front of others. -/
theorem terms_brace {first more : Terms} (ht : t.is "\x7b" = true)
    (hf : (braceTerm us).Gives first vs) (hm : (terms vs).Gives more rest) :
    (terms (t :: us)).Gives (first ++ more) rest := by
  have hcue : t.is "<" = false := is_eq_false ht (by decide)
  rw [terms, if_neg (by simp [hcue]), if_pos ht]
  exact (hf.andThen fun _ => hm.map _).past

theorem changeTerms_append {op : BinaryOp} {n : Float} {target : Expr}
    (hop : op = .add ∨ op = .sub) (clauses : List Clause) :
    changeTerms op target n ++ Clause.terms clauses =
      Clause.terms (.change op target n :: clauses) := by
  rcases hop with rfl | rfl <;> rfl

/-- Clauses are read without a mistake, each kind in the order it is written in. -/
theorem SpellsClauses.gives {clauses : List Clause}
    (h : SpellsClauses ts clauses rest) :
    (terms ts).Gives (Clause.terms clauses) rest := by
  induction h with
  | @done u us hc hb =>
    rw [terms, if_neg (by simp [hc]), if_neg (by simp [hb])]
    exact .stay _ _
  | @guard t b us v vs rest e clauses ht hb he hv _ ih =>
    have hterm : (braceTerm (b :: us)).Gives ⟨[e], [], []⟩ vs := by
      rw [braceTerm, braceForm_other hb]
      exact guardTerm_gives he hv
    exact terms_brace ht hterm ih
  | @asked t b us v w ws rest e clauses ht hb he hv hw _ ih =>
    have hterm : (braceTerm (b :: us)).Gives ⟨[e], [], []⟩ ws := by
      rw [braceTerm, braceForm_other hb]
      exact guardTerm_asked he hv hw
    exact terms_brace ht hterm ih
  | @change t b us vs w ws rest op n target clauses ht hb hn hx hw _ ih =>
    have hop : op = .add ∨ op = .sub := hb.imp And.right And.right
    have hall := terms_brace ht (changeTerm_gives hb hn hx hw) ih
    rwa [changeTerms_append hop] at hall
  | @put t b us w ws rest x target clauses ht hb hx hw _ ih =>
    exact terms_brace ht (putTerm_gives hb hx hw) ih
  | @keyword t run v vs rest clauses ht hr hv hne _ ih =>
    rw [List.cons_append, terms, if_pos ht]
    exact ((keywordTerm_gives hr hv hne).andThen fun _ => ih.map _).past

/-- An option is read as its clauses and the parts of its body. -/
theorem SpellsClauses.option {clauses : List Clause} {body : List Token} {parts : List Segment}
    (h : SpellsClauses ts clauses body) (pos : Position) (leader : Leader)
    (hp : (segments body).Gives parts rest) :
    (option pos leader ts).Gives [.option pos leader (Clause.terms clauses) parts] rest := by
  rw [Script.option]
  exact h.gives.items fun _ => hp.map _

/-- The bullet of an option. -/
def opens (leader : Leader) : String :=
  match leader with
  | .repeated => "+"
  | .once => "*"

/-- The block of an option ends where the option does. -/
theorem option_block {leader : Leader} {u : Token} {found : List Item} (ht : t.text = opens leader)
    (h : (Script.option t.pos leader us).Gives found (u :: vs)) (hu : u.kind = .stop) :
    (block t us).Gives found vs := by
  have hblock : (block t us).Gives (found ++ []) vs := by
    rw [block]
    cases leader <;> simp only [ht, opens] <;> exact h.andThen fun _ => endBlock_gives hu
  rwa [List.append_nil] at hblock

end Storyline.Script
