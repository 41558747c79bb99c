import Storyline.Proofs.Grammar.Inversion
import Storyline.Script.Terms

namespace Storyline

/-- Every spliced name in the expression has a splice, and one part more than splices. -/
inductive Expr.WellSpliced : Expr → Prop where
  | number (x : Float) : WellSpliced (.number x)
  | var (name : String) : WellSpliced (.var name)
  | spliced {parts : List String} {splices : List Expr} (some : splices ≠ [])
      (around : parts.length = splices.length + 1) (inside : ∀ e ∈ splices, WellSpliced e) :
      WellSpliced (.spliced parts splices)
  | call {callee : String} {args : List Expr} (inside : ∀ e ∈ args, WellSpliced e) :
      WellSpliced (.call callee args)
  | unary {op : UnaryOp} {operand : Expr} (inside : WellSpliced operand) :
      WellSpliced (.unary op operand)
  | binary {op : BinaryOp} {left right : Expr} (before : WellSpliced left)
      (behind : WellSpliced right) : WellSpliced (.binary op left right)

theorem Expr.WellSpliced.inverted {e : Expr} (h : e.WellSpliced) : e.inverted.WellSpliced := by
  unfold Expr.inverted
  cases h with
  | binary before behind =>
    dsimp only
    split
    · exact .binary before behind
    · exact .unary (.binary before behind)
  | number x => exact .unary (.number x)
  | var name => exact .unary (.var name)
  | spliced some around inside => exact .unary (.spliced some around inside)
  | call inside => exact .unary (.call inside)
  | unary inside => exact .unary (.unary inside)

/-- Something that can be assigned to. -/
def Expr.IsTarget (e : Expr) : Prop := e.isVariable = true ∧ e.WellSpliced

structure Assignment.IsValid (a : Assignment) : Prop where
  target : a.target.IsTarget
  source : a.source.WellSpliced

structure Terms.IsValid (terms : Terms) : Prop where
  guards : ∀ e ∈ terms.guards, e.WellSpliced
  consequences : ∀ a ∈ terms.consequences, a.IsValid

theorem Terms.isValid_none : Terms.none.IsValid := ⟨List.forall_mem_nil _, List.forall_mem_nil _⟩

theorem Terms.IsValid.append {a b : Terms} (ha : a.IsValid) (hb : b.IsValid) :
    (a ++ b).IsValid where
  guards := List.forall_mem_append.mpr ⟨ha.guards, hb.guards⟩
  consequences := List.forall_mem_append.mpr ⟨ha.consequences, hb.consequences⟩

variable {α β : Type} {t : Token} {ts : List Token}

/-- If the rule reads a value, it satisfies `Q`. -/
def Read.Finds (Q : α → Prop) (r : Read α ts) : Prop := ∀ s, r = some s → Q s.value

namespace Read.Finds

variable {Q : α → Prop} {R : β → Prop}

theorem none : Read.Finds Q (none : Read α ts) := by
  intro s h
  cases h

theorem stay {a : α} (h : Q a) : (Read.stay a ts).Finds Q := by
  intro s hs
  obtain rfl := Option.some.inj hs
  exact h

theorem miss {d : Diagnostic} {a : α} (h : Q a) : (Read.miss d a ts).Finds Q := by
  intro s hs
  obtain rfl := Option.some.inj hs
  exact h

theorem past {r : Read α ts} (h : r.Finds Q) : Read.Finds Q (r.past : Read α (t :: ts)) := by
  intro s hs
  obtain ⟨inner, hr, rfl⟩ := Read.past_eq_some hs
  exact h inner hr

theorem map {r : Read α ts} {f : α → β} (h : r.Finds Q) (hf : ∀ a, Q a → R (f a)) :
    (r.map f).Finds R := by
  intro s hs
  obtain ⟨inner, hr, rfl⟩ := Read.map_eq_some hs
  exact hf inner.value (h inner hr)

theorem andThen {r : Read α ts}
    {k : (a : α) → (us : List Token) → us.length ≤ ts.length → Read β us} (h : r.Finds Q)
    (hk : ∀ a us hus, Q a → (k a us hus).Finds R) : (r.andThen k).Finds R := by
  intro s hs
  obtain ⟨first, hr, second, hsecond, rfl⟩ := Read.andThen_eq_some hs
  exact hk first.value first.rest first.suffix.length_le (h first hr) second hsecond

/-- Nothing is asked of the value. -/
theorem any (r : Read α ts) : r.Finds fun _ => True := fun _ _ => trivial

end Read.Finds

namespace Script

/-- The splices of the pieces are in order. -/
def Pieces.WellSpliced (p : Pieces) : Prop := ∀ s ∈ p.splices, s.1.WellSpliced

theorem Pieces.WellSpliced.spliced {p : Pieces} (h : p.WellSpliced) (hs : p.splices ≠ []) :
    p.spliced.WellSpliced := by
  refine .spliced ?_ ?_ ?_
  · simpa using hs
  · simp
  · intro e he
    obtain ⟨s, hs, rfl⟩ := List.mem_map.mp he
    exact h s hs

theorem Pieces.WellSpliced.afterSplice {p : Pieces} {e : Expr} (h : p.WellSpliced)
    (he : e.WellSpliced) : (p.afterSplice e).WellSpliced :=
  List.forall_mem_cons.mpr ⟨he, h⟩

mutual

theorem climb_spliced (tiers : List (List BinaryOp)) (ts : List Token) :
    (climb tiers ts).Finds Expr.WellSpliced := by
  cases tiers with
  | nil =>
    rw [climb]
    exact operand_spliced ts
  | cons ops tighter =>
    rw [climb]
    exact (climb_spliced tighter ts).andThen fun left us _ hleft =>
      climbOn_spliced ops tighter hleft us
termination_by 16 * ts.length + tiers.length + 3

theorem climbOn_spliced (ops : List BinaryOp) (tighter : List (List BinaryOp)) {left : Expr}
    (hleft : left.WellSpliced) (ts : List Token) :
    (climbOn ops tighter left ts).Finds Expr.WellSpliced := by
  cases ts with
  | nil =>
    rw [climbOn]
    exact .none
  | cons t us =>
    rw [climbOn]
    split
    · exact .stay hleft
    · exact .past <| (climb_spliced tighter us).andThen fun right vs _ hright =>
        climbOn_spliced ops tighter (.binary hleft hright) vs
termination_by 16 * ts.length + tighter.length + 3

theorem operand_spliced (ts : List Token) : (operand ts).Finds Expr.WellSpliced := by
  cases ts with
  | nil =>
    rw [operand]
    exact .none
  | cons t us =>
    rw [operand]
    split
    · exact .past <| (operand_spliced us).map fun _ h => .unary h
    · exact primary_spliced t us
termination_by 16 * ts.length + 2

theorem primary_spliced (t : Token) (ts : List Token) :
    (primary t ts).Finds Expr.WellSpliced := by
  rw [primary]
  split
  · exact .past <| (Read.Finds.any _).map fun x _ => .number x
  split
  · exact .past <| (climb_spliced expressionTiers ts).andThen fun e us _ he =>
      (Read.Finds.any _).map fun _ _ => he
  split
  · exact .past (reference_spliced t ts)
  · -- where a value is missing a number stands in
    exact .miss (.number 0)
termination_by 16 * ts.length + 17
decreasing_by all_goals grind [length_expressionTiers]

theorem reference_spliced (t : Token) (ts : List Token) :
    (reference t ts).Finds Expr.WellSpliced := by
  rw [reference]
  refine (firstPiece_spliced t ts).andThen fun p us _ hp => ?_
  split
  · next hs => exact .stay (hp.spliced hs)
  split
  · exact .none
  · next u vs _ =>
    split
    · exact .past <| (arguments_spliced vs).map fun _ hargs => .call hargs
    · exact .stay (.var p.head)
termination_by 16 * ts.length + 16
decreasing_by all_goals grind

theorem firstPiece_spliced (t : Token) (ts : List Token) :
    (firstPiece t ts).Finds Pieces.WellSpliced := by
  rw [firstPiece]
  split
  · refine (climb_spliced expressionTiers ts).andThen fun e us _ he => ?_
    refine (Read.Finds.any _).andThen fun _ vs _ _ => ?_
    exact (pieces_spliced vs).map fun _ hp => hp.afterSplice he
  · exact (pieces_spliced ts).map fun _ hp => hp
termination_by 16 * ts.length + 12
decreasing_by all_goals grind [length_expressionTiers]

theorem pieces_spliced (ts : List Token) : (pieces ts).Finds Pieces.WellSpliced := by
  cases ts with
  | nil =>
    rw [pieces]
    exact .none
  | cons t us =>
    rw [pieces]
    split
    · exact .past (firstPiece_spliced t us)
    · exact .stay (List.forall_mem_nil _)
termination_by 16 * ts.length + 1

theorem arguments_spliced (ts : List Token) :
    (arguments ts).Finds fun args => ∀ e ∈ args, e.WellSpliced := by
  cases ts with
  | nil =>
    rw [arguments]
    exact .none
  | cons t us =>
    rw [arguments]
    split
    · exact .past (.stay (List.forall_mem_nil _))
    · exact argumentsOn_spliced (t :: us)
termination_by 16 * ts.length + 11

theorem argumentsOn_spliced (ts : List Token) :
    (argumentsOn ts).Finds fun args => ∀ e ∈ args, e.WellSpliced := by
  rw [argumentsOn]
  refine (climb_spliced expressionTiers ts).andThen fun e us _ he => ?_
  split
  · exact .none
  · next u vs _ =>
    split
    · exact .past <| (argumentsOn_spliced vs).map fun _ hargs =>
        List.forall_mem_cons.mpr ⟨he, hargs⟩
    · exact (Read.Finds.any _).map fun _ _ => List.forall_mem_singleton.mpr he
termination_by 16 * ts.length + 10
decreasing_by all_goals grind [length_expressionTiers]

end

theorem expression_spliced (ts : List Token) : (expression ts).Finds Expr.WellSpliced :=
  climb_spliced expressionTiers ts

theorem selector_spliced (ts : List Token) : (selector ts).Finds Expr.WellSpliced :=
  climb_spliced selectorTiers ts

theorem assignedTo_target (t : Token) (ts : List Token) :
    (assignedTo t ts).Finds fun found => ∀ e ∈ found, e.IsTarget := by
  refine (reference_spliced t ts).andThen fun target us _ htarget => ?_
  split
  · next hv =>
    refine .stay fun e he => ?_
    obtain rfl := Option.some.inj he
    exact ⟨hv, htarget⟩
  · exact .miss fun e he => by cases he

theorem assignable_target (ts : List Token) :
    (assignable ts).Finds fun found => ∀ e ∈ found, e.IsTarget := by
  cases ts with
  | nil => exact .none
  | cons t us =>
    unfold assignable
    dsimp only
    split
    · exact .past (assignedTo_target t us)
    · exact .miss fun e he => by cases he

theorem mutation_target (ts : List Token) :
    (mutation ts).Finds fun found => ∀ p ∈ found, p.1.IsTarget := by
  refine (Read.Finds.any (amount ts)).andThen fun n us _ _ => ?_
  refine (assignable_target us).map fun found hfound p hp => ?_
  obtain ⟨e, he, rfl⟩ := Option.map_eq_some_iff.mp hp
  exact hfound e he

/-- A variable set to a number, or changed by one. -/
theorem isValid_put {target : Expr} (h : target.IsTarget) (x : Float) :
    Assignment.IsValid ⟨target, .number x⟩ :=
  ⟨h, .number x⟩

theorem isValid_change {target source : Expr} (h : target.IsTarget) (op : BinaryOp)
    (hs : source.WellSpliced) : Assignment.IsValid ⟨target, .binary op target source⟩ :=
  ⟨h, .binary h.2 hs⟩

theorem isValid_changeTerms {target : Expr} (h : target.IsTarget) (op : BinaryOp) (n : Float) :
    (changeTerms op target n).IsValid where
  guards := by
    unfold changeTerms
    dsimp only
    split
    · exact List.forall_mem_singleton.mpr (.binary h.2 (.number n))
    · exact List.forall_mem_nil _
  consequences := List.forall_mem_singleton.mpr (isValid_change h op (.number n))

theorem closeTerm_valid {found : Option Terms} (h : ∀ terms ∈ found, terms.IsValid)
    (ts : List Token) : (closeTerm found ts).Finds Terms.IsValid := by
  cases found with
  | none => exact (Read.Finds.any _).map fun _ _ => Terms.isValid_none
  | some terms => exact (Read.Finds.any _).map fun _ _ => h terms rfl

theorem guardTerm_valid (ts : List Token) : (guardTerm ts).Finds Terms.IsValid := by
  refine (expression_spliced ts).andThen fun guard us _ hguard => ?_
  have hterms : ∀ terms ∈ some (Terms.mk [guard] [] []), terms.IsValid := by
    intro terms he
    obtain rfl := Option.some.inj he
    exact ⟨List.forall_mem_singleton.mpr hguard, List.forall_mem_nil _⟩
  split
  · exact .none
  · next u vs _ =>
    split
    · exact .past (closeTerm_valid hterms vs)
    · exact closeTerm_valid hterms (u :: vs)

theorem braceTerm_valid (ts : List Token) : (braceTerm ts).Finds Terms.IsValid := by
  cases ts with
  | nil => exact .none
  | cons t us =>
    unfold braceTerm
    dsimp only
    split
    · next op _ =>
      refine .past <| (mutation_target us).andThen fun found vs _ hfound => ?_
      refine closeTerm_valid (fun terms he => ?_) vs
      obtain ⟨⟨target, n⟩, hp, rfl⟩ := Option.map_eq_some_iff.mp he
      exact isValid_changeTerms (hfound _ hp) op n
    · next value _ =>
      refine .past <| (assignable_target us).andThen fun found vs _ hfound => ?_
      refine closeTerm_valid (fun terms he => ?_) vs
      obtain ⟨target, ht, rfl⟩ := Option.map_eq_some_iff.mp he
      have hput := isValid_put (hfound target ht) value
      exact ⟨List.forall_mem_nil _, List.forall_mem_singleton.mpr hput⟩
    · exact guardTerm_valid (t :: us)

theorem keywordTerm_valid (ts : List Token) : (keywordTerm ts).Finds Terms.IsValid := by
  refine (Read.Finds.any _).andThen fun keyword us _ _ => ?_
  split
  · exact .miss Terms.isValid_none
  · exact .stay ⟨List.forall_mem_nil _, List.forall_mem_nil _⟩

theorem terms_valid (ts : List Token) : (terms ts).Finds Terms.IsValid := by
  cases ts with
  | nil =>
    rw [terms]
    exact .none
  | cons t us =>
    rw [terms]
    split
    · exact .past <| (keywordTerm_valid us).andThen fun first vs _ hfirst =>
        (terms_valid vs).map fun _ hrest => hfirst.append hrest
    split
    · exact .past <| (braceTerm_valid us).andThen fun first vs _ hfirst =>
        (terms_valid vs).map fun _ hrest => hfirst.append hrest
    · exact .stay Terms.isValid_none
termination_by ts.length
decreasing_by all_goals grind

end Script

end Storyline
