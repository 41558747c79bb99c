import Storyline.Proofs.Grammar.Inversion
import Storyline.Script.Flat

namespace Storyline

/-- Noticed where the script is read; the others are noticed where it is linked. -/
def Mistake.IsRead : Mistake → Prop
  | numericLabel _ => False
  | definedTwice _ => False
  | noLabel _ => False
  | _ => True

/-- Mistakes noticed between the tokens `ts` and the tokens `rest` behind them. -/
inductive Along : List Diagnostic → List Token → List Token → Prop where
  | stay (ts : List Token) : Along [] ts ts
  | step {ds t ts rest} : Along ds ts rest → Along ds (t :: ts) rest
  | note {d ds ts rest} : d.pos = here ts → d.mistake.IsRead → Along ds ts rest →
      Along (d :: ds) ts rest

variable {α β : Type} {t : Token} {ts us rest : List Token} {a b : List Diagnostic}

theorem Along.append (h : Along a ts us) (h' : Along b us rest) : Along (a ++ b) ts rest := by
  induction h with
  | stay ts => exact h'
  | step _ ih => exact .step (ih h')
  | note hp hm _ ih => exact .note hp hm (ih h')

theorem Along.isRead (h : Along a ts rest) : ∀ d ∈ a, d.mistake.IsRead := by
  induction h with
  | stay ts =>
    intro d hd
    cases hd
  | step _ ih => exact ih
  | note _ hm _ ih =>
    intro d hd
    rcases List.mem_cons.mp hd with rfl | hd
    · exact hm
    · exact ih d hd

/-- The mistakes of a reading lie along the tokens it used. -/
def Read.Tells (r : Read α ts) : Prop := ∀ s, r = some s → Along s.reports ts s.rest

namespace Read.Tells

theorem none : Read.Tells (none : Read α ts) := by
  intro s h
  cases h

theorem stay (a : α) (ts : List Token) : (Read.stay a ts).Tells := by
  intro s h
  obtain rfl := Option.some.inj h
  exact .stay ts

theorem miss {d : Diagnostic} (a : α) (hp : d.pos = here ts) (hm : d.mistake.IsRead) :
    (Read.miss d a ts).Tells := by
  intro s h
  obtain rfl := Option.some.inj h
  exact .note hp hm (.stay ts)

theorem past {r : Read α ts} (h : r.Tells) : Read.Tells (r.past : Read α (t :: ts)) := by
  intro s hs
  obtain ⟨inner, hr, rfl⟩ := Read.past_eq_some hs
  exact .step (h inner hr)

theorem map {r : Read α ts} (f : α → β) (h : r.Tells) : (r.map f).Tells := by
  intro s hs
  obtain ⟨inner, hr, rfl⟩ := Read.map_eq_some hs
  exact h inner hr

theorem andThen {r : Read α ts} {k : (a : α) → (us : List Token) → us.length ≤ ts.length → Read β us}
    (h : r.Tells) (hk : ∀ a us hus, (k a us hus).Tells) : (r.andThen k).Tells := by
  intro s hs
  obtain ⟨first, hr, second, hsecond, rfl⟩ := Read.andThen_eq_some hs
  exact (h first hr).append (hk first.value first.rest first.suffix.length_le second hsecond)

end Read.Tells

theorem expect_tells (delimiter : String) (ts : List Token) : (expect delimiter ts).Tells := by
  cases ts with
  | nil => exact .none
  | cons t us =>
    unfold expect
    dsimp only
    split
    · exact .past (.stay () us)
    · exact .miss () rfl trivial

namespace Script

theorem number_tells (text : String) (otherwise : Float) (ts : List Token) :
    (number text otherwise ts).Tells := by
  unfold number
  split
  · exact .stay _ _
  · exact .miss _ rfl trivial

mutual

theorem climb_tells (tiers : List (List BinaryOp)) (ts : List Token) : (climb tiers ts).Tells := by
  cases tiers with
  | nil =>
    rw [climb]
    exact operand_tells ts
  | cons ops tighter =>
    rw [climb]
    exact .andThen (climb_tells tighter ts) fun left us _ => climbOn_tells ops tighter left us
termination_by 16 * ts.length + tiers.length + 3

theorem climbOn_tells (ops : List BinaryOp) (tighter : List (List BinaryOp)) (left : Expr)
    (ts : List Token) : (climbOn ops tighter left ts).Tells := by
  cases ts with
  | nil =>
    rw [climbOn]
    exact .none
  | cons t us =>
    rw [climbOn]
    split
    · exact .stay _ _
    · next op _ =>
      exact .past <| .andThen (climb_tells tighter us) fun right vs _ =>
        climbOn_tells ops tighter (.binary op left right) vs
termination_by 16 * ts.length + tighter.length + 3

theorem operand_tells (ts : List Token) : (operand ts).Tells := by
  cases ts with
  | nil =>
    rw [operand]
    exact .none
  | cons t us =>
    rw [operand]
    split
    · exact .past (.map _ (operand_tells us))
    · exact primary_tells t us
termination_by 16 * ts.length + 2

theorem primary_tells (t : Token) (ts : List Token) : (primary t ts).Tells := by
  rw [primary]
  split
  · exact .past (.map _ (number_tells t.text 0 ts))
  split
  · exact .past <| .andThen (climb_tells expressionTiers ts) fun _ us _ => .map _ (expect_tells ")" us)
  split
  · exact .past (reference_tells t ts)
  · exact .miss _ rfl trivial
termination_by 16 * ts.length + 17
decreasing_by all_goals grind [length_expressionTiers]

theorem reference_tells (t : Token) (ts : List Token) : (reference t ts).Tells := by
  rw [reference]
  refine .andThen (firstPiece_tells t ts) fun p us _ => ?_
  split
  · exact .stay _ _
  split
  · exact .none
  · next u vs _ =>
    split
    · exact .past (.map _ (arguments_tells vs))
    · exact .stay _ _
termination_by 16 * ts.length + 16
decreasing_by all_goals grind

theorem firstPiece_tells (t : Token) (ts : List Token) : (firstPiece t ts).Tells := by
  rw [firstPiece]
  split
  · refine .andThen (climb_tells expressionTiers ts) fun e us _ => ?_
    exact .andThen (expect_tells "\x7d" us) fun _ vs _ => .map _ (pieces_tells vs)
  · exact .map _ (pieces_tells ts)
termination_by 16 * ts.length + 12
decreasing_by all_goals grind [length_expressionTiers]

theorem pieces_tells (ts : List Token) : (pieces ts).Tells := by
  cases ts with
  | nil =>
    rw [pieces]
    exact .none
  | cons t us =>
    rw [pieces]
    split
    · exact .past (firstPiece_tells t us)
    · exact .stay _ _
termination_by 16 * ts.length + 1

theorem arguments_tells (ts : List Token) : (arguments ts).Tells := by
  cases ts with
  | nil =>
    rw [arguments]
    exact .none
  | cons t us =>
    rw [arguments]
    split
    · exact .past (.stay _ _)
    · exact argumentsOn_tells (t :: us)
termination_by 16 * ts.length + 11

theorem argumentsOn_tells (ts : List Token) : (argumentsOn ts).Tells := by
  rw [argumentsOn]
  refine .andThen (climb_tells expressionTiers ts) fun e us _ => ?_
  split
  · exact .none
  · next u vs _ =>
    split
    · exact .past (.map _ (argumentsOn_tells vs))
    · exact .map _ (expect_tells ")" (u :: vs))
termination_by 16 * ts.length + 10
decreasing_by all_goals grind [length_expressionTiers]

end

theorem expression_tells (ts : List Token) : (expression ts).Tells := climb_tells _ ts

theorem selector_tells (ts : List Token) : (selector ts).Tells := climb_tells _ ts

theorem nameTail_tells (ts : List Token) : (nameTail ts).Tells := by
  induction ts with
  | nil => exact .none
  | cons t us ih =>
    rw [nameTail]
    split
    · exact .past (.map _ ih)
    · exact .stay _ _

theorem wantedName_tells (wanted : Wanted) (ts : List Token) : (wantedName wanted ts).Tells := by
  cases ts with
  | nil => exact .none
  | cons t us =>
    unfold wantedName
    dsimp only
    split
    · next h =>
      rw [name, if_pos h]
      exact .past (.map _ (nameTail_tells us))
    · exact .miss _ rfl trivial

theorem params_tells (ts : List Token) : (params ts).Tells := by
  rw [params]
  refine .andThen (wantedName_tells .parameterName ts) fun first us _ => ?_
  split
  · exact .stay _ _
  split
  · exact .none
  · next u vs _ =>
    split
    · exact .past (.map _ (params_tells vs))
    · exact .stay _ _
termination_by ts.length
decreasing_by all_goals grind

theorem paramList_tells (ts : List Token) : (paramList ts).Tells := by
  cases ts with
  | nil => exact .none
  | cons t us =>
    unfold paramList
    dsimp only
    split
    · exact .past (.stay _ _)
    · exact .andThen (params_tells (t :: us)) fun _ vs _ => .map _ (expect_tells ")" vs)

theorem words_tells (delimiter before : String) (ts : List Token) :
    (words delimiter before ts).Tells := by
  induction ts generalizing before with
  | nil => exact .none
  | cons t us ih =>
    rw [words]
    split
    · exact .past (.stay _ _)
    split
    · exact .miss _ rfl trivial
    · exact .past (ih _)

theorem skipBrace_tells (ts : List Token) : (skipBrace ts).Tells := by
  induction ts with
  | nil => exact .none
  | cons t us ih =>
    rw [skipBrace]
    split
    · exact .past (.stay _ _)
    split
    · exact .stay _ _
    · exact .past ih

theorem assignedTo_tells (t : Token) (ts : List Token) : (assignedTo t ts).Tells := by
  refine .andThen (reference_tells t ts) fun target us _ => ?_
  split
  · exact .stay _ _
  · exact .miss _ rfl trivial

theorem assignable_tells (ts : List Token) : (assignable ts).Tells := by
  cases ts with
  | nil => exact .none
  | cons t us =>
    unfold assignable
    dsimp only
    split
    · exact .past (assignedTo_tells t us)
    · exact .miss _ rfl trivial

theorem amount_tells (ts : List Token) : (amount ts).Tells := by
  cases ts with
  | nil => exact .none
  | cons t us =>
    unfold amount
    dsimp only
    split
    · exact .past (number_tells t.text 1 us)
    · exact .stay _ _

theorem mutation_tells (ts : List Token) : (mutation ts).Tells :=
  .andThen (amount_tells ts) fun _ us _ => .map _ (assignable_tells us)

theorem closeTerm_tells (found : Option Terms) (ts : List Token) : (closeTerm found ts).Tells := by
  cases found with
  | none => exact .map _ (skipBrace_tells ts)
  | some terms => exact .map _ (expect_tells "\x7d" ts)

theorem guardTerm_tells (ts : List Token) : (guardTerm ts).Tells := by
  refine .andThen (expression_tells ts) fun guard us _ => ?_
  split
  · exact .none
  · next u vs _ =>
    split
    · exact .past (closeTerm_tells _ vs)
    · exact closeTerm_tells _ (u :: vs)

theorem braceTerm_tells (ts : List Token) : (braceTerm ts).Tells := by
  cases ts with
  | nil => exact .none
  | cons t us =>
    unfold braceTerm
    dsimp only
    split
    · exact .past <| .andThen (mutation_tells us) fun _ vs _ => closeTerm_tells _ vs
    · exact .past <| .andThen (assignable_tells us) fun _ vs _ => closeTerm_tells _ vs
    · exact guardTerm_tells (t :: us)

theorem keywordTerm_tells (ts : List Token) : (keywordTerm ts).Tells := by
  refine .andThen (words_tells ">" "" ts) fun keyword us _ => ?_
  split
  · exact .miss _ rfl trivial
  · exact .stay _ _

theorem terms_tells (ts : List Token) : (terms ts).Tells := by
  cases ts with
  | nil =>
    rw [terms]
    exact .none
  | cons t us =>
    rw [terms]
    split
    · exact .past <| .andThen (keywordTerm_tells us) fun _ vs _ => .map _ (terms_tells vs)
    split
    · exact .past <| .andThen (braceTerm_tells us) fun _ vs _ => .map _ (terms_tells vs)
    · exact .stay _ _
termination_by ts.length
decreasing_by all_goals grind

theorem textTail_tells (ts : List Token) : (textTail ts).Tells := by
  induction ts with
  | nil => exact .none
  | cons t us ih =>
    rw [textTail]
    split
    · exact .past (.map _ ih)
    · exact .stay _ _

end Script

end Storyline
