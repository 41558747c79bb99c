import Storyline.Proofs.Calls.Accounting

namespace Storyline.Script.Plan

variable (ts : List Token)

theorem run_expect (delimiter : String) :
    (expect delimiter).run ts = (Storyline.expect delimiter ts).span := by
  cases ts with
  | nil => rfl
  | cons t us =>
    rw [expect, run_ahead_cons, Storyline.expect]
    split <;> rfl

theorem pays_expect (delimiter : String) : (expect delimiter).Pays 0 false false 0 := by
  simp [expect]

section Expressions

theorem run_number (text : String) (otherwise : Float) :
    (number text otherwise).run ts = (Script.number text otherwise ts).span := by
  unfold number Script.number
  cases Decimal.number? text with
  | some x => rfl
  | none => exact run_here _ ts

theorem pays_number {rank credit : Nat} {taken held : Bool} (text : String) (otherwise : Float) :
    (number text otherwise).Pays rank taken held credit := by
  unfold number
  cases Decimal.number? text with
  | some x => trivial
  | none => exact pays_here fun pos held => trivial

theorem run_climb (tiers : List (List BinaryOp)) (few : tiers.length ≤ 6) :
    (climb tiers few).run ts = (Script.climb tiers ts).span := by
  cases tiers with
  | nil =>
    rw [Script.climb]
    rfl
  | cons ops tighter =>
    rw [Script.climb]
    exact run_got fun left us _ => rfl

theorem pays_climb (tiers : List (List BinaryOp)) (few : tiers.length ≤ 6) :
    (climb tiers few).Pays (tiers.length + 2) false false (2 * tiers.length + 2) := by
  cases tiers with
  | nil => simp [climb]
  | cons ops tighter =>
    simp [climb]
    omega

theorem run_climbOn (ops : List BinaryOp) (tighter : List (List BinaryOp))
    (few : tighter.length < 6) (left : Expr) :
    (climbOn ops tighter few left).run ts = (Script.climbOn ops tighter left ts).span := by
  cases ts with
  | nil =>
    rw [Script.climbOn]
    rfl
  | cons t us =>
    rw [climbOn, run_ahead_cons, Script.climbOn]
    cases infixOp? ops t with
    | none => rfl
    | some op => exact run_take_read (run_got fun right vs _ => rfl)

theorem pays_climbOn (ops : List BinaryOp) (tighter : List (List BinaryOp))
    (few : tighter.length < 6) (left : Expr) :
    (climbOn ops tighter few left).Pays 0 false false 0 := by
  simp only [climbOn, pays_ahead]
  intro t
  cases infixOp? ops t with
  | none => simp
  | some op =>
    simp
    omega

theorem run_operand : operand.run ts = (Script.operand ts).span := by
  cases ts with
  | nil =>
    rw [Script.operand]
    rfl
  | cons t us =>
    rw [operand, run_ahead_cons, Script.operand]
    cases prefixOp? t with
    | none => rfl
    | some op => exact run_take_read (run_got_stay (Script.operand us) (Expr.unary op))

theorem pays_operand : operand.Pays 1 false false 1 := by
  simp only [operand, pays_ahead]
  intro t
  cases prefixOp? t <;> simp

theorem run_primary : primary.run ts = (Call.mk .primary ts).read := by
  cases ts with
  | nil => rfl
  | cons t us =>
    show primary.run (t :: us) = (Script.primary t us).span
    rw [primary, run_ahead_cons, Script.primary]
    split
    · apply run_take_read
      rw [run_map, run_number, Read.span_map]
    split
    · exact run_take_read (run_got fun e vs _ => run_got_stay (Storyline.expect ")" vs) fun _ => e)
    split
    · exact run_take_read rfl
    · rfl

theorem pays_primary : primary.Pays 0 false false 0 := by
  simp [primary, pays_number]

theorem run_reference (t : Token) : (reference t).run ts = (Script.reference t ts).span := by
  rw [Script.reference]
  refine run_got fun p us _ => ?_
  split
  · rfl
  · cases us with
    | nil => rfl
    | cons u vs =>
      rw [run_ahead_cons]
      dsimp only
      split
      · exact run_take_read (run_got_stay (Script.arguments vs) (Expr.call p.head))
      · rfl

theorem pays_reference (t : Token) : (reference t).Pays 10 false false 18 := by
  simp [reference]

theorem run_firstPiece (t : Token) : (firstPiece t).run ts = (Script.firstPiece t ts).span := by
  rw [firstPiece, Script.firstPiece]
  split
  · refine run_got fun e us _ => run_got fun _ vs _ => ?_
    exact run_got_stay (Script.pieces vs) (Pieces.afterSplice e)
  · exact run_got_stay (Script.pieces ts) (Pieces.afterText t.text)

theorem pays_firstPiece (t : Token) : (firstPiece t).Pays 9 false false 17 := by
  simp [firstPiece]

theorem run_pieces : pieces.run ts = (Script.pieces ts).span := by
  cases ts with
  | nil =>
    rw [Script.pieces]
    rfl
  | cons t us =>
    rw [pieces, run_ahead_cons, Script.pieces]
    split
    · exact run_take_read rfl
    · rfl

theorem pays_pieces : pieces.Pays 0 false false 0 := by
  simp [pieces]

theorem run_arguments : arguments.run ts = (Script.arguments ts).span := by
  cases ts with
  | nil =>
    rw [Script.arguments]
    rfl
  | cons t us =>
    rw [arguments, run_ahead_cons, Script.arguments]
    split <;> rfl

theorem pays_arguments : arguments.Pays 10 false false 17 := by
  simp [arguments]

theorem run_argumentsOn : argumentsOn.run ts = (Script.argumentsOn ts).span := by
  rw [Script.argumentsOn]
  refine run_got fun e us _ => ?_
  cases us with
  | nil => rfl
  | cons u vs =>
    rw [run_ahead_cons]
    dsimp only
    split
    · exact run_take_read (run_got_stay (Script.argumentsOn vs) (e :: ·))
    · exact run_got_stay (Storyline.expect ")" (u :: vs)) fun _ => [e]

theorem pays_argumentsOn : argumentsOn.Pays 9 false false 16 := by
  simp [argumentsOn]

end Expressions

section Names

theorem run_nameTail : nameTail.run ts = (Script.nameTail ts).span := by
  cases ts with
  | nil => rfl
  | cons t us =>
    rw [nameTail, run_ahead_cons, Script.nameTail]
    split
    · exact run_take_read (run_got_stay (Script.nameTail us) (t.text ++ ·))
    · rfl

theorem pays_nameTail : nameTail.Pays 0 false false 0 := by
  simp [nameTail]

theorem run_name : name.run ts = (Script.name ts).span := by
  cases ts with
  | nil => rfl
  | cons t us =>
    rw [name, run_ahead_cons, Script.name]
    split
    · exact run_take_read (run_got_stay (Script.nameTail us) fun tail => some (t.text ++ tail))
    · rfl

theorem pays_name : name.Pays 0 false false 0 := by
  simp [name]

theorem run_wantedName (wanted : Wanted) :
    (wantedName wanted).run ts = (Script.wantedName wanted ts).span := by
  cases ts with
  | nil => rfl
  | cons t us =>
    rw [wantedName, run_ahead_cons, Script.wantedName]
    split <;> rfl

theorem pays_wantedName (wanted : Wanted) : (wantedName wanted).Pays 1 false false 1 := by
  simp [wantedName]

theorem run_params : params.run ts = (Script.params ts).span := by
  rw [Script.params]
  refine run_got fun first us _ => ?_
  cases first with
  | none => rfl
  | some param =>
    cases us with
    | nil => rfl
    | cons u vs =>
      dsimp only
      rw [run_ahead_cons]
      split
      · exact run_take_read (run_got_stay (Script.params vs) (param :: ·))
      · rfl

theorem pays_params : params.Pays 2 false false 2 := by
  simp only [params, pays_call, pays_got]
  refine ⟨by simp, by simp, fun first => ?_⟩
  cases first <;> simp

theorem run_paramList : paramList.run ts = (Script.paramList ts).span := by
  cases ts with
  | nil => rfl
  | cons t us =>
    rw [paramList, run_ahead_cons, Script.paramList]
    split
    · rfl
    · exact run_got fun ps vs _ => run_got_stay (Storyline.expect ")" vs) fun _ => ps

theorem pays_paramList : paramList.Pays 3 false false 4 := by
  simp [paramList]

theorem run_words (delimiter before : String) :
    (words delimiter before).run ts = (Script.words delimiter before ts).span := by
  cases ts with
  | nil => rfl
  | cons t us =>
    rw [words, run_ahead_cons, Script.words]
    split
    · rfl
    split
    · rfl
    · exact run_take_read rfl

theorem pays_words (delimiter before : String) : (words delimiter before).Pays 0 false false 0 := by
  simp [words]

theorem run_skipBrace : skipBrace.run ts = (Script.skipBrace ts).span := by
  cases ts with
  | nil => rfl
  | cons t us =>
    rw [skipBrace, run_ahead_cons, Script.skipBrace]
    split
    · rfl
    split
    · rfl
    · exact run_take_read rfl

theorem pays_skipBrace : skipBrace.Pays 0 false false 0 := by
  simp [skipBrace]

end Names

section Programs

theorem run_assignedTo (t : Token) : (assignedTo t).run ts = (Script.assignedTo t ts).span := by
  refine run_got fun target us _ => ?_
  split
  · rfl
  · exact run_here _ us

theorem pays_assignedTo (t : Token) : (assignedTo t).Pays 11 false false 19 := by
  simp [assignedTo, pays_here]

theorem run_assignable : assignable.run ts = (Script.assignable ts).span := by
  cases ts with
  | nil => rfl
  | cons t us =>
    rw [assignable, run_ahead_cons, Script.assignable]
    split
    · exact run_take_read rfl
    · rfl

theorem pays_assignable : assignable.Pays 0 false false 0 := by
  simp [assignable]

theorem run_amount : amount.run ts = (Script.amount ts).span := by
  cases ts with
  | nil => rfl
  | cons t us =>
    rw [amount, run_ahead_cons, Script.amount]
    split
    · exact run_take_read (run_number us t.text 1)
    · rfl

theorem pays_amount : amount.Pays 0 false false 0 := by
  simp [amount, pays_number]

theorem run_mutation : mutation.run ts = (Script.mutation ts).span :=
  run_got fun n us _ => run_got_stay (Script.assignable us) fun target => target.map (·, n)

theorem pays_mutation : mutation.Pays 1 false false 2 := by
  simp [mutation]

theorem run_program : program.run ts = Script.program ts := by
  cases ts with
  | nil =>
    rw [Script.program]
    rfl
  | cons t us =>
    rw [program, run_ahead_cons, Script.program]
    split
    · rfl
    split
    · rfl
    split
    · refine run_take (run_items fun target vs _ => ?_)
      cases vs with
      | nil => rfl
      | cons v ws =>
        rw [assignment, run_ahead_cons]
        cases target with
        | none => rfl
        | some target =>
          dsimp only
          cases assignmentOp? v with
          | none => rfl
          | some op => exact run_take (run_items fun value xs _ => rfl)
    · rfl

theorem pays_assignment (t : Token) (target : Option Expr) :
    (assignment t target).Pays 0 true false 1 := by
  simp only [assignment, pays_ahead]
  intro v
  cases target with
  | none => simp [Pays]
  | some target => cases assignmentOp? v <;> simp

theorem pays_program : program.Pays 0 false false 0 := by
  simp [program, pays_assignment]

end Programs

section Terms

theorem run_closeTerm (found : Option Terms) :
    (closeTerm found).run ts = (Script.closeTerm found ts).span := by
  cases found with
  | none => exact run_got_stay (Script.skipBrace ts) fun _ => Terms.none
  | some terms => exact run_got_stay (Storyline.expect "\x7d" ts) fun _ => terms

theorem pays_closeTerm (found : Option Terms) : (closeTerm found).Pays 1 false false 1 := by
  cases found <;> simp [closeTerm]

theorem run_guardTerm : guardTerm.run ts = (Script.guardTerm ts).span := by
  refine run_got fun guard us _ => ?_
  cases us with
  | nil => rfl
  | cons u vs =>
    rw [run_ahead_cons]
    dsimp only
    split
    · exact run_take_read rfl
    · rfl

theorem pays_guardTerm : guardTerm.Pays 9 false false 17 := by
  simp [guardTerm]

theorem run_braceTerm : braceTerm.run ts = (Script.braceTerm ts).span := by
  cases ts with
  | nil => rfl
  | cons t us =>
    rw [braceTerm, run_ahead_cons, Script.braceTerm]
    cases braceForm t with
    | change op => exact run_take_read (run_got fun found vs _ => rfl)
    | put value => exact run_take_read (run_got fun found vs _ => rfl)
    | other => rfl

theorem pays_braceTerm : braceTerm.Pays 10 false false 18 := by
  simp only [braceTerm, pays_ahead]
  intro t
  cases braceForm t <;> simp

theorem run_keywordTerm : keywordTerm.run ts = (Script.keywordTerm ts).span := by
  refine run_got fun keyword us _ => ?_
  split
  · exact run_here _ us
  · rfl

theorem pays_keywordTerm : keywordTerm.Pays 1 false false 1 := by
  simp [keywordTerm, pays_here]

theorem run_terms : terms.run ts = (Script.terms ts).span := by
  cases ts with
  | nil =>
    rw [Script.terms]
    rfl
  | cons t us =>
    rw [terms, run_ahead_cons, Script.terms]
    split
    · exact run_take_read (run_got fun first vs _ => run_got_stay (Script.terms vs) (first ++ ·))
    split
    · exact run_take_read (run_got fun first vs _ => run_got_stay (Script.terms vs) (first ++ ·))
    · rfl

theorem pays_terms : terms.Pays 0 false false 0 := by
  simp [terms]

end Terms

end Storyline.Script.Plan
