import Storyline.Script.Assignment

namespace Storyline

/-- The token can stand in an expression. -/
inductive Token.InExpression (t : Token) : Prop where
  | word (kind : t.kind = .word)
  | number (kind : t.kind = .number)
  | infixOp (op : BinaryOp) (spelled : t.isOp op.spelling = true)
  | prefixOp (op : UnaryOp) (spelled : t.isOp op.spelling = true)
  | dot (spelled : t.isOp "." = true)
  | delimiter {text : String} (known : text ∈ ["(", ")", "\x7b", "\x7d", ","])
      (spelled : t.is text = true)

variable {α β : Type} {p q : Token → Prop} {t : Token} {ts : List Token}

/-- Only tokens with the property were read. -/
def Read.Takes {ts : List Token} (p : Token → Prop) (r : Read α ts) : Prop :=
  match r with
  | none => ∀ t ∈ ts, p t
  | some s => ∃ used, ts = used ++ s.rest ∧ ∀ t ∈ used, p t

namespace Read.Takes

theorem none_nil : Read.Takes p (none : Read α []) := List.forall_mem_nil p

theorem stay (a : α) (ts : List Token) : (Read.stay a ts).Takes p :=
  ⟨[], rfl, List.forall_mem_nil p⟩

theorem miss (d : Diagnostic) (a : α) (ts : List Token) : (Read.miss d a ts).Takes p :=
  ⟨[], rfl, List.forall_mem_nil p⟩

theorem past {r : Read α ts} (ht : p t) (h : r.Takes p) :
    Read.Takes p (Read.past r : Read α (t :: ts)) := by
  cases r with
  | none => exact List.forall_mem_cons.mpr ⟨ht, h⟩
  | some s =>
    obtain ⟨used, he, hused⟩ := h
    exact ⟨t :: used, congrArg (t :: ·) he, List.forall_mem_cons.mpr ⟨ht, hused⟩⟩

theorem map {r : Read α ts} (f : α → β) (h : r.Takes p) : (Read.map f r).Takes p := by
  cases r with
  | none => exact h
  | some s => exact h

/-- Where the second rule ends for want of tokens, it has taken all that the first one left. -/
theorem andThen {r : Read α ts} {k : (a : α) → (us : List Token) → us.length ≤ ts.length → Read β us}
    (h : r.Takes p) (hk : ∀ a us hus, (k a us hus).Takes p) : (Read.andThen r k).Takes p := by
  cases r with
  | none => exact h
  | some s =>
    obtain ⟨used, he, hused⟩ := h
    have hnext := hk s.value s.rest s.suffix.length_le
    cases hr : k s.value s.rest s.suffix.length_le with
    | none =>
      rw [hr] at hnext
      have hnone : Read.andThen (some s) k = none := by simp only [Read.andThen, hr]
      rw [hnone]
      intro u hu
      rw [he] at hu
      exact (List.mem_append.mp hu).elim (hused u) (hnext u)
    | some s' =>
      rw [hr] at hnext
      obtain ⟨used', he', hused'⟩ := hnext
      simp only [Read.andThen, hr]
      have hall : ts = (used ++ used') ++ s'.rest :=
        he.trans ((congrArg (used ++ ·) he').trans (List.append_assoc used used' s'.rest).symm)
      refine ⟨used ++ used', hall, fun u hu => ?_⟩
      exact (List.mem_append.mp hu).elim (hused u) (hused' u)

theorem mono {r : Read α ts} (hpq : ∀ t, p t → q t) (h : r.Takes p) : r.Takes q := by
  cases r with
  | none => exact fun t ht => hpq t (h t ht)
  | some s =>
    obtain ⟨used, he, hused⟩ := h
    exact ⟨used, he, fun t ht => hpq t (hused t ht)⟩

end Read.Takes

theorem expect_takes {delimiter : String} (hp : ∀ t : Token, t.is delimiter = true → p t)
    (ts : List Token) : (expect delimiter ts).Takes p := by
  cases ts with
  | nil => exact .none_nil
  | cons t us =>
    unfold expect
    dsimp only
    split
    · next h => exact .past (hp t h) (.stay () us)
    · exact .miss _ () _

namespace Script

/-- A delimiter of expressions is taken or missed. -/
theorem delimiter_takes {delimiter : String} (known : delimiter ∈ ["(", ")", "\x7b", "\x7d", ","])
    (ts : List Token) : (expect delimiter ts).Takes Token.InExpression :=
  expect_takes (fun _ h => .delimiter known h) ts

theorem isOp_of_canSpell (h : canSpell t = true) : t.kind = .word ∨ t.isOp t.text = true := by
  simp only [canSpell, Bool.or_eq_true, beq_iff_eq] at h
  rcases h with hk | hk
  · exact .inr (by simpa [Token.isOp] using hk)
  · exact .inl hk

theorem inExpression_of_infixOp? {ops : List BinaryOp} {op : BinaryOp}
    (h : infixOp? ops t = some op) : t.InExpression := by
  unfold infixOp? at h
  split at h
  · next hs =>
    have hfound := List.find?_some h
    have hspelling : op.spelling = t.text := beq_iff_eq.mp hfound
    rcases isOp_of_canSpell hs with hk | ho
    · exact .word hk
    · exact .infixOp op (hspelling ▸ ho)
  · cases h

theorem inExpression_of_prefixOp? {op : UnaryOp} (h : prefixOp? t = some op) : t.InExpression := by
  unfold prefixOp? at h
  split at h
  · next hs =>
    unfold UnaryOp.ofSpelling? at h
    have hfound := List.find?_some h
    have hspelling : op.spelling = t.text := beq_iff_eq.mp hfound
    rcases isOp_of_canSpell hs with hk | ho
    · exact .word hk
    · exact .prefixOp op (hspelling ▸ ho)
  · cases h

theorem inExpression_of_startsReference (h : startsReference t = true) : t.InExpression := by
  simp only [startsReference, Bool.or_eq_true, beq_iff_eq] at h
  rcases h with hk | hb
  · exact .word hk
  · exact .delimiter (by decide) hb

theorem inExpression_of_joins (h : joins t = true) : t.InExpression := by
  simp only [joins, Bool.and_eq_true, Bool.or_eq_true, beq_iff_eq] at h
  rcases h.2 with (hk | hk) | ho
  · exact .word hk
  · exact .number hk
  · exact .dot ho

theorem inExpression_of_opensArguments (h : opensArguments t = true) : t.InExpression := by
  simp only [opensArguments, Bool.and_eq_true] at h
  exact .delimiter (by decide) h.1

theorem number_takes (text : String) (otherwise : Float) (ts : List Token) :
    (number text otherwise ts).Takes p := by
  unfold number
  split
  · exact .stay _ _
  · exact .miss _ _ _

mutual

theorem climb_takes (tiers : List (List BinaryOp)) (ts : List Token) :
    (climb tiers ts).Takes Token.InExpression := by
  cases tiers with
  | nil =>
    rw [climb]
    exact operand_takes ts
  | cons ops tighter =>
    rw [climb]
    exact .andThen (climb_takes tighter ts) fun left us _ => climbOn_takes ops tighter left us
termination_by 16 * ts.length + tiers.length + 3

theorem climbOn_takes (ops : List BinaryOp) (tighter : List (List BinaryOp)) (left : Expr)
    (ts : List Token) : (climbOn ops tighter left ts).Takes Token.InExpression := by
  cases ts with
  | nil =>
    rw [climbOn]
    exact .none_nil
  | cons t us =>
    rw [climbOn]
    split
    · exact .stay _ _
    · next op h =>
      exact .past (inExpression_of_infixOp? h) <|
        .andThen (climb_takes tighter us) fun right vs _ =>
          climbOn_takes ops tighter (.binary op left right) vs
termination_by 16 * ts.length + tighter.length + 3

theorem operand_takes (ts : List Token) : (operand ts).Takes Token.InExpression := by
  cases ts with
  | nil =>
    rw [operand]
    exact .none_nil
  | cons t us =>
    rw [operand]
    split
    · next op h => exact .past (inExpression_of_prefixOp? h) (.map _ (operand_takes us))
    · exact primary_takes t us
termination_by 16 * ts.length + 2

theorem primary_takes (t : Token) (ts : List Token) : (primary t ts).Takes Token.InExpression := by
  rw [primary]
  split
  · next h => exact .past (.number h) (.map _ (number_takes _ _ _))
  split
  · next h =>
    exact .past (.delimiter (by decide) h) <|
      .andThen (climb_takes expressionTiers ts) fun e us _ => .map _ (delimiter_takes (by decide) us)
  split
  · next h => exact .past (inExpression_of_startsReference h) (reference_takes t ts)
  · exact .miss _ _ _
termination_by 16 * ts.length + 17
decreasing_by all_goals grind [length_expressionTiers]

theorem reference_takes (t : Token) (ts : List Token) :
    (reference t ts).Takes Token.InExpression := by
  rw [reference]
  refine .andThen (firstPiece_takes t ts) fun p us _ => ?_
  split
  · exact .stay _ _
  split
  · exact .none_nil
  · next u vs _ =>
    split
    · next h => exact .past (inExpression_of_opensArguments h) (.map _ (arguments_takes vs))
    · exact .stay _ _
termination_by 16 * ts.length + 16
decreasing_by all_goals grind

theorem firstPiece_takes (t : Token) (ts : List Token) :
    (firstPiece t ts).Takes Token.InExpression := by
  rw [firstPiece]
  split
  · refine .andThen (climb_takes expressionTiers ts) fun e us _ => ?_
    exact .andThen (delimiter_takes (by decide) us) fun _ vs _ => .map _ (pieces_takes vs)
  · exact .map _ (pieces_takes ts)
termination_by 16 * ts.length + 12
decreasing_by all_goals grind [length_expressionTiers]

theorem pieces_takes (ts : List Token) : (pieces ts).Takes Token.InExpression := by
  cases ts with
  | nil =>
    rw [pieces]
    exact .none_nil
  | cons t us =>
    rw [pieces]
    split
    · next h =>
      refine .past ?_ (firstPiece_takes t us)
      rcases Bool.or_eq_true_iff.mp h with hj | hb
      · exact inExpression_of_joins hj
      · exact .delimiter (by decide) (Bool.and_eq_true_iff.mp hb).2
    · exact .stay _ _
termination_by 16 * ts.length + 1

theorem arguments_takes (ts : List Token) : (arguments ts).Takes Token.InExpression := by
  cases ts with
  | nil =>
    rw [arguments]
    exact .none_nil
  | cons t us =>
    rw [arguments]
    split
    · next h => exact .past (.delimiter (by decide) h) (.stay _ _)
    · exact argumentsOn_takes (t :: us)
termination_by 16 * ts.length + 11

theorem argumentsOn_takes (ts : List Token) : (argumentsOn ts).Takes Token.InExpression := by
  rw [argumentsOn]
  refine .andThen (climb_takes expressionTiers ts) fun e us _ => ?_
  split
  · exact .none_nil
  · next u vs _ =>
    split
    · next h => exact .past (.delimiter (by decide) h) (.map _ (argumentsOn_takes vs))
    · exact .map _ (delimiter_takes (by decide) (u :: vs))
termination_by 16 * ts.length + 10
decreasing_by all_goals grind [length_expressionTiers]

end

theorem assignedTo_takes (t : Token) (ts : List Token) :
    (assignedTo t ts).Takes Token.InExpression := by
  refine .andThen (reference_takes t ts) fun target us _ => ?_
  split
  · exact .stay _ _
  · exact .miss _ _ _

theorem assignable_takes (ts : List Token) : (assignable ts).Takes Token.InExpression := by
  cases ts with
  | nil => exact .none_nil
  | cons t us =>
    unfold assignable
    dsimp only
    split
    · next h => exact .past (inExpression_of_startsReference h) (assignedTo_takes t us)
    · exact .miss _ _ _

end Script

end Storyline
