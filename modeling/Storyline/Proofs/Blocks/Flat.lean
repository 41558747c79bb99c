import Storyline.Proofs.Grammar.Takes
import Storyline.Script.Terms

namespace Storyline

/-- The token opens and closes no block. -/
def Token.IsPlain (t : Token) : Prop := t.kind ≠ .start ∧ t.kind ≠ .stop

variable {α β : Type} {t : Token} {ts : List Token}

theorem Token.isPlain_of_kind {kind : Kind} (h : t.kind = kind) (hs : kind ≠ .start)
    (ht : kind ≠ .stop) : t.IsPlain := by
  subst h
  exact ⟨hs, ht⟩

theorem Token.isPlain_of_is {text : String} (h : t.is text = true) : t.IsPlain := by
  have : t.kind = .mark := by simp [Token.is] at h; exact h.1
  exact t.isPlain_of_kind this (by decide) (by decide)

theorem Token.isPlain_of_isOp {text : String} (h : t.isOp text = true) : t.IsPlain := by
  simp only [Token.isOp, Bool.and_eq_true, Bool.or_eq_true, beq_iff_eq] at h
  rcases h.1 with hk | hk <;> exact t.isPlain_of_kind hk (by decide) (by decide)

/-- Only plain tokens were read. -/
def Read.IsFlat {ts : List Token} (r : Read α ts) : Prop :=
  match r with
  | none => ∀ t ∈ ts, t.IsPlain
  | some r => ∃ used, ts = used ++ r.rest ∧ ∀ t ∈ used, t.IsPlain

theorem Read.isFlat_iff {r : Read α ts} : r.IsFlat ↔ r.Takes Token.IsPlain := by
  cases r <;> exact Iff.rfl

namespace Read.IsFlat

theorem none_nil : Read.IsFlat (none : Read α []) := isFlat_iff.mpr .none_nil

theorem stay (a : α) (ts : List Token) : Read.IsFlat (Read.stay a ts) :=
  isFlat_iff.mpr (.stay a ts)

theorem miss (d : Diagnostic) (a : α) (ts : List Token) : Read.IsFlat (Read.miss d a ts) :=
  isFlat_iff.mpr (.miss d a ts)

theorem past {r : Read α ts} (ht : t.IsPlain) (h : r.IsFlat) :
    Read.IsFlat (Read.past r : Read α (t :: ts)) :=
  isFlat_iff.mpr (.past ht (isFlat_iff.mp h))

theorem map {r : Read α ts} (f : α → β) (h : r.IsFlat) : (Read.map f r).IsFlat :=
  isFlat_iff.mpr (.map f (isFlat_iff.mp h))

theorem andThen {r : Read α ts} {k : (a : α) → (us : List Token) → us.length ≤ ts.length → Read β us}
    (h : r.IsFlat) (hk : ∀ a us hus, (k a us hus).IsFlat) : (Read.andThen r k).IsFlat :=
  isFlat_iff.mpr (.andThen (isFlat_iff.mp h) fun a us hus => isFlat_iff.mp (hk a us hus))

end Read.IsFlat

/-- What stands in an expression opens and closes no block. -/
theorem Token.InExpression.isPlain (h : t.InExpression) : t.IsPlain := by
  cases h with
  | word kind => exact t.isPlain_of_kind kind (by decide) (by decide)
  | number kind => exact t.isPlain_of_kind kind (by decide) (by decide)
  | infixOp op spelled => exact t.isPlain_of_isOp spelled
  | prefixOp op spelled => exact t.isPlain_of_isOp spelled
  | dot spelled => exact t.isPlain_of_isOp spelled
  | delimiter known spelled => exact t.isPlain_of_is spelled

theorem Read.Takes.isFlat {r : Read α ts} (h : r.Takes Token.InExpression) : r.IsFlat :=
  isFlat_iff.mpr (h.mono fun _ ht => ht.isPlain)

theorem expect_isFlat (delimiter : String) (ts : List Token) : (expect delimiter ts).IsFlat :=
  Read.isFlat_iff.mpr (expect_takes (fun t h => t.isPlain_of_is h) ts)

namespace Script

theorem number_isFlat (text : String) (otherwise : Float) (ts : List Token) :
    (number text otherwise ts).IsFlat :=
  Read.isFlat_iff.mpr (number_takes text otherwise ts)

theorem expression_isFlat (ts : List Token) : (expression ts).IsFlat := (climb_takes _ ts).isFlat

theorem selector_isFlat (ts : List Token) : (selector ts).IsFlat := (climb_takes _ ts).isFlat

theorem arguments_isFlat (ts : List Token) : (arguments ts).IsFlat := (arguments_takes ts).isFlat

theorem assignedTo_isFlat (t : Token) (ts : List Token) : (assignedTo t ts).IsFlat :=
  (assignedTo_takes t ts).isFlat

theorem assignable_isFlat (ts : List Token) : (assignable ts).IsFlat := (assignable_takes ts).isFlat

theorem nameTail_isFlat (ts : List Token) : (nameTail ts).IsFlat := by
  induction ts with
  | nil => exact .none_nil
  | cons t us ih =>
    rw [nameTail]
    split
    · next h => exact .past (inExpression_of_joins h).isPlain (.map _ ih)
    · exact .stay _ _

theorem name_isFlat (ts : List Token) : (name ts).IsFlat := by
  cases ts with
  | nil => exact .none_nil
  | cons t us =>
    unfold name
    dsimp only
    split
    · next h =>
      exact .past (t.isPlain_of_kind h (by decide) (by decide)) (.map _ (nameTail_isFlat us))
    · exact .stay _ _

theorem wantedName_isFlat (wanted : Wanted) (ts : List Token) : (wantedName wanted ts).IsFlat := by
  cases ts with
  | nil => exact .none_nil
  | cons t us =>
    unfold wantedName
    dsimp only
    split
    · exact name_isFlat (t :: us)
    · exact .miss _ _ _

theorem params_isFlat (ts : List Token) : (params ts).IsFlat := by
  rw [params]
  refine .andThen (wantedName_isFlat _ ts) fun first us _ => ?_
  split
  · exact .stay _ _
  · split
    · exact .none_nil
    · next u vs _ =>
      split
      · next h => exact .past (u.isPlain_of_is h) (.map _ (params_isFlat vs))
      · exact .stay _ _
termination_by ts.length
decreasing_by all_goals grind

theorem paramList_isFlat (ts : List Token) : (paramList ts).IsFlat := by
  cases ts with
  | nil => exact .none_nil
  | cons t us =>
    unfold paramList
    dsimp only
    split
    · next h => exact .past (t.isPlain_of_is h) (.stay _ _)
    · exact .andThen (params_isFlat (t :: us)) fun _ vs _ => .map _ (expect_isFlat ")" vs)

theorem words_isFlat (delimiter before : String) (ts : List Token) :
    (words delimiter before ts).IsFlat := by
  induction ts generalizing before with
  | nil => exact .none_nil
  | cons t us ih =>
    rw [words]
    split
    · next h => exact .past (t.isPlain_of_is h) (.stay _ _)
    · split
      · exact .miss _ _ _
      · next h =>
        simp only [not_or] at h
        exact .past ⟨h.2.1, h.1⟩ (ih _)

theorem skipBrace_isFlat (ts : List Token) : (skipBrace ts).IsFlat := by
  induction ts with
  | nil => exact .none_nil
  | cons t us ih =>
    rw [skipBrace]
    split
    · next h => exact .past (t.isPlain_of_is h) (.stay _ _)
    · split
      · exact .stay _ _
      · next h =>
        simp only [not_or] at h
        exact .past ⟨h.2, h.1⟩ ih

theorem amount_isFlat (ts : List Token) : (amount ts).IsFlat := by
  cases ts with
  | nil => exact .none_nil
  | cons t us =>
    unfold amount
    dsimp only
    split
    · next h => exact .past (t.isPlain_of_kind h (by decide) (by decide)) (number_isFlat _ _ _)
    · exact .stay _ _

theorem mutation_isFlat (ts : List Token) : (mutation ts).IsFlat :=
  .andThen (amount_isFlat ts) fun _ us _ => .map _ (assignable_isFlat us)

theorem isPlain_of_braceForm (h : braceForm t ≠ .other) : t.IsPlain := by
  unfold braceForm at h
  split at h
  · next ho => exact t.isPlain_of_isOp ho
  split at h
  · next ho => exact t.isPlain_of_isOp ho
  split at h
  · next ho => exact t.isPlain_of_isOp ho
  split at h
  · next ho => exact t.isPlain_of_isOp ho
  · exact absurd rfl h

theorem closeTerm_isFlat (found : Option Terms) (ts : List Token) :
    (closeTerm found ts).IsFlat := by
  cases found with
  | none => exact .map _ (skipBrace_isFlat ts)
  | some terms => exact .map _ (expect_isFlat _ ts)

theorem guardTerm_isFlat (ts : List Token) : (guardTerm ts).IsFlat := by
  refine .andThen (expression_isFlat ts) fun guard us _ => ?_
  split
  · exact .none_nil
  · next u vs _ =>
    split
    · next h => exact .past (u.isPlain_of_isOp h) (closeTerm_isFlat _ vs)
    · exact closeTerm_isFlat _ (u :: vs)

theorem braceTerm_isFlat (ts : List Token) : (braceTerm ts).IsFlat := by
  cases ts with
  | nil => exact .none_nil
  | cons t us =>
    unfold braceTerm
    dsimp only
    split
    · next op h =>
      exact .past (isPlain_of_braceForm (by rw [h]; simp)) <|
        .andThen (mutation_isFlat us) fun found vs _ => closeTerm_isFlat _ vs
    · next value h =>
      exact .past (isPlain_of_braceForm (by rw [h]; simp)) <|
        .andThen (assignable_isFlat us) fun found vs _ => closeTerm_isFlat _ vs
    · exact guardTerm_isFlat (t :: us)

theorem keywordTerm_isFlat (ts : List Token) : (keywordTerm ts).IsFlat := by
  refine .andThen (words_isFlat ">" "" ts) fun keyword us _ => ?_
  split
  · exact .miss _ _ _
  · exact .stay _ _

theorem terms_isFlat (ts : List Token) : (terms ts).IsFlat := by
  cases ts with
  | nil =>
    rw [terms]
    exact .none_nil
  | cons t us =>
    rw [terms]
    split
    · next h =>
      exact .past (t.isPlain_of_is h) <|
        .andThen (keywordTerm_isFlat us) fun first vs _ => .map _ (terms_isFlat vs)
    split
    · next h =>
      exact .past (t.isPlain_of_is h) <|
        .andThen (braceTerm_isFlat us) fun first vs _ => .map _ (terms_isFlat vs)
    · exact .stay _ _
termination_by ts.length
decreasing_by all_goals grind

end Script

end Storyline
