import Storyline.Proofs.Places.Unplaced
import Mathlib.Data.List.Forall2

namespace Storyline

/-- The tokens agree in all but their positions. -/
structure Token.Same (t u : Token) : Prop where
  kind : t.kind = u.kind
  space : t.space = u.space
  text : t.text = u.text

namespace Token.Same

variable {t u : Token}

theorem unplaced (h : t.Same u) : t.unplaced = u.unplaced := by
  simp only [Token.unplaced, h.kind, h.space, h.text]

theorem is (h : t.Same u) (text : String) : t.is text = u.is text := by
  simp only [Token.is, h.kind, h.text]

theorem isOp (h : t.Same u) (text : String) : t.isOp text = u.isOp text := by
  simp only [Token.isOp, h.kind, h.text]

theorem adjoins (h : t.Same u) : t.adjoins = u.adjoins := by
  simp only [Token.adjoins, h.space]

theorem sign (h : t.Same u) : t.sign = u.sign := by
  simp only [Token.sign, h.kind, h.text]

theorem isText (h : t.Same u) : t.isText = u.isText := by
  simp only [Token.isText, h.sign]

theorem printed (h : t.Same u) : t.printed = u.printed := by
  simp only [Token.printed, h.kind, h.text]

theorem describe (h : t.Same u) : t.describe = u.describe := by
  simp only [Token.describe, h.kind, h.text]

theorem infixOp? (h : t.Same u) (ops : List BinaryOp) :
    Script.infixOp? ops t = Script.infixOp? ops u := by
  unfold Script.infixOp? Script.canSpell
  rw [h.kind, h.text]

theorem prefixOp? (h : t.Same u) : Script.prefixOp? t = Script.prefixOp? u := by
  unfold Script.prefixOp? Script.canSpell
  rw [h.kind, h.text]

theorem startsReference (h : t.Same u) : Script.startsReference t = Script.startsReference u := by
  simp only [Script.startsReference, h.kind, h.is]

theorem joins (h : t.Same u) : Script.joins t = Script.joins u := by
  simp only [Script.joins, h.kind, h.adjoins, h.isOp]

theorem opensArguments (h : t.Same u) : Script.opensArguments t = Script.opensArguments u := by
  simp only [Script.opensArguments, h.is, h.adjoins]

theorem braceForm (h : t.Same u) : Script.braceForm t = Script.braceForm u := by
  simp only [Script.braceForm, h.isOp]

theorem assignmentOp? (h : t.Same u) : Script.assignmentOp? t = Script.assignmentOp? u := by
  simp only [Script.assignmentOp?, h.isOp]

theorem sigil? (h : t.Same u) : Script.sigil? t = Script.sigil? u := by
  simp only [Script.sigil?, h.isOp]

/-- A mistake about a token, wherever it is noticed. -/
theorem found {m : Token → Mistake} (h : t.Same u)
    (hm : ∀ t, (m t).unplaced = m t.unplaced) {p q : Position} :
    Diagnostic.unplaced ⟨p, m t⟩ = Diagnostic.unplaced ⟨q, m u⟩ := by
  simp only [Diagnostic.unplaced, hm, h.unplaced]

theorem role (h : t.Same u) (form : Script.Form) (nested first : Bool) :
    form.role nested first t = form.role nested first u := by
  simp only [Script.Form.role, h.is]

end Token.Same

/-- The lists agree token by token in all but the positions. -/
abbrev SameTokens (ts us : List Token) : Prop := List.Forall₂ Token.Same ts us

/-- The mistakes without the positions they were noticed at. -/
def unplacedMistakes (ds : List Diagnostic) : List Diagnostic := ds.map Diagnostic.unplaced

variable {α β : Type} {t u : Token} {ts us : List Token}

/-- The readings agree in all but positions. -/
def Read.Same (r : Read α ts) (s : Read α us) : Prop :=
  match r, s with
  | none, none => True
  | some r, some s =>
    r.value = s.value ∧ SameTokens r.rest s.rest ∧
      unplacedMistakes r.reports = unplacedMistakes s.reports
  | none, some _ => False
  | some _, none => False

namespace Read.Same

theorem none : Read.Same (Option.none : Read α ts) (Option.none : Read α us) := trivial

theorem stay (a : α) (h : SameTokens ts us) : Read.Same (.stay a ts) (.stay a us) :=
  ⟨rfl, h, rfl⟩

theorem miss {d e : Diagnostic} (a : α) (hd : d.unplaced = e.unplaced) (h : SameTokens ts us) :
    Read.Same (.miss d a ts) (.miss e a us) :=
  ⟨rfl, h, congrArg (fun d => [d]) hd⟩

theorem past {r : Read α ts} {s : Read α us} (h : Read.Same r s) :
    Read.Same (r.past : Read α (t :: ts)) (s.past : Read α (u :: us)) := by
  cases r <;> cases s <;> exact h

theorem map {r : Read α ts} {s : Read α us} (f : α → β) (h : Read.Same r s) :
    Read.Same (r.map f) (s.map f) := by
  cases r with
  | none =>
    cases s with
    | none => trivial
    | some s => exact h.elim
  | some r =>
    cases s with
    | none => exact h.elim
    | some s => exact ⟨congrArg f h.1, h.2⟩

theorem append_reports {a b c d : List Diagnostic} (h : unplacedMistakes a = unplacedMistakes b)
    (h' : unplacedMistakes c = unplacedMistakes d) :
    unplacedMistakes (a ++ c) = unplacedMistakes (b ++ d) := by
  unfold unplacedMistakes at *
  rw [List.map_append, List.map_append, h, h']

theorem andThen {r : Read α ts} {s : Read α us}
    {k : (a : α) → (vs : List Token) → vs.length ≤ ts.length → Read β vs}
    {l : (a : α) → (vs : List Token) → vs.length ≤ us.length → Read β vs}
    (h : Read.Same r s) (hkl : ∀ a vs ws hv hw, SameTokens vs ws →
      Read.Same (k a vs hv) (l a ws hw)) : Read.Same (r.andThen k) (s.andThen l) := by
  cases r with
  | none =>
    cases s with
    | none => trivial
    | some s => exact h.elim
  | some r =>
    cases s with
    | none => exact h.elim
    | some s =>
      obtain ⟨hvalue, hrest, hreports⟩ := h
      have hnext := hkl r.value r.rest s.rest r.suffix.length_le s.suffix.length_le hrest
      rw [hvalue] at hnext
      unfold Read.andThen
      simp only [hvalue]
      cases hk : k s.value r.rest r.suffix.length_le with
      | none =>
        rw [hk] at hnext
        cases hl : l s.value s.rest s.suffix.length_le with
        | none => trivial
        | some s' =>
          rw [hl] at hnext
          exact hnext.elim
      | some r' =>
        rw [hk] at hnext
        cases hl : l s.value s.rest s.suffix.length_le with
        | none =>
          rw [hl] at hnext
          exact hnext.elim
        | some s' =>
          rw [hl] at hnext
          obtain ⟨hvalue', hrest', hreports'⟩ := hnext
          exact ⟨hvalue', hrest', append_reports hreports hreports'⟩

end Read.Same

theorem expect_same (delimiter : String) (h : SameTokens ts us) :
    Read.Same (expect delimiter ts) (expect delimiter us) := by
  cases h with
  | nil => exact .none
  | cons ht hts =>
    unfold expect
    dsimp only
    rw [ht.is]
    split
    · exact .past (.stay () hts)
    · exact .miss _ (ht.found fun _ => rfl) (.cons ht hts)

namespace Script

theorem number_same (text : String) (otherwise : Float) (h : SameTokens ts us) :
    Read.Same (number text otherwise ts) (number text otherwise us) := by
  unfold number
  split
  · exact .stay _ h
  · exact .miss _ rfl h

mutual

theorem climb_same (tiers : List (List BinaryOp)) {ts us : List Token} (h : SameTokens ts us) :
    Read.Same (climb tiers ts) (climb tiers us) := by
  cases tiers with
  | nil =>
    rw [climb, climb]
    exact operand_same h
  | cons ops tighter =>
    rw [climb, climb]
    apply Read.Same.andThen (climb_same tighter h)
    intro left vs ws _ _ h
    exact climbOn_same ops tighter left h
termination_by 16 * ts.length + tiers.length + 3

theorem climbOn_same (ops : List BinaryOp) (tighter : List (List BinaryOp)) (left : Expr)
    {ts us : List Token} (h : SameTokens ts us) :
    Read.Same (climbOn ops tighter left ts) (climbOn ops tighter left us) := by
  cases h with
  | nil =>
    rw [climbOn]
    exact .none
  | cons ht hts =>
    rw [climbOn, climbOn, ht.infixOp?]
    split
    · exact .stay left (.cons ht hts)
    · next op _ =>
      apply Read.Same.past
      apply Read.Same.andThen (climb_same tighter hts)
      intro right vs ws _ _ h
      exact climbOn_same ops tighter (.binary op left right) h
termination_by 16 * ts.length + tighter.length + 3

theorem operand_same {ts us : List Token} (h : SameTokens ts us) :
    Read.Same (operand ts) (operand us) := by
  cases h with
  | nil =>
    rw [operand]
    exact .none
  | cons ht hts =>
    rw [operand, operand, ht.prefixOp?]
    split
    · exact .past (.map _ (operand_same hts))
    · exact primary_same ht hts
termination_by 16 * ts.length + 2

theorem primary_same {t u : Token} {ts us : List Token} (ht : t.Same u) (h : SameTokens ts us) :
    Read.Same (primary t ts) (primary u us) := by
  rw [primary, primary, ht.kind, ht.text, ht.is, ht.startsReference]
  split
  · exact .past (.map _ (number_same u.text 0 h))
  split
  · apply Read.Same.past
    apply Read.Same.andThen (climb_same expressionTiers h)
    intro e vs ws _ _ h
    exact .map _ (expect_same ")" h)
  split
  · exact .past (reference_same ht h)
  · exact .miss _ (ht.found fun _ => rfl) (.cons ht h)
termination_by 16 * ts.length + 17
decreasing_by all_goals grind [length_expressionTiers]

theorem reference_same {t u : Token} {ts us : List Token} (ht : t.Same u) (h : SameTokens ts us) :
    Read.Same (reference t ts) (reference u us) := by
  rw [reference, reference]
  apply Read.Same.andThen (firstPiece_same ht h)
  intro p vs ws _ _ h
  split
  · exact .stay _ h
  cases h with
  | nil => exact .none
  | cons hv hvs =>
    dsimp only
    rw [hv.opensArguments]
    split
    · exact .past (.map _ (arguments_same hvs))
    · exact .stay _ (.cons hv hvs)
termination_by 16 * ts.length + 16
decreasing_by all_goals grind

theorem firstPiece_same {t u : Token} {ts us : List Token} (ht : t.Same u)
    (h : SameTokens ts us) : Read.Same (firstPiece t ts) (firstPiece u us) := by
  rw [firstPiece, firstPiece, ht.is, ht.text]
  split
  · apply Read.Same.andThen (climb_same expressionTiers h)
    intro e vs ws _ _ h
    apply Read.Same.andThen (expect_same "\x7d" h)
    intro _ vs ws _ _ h
    exact .map _ (pieces_same h)
  · exact .map _ (pieces_same h)
termination_by 16 * ts.length + 12
decreasing_by all_goals grind [length_expressionTiers]

theorem pieces_same {ts us : List Token} (h : SameTokens ts us) :
    Read.Same (pieces ts) (pieces us) := by
  cases h with
  | nil =>
    rw [pieces]
    exact .none
  | cons ht hts =>
    rw [pieces, pieces, ht.joins, ht.adjoins, ht.is]
    split
    · exact .past (firstPiece_same ht hts)
    · exact .stay _ (.cons ht hts)
termination_by 16 * ts.length + 1

theorem arguments_same {ts us : List Token} (h : SameTokens ts us) :
    Read.Same (arguments ts) (arguments us) := by
  cases h with
  | nil =>
    rw [arguments]
    exact .none
  | cons ht hts =>
    rw [arguments, arguments, ht.is]
    split
    · exact .past (.stay _ hts)
    · exact argumentsOn_same (.cons ht hts)
termination_by 16 * ts.length + 11

theorem argumentsOn_same {ts us : List Token} (h : SameTokens ts us) :
    Read.Same (argumentsOn ts) (argumentsOn us) := by
  rw [argumentsOn, argumentsOn]
  apply Read.Same.andThen (climb_same expressionTiers h)
  intro e vs ws _ _ h
  cases h with
  | nil => exact .none
  | cons ht hts =>
    dsimp only
    rw [ht.is]
    split
    · exact .past (.map _ (argumentsOn_same hts))
    · exact .map _ (expect_same ")" (.cons ht hts))
termination_by 16 * ts.length + 10
decreasing_by all_goals grind [length_expressionTiers]

end

theorem nameTail_same (h : SameTokens ts us) : Read.Same (nameTail ts) (nameTail us) := by
  induction h with
  | nil => exact .none
  | cons ht hts ih =>
    rw [nameTail, nameTail, ht.joins, ht.text]
    split
    · exact .past (.map _ ih)
    · exact .stay _ (.cons ht hts)

theorem wantedName_same (wanted : Wanted) (h : SameTokens ts us) :
    Read.Same (wantedName wanted ts) (wantedName wanted us) := by
  cases h with
  | nil => exact .none
  | cons ht hts =>
    unfold wantedName name
    dsimp only
    rw [ht.kind, ht.text]
    split
    · exact .past (.map _ (nameTail_same hts))
    · exact .miss _ (ht.found fun _ => rfl) (.cons ht hts)

theorem params_same {ts us : List Token} (h : SameTokens ts us) :
    Read.Same (params ts) (params us) := by
  rw [params, params]
  apply Read.Same.andThen (wantedName_same .parameterName h)
  intro first vs ws _ _ h
  split
  · exact .stay _ h
  cases h with
  | nil => exact .none
  | cons hv hvs =>
    dsimp only
    rw [hv.is]
    split
    · exact .past (.map _ (params_same hvs))
    · exact .stay _ (.cons hv hvs)
termination_by ts.length
decreasing_by all_goals grind

theorem paramList_same (h : SameTokens ts us) : Read.Same (paramList ts) (paramList us) := by
  cases h with
  | nil => exact .none
  | cons ht hts =>
    unfold paramList
    dsimp only
    rw [ht.is]
    split
    · exact .past (.stay _ hts)
    · apply Read.Same.andThen (params_same (.cons ht hts))
      intro ps vs ws _ _ h
      exact .map _ (expect_same ")" h)

theorem words_same (delimiter before : String) (h : SameTokens ts us) :
    Read.Same (words delimiter before ts) (words delimiter before us) := by
  induction h generalizing before with
  | nil => exact .none
  | cons ht hts ih =>
    rw [words, words, ht.is, ht.kind, ht.space, ht.text]
    split
    · exact .past (.stay _ hts)
    split
    · exact .miss _ (ht.found fun _ => rfl) (.cons ht hts)
    · exact .past (ih _)

theorem skipBrace_same (h : SameTokens ts us) : Read.Same (skipBrace ts) (skipBrace us) := by
  induction h with
  | nil => exact .none
  | cons ht hts ih =>
    rw [skipBrace, skipBrace, ht.is, ht.kind]
    split
    · exact .past (.stay _ hts)
    split
    · exact .stay _ (.cons ht hts)
    · exact .past ih

theorem assignedTo_same (ht : t.Same u) (h : SameTokens ts us) :
    Read.Same (assignedTo t ts) (assignedTo u us) := by
  apply Read.Same.andThen (reference_same ht h)
  intro target vs ws _ _ h
  split
  · exact .stay _ h
  · exact .miss _ rfl h

theorem assignable_same (h : SameTokens ts us) : Read.Same (assignable ts) (assignable us) := by
  cases h with
  | nil => exact .none
  | cons ht hts =>
    unfold assignable
    dsimp only
    rw [ht.startsReference]
    split
    · exact .past (assignedTo_same ht hts)
    · exact .miss _ (ht.found fun _ => rfl) (.cons ht hts)

theorem amount_same (h : SameTokens ts us) : Read.Same (amount ts) (amount us) := by
  cases h with
  | nil => exact .none
  | cons ht hts =>
    unfold amount
    dsimp only
    rw [ht.kind, ht.text]
    split
    · exact .past (number_same _ 1 hts)
    · exact .stay _ (.cons ht hts)

theorem mutation_same (h : SameTokens ts us) : Read.Same (mutation ts) (mutation us) := by
  apply Read.Same.andThen (amount_same h)
  intro n vs ws _ _ h
  exact .map _ (assignable_same h)

theorem closeTerm_same (found : Option Terms) (h : SameTokens ts us) :
    Read.Same (closeTerm found ts) (closeTerm found us) := by
  cases found with
  | none => exact .map _ (skipBrace_same h)
  | some terms => exact .map _ (expect_same "\x7d" h)

theorem guardTerm_same (h : SameTokens ts us) : Read.Same (guardTerm ts) (guardTerm us) := by
  apply Read.Same.andThen (climb_same expressionTiers h)
  intro guard vs ws _ _ h
  cases h with
  | nil => exact .none
  | cons hv hvs =>
    dsimp only
    rw [hv.isOp]
    split
    · exact .past (closeTerm_same _ hvs)
    · exact closeTerm_same _ (.cons hv hvs)

theorem braceTerm_same (h : SameTokens ts us) : Read.Same (braceTerm ts) (braceTerm us) := by
  cases h with
  | nil => exact .none
  | cons ht hts =>
    unfold braceTerm
    dsimp only
    rw [ht.braceForm]
    split
    · apply Read.Same.past
      apply Read.Same.andThen (mutation_same hts)
      intro found vs ws _ _ h
      exact closeTerm_same _ h
    · apply Read.Same.past
      apply Read.Same.andThen (assignable_same hts)
      intro found vs ws _ _ h
      exact closeTerm_same _ h
    · exact guardTerm_same (.cons ht hts)

theorem keywordTerm_same (h : SameTokens ts us) : Read.Same (keywordTerm ts) (keywordTerm us) := by
  apply Read.Same.andThen (words_same ">" "" h)
  intro keyword vs ws _ _ h
  split
  · exact .miss _ rfl h
  · exact .stay _ h

theorem terms_same {ts us : List Token} (h : SameTokens ts us) :
    Read.Same (terms ts) (terms us) := by
  cases h with
  | nil =>
    rw [terms]
    exact .none
  | cons ht hts =>
    rw [terms, terms, ht.is, ht.is]
    split
    · apply Read.Same.past
      apply Read.Same.andThen (keywordTerm_same hts)
      intro first vs ws _ _ h
      exact .map _ (terms_same h)
    split
    · apply Read.Same.past
      apply Read.Same.andThen (braceTerm_same hts)
      intro first vs ws _ _ h
      exact .map _ (terms_same h)
    · exact .stay _ (.cons ht hts)
termination_by ts.length
decreasing_by all_goals grind

theorem textTail_same (h : SameTokens ts us) : Read.Same (textTail ts) (textTail us) := by
  induction h with
  | nil => exact .none
  | cons ht hts ih =>
    rw [textTail, textTail, ht.isText, ht.space, ht.printed]
    split
    · exact .past (.map _ ih)
    · exact .stay _ (.cons ht hts)

end Script

end Storyline
