import Storyline.Proofs.Wording.Tokens

namespace Storyline

/-- The lists agree token by token, but for wording. -/
abbrev AlikeTokens (ts us : List Token) : Prop := List.Forall₂ Token.Alike ts us

variable {α β : Type} {t u : Token} {ts us : List Token} {R : α → α → Prop} {S : β → β → Prop}

theorem here_alike (h : AlikeTokens ts us) : here ts = here us := by
  cases h with
  | nil => rfl
  | cons ht _ => exact ht.pos

/-- Where the mistakes were noticed. -/
def positions (ds : List Diagnostic) : List Position := ds.map Diagnostic.pos

def Read.Alike (R : α → α → Prop) (r : Read α ts) (s : Read α us) : Prop :=
  match r, s with
  | none, none => True
  | some r, some s =>
    R r.value s.value ∧ AlikeTokens r.rest s.rest ∧ positions r.reports = positions s.reports
  | none, some _ => False
  | some _, none => False

namespace Read.Alike

theorem stay {a b : α} (hab : R a b) (h : AlikeTokens ts us) :
    Read.Alike R (.stay a ts) (.stay b us) := ⟨hab, h, rfl⟩

theorem miss {d e : Diagnostic} {a b : α} (hd : d.pos = e.pos) (hab : R a b)
    (h : AlikeTokens ts us) : Read.Alike R (.miss d a ts) (.miss e b us) :=
  ⟨hab, h, congrArg (fun p => [p]) hd⟩

theorem past {r : Read α ts} {s : Read α us} (h : Read.Alike R r s) :
    Read.Alike R (r.past : Read α (t :: ts)) (s.past : Read α (u :: us)) := by
  cases r <;> cases s <;> exact h

theorem map {r : Read α ts} {s : Read α us} {f g : α → β} (h : Read.Alike R r s)
    (hfg : ∀ a b, R a b → S (f a) (g b)) : Read.Alike S (r.map f) (s.map g) := by
  cases r with
  | none =>
    cases s with
    | none => trivial
    | some s => exact h.elim
  | some r =>
    cases s with
    | none => exact h.elim
    | some s => exact ⟨hfg _ _ h.1, h.2⟩

theorem andThen {r : Read α ts} {s : Read α us}
    {k : (a : α) → (vs : List Token) → vs.length ≤ ts.length → Read β vs}
    {l : (a : α) → (vs : List Token) → vs.length ≤ us.length → Read β vs}
    (h : Read.Alike R r s) (hkl : ∀ a b vs ws hv hw, R a b → AlikeTokens vs ws →
      Read.Alike S (k a vs hv) (l b ws hw)) : Read.Alike S (r.andThen k) (s.andThen l) := by
  cases r with
  | none =>
    cases s with
    | none => trivial
    | some s => exact h.elim
  | some r =>
    cases s with
    | none => exact h.elim
    | some s =>
      obtain ⟨hvalue, hrest, hpos⟩ := h
      have hnext := hkl _ _ _ _ r.suffix.length_le s.suffix.length_le hvalue hrest
      unfold Read.andThen
      cases hk : k r.value r.rest r.suffix.length_le with
      | none =>
        rw [hk] at hnext
        cases hl : l s.value s.rest s.suffix.length_le with
        | none => simp only [hk, hl, Read.Alike]
        | some s' =>
          rw [hl] at hnext
          exact hnext.elim
      | some r' =>
        rw [hk] at hnext
        cases hl : l s.value s.rest s.suffix.length_le with
        | none =>
          rw [hl] at hnext
          exact hnext.elim
        | some s' =>
          rw [hl] at hnext
          simp only [hk, hl]
          refine ⟨hnext.1, hnext.2.1, ?_⟩
          show positions (r.reports ++ r'.reports) = positions (s.reports ++ s'.reports)
          rw [positions, positions, List.map_append, List.map_append]
          exact congrArg₂ (· ++ ·) hpos hnext.2.2

theorem map_eq {r : Read α ts} {s : Read α us} (f : α → β) (h : Read.Alike Eq r s) :
    Read.Alike Eq (r.map f) (s.map f) := h.map fun _ _ hab => congrArg f hab

theorem andThen_eq {r : Read α ts} {s : Read α us}
    {k : (a : α) → (vs : List Token) → vs.length ≤ ts.length → Read β vs}
    {l : (a : α) → (vs : List Token) → vs.length ≤ us.length → Read β vs}
    (h : Read.Alike Eq r s) (hkl : ∀ a vs ws hv hw, AlikeTokens vs ws →
      Read.Alike S (k a vs hv) (l a ws hw)) : Read.Alike S (r.andThen k) (s.andThen l) := by
  refine h.andThen fun a b vs ws hv hw hab hrest => ?_
  subst hab
  exact hkl a vs ws hv hw hrest

end Read.Alike

theorem expect_alike (delimiter : String) (h : AlikeTokens ts us) :
    Read.Alike Eq (expect delimiter ts) (expect delimiter us) := by
  cases h with
  | nil => trivial
  | cons ht hts =>
    unfold expect
    dsimp only
    rw [ht.is]
    split
    · exact .past (.stay rfl hts)
    · exact .miss ht.pos rfl (.cons ht hts)

namespace Script

theorem number_alike (text : String) (otherwise : Float) (h : AlikeTokens ts us) :
    Read.Alike Eq (number text otherwise ts) (number text otherwise us) := by
  unfold number
  split
  · exact .stay rfl h
  · exact .miss (here_alike h) rfl h

mutual

theorem climb_alike (tiers : List (List BinaryOp)) {ts us : List Token} (h : AlikeTokens ts us) :
    Read.Alike Eq (climb tiers ts) (climb tiers us) := by
  cases tiers with
  | nil =>
    rw [climb, climb]
    exact operand_alike h
  | cons ops tighter =>
    rw [climb, climb]
    exact .andThen_eq (climb_alike tighter h) fun left vs ws _ _ h =>
      climbOn_alike ops tighter left h
termination_by 16 * ts.length + tiers.length + 3

theorem climbOn_alike (ops : List BinaryOp) (tighter : List (List BinaryOp)) (left : Expr)
    {ts us : List Token} (h : AlikeTokens ts us) :
    Read.Alike Eq (climbOn ops tighter left ts) (climbOn ops tighter left us) := by
  cases h with
  | nil =>
    rw [climbOn]
    trivial
  | cons ht hts =>
    rw [climbOn, climbOn, infixOp?_alike ht]
    split
    · exact .stay rfl (.cons ht hts)
    · next op _ =>
      exact .past <| .andThen_eq (climb_alike tighter hts) fun right vs ws _ _ h =>
        climbOn_alike ops tighter (.binary op left right) h
termination_by 16 * ts.length + tighter.length + 3

theorem operand_alike {ts us : List Token} (h : AlikeTokens ts us) :
    Read.Alike Eq (operand ts) (operand us) := by
  cases h with
  | nil =>
    rw [operand]
    trivial
  | cons ht hts =>
    rw [operand, operand, prefixOp?_alike ht]
    split
    · exact .past (.map_eq _ (operand_alike hts))
    · exact primary_alike ht hts
termination_by 16 * ts.length + 2

theorem primary_alike {t u : Token} {ts us : List Token} (ht : t.Alike u)
    (h : AlikeTokens ts us) : Read.Alike Eq (primary t ts) (primary u us) := by
  rw [primary, primary, ht.kind, ht.is, startsReference_alike ht]
  split
  · next hk =>
    rw [ht.text_eq_of_kind (ht.kind.trans hk) rfl]
    exact .past (.map_eq _ (number_alike u.text 0 h))
  split
  · exact .past <| .andThen_eq (climb_alike expressionTiers h) fun e vs ws _ _ h =>
      .map_eq _ (expect_alike ")" h)
  split
  · next hs =>
    rw [← startsReference_alike ht] at hs
    exact .past (reference_alike ht (text_eq_of_startsReference ht hs) h)
  · exact .miss ht.pos rfl (.cons ht h)
termination_by 16 * ts.length + 17
decreasing_by all_goals grind [length_expressionTiers]

theorem reference_alike {t u : Token} {ts us : List Token} (ht : t.Alike u)
    (htext : t.text = u.text) (h : AlikeTokens ts us) :
    Read.Alike Eq (reference t ts) (reference u us) := by
  rw [reference, reference]
  refine .andThen_eq (firstPiece_alike ht htext h) fun p vs ws _ _ h => ?_
  split
  · exact .stay rfl h
  cases h with
  | nil => trivial
  | cons hv hvs =>
    dsimp only
    rw [opensArguments_alike hv]
    split
    · exact .past (.map_eq _ (arguments_alike hvs))
    · exact .stay rfl (.cons hv hvs)
termination_by 16 * ts.length + 16
decreasing_by all_goals grind

theorem firstPiece_alike {t u : Token} {ts us : List Token} (ht : t.Alike u)
    (htext : t.text = u.text) (h : AlikeTokens ts us) :
    Read.Alike Eq (firstPiece t ts) (firstPiece u us) := by
  rw [firstPiece, firstPiece, ht.is]
  split
  · refine .andThen_eq (climb_alike expressionTiers h) fun e vs ws _ _ h => ?_
    exact .andThen_eq (expect_alike "\x7d" h) fun _ vs ws _ _ h => .map_eq _ (pieces_alike h)
  · rw [htext]
    exact .map_eq _ (pieces_alike h)
termination_by 16 * ts.length + 12
decreasing_by all_goals grind [length_expressionTiers]

theorem pieces_alike {ts us : List Token} (h : AlikeTokens ts us) :
    Read.Alike Eq (pieces ts) (pieces us) := by
  cases h with
  | nil =>
    rw [pieces]
    trivial
  | @cons t u ts us ht hts =>
    rw [pieces, pieces]
    have htext : (joins t || (t.adjoins && t.is "\x7b")) = true → t.text = u.text := by
      rw [Bool.or_eq_true, Bool.and_eq_true]
      rintro (hj | ⟨-, hb⟩)
      · exact text_eq_of_joins ht hj
      · exact ht.text_eq_of_is hb
    rw [← joins_alike ht, ← ht.adjoins, ← ht.is]
    split
    · next hc => exact .past (firstPiece_alike ht (htext hc) hts)
    · exact .stay rfl (.cons ht hts)
termination_by 16 * ts.length + 1

theorem arguments_alike {ts us : List Token} (h : AlikeTokens ts us) :
    Read.Alike Eq (arguments ts) (arguments us) := by
  cases h with
  | nil =>
    rw [arguments]
    trivial
  | cons ht hts =>
    rw [arguments, arguments, ht.is]
    split
    · exact .past (.stay rfl hts)
    · exact argumentsOn_alike (.cons ht hts)
termination_by 16 * ts.length + 11

theorem argumentsOn_alike {ts us : List Token} (h : AlikeTokens ts us) :
    Read.Alike Eq (argumentsOn ts) (argumentsOn us) := by
  rw [argumentsOn, argumentsOn]
  refine .andThen_eq (climb_alike expressionTiers h) fun e vs ws _ _ h => ?_
  cases h with
  | nil => trivial
  | cons ht hts =>
    dsimp only
    rw [ht.is]
    split
    · exact .past (.map_eq _ (argumentsOn_alike hts))
    · exact .map_eq _ (expect_alike ")" (.cons ht hts))
termination_by 16 * ts.length + 10
decreasing_by all_goals grind [length_expressionTiers]

end

theorem expression_alike (h : AlikeTokens ts us) :
    Read.Alike Eq (expression ts) (expression us) := climb_alike _ h

theorem selector_alike (h : AlikeTokens ts us) :
    Read.Alike Eq (selector ts) (selector us) := climb_alike _ h

theorem nameTail_alike (h : AlikeTokens ts us) :
    Read.Alike Eq (nameTail ts) (nameTail us) := by
  induction h with
  | nil => trivial
  | cons ht hts ih =>
    rw [nameTail, nameTail, ← joins_alike ht]
    split
    · next hj =>
      rw [text_eq_of_joins ht hj]
      exact .past (.map_eq _ ih)
    · exact .stay rfl (.cons ht hts)

theorem wantedName_alike (wanted : Wanted) (h : AlikeTokens ts us) :
    Read.Alike Eq (wantedName wanted ts) (wantedName wanted us) := by
  cases h with
  | nil => trivial
  | cons ht hts =>
    unfold wantedName name
    dsimp only
    rw [ht.kind]
    split
    · next hk =>
      rw [ht.text_eq_of_kind (ht.kind.trans hk) rfl]
      exact .past (.map_eq _ (nameTail_alike hts))
    · exact .miss ht.pos rfl (.cons ht hts)

theorem params_alike {ts us : List Token} (h : AlikeTokens ts us) :
    Read.Alike Eq (params ts) (params us) := by
  rw [params, params]
  refine .andThen_eq (wantedName_alike .parameterName h) fun first vs ws _ _ h => ?_
  split
  · exact .stay rfl h
  cases h with
  | nil => trivial
  | cons hv hvs =>
    dsimp only
    rw [hv.is]
    split
    · exact .past (.map_eq _ (params_alike hvs))
    · exact .stay rfl (.cons hv hvs)
termination_by ts.length
decreasing_by all_goals grind

theorem paramList_alike (h : AlikeTokens ts us) :
    Read.Alike Eq (paramList ts) (paramList us) := by
  cases h with
  | nil => trivial
  | cons ht hts =>
    unfold paramList
    dsimp only
    rw [ht.is]
    split
    · exact .past (.stay rfl hts)
    · exact .andThen_eq (params_alike (.cons ht hts)) fun _ vs ws _ _ h =>
        .map_eq _ (expect_alike ")" h)

/-- Both are empty or neither is. -/
def Vacant (a b : String) : Prop := a = "" ↔ b = ""

theorem Vacant.append {a b c d : String} (h : Vacant a b) (h' : Vacant c d) :
    Vacant (a ++ c) (b ++ d) := by
  unfold Vacant at *
  simp only [String.append_eq_empty_iff, h, h']

/-- The words themselves are wording, but not whether there are any. -/
theorem words_alike (delimiter : String) {before before' : String} (hb : Vacant before before')
    (h : AlikeTokens ts us) :
    Read.Alike Vacant (words delimiter before ts) (words delimiter before' us) := by
  induction h generalizing before before' with
  | nil => trivial
  | @cons t u ts us ht hts ih =>
    rw [words, words, ht.is, ht.kind]
    split
    · exact .past (.stay hb hts)
    split
    · exact .miss ht.pos hb (.cons ht hts)
    · have hspace : Vacant (if before = "" then "" else t.space)
          (if before' = "" then "" else u.space) := by
        by_cases he : before = ""
        · rw [if_pos he, if_pos (hb.mp he)]
          exact .rfl
        · rw [if_neg he, if_neg fun he' => he (hb.mpr he'), ht.space]
          exact .rfl
      exact .past (ih ((hb.append hspace).append ht.isEmpty_iff))

theorem skipBrace_alike (h : AlikeTokens ts us) :
    Read.Alike Eq (skipBrace ts) (skipBrace us) := by
  induction h with
  | nil => trivial
  | cons ht hts ih =>
    rw [skipBrace, skipBrace, ht.is, ht.kind]
    split
    · exact .past (.stay rfl hts)
    split
    · exact .stay rfl (.cons ht hts)
    · exact .past ih

theorem assignedTo_alike (ht : t.Alike u) (hs : startsReference t = true)
    (h : AlikeTokens ts us) : Read.Alike Eq (assignedTo t ts) (assignedTo u us) := by
  refine .andThen_eq (reference_alike ht (text_eq_of_startsReference ht hs) h)
    fun target vs ws _ _ h => ?_
  split
  · exact .stay rfl h
  · exact .miss (here_alike h) rfl h

theorem assignable_alike (h : AlikeTokens ts us) :
    Read.Alike Eq (assignable ts) (assignable us) := by
  cases h with
  | nil => trivial
  | cons ht hts =>
    unfold assignable
    dsimp only
    rw [← startsReference_alike ht]
    split
    · next hs => exact .past (assignedTo_alike ht hs hts)
    · exact .miss ht.pos rfl (.cons ht hts)

theorem amount_alike (h : AlikeTokens ts us) : Read.Alike Eq (amount ts) (amount us) := by
  cases h with
  | nil => trivial
  | cons ht hts =>
    unfold amount
    dsimp only
    rw [ht.kind]
    split
    · next hk =>
      rw [ht.text_eq_of_kind (ht.kind.trans hk) rfl]
      exact .past (number_alike _ 1 hts)
    · exact .stay rfl (.cons ht hts)

theorem mutation_alike (h : AlikeTokens ts us) :
    Read.Alike Eq (mutation ts) (mutation us) :=
  .andThen_eq (amount_alike h) fun _ _ _ _ _ h => .map_eq _ (assignable_alike h)

/-- The terms agree but for their keywords. -/
def Terms.Alike (a b : Terms) : Prop := a.guards = b.guards ∧ a.consequences = b.consequences

theorem closeTerm_alike (found : Option Terms) (h : AlikeTokens ts us) :
    Read.Alike Eq (closeTerm found ts) (closeTerm found us) := by
  cases found with
  | none => exact .map_eq _ (skipBrace_alike h)
  | some terms => exact .map_eq _ (expect_alike "\x7d" h)

theorem guardTerm_alike (h : AlikeTokens ts us) :
    Read.Alike Eq (guardTerm ts) (guardTerm us) := by
  refine .andThen_eq (expression_alike h) fun guard vs ws _ _ h => ?_
  cases h with
  | nil => trivial
  | cons hv hvs =>
    dsimp only
    rw [hv.isOp]
    split
    · exact .past (closeTerm_alike _ hvs)
    · exact closeTerm_alike _ (.cons hv hvs)

theorem braceTerm_alike (h : AlikeTokens ts us) :
    Read.Alike Eq (braceTerm ts) (braceTerm us) := by
  cases h with
  | nil => trivial
  | cons ht hts =>
    unfold braceTerm
    dsimp only
    rw [braceForm_alike ht]
    split
    · exact .past <| .andThen_eq (mutation_alike hts) fun _ vs ws _ _ h => closeTerm_alike _ h
    · exact .past <| .andThen_eq (assignable_alike hts) fun _ vs ws _ _ h => closeTerm_alike _ h
    · exact guardTerm_alike (.cons ht hts)

theorem keywordTerm_alike (h : AlikeTokens ts us) :
    Read.Alike Terms.Alike (keywordTerm ts) (keywordTerm us) := by
  refine .andThen (words_alike ">" .rfl h) fun keyword keyword' vs ws _ _ hk h => ?_
  by_cases he : keyword = ""
  · rw [if_pos he, if_pos (hk.mp he)]
    exact .miss (here_alike h) ⟨rfl, rfl⟩ h
  · rw [if_neg he, if_neg fun he' => he (hk.mpr he')]
    exact .stay ⟨rfl, rfl⟩ h

theorem terms_alike {ts us : List Token} (h : AlikeTokens ts us) :
    Read.Alike Terms.Alike (terms ts) (terms us) := by
  cases h with
  | nil =>
    rw [terms]
    trivial
  | cons ht hts =>
    have append {a b c d : Terms} (h : Terms.Alike a b) (h' : Terms.Alike c d) :
        Terms.Alike (a ++ c) (b ++ d) :=
      ⟨congrArg₂ (· ++ ·) h.1 h'.1, congrArg₂ (· ++ ·) h.2 h'.2⟩
    rw [terms, terms, ht.is, ht.is]
    split
    · exact .past <| .andThen (keywordTerm_alike hts) fun _ _ vs ws _ _ hab h =>
        .map (terms_alike h) fun _ _ hcd => append hab hcd
    split
    · exact .past <| .andThen_eq (braceTerm_alike hts) fun _ vs ws _ _ h =>
        .map (terms_alike h) fun _ _ hcd => append ⟨rfl, rfl⟩ hcd
    · exact .stay ⟨rfl, rfl⟩ (.cons ht hts)
termination_by ts.length
decreasing_by all_goals grind

end Script

end Storyline
