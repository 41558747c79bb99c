import Storyline.Proofs.Places.Reading

namespace Storyline

variable {α β γ δ : Type} {t u : Token} {ts us : List Token}

/-- The values are the same under `f`, which takes their positions away. -/
def Span.Same (f : α → γ) (s : Span α ts) (s' : Span α us) : Prop :=
  f s.value = f s'.value ∧ SameTokens s.rest s'.rest

/-- The items are the same without their positions. -/
abbrev Span.SameItems (s : Span (List Item) ts) (s' : Span (List Item) us) : Prop :=
  Span.Same Script.unplaced s s'

/-- Items from the same mistakes are the same. -/
theorem unplaced_items_of_reports {ds es : List Diagnostic}
    (h : unplacedMistakes ds = unplacedMistakes es) :
    Script.unplaced (ds.map .report) = Script.unplaced (es.map .report) := by
  rw [Script.unplaced_reports, Script.unplaced_reports]
  exact congrArg (List.map Item.report) h

theorem append_unplaced {a b c d : List Item} (h : Script.unplaced a = Script.unplaced b)
    (h' : Script.unplaced c = Script.unplaced d) :
    Script.unplaced (a ++ c) = Script.unplaced (b ++ d) := by
  rw [Script.unplaced_append, Script.unplaced_append, h, h']

namespace Span.Same

variable {f : α → γ}

theorem stay {a b : α} (hab : f a = f b) (h : SameTokens ts us) :
    Span.Same f (.stay a ts) (.stay b us) := ⟨hab, h⟩

theorem finish {a b : α} (hab : f a = f b) : Span.Same f (.finish a ts) (.finish b us) :=
  ⟨hab, .nil⟩

theorem past {s : Span α ts} {s' : Span α us} (h : Span.Same f s s') :
    Span.Same f (s.past : Span α (t :: ts)) (s'.past : Span α (u :: us)) := h

theorem map {g : β → δ} {s : Span α ts} {s' : Span α us} {m n : α → β}
    (h : Span.Same f s s') (hmn : ∀ a b, f a = f b → g (m a) = g (n b)) :
    Span.Same g (s.map m) (s'.map n) := ⟨hmn _ _ h.1, h.2⟩

theorem bind {g : β → δ} {s : Span α ts} {s' : Span α us}
    {k : (a : α) → (vs : List Token) → vs.length ≤ ts.length → Span β vs}
    {l : (a : α) → (vs : List Token) → vs.length ≤ us.length → Span β vs}
    (h : Span.Same f s s') (hkl : ∀ a b vs ws hv hw, f a = f b → SameTokens vs ws →
      Span.Same g (k a vs hv) (l b ws hw)) : Span.Same g (s.bind k) (s'.bind l) :=
  hkl _ _ _ _ s.suffix.length_le s'.suffix.length_le h.1 h.2

theorem andThen {s : Span (List Item) ts} {s' : Span (List Item) us}
    {k : (vs : List Token) → vs.length ≤ ts.length → Span (List Item) vs}
    {l : (vs : List Token) → vs.length ≤ us.length → Span (List Item) vs}
    (h : Span.SameItems s s') (hkl : ∀ vs ws hv hw, SameTokens vs ws →
      Span.SameItems (k vs hv) (l ws hw)) : Span.SameItems (s.andThen k) (s'.andThen l) := by
  have hnext := hkl _ _ s.suffix.length_le s'.suffix.length_le h.2
  exact ⟨append_unplaced h.1 hnext.1, hnext.2⟩

theorem after {a b : List Item} {s : Span (List Item) ts} {s' : Span (List Item) us}
    (hab : Script.unplaced a = Script.unplaced b) (h : Span.SameItems s s') :
    Span.SameItems (.after a s) (.after b s') := ⟨append_unplaced hab h.1, h.2⟩

/-- The mistakes of a reading, then the items its value stands for. -/
theorem items {r : Read α ts} {s : Read α us}
    {k : (a : α) → (vs : List Token) → vs.length ≤ ts.length → Span (List Item) vs}
    {l : (a : α) → (vs : List Token) → vs.length ≤ us.length → Span (List Item) vs}
    (h : Read.Same r s) (hkl : ∀ a vs ws hv hw, SameTokens vs ws →
      Span.SameItems (k a vs hv) (l a ws hw)) : Span.SameItems (r.items k) (s.items l) := by
  cases r with
  | none =>
    cases s with
    | none => exact .finish rfl
    | some s => exact h.elim
  | some r =>
    cases s with
    | none => exact h.elim
    | some s =>
      obtain ⟨hvalue, hrest, hreports⟩ := h
      have hnext := hkl r.value _ _ r.suffix.length_le s.suffix.length_le hrest
      have hitems := append_unplaced (unplaced_items_of_reports hreports) hnext.1
      unfold Read.items
      simp only [← hvalue]
      exact ⟨hitems, hnext.2⟩

end Span.Same

/-- A report at the next token says the same without its position. -/
theorem unplaced_report {d e : Diagnostic} (h : d.unplaced = e.unplaced) :
    Script.unplaced [.report d] = Script.unplaced [.report e] := by
  simp only [Script.unplaced, Item.unplaced, h]

namespace Script

theorem textRun_same (ht : t.Same u) (h : SameTokens ts us) :
    Span.SameItems (textRun t ts) (textRun u us) := by
  apply Span.Same.items (textTail_same h)
  intro (tail, drop) vs ws _ _ h
  apply Span.Same.stay _ h
  simp only [Script.unplaced, Item.unplaced, ht.printed, ht.space]

theorem cue_same {pos pos' : Position} (h : SameTokens ts us) :
    Span.SameItems (cue pos ts) (cue pos' us) := by
  apply Span.Same.items (words_same ">" "" h)
  intro name vs ws _ _ h
  split <;> exact .stay rfl h

theorem destination_same {pos pos' : Position} (h : SameTokens ts us) :
    Span.SameItems (destination pos ts) (destination pos' us) := by
  apply Span.Same.items (wantedName_same .labelName h)
  intro found vs ws _ _ h
  split
  · exact .stay rfl h
  cases h with
  | nil => exact .finish rfl
  | cons hv hvs =>
    dsimp only
    rw [hv.opensArguments]
    split
    · apply Span.Same.past
      apply Span.Same.items (arguments_same hvs)
      intro args vs ws _ _ h
      exact .stay rfl h
    · exact .stay rfl (.cons hv hvs)

theorem braced_same {pos pos' : Position} (content : Content) (h : SameTokens ts us) :
    Span.SameItems (braced pos content ts) (braced pos' content us) := by
  apply Span.Same.items (expect_same "\x7d" h)
  intro _ vs ws _ _ h
  exact .stay rfl h

theorem malformed_same (h : SameTokens ts us) : Span.SameItems (malformed ts) (malformed us) := by
  apply Span.Same.items (skipBrace_same h)
  intro _ vs ws _ _ h
  exact .stay rfl h

theorem change_same {pos pos' : Position} (op : BinaryOp) (h : SameTokens ts us) :
    Span.SameItems (change pos op ts) (change pos' op us) := by
  apply Span.Same.items (mutation_same h)
  intro found vs ws _ _ h
  split
  · exact malformed_same h
  · exact braced_same _ h

theorem put_same {pos pos' : Position} (value : Float) (h : SameTokens ts us) :
    Span.SameItems (put pos value ts) (put pos' value us) := by
  apply Span.Same.items (assignable_same h)
  intro found vs ws _ _ h
  split
  · exact malformed_same h
  · exact braced_same _ h

theorem echo_same {pos pos' : Position} (h : SameTokens ts us) :
    Span.SameItems (echo pos ts) (echo pos' us) := by
  apply Span.Same.items (climb_same expressionTiers h)
  intro e vs ws _ _ h
  exact braced_same (.echo e) h

theorem closeBrace_same (h : SameTokens ts us) :
    Span.SameItems (closeBrace ts) (closeBrace us) := by
  apply Span.Same.items (expect_same "\x7d" h)
  intro _ vs ws _ _ h
  exact .stay rfl h

theorem skipBlock_same (depth : Nat) (h : SameTokens ts us) :
    Span.SameItems (skipBlock depth ts) (skipBlock depth us) := by
  induction h generalizing depth with
  | nil => exact .finish rfl
  | cons ht hts ih =>
    unfold skipBlock
    rw [ht.kind]
    split
    · exact .past (.stay rfl hts)
    · exact .past (ih _)
    · exact .past (ih _)
    · exact .past (ih _)

theorem endBlock_same (h : SameTokens ts us) : Span.SameItems (endBlock ts) (endBlock us) := by
  cases h with
  | nil => exact .finish rfl
  | cons ht hts =>
    unfold endBlock
    dsimp only
    rw [ht.kind]
    split
    · exact .past (.stay rfl hts)
    · apply Span.Same.after
      · exact unplaced_report (ht.found fun _ => rfl)
      · exact skipBlock_same 0 (.cons ht hts)

theorem program_same {ts us : List Token} (h : SameTokens ts us) :
    Span.SameItems (program ts) (program us) := by
  cases h with
  | nil =>
    rw [program]
    exact .finish rfl
  | cons ht hts =>
    rw [program, program, ht.kind, ht.is, ht.startsReference]
    split
    · exact .stay rfl (.cons ht hts)
    split
    · exact .past (program_same hts)
    split
    · apply Span.Same.past
      apply Span.Same.items (assignedTo_same ht hts)
      intro target vs ws _ _ h
      cases h with
      | nil => exact .finish rfl
      | cons hv hvs =>
        dsimp only
        cases target with
        | none =>
          apply Span.Same.past
          apply Span.Same.after _ (program_same hvs)
          rw [hvs.length_eq]
        | some target =>
          dsimp only
          rw [hv.assignmentOp?]
          split
          · apply Span.Same.after
            · exact unplaced_report (hv.found fun _ => rfl)
            · exact program_same (.cons hv hvs)
          · apply Span.Same.past
            apply Span.Same.items (climb_same expressionTiers hvs)
            intro value xs ys _ _ h
            exact .after rfl (program_same h)
    · apply Span.Same.past
      apply Span.Same.after
      · exact unplaced_report (ht.found fun _ => rfl)
      · exact program_same hts
termination_by ts.length
decreasing_by all_goals (simp only [List.length_cons] at *; omega)

theorem lead_same {a : α} {r : Read α ts} {s : Read α us} (h : Read.Same r s) :
    Span.Same (fun found => (found.1, Script.unplaced found.2)) (r.lead a) (s.lead a) := by
  cases r with
  | none =>
    cases s with
    | none => exact .finish rfl
    | some s => exact h.elim
  | some r =>
    cases s with
    | none => exact h.elim
    | some s => exact ⟨Prod.ext h.1 (unplaced_items_of_reports h.2.2), h.2.1⟩

theorem weight_same (weighted : Bool) (h : SameTokens ts us) :
    Span.Same (fun found => (found.1, Script.unplaced found.2)) (weight weighted ts)
      (weight weighted us) := by
  cases h with
  | nil => exact .stay rfl .nil
  | cons ht hts =>
    unfold weight
    dsimp only
    rw [ht.is]
    split
    · apply Span.Same.past
      apply lead_same
      apply Read.Same.andThen (climb_same expressionTiers hts)
      intro e vs ws _ _ h
      exact .map _ (expect_same ")" h)
    · exact .stay rfl (.cons ht hts)

theorem last_same (form : Form) {lead lead' : List Item}
    (hl : Script.unplaced lead = Script.unplaced lead') {s : Span (List Item) ts}
    {s' : Span (List Item) us} (h : Span.SameItems s s') :
    Span.Same unplacedParts (form.last lead s) (form.last lead' s') := by
  apply Span.Same.map h
  intro a b hab
  simp only [unplacedParts, append_unplaced hl hab]

/-- A part of an option is the same without its position if its items are. -/
theorem part_same {pos pos' : Position} (role : Role) {body body' : List Item}
    {rest rest' : List Segment} (hb : Script.unplaced body = Script.unplaced body')
    (hr : unplacedParts rest = unplacedParts rest') :
    unplacedParts (.mk pos role body :: rest) = unplacedParts (.mk pos' role body' :: rest') := by
  simp only [unplacedParts, hb, hr]

mutual

theorem thread_same {ts us : List Token} (h : SameTokens ts us) :
    Span.SameItems (thread ts) (thread us) := by
  cases h with
  | nil =>
    rw [thread]
    exact .finish rfl
  | cons ht hts =>
    rw [thread, thread, ht.sign, ht.text]
    split
    · exact .stay rfl (.cons ht hts)
    · exact .past (thread_same hts)
    · exact .past (.after rfl (thread_same hts))
    · exact .past (.after rfl (thread_same hts))
    · exact .past (.after rfl (thread_same hts))
    · exact .past (.andThen (textRun_same ht hts) fun _ _ _ _ h => thread_same h)
    · exact .past (.andThen (cue_same hts) fun _ _ _ _ h => thread_same h)
    · exact .past (.andThen (destination_same hts) fun _ _ _ _ h => thread_same h)
    · exact .past (.andThen (block_same ht hts) fun _ _ _ _ h => thread_same h)
    · exact .past (.andThen (brace_same hts) fun _ _ _ _ h => thread_same h)
    · exact .past (.andThen (label_same hts) fun _ _ _ _ h => thread_same h)
termination_by 7 * ts.length
decreasing_by all_goals (simp only [List.length_cons] at *; omega)

theorem block_same {t u : Token} {ts us : List Token} (ht : t.Same u) (h : SameTokens ts us) :
    Span.SameItems (block t ts) (block u us) := by
  rw [block, block, ht.text]
  apply Span.Same.andThen
  · split
    · exact option_same .repeated h
    · exact option_same .once h
    · exact thread_same h
    · exact .after rfl (thread_same h)
    · exact program_same h
    · exact .after rfl (thread_same h)
  · intro _ _ _ _ h
    exact endBlock_same h
termination_by 7 * ts.length + 6
decreasing_by all_goals omega

theorem brace_same {pos pos' : Position} {ts us : List Token} (h : SameTokens ts us) :
    Span.SameItems (brace pos ts) (brace pos' us) := by
  cases h with
  | nil =>
    rw [brace, brace]
    exact .finish rfl
  | cons ht hts =>
    rw [brace, brace, ht.braceForm, ht.isOp, ht.sigil?]
    split
    · exact .past (change_same _ hts)
    · exact .past (put_same _ hts)
    split
    · exact .past (echo_same hts)
    split
    · exact .past (switch_same _ hts)
    apply Span.Same.items (climb_same selectorTiers (.cons ht hts))
    intro e vs ws _ _ h
    cases h with
    | nil => exact .finish rfl
    | cons hv hvs =>
      dsimp only
      rw [hv.is, hv.is, hv.isOp, hv.isOp]
      split
      · exact .past (.stay rfl hvs)
      split
      · exact .past (jump_same e hvs)
      split
      · exact .past (switch_same _ hvs)
      split
      · exact .past (switch_same _ hvs)
      · apply Span.Same.stay _ (.cons hv hvs)
        exact append_unplaced (unplaced_report (hv.found fun _ => rfl)) rfl
termination_by 7 * ts.length + 5
decreasing_by all_goals (simp only [List.length_cons] at *; omega)

theorem jump_same {pos pos' : Position} (condition : Expr) {ts us : List Token}
    (h : SameTokens ts us) :
    Span.SameItems (jump pos condition ts) (jump pos' condition us) := by
  rw [jump, jump]
  apply Span.Same.bind (thread_same h)
  intro yes yes' vs ws _ _ hyes h
  cases h with
  | nil => exact .finish (by simp only [Script.unplaced, Item.unplaced, hyes])
  | cons hv hvs =>
    dsimp only
    rw [hv.is]
    split
    · apply Span.Same.past
      apply Span.Same.bind (thread_same hvs)
      intro no no' _ _ _ _ hno h
      apply Span.Same.after _ (closeBrace_same h)
      simp only [Script.unplaced, Item.unplaced, hyes, hno]
    · apply Span.Same.after _ (closeBrace_same (.cons hv hvs))
      simp only [Script.unplaced, Item.unplaced, hyes]
termination_by 7 * ts.length + 3
decreasing_by all_goals (simp only [List.length_cons] at *; omega)

theorem switch_same {pos pos' : Position} (selection : Selection) {ts us : List Token}
    (h : SameTokens ts us) :
    Span.SameItems (switch pos selection ts) (switch pos' selection us) := by
  rw [switch, switch]
  apply Span.Same.bind (cases_same selection.isWeighted h)
  intro found found' _ _ _ _ hf h
  apply Span.Same.after _ (closeBrace_same h)
  simp only [Script.unplaced, Item.unplaced, unplacedCases_padded, hf]
termination_by 7 * ts.length + 3
decreasing_by all_goals omega

theorem cases_same (weighted : Bool) {ts us : List Token} (h : SameTokens ts us) :
    Span.Same unplacedCases (cases weighted ts) (cases weighted us) := by
  rw [cases, cases]
  apply Span.Same.bind (weight_same weighted h)
  intro (w, lead) (w', lead') vs ws _ _ hw h
  obtain ⟨rfl, hlead⟩ : w = w' ∧ unplaced lead = unplaced lead' := Prod.ext_iff.mp hw
  apply Span.Same.bind (thread_same h)
  intro body body' _ _ _ _ hbody h
  have hcase := append_unplaced hlead hbody
  cases h with
  | nil => exact .finish (by simp only [unplacedCases, hcase])
  | cons hv hvs =>
    dsimp only
    rw [hv.is]
    split
    · apply Span.Same.past
      apply Span.Same.map (cases_same weighted hvs)
      intro rest rest' hrest
      simp only [unplacedCases, hcase, hrest]
    · exact .stay (by simp only [unplacedCases, hcase]) (.cons hv hvs)
termination_by 7 * ts.length + 2
decreasing_by all_goals (simp only [List.length_cons] at *; omega)

theorem label_same {pos pos' : Position} {ts us : List Token} (h : SameTokens ts us) :
    Span.SameItems (label pos ts) (label pos' us) := by
  cases h with
  | nil =>
    rw [label, label]
    exact .finish rfl
  | cons ht hts =>
    rw [label, label, ht.is]
    split
    · apply Span.Same.past
      apply Span.Same.map (thread_same hts)
      intro body body' hbody
      simp only [Script.unplaced, Item.unplaced, hbody]
    apply Span.Same.items (wantedName_same .labelName (.cons ht hts))
    intro found _ _ _ _ h
    split
    · exact .stay rfl h
    cases h with
    | nil => exact .finish rfl
    | cons hv hvs =>
      dsimp only
      rw [hv.opensArguments]
      split
      · apply Span.Same.past
        apply Span.Same.items (paramList_same hvs)
        intro params _ _ _ _ h
        apply Span.Same.map (thread_same h)
        intro body body' hbody
        simp only [Script.unplaced, Item.unplaced, hbody]
      · exact .stay rfl (.cons hv hvs)
termination_by 7 * ts.length + 5
decreasing_by all_goals (simp only [List.length_cons] at *; omega)

theorem option_same {pos pos' : Position} (leader : Leader) {ts us : List Token}
    (h : SameTokens ts us) :
    Span.SameItems (option pos leader ts) (option pos' leader us) := by
  rw [option, option]
  apply Span.Same.items (terms_same h)
  intro found _ _ _ _ h
  apply Span.Same.map (segments_same h)
  intro parts parts' hparts
  simp only [Script.unplaced, Item.unplaced, hparts]
termination_by 7 * ts.length + 5
decreasing_by all_goals omega

theorem segments_same {ts us : List Token} (h : SameTokens ts us) :
    Span.Same unplacedParts (segments ts) (segments us) := by
  rw [segments, segments]
  apply Span.Same.bind (thread_same h)
  intro body body' _ _ _ _ hbody h
  cases h with
  | nil => exact .finish (part_same _ hbody rfl)
  | cons hv hvs =>
    dsimp only
    rw [hv.is, hv.is]
    split
    · apply Span.Same.past
      apply Span.Same.map (inside_same forward false true rfl hvs)
      intro _ _ h
      exact part_same _ hbody h
    split
    · apply Span.Same.past
      apply Span.Same.map (inside_same reversed false true rfl hvs)
      intro _ _ h
      exact part_same _ hbody h
    · exact .stay (part_same _ hbody rfl) (.cons hv hvs)
termination_by 7 * ts.length + 4
decreasing_by all_goals (simp only [List.length_cons] at *; omega)

theorem inside_same (form : Form) (nested first : Bool) {lead lead' : List Item}
    (hl : Script.unplaced lead = Script.unplaced lead') {ts us : List Token}
    (h : SameTokens ts us) :
    Span.Same unplacedParts (inside form nested first lead ts)
      (inside form nested first lead' us) := by
  rw [inside, inside]
  apply Span.Same.bind (thread_same h)
  intro body body' _ _ _ _ hbody h
  have hpart := append_unplaced hl hbody
  cases h with
  | nil => exact .finish (part_same _ hpart rfl)
  | cons hv hvs =>
    dsimp only
    rw [hv.role form nested first, hv.is, hv.is]
    split
    · split
      · apply Span.Same.past
        apply Span.Same.map (inside_same form false false rfl hvs)
        intro _ _ h
        exact part_same _ hpart h
      · apply Span.Same.past
        apply Span.Same.map (last_same form rfl (trailing_same hvs))
        intro _ _ h
        exact part_same _ hpart h
    split
    · apply Span.Same.past
      apply Span.Same.map (inside_same form true false (by split <;> rfl) hvs)
      intro _ _ h
      exact part_same _ hpart h
    · apply Span.Same.map (last_same form (unplaced_report (hv.found fun _ => rfl))
        (trailing_same (.cons hv hvs)))
      intro _ _ h
      exact part_same _ hpart h
termination_by 7 * ts.length + 2
decreasing_by all_goals (simp only [List.length_cons] at *; omega)

theorem trailing_same {ts us : List Token} (h : SameTokens ts us) :
    Span.SameItems (trailing ts) (trailing us) := by
  rw [trailing, trailing]
  apply Span.Same.andThen (thread_same h)
  intro _ _ _ _ h
  cases h with
  | nil => exact .finish rfl
  | cons hv hvs =>
    dsimp only
    rw [hv.is, hv.is]
    split
    · apply Span.Same.past
      apply Span.Same.after _ (trailing_same hvs)
      exact unplaced_report (hv.found fun _ => rfl)
    · exact .stay rfl (.cons hv hvs)
termination_by 7 * ts.length + 1
decreasing_by all_goals (simp only [List.length_cons] at *; omega)

end

theorem script_same {ts us : List Token} (h : SameTokens ts us) :
    Span.SameItems (script ts) (script us) := by
  rw [script, script]
  apply Span.Same.andThen (thread_same h)
  intro _ _ _ _ h
  cases h with
  | nil => exact .finish rfl
  | cons hv hvs =>
    dsimp only
    rw [hv.kind]
    split
    · exact .past (.stay rfl hvs)
    · apply Span.Same.past
      apply Span.Same.after _ (script_same hvs)
      exact unplaced_report (hv.found fun _ => rfl)
termination_by ts.length
decreasing_by all_goals (simp only [List.length_cons] at *; omega)

end Script

end Storyline
