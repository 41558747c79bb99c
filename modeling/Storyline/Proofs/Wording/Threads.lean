import Storyline.Proofs.Wording.Reading
import Storyline.Proofs.Wording.Outline

namespace Storyline

variable {α β γ : Type} {t u : Token} {ts us : List Token}

/-- The values have the same outline. -/
def Span.Alike (outline : α → γ) (s : Span α ts) (s' : Span α us) : Prop :=
  outline s.value = outline s'.value ∧ AlikeTokens s.rest s'.rest

/-- The items have the same outline. -/
abbrev Span.AlikeItems (s : Span (List Item) ts) (s' : Span (List Item) us) : Prop :=
  Span.Alike Script.outline s s'

/-- Mistakes at the same positions are items of the same outline. -/
theorem outline_reports {ds es : List Diagnostic} (h : positions ds = positions es) :
    Script.outline (ds.map .report) = Script.outline (es.map .report) := by
  induction ds generalizing es with
  | nil =>
    cases es with
    | nil => rfl
    | cons e es => cases h
  | cons d ds ih =>
    cases es with
    | nil => cases h
    | cons e es =>
      obtain ⟨hd, hds⟩ := List.cons.inj h
      simp only [List.map_cons, Script.outline, Item.outline, Diagnostic.outline, hd, ih hds]

theorem append_outline {a b c d : List Item} (h : Script.outline a = Script.outline b)
    (h' : Script.outline c = Script.outline d) :
    Script.outline (a ++ c) = Script.outline (b ++ d) := by
  rw [Script.outline_append, Script.outline_append, h, h']

namespace Span.Alike

variable {f : α → γ}

theorem stay {a b : α} (hab : f a = f b) (h : AlikeTokens ts us) :
    Span.Alike f (.stay a ts) (.stay b us) := ⟨hab, h⟩

theorem finish {a b : α} (hab : f a = f b) : Span.Alike f (.finish a ts) (.finish b us) :=
  ⟨hab, .nil⟩

theorem past {s : Span α ts} {s' : Span α us} (h : Span.Alike f s s') :
    Span.Alike f (s.past : Span α (t :: ts)) (s'.past : Span α (u :: us)) := h

theorem map {δ : Type} {g : β → δ} {s : Span α ts} {s' : Span α us} {m n : α → β}
    (h : Span.Alike f s s') (hmn : ∀ a b, f a = f b → g (m a) = g (n b)) :
    Span.Alike g (s.map m) (s'.map n) := ⟨hmn _ _ h.1, h.2⟩

theorem bind {δ : Type} {g : β → δ} {s : Span α ts} {s' : Span α us}
    {k : (a : α) → (vs : List Token) → vs.length ≤ ts.length → Span β vs}
    {l : (a : α) → (vs : List Token) → vs.length ≤ us.length → Span β vs}
    (h : Span.Alike f s s') (hkl : ∀ a b vs ws hv hw, f a = f b → AlikeTokens vs ws →
      Span.Alike g (k a vs hv) (l b ws hw)) : Span.Alike g (s.bind k) (s'.bind l) :=
  hkl _ _ _ _ s.suffix.length_le s'.suffix.length_le h.1 h.2

theorem andThen {s : Span (List Item) ts} {s' : Span (List Item) us}
    {k : (vs : List Token) → vs.length ≤ ts.length → Span (List Item) vs}
    {l : (vs : List Token) → vs.length ≤ us.length → Span (List Item) vs}
    (h : Span.AlikeItems s s') (hkl : ∀ vs ws hv hw, AlikeTokens vs ws →
      Span.AlikeItems (k vs hv) (l ws hw)) : Span.AlikeItems (s.andThen k) (s'.andThen l) := by
  have hnext := hkl _ _ s.suffix.length_le s'.suffix.length_le h.2
  exact ⟨append_outline h.1 hnext.1, hnext.2⟩

theorem after {a b : List Item} {s : Span (List Item) ts} {s' : Span (List Item) us}
    (hab : Script.outline a = Script.outline b) (h : Span.AlikeItems s s') :
    Span.AlikeItems (.after a s) (.after b s') := ⟨append_outline hab h.1, h.2⟩

variable {R : α → α → Prop} {r : Read α ts} {s : Read α us}

/-- The mistakes of a reading, then the items its value stands for. -/
theorem items {k : (a : α) → (vs : List Token) → vs.length ≤ ts.length → Span (List Item) vs}
    {l : (a : α) → (vs : List Token) → vs.length ≤ us.length → Span (List Item) vs}
    (h : Read.Alike R r s) (hkl : ∀ a b vs ws hv hw, R a b → AlikeTokens vs ws →
      Span.AlikeItems (k a vs hv) (l b ws hw)) : Span.AlikeItems (r.items k) (s.items l) := by
  cases r with
  | none =>
    cases s with
    | none => exact .finish rfl
    | some s => exact h.elim
  | some r =>
    cases s with
    | none => exact h.elim
    | some s =>
      obtain ⟨hvalue, hrest, hpos⟩ := h
      have hnext := hkl _ _ _ _ r.suffix.length_le s.suffix.length_le hvalue hrest
      exact ⟨append_outline (outline_reports hpos) hnext.1, hnext.2⟩

theorem items_eq {k : (a : α) → (vs : List Token) → vs.length ≤ ts.length → Span (List Item) vs}
    {l : (a : α) → (vs : List Token) → vs.length ≤ us.length → Span (List Item) vs}
    (h : Read.Alike Eq r s) (hkl : ∀ a vs ws hv hw, AlikeTokens vs ws →
      Span.AlikeItems (k a vs hv) (l a ws hw)) : Span.AlikeItems (r.items k) (s.items l) := by
  refine items h fun a b vs ws hv hw hab hrest => ?_
  subst hab
  exact hkl a vs ws hv hw hrest

end Span.Alike

namespace Script

theorem textTail_alike (h : AlikeTokens ts us) :
    Read.Alike (fun a b => a.2 = b.2) (textTail ts) (textTail us) := by
  induction h with
  | nil => trivial
  | cons ht hts ih =>
    rw [textTail, textTail, ht.isText]
    split
    · exact .past (.map ih fun _ _ hab => hab)
    · exact .stay ht.space (.cons ht hts)

theorem textRun_alike (ht : t.Alike u) (h : AlikeTokens ts us) :
    Span.AlikeItems (textRun t ts) (textRun u us) := by
  refine .items (textTail_alike h) fun a b vs ws _ _ hab h => .stay ?_ h
  simp only [Script.outline, Item.outline, Content.outline, ht.pos, ht.space, hab]

theorem cue_alike (pos : Position) (h : AlikeTokens ts us) :
    Span.AlikeItems (cue pos ts) (cue pos us) := by
  refine .items (words_alike ">" .rfl h) fun name name' vs ws _ _ hn h => ?_
  by_cases he : name = ""
  · rw [if_pos he, if_pos (hn.mp he), here_alike h]
    exact .stay rfl h
  · rw [if_neg he, if_neg fun he' => he (hn.mpr he')]
    exact .stay rfl h

theorem destination_alike (pos : Position) (h : AlikeTokens ts us) :
    Span.AlikeItems (destination pos ts) (destination pos us) := by
  refine .items_eq (wantedName_alike .labelName h) fun found vs ws _ _ h => ?_
  split
  · exact .stay rfl h
  cases h with
  | nil => exact .finish rfl
  | cons hv hvs =>
    dsimp only
    rw [opensArguments_alike hv]
    split
    · exact .past (.items_eq (arguments_alike hvs) fun args _ _ _ _ h => .stay rfl h)
    · exact .stay rfl (.cons hv hvs)

theorem braced_alike (pos : Position) (content : Content) (h : AlikeTokens ts us) :
    Span.AlikeItems (braced pos content ts) (braced pos content us) :=
  .items_eq (expect_alike "\x7d" h) fun _ _ _ _ _ h => .stay rfl h

theorem malformed_alike (h : AlikeTokens ts us) :
    Span.AlikeItems (malformed ts) (malformed us) :=
  .items_eq (skipBrace_alike h) fun _ _ _ _ _ h => .stay rfl h

theorem change_alike (pos : Position) (op : BinaryOp) (h : AlikeTokens ts us) :
    Span.AlikeItems (change pos op ts) (change pos op us) := by
  refine .items_eq (mutation_alike h) fun found vs ws _ _ h => ?_
  split
  · exact malformed_alike h
  · exact braced_alike pos _ h

theorem put_alike (pos : Position) (value : Float) (h : AlikeTokens ts us) :
    Span.AlikeItems (put pos value ts) (put pos value us) := by
  refine .items_eq (assignable_alike h) fun found vs ws _ _ h => ?_
  split
  · exact malformed_alike h
  · exact braced_alike pos _ h

theorem echo_alike (pos : Position) (h : AlikeTokens ts us) :
    Span.AlikeItems (echo pos ts) (echo pos us) :=
  .items_eq (expression_alike h) fun e _ _ _ _ h => braced_alike pos (.echo e) h

theorem closeBrace_alike (h : AlikeTokens ts us) :
    Span.AlikeItems (closeBrace ts) (closeBrace us) :=
  .items_eq (expect_alike "\x7d" h) fun _ _ _ _ _ h => .stay rfl h

theorem skipBlock_alike (depth : Nat) (h : AlikeTokens ts us) :
    Span.AlikeItems (skipBlock depth ts) (skipBlock depth us) := by
  induction h generalizing depth with
  | nil => exact .finish rfl
  | cons ht hts ih =>
    unfold skipBlock
    rw [ht.kind]
    split
    · exact .past (.stay rfl hts)
    · exact .past (ih _)
    · exact .past (ih _)
    · exact .past (ih _)

theorem endBlock_alike (h : AlikeTokens ts us) :
    Span.AlikeItems (endBlock ts) (endBlock us) := by
  cases h with
  | nil => exact .finish rfl
  | cons ht hts =>
    unfold endBlock
    dsimp only
    rw [ht.kind]
    split
    · exact .past (.stay rfl hts)
    · refine .after ?_ (skipBlock_alike 0 (.cons ht hts))
      rw [ht.pos]
      rfl

theorem program_alike {ts us : List Token} (h : AlikeTokens ts us) :
    Span.AlikeItems (program ts) (program us) := by
  cases h with
  | nil =>
    rw [program]
    exact .finish rfl
  | cons ht hts =>
    rw [program, program, ht.kind, ht.is, ← startsReference_alike ht, ht.pos]
    split
    · exact .stay rfl (.cons ht hts)
    split
    · exact .past (program_alike hts)
    split
    · next hs =>
      refine .past (.items_eq (assignedTo_alike ht hs hts) fun target vs ws _ _ h => ?_)
      cases h with
      | nil => exact .finish rfl
      | cons hv hvs =>
        dsimp only
        cases target with
        | none =>
          refine .past (.after ?_ (program_alike hvs))
          rw [hvs.length_eq]
        | some target =>
          dsimp only
          rw [assignmentOp?_alike hv]
          split
          · refine .after ?_ (program_alike (.cons hv hvs))
            rw [hv.pos]
            rfl
          · exact .past <| .items_eq (expression_alike hvs) fun value _ _ _ _ h =>
              .after rfl (program_alike h)
    · exact .past (.after rfl (program_alike hts))
termination_by ts.length
decreasing_by all_goals (simp only [List.length_cons] at *; omega)

theorem lead_alike {a : α} {r : Read α ts} {s : Read α us} (h : Read.Alike Eq r s) :
    Span.Alike (fun found => (found.1, Script.outline found.2)) (r.lead a) (s.lead a) := by
  cases r with
  | none =>
    cases s with
    | none => exact .finish rfl
    | some s => exact h.elim
  | some r =>
    cases s with
    | none => exact h.elim
    | some s => exact ⟨Prod.ext h.1 (outline_reports h.2.2), h.2.1⟩

theorem weight_alike (weighted : Bool) (h : AlikeTokens ts us) :
    Span.Alike (fun found => (found.1, Script.outline found.2)) (weight weighted ts)
      (weight weighted us) := by
  cases h with
  | nil => exact .stay rfl .nil
  | cons ht hts =>
    unfold weight
    dsimp only
    rw [ht.is]
    split
    · exact .past <| lead_alike <| .andThen_eq (expression_alike hts) fun e _ _ _ _ h =>
        .map_eq _ (expect_alike ")" h)
    · exact .stay rfl (.cons ht hts)

theorem outlineCases_padded (selection : Selection) (found : List Case) :
    outlineCases (Selection.padded selection found) =
      Selection.padded selection (outlineCases found) := by
  cases selection with
  | index e =>
    cases found with
    | nil => rfl
    | cons first rest =>
      cases first
      cases rest with
      | nil => rfl
      | cons second rest =>
        cases second
        rfl
  | _ => rfl

theorem role_alike (form : Form) (nested first : Bool) (h : t.Alike u) :
    form.role nested first t = form.role nested first u := by
  unfold Form.role
  rw [h.is]

theorem last_alike (form : Form) {lead lead' : List Item}
    (hl : Script.outline lead = Script.outline lead') {s : Span (List Item) ts}
    {s' : Span (List Item) us} (hts : AlikeTokens ts us) (h : Span.AlikeItems s s') :
    Span.Alike outlineParts (form.last lead s) (form.last lead' s') := by
  refine .map h fun a b hab => ?_
  simp only [outlineParts, here_alike hts, append_outline hl hab]

mutual

theorem thread_alike {ts us : List Token} (h : AlikeTokens ts us) :
    Span.AlikeItems (thread ts) (thread us) := by
  cases h with
  | nil =>
    rw [thread]
    exact .finish rfl
  | @cons t u ts us ht hts =>
    rw [thread, thread, ← ht.sign, ← ht.pos]
    split
    · exact .stay rfl (.cons ht hts)
    · exact .past (thread_alike hts)
    · exact .past (.after rfl (thread_alike hts))
    · exact .past (.after rfl (thread_alike hts))
    · exact .past (.after rfl (thread_alike hts))
    · exact .past (.andThen (textRun_alike ht hts) fun _ _ _ _ h => thread_alike h)
    · exact .past (.andThen (cue_alike t.pos hts) fun _ _ _ _ h => thread_alike h)
    · exact .past (.andThen (destination_alike t.pos hts) fun _ _ _ _ h => thread_alike h)
    · next hs =>
      have htext := ht.text_eq_of_sign (by rw [hs]; simp)
      exact .past (.andThen (block_alike ht htext hts) fun _ _ _ _ h => thread_alike h)
    · exact .past (.andThen (brace_alike t.pos hts) fun _ _ _ _ h => thread_alike h)
    · exact .past (.andThen (label_alike t.pos hts) fun _ _ _ _ h => thread_alike h)
termination_by 7 * ts.length
decreasing_by all_goals (simp only [List.length_cons] at *; omega)

theorem block_alike {t u : Token} {ts us : List Token} (ht : t.Alike u) (htext : t.text = u.text)
    (h : AlikeTokens ts us) : Span.AlikeItems (block t ts) (block u us) := by
  rw [block, block, htext, ht.pos]
  refine .andThen ?_ fun _ _ _ _ h => endBlock_alike h
  split
  · exact option_alike u.pos .repeated h
  · exact option_alike u.pos .once h
  · exact thread_alike h
  · exact .after rfl (thread_alike h)
  · exact program_alike h
  · rw [here_alike h]
    exact .after rfl (thread_alike h)
termination_by 7 * ts.length + 6
decreasing_by all_goals omega

theorem brace_alike (pos : Position) {ts us : List Token} (h : AlikeTokens ts us) :
    Span.AlikeItems (brace pos ts) (brace pos us) := by
  cases h with
  | nil =>
    rw [brace]
    exact .finish rfl
  | cons ht hts =>
    rw [brace, brace, braceForm_alike ht, ht.isOp, sigil?_alike ht]
    split
    · exact .past (change_alike pos _ hts)
    · exact .past (put_alike pos _ hts)
    split
    · exact .past (echo_alike pos hts)
    split
    · exact .past (switch_alike pos _ hts)
    refine .items_eq (selector_alike (.cons ht hts)) fun e vs ws _ _ h => ?_
    cases h with
    | nil => exact .finish rfl
    | cons hv hvs =>
      dsimp only
      rw [hv.is, hv.is, hv.isOp, hv.isOp, hv.pos]
      split
      · exact .past (.stay rfl hvs)
      split
      · exact .past (jump_alike pos e hvs)
      split
      · exact .past (switch_alike pos _ hvs)
      split
      · exact .past (switch_alike pos _ hvs)
      · exact .stay rfl (.cons hv hvs)
termination_by 7 * ts.length + 5
decreasing_by all_goals (simp only [List.length_cons] at *; omega)

theorem jump_alike (pos : Position) (condition : Expr) {ts us : List Token}
    (h : AlikeTokens ts us) :
    Span.AlikeItems (jump pos condition ts) (jump pos condition us) := by
  rw [jump, jump]
  refine .bind (thread_alike h) fun yes yes' vs ws _ _ hyes h => ?_
  cases h with
  | nil => exact .finish (by simp only [Script.outline, Item.outline, hyes])
  | cons hv hvs =>
    dsimp only
    rw [hv.is]
    split
    · refine .past (.bind (thread_alike hvs) fun no no' _ _ _ _ hno h => ?_)
      exact .after (by simp only [Script.outline, Item.outline, hyes, hno]) (closeBrace_alike h)
    · exact .after (by simp only [Script.outline, Item.outline, hyes])
        (closeBrace_alike (.cons hv hvs))
termination_by 7 * ts.length + 3
decreasing_by all_goals (simp only [List.length_cons] at *; omega)

theorem switch_alike (pos : Position) (selection : Selection) {ts us : List Token}
    (h : AlikeTokens ts us) :
    Span.AlikeItems (switch pos selection ts) (switch pos selection us) := by
  rw [switch, switch]
  refine .bind (cases_alike selection.isWeighted h) fun found found' _ _ _ _ hf h => ?_
  refine .after ?_ (closeBrace_alike h)
  simp only [Script.outline, Item.outline, outlineCases_padded, hf]
termination_by 7 * ts.length + 3
decreasing_by all_goals omega

theorem cases_alike (weighted : Bool) {ts us : List Token} (h : AlikeTokens ts us) :
    Span.Alike outlineCases (cases weighted ts) (cases weighted us) := by
  rw [cases, cases]
  refine .bind (weight_alike weighted h) fun found found' _ _ _ _ hw h => ?_
  obtain ⟨w, lead⟩ := found
  obtain ⟨w', lead'⟩ := found'
  obtain ⟨rfl, hlead⟩ : w = w' ∧ outline lead = outline lead' := Prod.ext_iff.mp hw
  refine .bind (thread_alike h) fun body body' _ _ _ _ hbody h => ?_
  have hcase := append_outline hlead hbody
  cases h with
  | nil => exact .finish (by simp only [outlineCases, hcase])
  | cons hv hvs =>
    dsimp only
    rw [hv.is]
    split
    · refine .past (.map (cases_alike weighted hvs) fun rest rest' hrest => ?_)
      simp only [outlineCases, hcase, hrest]
    · exact .stay (by simp only [outlineCases, hcase]) (.cons hv hvs)
termination_by 7 * ts.length + 2
decreasing_by all_goals (simp only [List.length_cons] at *; omega)

theorem label_alike (pos : Position) {ts us : List Token} (h : AlikeTokens ts us) :
    Span.AlikeItems (label pos ts) (label pos us) := by
  cases h with
  | nil =>
    rw [label]
    exact .finish rfl
  | cons ht hts =>
    rw [label, label, ht.is]
    split
    · refine .past (.map (thread_alike hts) fun body body' hbody => ?_)
      simp only [Script.outline, Item.outline, hbody]
    refine .items_eq (wantedName_alike .labelName (.cons ht hts)) fun found _ _ _ _ h => ?_
    split
    · exact .stay rfl h
    cases h with
    | nil => exact .finish rfl
    | cons hv hvs =>
      dsimp only
      rw [opensArguments_alike hv, hv.pos]
      split
      · refine .past (.items_eq (paramList_alike hvs) fun params _ _ _ _ h => ?_)
        refine .map (thread_alike h) fun body body' hbody => ?_
        simp only [Script.outline, Item.outline, hbody, here_alike h]
      · exact .stay rfl (.cons hv hvs)
termination_by 7 * ts.length + 5
decreasing_by all_goals (simp only [List.length_cons] at *; omega)

theorem option_alike (pos : Position) (leader : Leader) {ts us : List Token}
    (h : AlikeTokens ts us) :
    Span.AlikeItems (option pos leader ts) (option pos leader us) := by
  rw [option, option]
  refine .items (terms_alike h) fun found found' _ _ _ _ hf h => ?_
  refine .map (segments_alike h) fun parts parts' hparts => ?_
  simp only [Script.outline, Item.outline, Terms.outline, hf.1, hf.2, hparts]
termination_by 7 * ts.length + 5
decreasing_by all_goals omega

theorem segments_alike {ts us : List Token} (h : AlikeTokens ts us) :
    Span.Alike outlineParts (segments ts) (segments us) := by
  rw [segments, segments, here_alike h]
  refine .bind (thread_alike h) fun body body' _ _ _ _ hbody h => ?_
  have hpart (pos : Position) (role : Role) {rest rest' : List Segment}
      (hrest : outlineParts rest = outlineParts rest') :
      outlineParts (.mk pos role body :: rest) = outlineParts (.mk pos role body' :: rest') := by
    simp only [outlineParts, hbody, hrest]
  cases h with
  | nil => exact .finish (hpart _ _ rfl)
  | cons hv hvs =>
    dsimp only
    rw [hv.is, hv.is]
    split
    · exact .past (.map (inside_alike forward false true rfl hvs) fun _ _ h => hpart _ _ h)
    split
    · exact .past (.map (inside_alike reversed false true rfl hvs) fun _ _ h => hpart _ _ h)
    · exact .stay (hpart _ _ rfl) (.cons hv hvs)
termination_by 7 * ts.length + 4
decreasing_by all_goals (simp only [List.length_cons] at *; omega)

theorem inside_alike (form : Form) (nested first : Bool) {lead lead' : List Item}
    (hl : Script.outline lead = Script.outline lead') {ts us : List Token}
    (h : AlikeTokens ts us) :
    Span.Alike outlineParts (inside form nested first lead ts)
      (inside form nested first lead' us) := by
  rw [inside, inside, here_alike h]
  refine .bind (thread_alike h) fun body body' _ _ _ _ hbody h => ?_
  have hpart (pos : Position) (role : Role) {rest rest' : List Segment}
      (hrest : outlineParts rest = outlineParts rest') :
      outlineParts (.mk pos role (lead ++ body) :: rest) =
        outlineParts (.mk pos role (lead' ++ body') :: rest') := by
    simp only [outlineParts, append_outline hl hbody, hrest]
  cases h with
  | nil => exact .finish (hpart _ _ rfl)
  | cons hv hvs =>
    dsimp only
    rw [role_alike form nested first hv, hv.is, hv.is, hv.pos]
    split
    · split
      · exact .past (.map (inside_alike form false false rfl hvs) fun _ _ h => hpart _ _ h)
      · exact .past <| .map (last_alike form rfl hvs (trailing_alike hvs)) fun _ _ h =>
          hpart _ _ h
    split
    · rw [here_alike hvs]
      exact .past (.map (inside_alike form true false rfl hvs) fun _ _ h => hpart _ _ h)
    · have hvs : AlikeTokens _ _ := .cons hv hvs
      exact .map (last_alike form rfl hvs (trailing_alike hvs)) fun _ _ h => hpart _ _ h
termination_by 7 * ts.length + 2
decreasing_by all_goals (simp only [List.length_cons] at *; omega)

theorem trailing_alike {ts us : List Token} (h : AlikeTokens ts us) :
    Span.AlikeItems (trailing ts) (trailing us) := by
  rw [trailing, trailing]
  refine .andThen (thread_alike h) fun _ _ _ _ h => ?_
  cases h with
  | nil => exact .finish rfl
  | cons hv hvs =>
    dsimp only
    rw [hv.is, hv.is, hv.pos]
    split
    · exact .past (.after rfl (trailing_alike hvs))
    · exact .stay rfl (.cons hv hvs)
termination_by 7 * ts.length + 1
decreasing_by all_goals (simp only [List.length_cons] at *; omega)

end

theorem script_alike {ts us : List Token} (h : AlikeTokens ts us) :
    Span.AlikeItems (script ts) (script us) := by
  rw [script, script]
  refine .andThen (thread_alike h) fun _ _ _ _ h => ?_
  cases h with
  | nil => exact .finish rfl
  | cons hv hvs =>
    dsimp only
    rw [hv.kind, hv.pos]
    split
    · exact .past (.stay rfl hvs)
    · exact .past (.after rfl (script_alike hvs))
termination_by ts.length
decreasing_by all_goals (simp only [List.length_cons] at *; omega)

end Script

end Storyline
