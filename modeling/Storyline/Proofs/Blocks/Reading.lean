import Storyline.Proofs.Blocks.Crossing

namespace Storyline

open Script

variable {α β : Type} {t : Token} {ts us vs : List Token} {a b : List (Option Nat)}

/-- The items read crossed the tokens used. -/
def Span.Crosses (s : Span (List Item) ts) : Prop := Script.Crosses (gaps s.value) ts s.rest

/-- What was noted before these tokens is `before`; the rest was noted on crossing them. -/
def Span.CrossesAfter (before : List (Option Nat)) (noted : α → List (Option Nat))
    (s : Span α ts) : Prop :=
  ∃ more, noted s.value = before ++ more ∧ Script.Crosses more ts s.rest

namespace Span.Crosses

theorem stay {items : List Item} (h : gaps items = []) :
    Span.Crosses (.stay items ts : Span (List Item) ts) := by
  unfold Span.Crosses Span.stay
  rw [h]
  exact .stay ts

theorem past {s : Span (List Item) ts} (ht : t.IsPlain) (h : s.Crosses) :
    Span.Crosses (s.past : Span (List Item) (t :: ts)) :=
  Script.Crosses.past ht h

theorem after {s : Span (List Item) ts} {items : List Item} (hi : gaps items = [])
    (h : s.Crosses) : (Span.after items s).Crosses := by
  have he : gaps (Span.after items s).value = gaps s.value := by
    show gaps (items ++ s.value) = gaps s.value
    rw [gaps_append, hi, List.nil_append]
  unfold Span.Crosses
  rw [he]
  exact h

theorem andThen {s : Span (List Item) ts}
    {k : (us : List Token) → us.length ≤ ts.length → Span (List Item) us} (h : s.Crosses)
    (hk : ∀ us hus, (k us hus).Crosses) : (s.andThen k).Crosses := by
  unfold Span.Crosses Span.andThen
  dsimp only
  rw [gaps_append]
  exact h.append (hk s.rest s.suffix.length_le)

/-- What comes before may start the tokens. -/
theorem begun {s : Span (List Item) ts}
    {k : (us : List Token) → us.length ≤ ts.length → Span (List Item) us}
    (h : Script.Crosses (gaps s.value) (t :: ts) s.rest) (hk : ∀ us hus, (k us hus).Crosses) :
    Span.Crosses ((s.andThen k).past : Span (List Item) (t :: ts)) := by
  unfold Span.Crosses Span.past Span.andThen
  dsimp only
  rw [gaps_append]
  exact h.append (hk s.rest s.suffix.length_le)

theorem finish_nil {items : List Item} (h : gaps items = [none]) :
    Span.Crosses (.finish items [] : Span (List Item) []) := by
  unfold Span.Crosses Span.finish
  rw [h]
  exact .finish_nil

/-- A flat reading and the items that come of it. -/
theorem items {r : Read α ts}
    {k : (a : α) → (us : List Token) → us.length ≤ ts.length → Span (List Item) us}
    (h : r.IsFlat) (hk : ∀ a us hus, (k a us hus).Crosses) : (r.items k).Crosses := by
  cases r with
  | none => exact .finish_plain h
  | some s =>
    obtain ⟨used, he, hp⟩ := h
    have hs := Script.Crosses.plain_append hp (hk s.value s.rest s.suffix.length_le)
    rw [← he] at hs
    have hg : gaps (Read.items (some s) k).value =
        gaps (k s.value s.rest s.suffix.length_le).value := by
      show gaps (_ ++ _) = _
      rw [gaps_append, gaps_reports, List.nil_append]
    unfold Span.Crosses
    rw [hg]
    exact hs

end Span.Crosses

namespace Span.CrossesAfter

variable {before : List (Option Nat)} {noted : β → List (Option Nat)}

theorem of_crosses {s : Span (List Item) ts} (h : s.Crosses) :
    s.CrossesAfter before fun items => before ++ gaps items :=
  ⟨_, rfl, h⟩

theorem stay {b : β} (h : noted b = before) :
    Span.CrossesAfter before noted (.stay b ts : Span β ts) :=
  ⟨[], by rw [List.append_nil]; exact h, .stay ts⟩

theorem finish_nil {b : β} (h : noted b = before) :
    Span.CrossesAfter before noted (.finish b [] : Span β []) :=
  ⟨[], by rw [List.append_nil]; exact h, .stay []⟩

theorem past {s : Span β ts} (ht : t.IsPlain) (h : s.CrossesAfter before noted) :
    Span.CrossesAfter before noted (s.past : Span β (t :: ts)) := by
  obtain ⟨more, he, hm⟩ := h
  exact ⟨more, he, .past ht hm⟩

theorem map {s : Span α ts} {f : α → β} {first : α → List (Option Nat)}
    (h : Script.Crosses (first s.value) ts s.rest) (hf : ∀ a, noted (f a) = before ++ first a) :
    (s.map f).CrossesAfter before noted :=
  ⟨_, hf s.value, h⟩

theorem bind {s : Span α ts} {k : (a : α) → (us : List Token) → us.length ≤ ts.length → Span β us}
    {first : α → List (Option Nat)} (h : s.CrossesAfter before first)
    (hk : ∀ a us hus, (k a us hus).CrossesAfter (first a) noted) :
    (s.bind k).CrossesAfter before noted := by
  obtain ⟨more, he, hm⟩ := h
  obtain ⟨yet, hy, hn⟩ := hk s.value s.rest s.suffix.length_le
  refine ⟨more ++ yet, ?_, hm.append hn⟩
  show noted (k s.value s.rest _).value = _
  rw [hy, he, List.append_assoc]

theorem crosses {s : Span β ts} (h : s.CrossesAfter [] noted) :
    Script.Crosses (noted s.value) ts s.rest := by
  obtain ⟨more, he, hm⟩ := h
  rw [he]
  exact hm

end Span.CrossesAfter

namespace Script

theorem textTail_isFlat (ts : List Token) : (textTail ts).IsFlat := by
  induction ts with
  | nil => exact .none_nil
  | cons t us ih =>
    rw [textTail]
    split
    · next h =>
      refine .past ?_ (.map _ ih)
      constructor <;> intro hk <;> simp [Token.isText, Token.sign, hk] at h
    · exact .stay _ _

theorem textRun_crosses (t : Token) (ts : List Token) : (textRun t ts).Crosses :=
  .items (textTail_isFlat ts) fun _ _ _ => .stay rfl

theorem cue_crosses (pos : Position) (ts : List Token) : (cue pos ts).Crosses := by
  refine .items (words_isFlat ">" "" ts) fun name us _ => ?_
  split <;> exact .stay rfl

theorem destination_crosses (pos : Position) (ts : List Token) : (destination pos ts).Crosses := by
  refine .items (wantedName_isFlat .labelName ts) fun found us _ => ?_
  split
  · exact .stay rfl
  · split
    · exact .finish_nil rfl
    · split
      · next h =>
        exact .past (inExpression_of_opensArguments h).isPlain <|
          .items (arguments_isFlat _) fun _ _ _ => .stay rfl
      · exact .stay rfl

theorem braced_crosses (pos : Position) (content : Content) (ts : List Token) :
    (braced pos content ts).Crosses :=
  .items (expect_isFlat _ ts) fun _ _ _ => .stay rfl

theorem malformed_crosses (ts : List Token) : (malformed ts).Crosses :=
  .items (skipBrace_isFlat ts) fun _ _ _ => .stay rfl

theorem change_crosses (pos : Position) (op : BinaryOp) (ts : List Token) :
    (change pos op ts).Crosses := by
  refine .items (mutation_isFlat ts) fun found us _ => ?_
  split
  · exact malformed_crosses us
  · exact braced_crosses pos _ us

theorem put_crosses (pos : Position) (value : Float) (ts : List Token) :
    (put pos value ts).Crosses := by
  refine .items (assignable_isFlat ts) fun found us _ => ?_
  split
  · exact malformed_crosses us
  · exact braced_crosses pos _ us

theorem echo_crosses (pos : Position) (ts : List Token) : (echo pos ts).Crosses :=
  .items (expression_isFlat ts) fun _ us _ => braced_crosses pos _ us

theorem closeBrace_crosses (ts : List Token) : (closeBrace ts).Crosses :=
  .items (expect_isFlat _ ts) fun _ _ _ => .stay rfl

theorem isPlain_of_assignmentOp? {op : Option BinaryOp} (h : assignmentOp? t = some op) :
    t.IsPlain := by
  unfold assignmentOp? at h
  repeat' split at h
  all_goals first
    | next ho => exact t.isPlain_of_isOp ho
    | cases h

theorem program_crosses (ts : List Token) : (program ts).Crosses := by
  cases ts with
  | nil =>
    rw [program]
    exact .finish_nil rfl
  | cons t us =>
    rw [program]
    split
    · exact .stay rfl
    · next hp =>
      have ht : t.IsPlain := by
        simp only [not_or] at hp
        exact ⟨hp.2, hp.1⟩
      split
      · exact .past ht (program_crosses us)
      split
      · refine .past ht <| .items (assignedTo_isFlat t us) fun target vs _ => ?_
        split
        · exact .finish_nil rfl
        · next v ws _ =>
          split
          · show Script.Crosses ([some ws.length] ++ gaps (program ws).value) (v :: ws) _
            exact .append (.pass v ws) (program_crosses ws)
          · split
            · exact .after rfl (program_crosses (v :: ws))
            · next op ho =>
              refine .past (isPlain_of_assignmentOp? ho) <|
                .items (expression_isFlat ws) fun value xs _ => ?_
              exact .after rfl (program_crosses xs)
      · exact .past ht (.after rfl (program_crosses us))
termination_by ts.length
decreasing_by all_goals grind

theorem skipBlock_stop_zero (h : t.kind = .stop) :
    skipBlock 0 (t :: us) = Span.past (.stay [] us) := by
  rw [skipBlock.eq_def]
  simp only [h]

theorem skipBlock_stop_succ (h : t.kind = .stop) (depth : Nat) :
    skipBlock (depth + 1) (t :: us) = (skipBlock depth us).past := by
  rw [skipBlock.eq_def]
  simp only [h]

theorem skipBlock_start (h : t.kind = .start) (depth : Nat) :
    skipBlock depth (t :: us) = (skipBlock (depth + 1) us).past := by
  rw [skipBlock.eq_def]
  simp only [h]

theorem skipBlock_plain (h : t.IsPlain) (depth : Nat) :
    skipBlock depth (t :: us) = (skipBlock depth us).past := by
  obtain ⟨hs, ht⟩ := h
  rw [skipBlock.eq_def]
  cases hk : t.kind <;> simp_all

/-- A block skipped passes over no token. -/
theorem gaps_skipBlock (depth : Nat) (ts : List Token) (n : Nat) :
    some n ∉ gaps (skipBlock depth ts).value := by
  induction ts generalizing depth with
  | nil => simp [skipBlock, Span.finish, gaps, Item.gaps]
  | cons t us ih =>
    by_cases hs : t.kind = .start
    · rw [skipBlock_start hs]
      exact ih _
    by_cases ht : t.kind = .stop
    · cases depth with
      | zero =>
        rw [skipBlock_stop_zero ht]
        simp [Span.past, Span.stay, gaps]
      | succ depth =>
        rw [skipBlock_stop_succ ht]
        exact ih _
    · rw [skipBlock_plain ⟨hs, ht⟩]
      exact ih _

theorem skipBlock_closes (depth : Nat) (ts : List Token) (passed : List Nat)
    (h : ∀ n, (skipBlock depth ts).rest.length ≤ n → n < ts.length → n ∉ passed) :
    (none ∉ gaps (skipBlock depth ts).value →
      ∀ more, finalStop passed (depth + 1 + more) ts =
        finalStop passed more (skipBlock depth ts).rest) ∧
    (none ∈ gaps (skipBlock depth ts).value → finalStop passed depth ts = none) := by
  induction ts generalizing depth with
  | nil =>
    refine ⟨fun hn => absurd ?_ hn, fun _ => rfl⟩
    simp [skipBlock, Span.finish, gaps, Item.gaps]
  | cons t us ih =>
    have hon {depth' : Nat} (he : skipBlock depth (t :: us) = (skipBlock depth' us).past) :
        us.length ∉ passed ∧
          ∀ n, (skipBlock depth' us).rest.length ≤ n → n < us.length → n ∉ passed := by
      rw [he] at h
      exact ⟨h _ (skipBlock depth' us).length_rest_le (by simp),
        fun n hn hlt => h n hn (by simp; omega)⟩
    by_cases hs : t.kind = .start
    · obtain ⟨hp, hus⟩ := hon (skipBlock_start hs depth)
      rw [skipBlock_start hs, finalStop_start hp hs]
      refine ⟨fun hn more => ?_, fun hn => (ih _ hus).2 hn⟩
      rw [finalStop_start hp hs, show depth + 1 + more + 1 = depth + 1 + 1 + more by omega]
      exact (ih _ hus).1 hn more
    by_cases ht : t.kind = .stop
    · cases depth with
      | zero =>
        rw [skipBlock_stop_zero ht] at h ⊢
        have hp : us.length ∉ passed := h us.length (Nat.le_refl _) (by simp)
        refine ⟨fun _ more => ?_, fun hn => by cases hn⟩
        rw [show 0 + 1 + more = more + 1 by omega, finalStop_stop_succ hp ht]
        rfl
      | succ depth =>
        obtain ⟨hp, hus⟩ := hon (skipBlock_stop_succ ht depth)
        rw [skipBlock_stop_succ ht, finalStop_stop_succ hp ht]
        refine ⟨fun hn more => ?_, fun hn => (ih _ hus).2 hn⟩
        rw [show depth + 1 + 1 + more = depth + 1 + more + 1 by omega, finalStop_stop_succ hp ht]
        exact (ih _ hus).1 hn more
    · have hplain : t.IsPlain := ⟨hs, ht⟩
      obtain ⟨-, hus⟩ := hon (skipBlock_plain hplain depth)
      rw [skipBlock_plain hplain, finalStop_plain hplain]
      refine ⟨fun hn more => ?_, fun hn => (ih _ hus).2 hn⟩
      rw [finalStop_plain hplain]
      exact (ih _ hus).1 hn more

theorem endBlock_closes (ts : List Token) :
    Closes (gaps (endBlock ts).value) ts (endBlock ts).rest := by
  have hle := (endBlock ts).length_rest_le
  cases ts with
  | nil =>
    refine ⟨hle, ?_, fun hn => absurd ?_ hn, fun _ _ _ => rfl⟩
    · intro n hn
      simp [endBlock, Span.finish, gaps, Item.gaps] at hn
    · simp [endBlock, Span.finish, gaps, Item.gaps]
  | cons t us =>
    rw [endBlock] at hle ⊢
    split at hle
    · next ht =>
      rw [if_pos ht]
      refine ⟨hle, ?_, ?_, ?_⟩
      · intro n hn
        cases hn
      · intro _ passed ha depth
        have hp : us.length ∉ passed := by
          intro hm
          cases (ha _ (Nat.le_refl _) (Nat.lt_succ_self _)).mp hm
        exact finalStop_stop_succ hp ht depth
      · intro hn
        cases hn
    · next ht =>
      rw [if_neg ht]
      have hg : gaps (Span.after [.report ⟨t.pos, .missing .endOfBlock t⟩]
          (skipBlock 0 (t :: us))).value = gaps (skipBlock 0 (t :: us)).value := rfl
      rw [hg]
      have hfree {passed : List Nat} (ha : Agrees passed (gaps (skipBlock 0 (t :: us)).value)
          (t :: us) (skipBlock 0 (t :: us)).rest) :
          ∀ n, (skipBlock 0 (t :: us)).rest.length ≤ n → n < (t :: us).length → n ∉ passed :=
        fun n hn hlt hm => gaps_skipBlock 0 _ n ((ha n hn hlt).mp hm)
      refine ⟨hle, fun n hn => absurd hn (gaps_skipBlock 0 _ n), fun hn passed ha depth => ?_,
        fun hn passed ha => (skipBlock_closes 0 _ passed (hfree ha)).2 hn⟩
      have := (skipBlock_closes 0 _ passed (hfree ha)).1 hn depth
      rwa [show 0 + 1 + depth = depth + 1 by omega] at this

theorem isPlain_of_sign {sign : Sign} (h : t.sign = sign) (hc : sign ≠ .close)
    (hs : sign ≠ .start) : t.IsPlain := by
  subst h
  constructor
  · intro hk
    exact hs (by rw [Token.sign, hk])
  · intro hk
    exact hc (by rw [Token.sign, hk])

theorem kind_of_sign_start (h : t.sign = .start) : t.kind = .start := by
  unfold Token.sign at h
  split at h
  all_goals first | assumption | cases h | skip
  unfold Sign.ofMark at h
  split at h <;> cases h

theorem lead_crosses {r : Read α ts} (h : r.IsFlat) (a : α) :
    Script.Crosses (gaps (r.lead a).value.2) ts (r.lead a).rest := by
  cases r with
  | none => exact .finish_plain h
  | some s =>
    obtain ⟨used, he, hp⟩ := h
    have hg : gaps (Read.lead a (some s)).value.2 = [] := gaps_reports s.reports
    have hs := Script.Crosses.plain_append hp (.stay s.rest)
    rw [← he] at hs
    rw [hg]
    exact hs

theorem weight_crosses (weighted : Bool) (ts : List Token) :
    Script.Crosses (gaps (weight weighted ts).value.2) ts (weight weighted ts).rest := by
  cases ts with
  | nil => exact .stay []
  | cons t us =>
    rw [weight]
    split
    · next h =>
      rw [Bool.and_eq_true] at h
      refine .past (t.isPlain_of_is h.2) (lead_crosses ?_ none)
      exact .andThen (expression_isFlat us) fun e vs _ => .map _ (expect_isFlat ")" vs)
    · exact .stay _

theorem caseGaps_padded (selection : Selection) (found : List Case) :
    caseGaps (Selection.padded selection found) = caseGaps found := by
  cases selection with
  | index e =>
    match found with
    | [] => rfl
    | [.mk w body] => simp [Selection.padded, Script.padded, caseGaps, gaps]
    | _ :: _ :: _ => rfl
  | _ => rfl

theorem isPlain_of_sigil? {selection : Selection} (h : sigil? t = some selection) :
    t.IsPlain := by
  unfold sigil? at h
  repeat' split at h
  all_goals first
    | next ho => exact t.isPlain_of_isOp ho
    | cases h

theorem last_crosses (form : Form) {lead : List Item} (hl : gaps lead = [])
    {s : Span (List Item) ts} (h : s.Crosses) :
    Script.Crosses (segmentGaps (form.last lead s).value) ts (form.last lead s).rest := by
  have hg : segmentGaps (form.last lead s).value = gaps s.value := by
    simp [Form.last, Span.map, segmentGaps, gaps_append, hl]
  rw [hg]
  exact h

mutual

theorem thread_crosses (ts : List Token) : (thread ts).Crosses := by
  cases ts with
  | nil =>
    rw [thread]
    exact .finish_nil rfl
  | cons t us =>
    rw [thread]
    split
    · exact .stay rfl
    · next h => exact .past (isPlain_of_sign h nofun nofun) (thread_crosses us)
    · next h => exact .past (isPlain_of_sign h nofun nofun) (.after rfl (thread_crosses us))
    · next h => exact .past (isPlain_of_sign h nofun nofun) (.after rfl (thread_crosses us))
    · next h => exact .past (isPlain_of_sign h nofun nofun) (.after rfl (thread_crosses us))
    · next h =>
      exact .past (isPlain_of_sign h nofun nofun) <|
        .andThen (textRun_crosses t us) fun vs _ => thread_crosses vs
    · next h =>
      exact .past (isPlain_of_sign h nofun nofun) <|
        .andThen (cue_crosses t.pos us) fun vs _ => thread_crosses vs
    · next h =>
      exact .past (isPlain_of_sign h nofun nofun) <|
        .andThen (destination_crosses t.pos us) fun vs _ => thread_crosses vs
    · next h => exact .begun (block_crosses t us (kind_of_sign_start h)) fun vs _ => thread_crosses vs
    · next h =>
      exact .past (isPlain_of_sign h nofun nofun) <|
        .andThen (brace_crosses t.pos us) fun vs _ => thread_crosses vs
    · next h =>
      exact .past (isPlain_of_sign h nofun nofun) <|
        .andThen (label_crosses t.pos us) fun vs _ => thread_crosses vs
termination_by 7 * ts.length
decreasing_by all_goals grind

theorem block_crosses (t : Token) (ts : List Token) (h : t.kind = .start) :
    Script.Crosses (gaps (block t ts).value) (t :: ts) (block t ts).rest := by
  rw [block]
  dsimp only [Span.andThen]
  rw [gaps_append]
  refine .block h ?_ (endBlock_closes _)
  split
  · exact option_crosses t.pos .repeated ts
  · exact option_crosses t.pos .once ts
  · exact thread_crosses ts
  · exact Span.Crosses.after rfl (thread_crosses ts)
  · exact program_crosses ts
  · exact Span.Crosses.after rfl (thread_crosses ts)
termination_by 7 * ts.length + 6
decreasing_by all_goals grind

theorem brace_crosses (pos : Position) (ts : List Token) : (brace pos ts).Crosses := by
  cases ts with
  | nil =>
    rw [brace]
    exact .finish_nil rfl
  | cons t us =>
    rw [brace]
    split
    · next h => exact .past (isPlain_of_braceForm (by rw [h]; nofun)) (change_crosses pos _ us)
    · next h => exact .past (isPlain_of_braceForm (by rw [h]; nofun)) (put_crosses pos _ us)
    split
    · next h => exact .past (t.isPlain_of_isOp h) (echo_crosses pos us)
    split
    · next h => exact .past (isPlain_of_sigil? h) (switch_crosses pos _ us)
    refine .items (selector_isFlat (t :: us)) fun e vs _ => ?_
    split
    · exact .finish_nil rfl
    · next v ws _ =>
      split
      · next h => exact .past (v.isPlain_of_is h) (.stay rfl)
      split
      · next h => exact .past (v.isPlain_of_isOp h) (jump_crosses pos e ws)
      split
      · next h => exact .past (v.isPlain_of_is h) (switch_crosses pos _ ws)
      split
      · next h => exact .past (v.isPlain_of_isOp h) (switch_crosses pos _ ws)
      · exact .stay rfl
termination_by 7 * ts.length + 5
decreasing_by all_goals grind

theorem jump_crosses (pos : Position) (condition : Expr) (ts : List Token) :
    (jump pos condition ts).Crosses := by
  rw [jump]
  refine Span.CrossesAfter.crosses <| .bind (.of_crosses (thread_crosses ts)) fun yes us _ => ?_
  split
  · exact .finish_nil (by simp [gaps, Item.gaps])
  · next u vs _ =>
    split
    · next h =>
      refine .past (u.isPlain_of_is h) <|
        .bind (.of_crosses (thread_crosses vs)) fun no ws _ =>
          .map (closeBrace_crosses ws) fun items => by simp [gaps, Item.gaps]
    · exact .map (closeBrace_crosses (u :: vs)) fun items => by simp [gaps, Item.gaps]
termination_by 7 * ts.length + 3
decreasing_by all_goals grind

theorem switch_crosses (pos : Position) (selection : Selection) (ts : List Token) :
    (switch pos selection ts).Crosses := by
  rw [switch]
  refine Span.CrossesAfter.crosses <|
    .bind ⟨_, rfl, cases_crosses selection.isWeighted ts⟩ fun found us _ => ?_
  exact .map (closeBrace_crosses us) fun items => by simp [gaps, Item.gaps, caseGaps_padded]
termination_by 7 * ts.length + 3
decreasing_by all_goals grind

theorem cases_crosses (weighted : Bool) (ts : List Token) :
    Script.Crosses (caseGaps (cases weighted ts).value) ts (cases weighted ts).rest := by
  have hw : (weight weighted ts).CrossesAfter [] fun p => gaps p.2 :=
    ⟨_, rfl, weight_crosses weighted ts⟩
  rw [cases]
  refine Span.CrossesAfter.crosses <| hw.bind fun (w, lead) us _ =>
      .bind (.of_crosses (thread_crosses us)) fun body vs _ => ?_
  split
  · exact .finish_nil (by simp [caseGaps, gaps_append])
  · next v ws _ =>
    split
    · next h =>
      exact .past (v.isPlain_of_is h) <|
        .map (cases_crosses weighted ws) fun found => by simp [caseGaps, gaps_append]
    · exact .stay (by simp [caseGaps, gaps_append])
termination_by 7 * ts.length + 2
decreasing_by all_goals grind

theorem label_crosses (pos : Position) (ts : List Token) : (label pos ts).Crosses := by
  cases ts with
  | nil =>
    rw [label]
    exact .finish_nil rfl
  | cons t us =>
    rw [label]
    split
    · next h =>
      exact .past (t.isPlain_of_is h) <| Span.CrossesAfter.crosses <|
        .map (thread_crosses us) fun body => by simp [gaps, Item.gaps]
    refine .items (wantedName_isFlat .labelName (t :: us)) fun found vs _ => ?_
    split
    · exact .stay rfl
    split
    · exact .finish_nil rfl
    · next v ws _ =>
      split
      · next h =>
        refine .past (inExpression_of_opensArguments h).isPlain <|
          .items (paramList_isFlat ws) fun params xs _ => Span.CrossesAfter.crosses <|
            .map (thread_crosses xs) fun body => by simp [gaps, Item.gaps]
      · exact .stay rfl
termination_by 7 * ts.length + 5
decreasing_by all_goals grind

theorem option_crosses (pos : Position) (leader : Leader) (ts : List Token) :
    (option pos leader ts).Crosses := by
  rw [option]
  refine .items (terms_isFlat ts) fun found us _ => Span.CrossesAfter.crosses <|
    .map (segments_crosses us) fun parts => by simp [gaps, Item.gaps]
termination_by 7 * ts.length + 5
decreasing_by all_goals grind

theorem segments_crosses (ts : List Token) :
    Script.Crosses (segmentGaps (segments ts).value) ts (segments ts).rest := by
  rw [segments]
  refine Span.CrossesAfter.crosses <| .bind (.of_crosses (thread_crosses ts)) fun body us _ => ?_
  split
  · exact .finish_nil (by simp [segmentGaps])
  · next u vs _ =>
    split
    · next h =>
      exact .past (u.isPlain_of_is h) <|
        .map (inside_crosses forward false true [] rfl vs) fun parts => by simp [segmentGaps]
    split
    · next h =>
      exact .past (u.isPlain_of_is h) <|
        .map (inside_crosses reversed false true [] rfl vs) fun parts => by simp [segmentGaps]
    · exact .stay (by simp [segmentGaps])
termination_by 7 * ts.length + 4
decreasing_by all_goals grind

theorem inside_crosses (form : Form) (nested first : Bool) (lead : List Item)
    (hl : gaps lead = []) (ts : List Token) :
    Script.Crosses (segmentGaps (inside form nested first lead ts).value) ts
      (inside form nested first lead ts).rest := by
  rw [inside]
  refine Span.CrossesAfter.crosses <| .bind (.of_crosses (thread_crosses ts)) fun body us _ => ?_
  split
  · exact .finish_nil (by simp [segmentGaps, gaps_append, hl])
  · next u vs _ =>
    split
    · next h =>
      split
      · exact .past (u.isPlain_of_is h) <|
          .map (inside_crosses form false false [] rfl vs) fun parts => by
            simp [segmentGaps, gaps_append, hl]
      · exact .past (u.isPlain_of_is h) <|
          .map (last_crosses form rfl (trailing_crosses vs)) fun parts => by
            simp [segmentGaps, gaps_append, hl]
    split
    · next h =>
      refine .past (u.isPlain_of_is h) <|
        .map (inside_crosses form true false _ ?_ vs) fun parts => by
          simp [segmentGaps, gaps_append, hl]
      split <;> rfl
    · exact .map (last_crosses form rfl (trailing_crosses (u :: vs))) fun parts => by
        simp [segmentGaps, gaps_append, hl]
termination_by 7 * ts.length + 2
decreasing_by all_goals grind

theorem trailing_crosses (ts : List Token) : (trailing ts).Crosses := by
  rw [trailing]
  refine .andThen (thread_crosses ts) fun us _ => ?_
  split
  · exact .stay rfl
  · next u vs _ =>
    split
    · next h =>
      rw [Bool.or_eq_true] at h
      have hu : u.IsPlain := h.elim (fun h => u.isPlain_of_is h) fun h => u.isPlain_of_is h
      exact .past hu (.after rfl (trailing_crosses vs))
    · exact .stay rfl
termination_by 7 * ts.length + 1
decreasing_by all_goals grind

end

end Script

end Storyline
