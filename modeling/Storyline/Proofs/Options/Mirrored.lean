import Mathlib.Data.List.Forall2
import Storyline.Proofs.Options.Brackets

namespace Storyline

/-- Each bracket of a text for the other. -/
def exchanged (text : String) : String :=
  String.ofList (text.toList.map fun c => if c = '[' then ']' else if c = ']' then '[' else c)

def Token.mirrored (t : Token) : Token :=
  if t.is "[" then { t with text := "]" }
  else if t.is "]" then { t with text := "[" }
  else t

def Role.mirrored : Role → Role
  | question => answer
  | answer => question
  | both => both

/-- The same content, or a mistake at the same place about the other bracket. -/
inductive Item.Mirrors : Item → Item → Prop where
  | content {pos c} : Mirrors (.content pos c) (.content pos c)
  | report {d d'} : d'.pos = d.pos → d'.mistake.message = exchanged d.mistake.message →
      Mirrors (.report d) (.report d')

inductive Segment.Mirrors : Segment → Segment → Prop where
  | mk {pos role body body'} : List.Forall₂ Item.Mirrors body body' →
      Mirrors (.mk pos role body) (.mk pos role.mirrored body')

namespace Script

def Form.mirrored (form : Form) : Form :=
  ⟨form.closing, form.opening, form.outer.mirrored, form.inner.mirrored⟩

/-- The form of a body, whichever bracket comes first. -/
def Form.IsEither (form : Form) : Prop := form = forward ∨ form = reversed

/-- A body of text and brackets, which may stand in any order. -/
inductive Bracketed : List Token → Prop where
  | run {run} : IsRun run → Bracketed run
  | bracket {run d more} : IsRun run → (d.is "[" = true ∨ d.is "]" = true) → Bracketed more →
      Bracketed (run ++ d :: more)

variable {d u v v' : Token} {run body vs rest : List Token} {form : Form} {first nested : Bool}
  {lead lead' : List Item}

theorem bracketed_of_forall
    (h : ∀ t ∈ body, t.isText = true ∨ t.is "[" = true ∨ t.is "]" = true) : Bracketed body := by
  induction body with
  | nil => exact .run fun t ht => by cases ht
  | cons t body ih =>
    have hmore := ih fun v hv => h v (List.mem_cons_of_mem t hv)
    rcases h t List.mem_cons_self with ht | ht
    · have longer {run : List Token} (hr : IsRun run) : IsRun (t :: run) := by
        intro v hv
        rcases List.mem_cons.mp hv with rfl | hv
        · exact ht
        · exact hr v hv
      cases hmore with
      | run hr => exact .run (longer hr)
      | bracket hr hd hm => exact .bracket (longer hr) hd hm
    · exact .bracket isRun_nil ht hmore

section Tokens

theorem mirrored_opening (h : d.is "[" = true) : d.mirrored = { d with text := "]" } := by
  rw [Token.mirrored, if_pos h]

theorem mirrored_closing (h : d.is "]" = true) : d.mirrored = { d with text := "[" } := by
  have hnot : d.is "[" = false := is_eq_false h (by decide)
  rw [Token.mirrored, if_neg (by simp [hnot]), if_pos h]

theorem is_mirrored_opening (h : d.is "[" = true) : d.mirrored.is "]" = true := by
  rw [mirrored_opening h]
  simp only [Token.is, Bool.and_eq_true] at h ⊢
  exact ⟨h.1, rfl⟩

theorem is_mirrored_closing (h : d.is "]" = true) : d.mirrored.is "[" = true := by
  rw [mirrored_closing h]
  simp only [Token.is, Bool.and_eq_true] at h ⊢
  exact ⟨h.1, rfl⟩

theorem pos_mirrored (t : Token) : t.mirrored.pos = t.pos := by
  unfold Token.mirrored
  split
  · rfl
  · split <;> rfl

theorem space_mirrored (t : Token) : t.mirrored.space = t.space := by
  unfold Token.mirrored
  split
  · rfl
  · split <;> rfl

theorem mirrored_of_isText (h : d.isText = true) : d.mirrored = d := by
  have ho : ¬ d.is "[" = true := fun ho => by
    simp [isText_of_sign_close (sign_of_is_opening ho)] at h
  have hc : ¬ d.is "]" = true := fun hc => by
    simp [isText_of_sign_close (sign_of_is_closing hc)] at h
  rw [Token.mirrored, if_neg ho, if_neg hc]

/-- Text has no brackets to exchange. -/
theorem map_mirrored_run (hr : IsRun run) : run.map Token.mirrored = run := by
  calc run.map Token.mirrored = run.map id :=
        List.map_congr_left fun t ht => mirrored_of_isText (hr t ht)
    _ = run := List.map_id run

theorem here_mirrored (body : List Token) :
    here (body.map Token.mirrored ++ u :: rest) = here (body ++ u :: rest) := by
  cases body with
  | nil => rfl
  | cons t body => exact pos_mirrored t

theorem map_mirrored_bracket (hr : IsRun run) (more : List Token) :
    (run ++ d :: more).map Token.mirrored ++ u :: rest =
      run ++ d.mirrored :: (more.map Token.mirrored ++ u :: rest) := by
  rw [List.map_append, map_mirrored_run hr, List.map_cons, List.append_assoc, List.cons_append]

theorem here_bracket (run more vs : List Token) :
    here (run ++ d.mirrored :: more) = here (run ++ d :: vs) := by
  cases run with
  | nil => exact pos_mirrored d
  | cons t run => rfl

theorem runItems_mirrored (run : List Token) (d : Token) :
    runItems run d.mirrored = runItems run d := by
  cases run with
  | nil => rfl
  | cons t run => simp only [runItems, space_mirrored]

theorem mirrors_runItems (run : List Token) (u : Token) :
    List.Forall₂ Item.Mirrors (runItems run u) (runItems run u) := by
  cases run with
  | nil => exact .nil
  | cons t run => exact .cons .content .nil

end Tokens

section Messages

theorem eq_of_is {text : String} (h : d.is text = true) : d = ⟨.mark, d.space, text, d.pos⟩ := by
  simp only [Token.is, Bool.and_eq_true, beq_iff_eq] at h
  rw [← h.1, ← h.2]

theorem afterBracket_mirrored (h : d.is "[" = true ∨ d.is "]" = true) :
    Item.Mirrors (.report ⟨d.pos, .afterBracket d⟩)
      (.report ⟨d.mirrored.pos, .afterBracket d.mirrored⟩) := by
  refine .report (pos_mirrored d) ?_
  rcases h with h | h
  · rw [mirrored_opening h, eq_of_is h]
    show "unexpected " ++ ("token" ++ " \"" ++ "]" ++ "\"") ++ " after the closing bracket" =
      exchanged ("unexpected " ++ ("token" ++ " \"" ++ "[" ++ "\"") ++ " after the closing bracket")
    decide +kernel
  · rw [mirrored_closing h, eq_of_is h]
    show "unexpected " ++ ("token" ++ " \"" ++ "[" ++ "\"") ++ " after the closing bracket" =
      exchanged ("unexpected " ++ ("token" ++ " \"" ++ "]" ++ "\"") ++ " after the closing bracket")
    decide +kernel

theorem tooDeep_mirrored (hf : form.IsEither) (pos : Position) :
    Item.Mirrors (.report ⟨pos, .tooDeep form.opening⟩)
      (.report ⟨pos, .tooDeep form.mirrored.opening⟩) := by
  refine .report rfl ?_
  rcases hf with rfl | rfl
  · show "'" ++ "]" ++ "' nested too deeply" = exchanged ("'" ++ "[" ++ "' nested too deeply")
    decide +kernel
  · show "'" ++ "[" ++ "' nested too deeply" = exchanged ("'" ++ "]" ++ "' nested too deeply")
    decide +kernel

/-- What ends a body is described without brackets. -/
theorem describe_of_endsBody (hu : EndsBody u) :
    u.describe = "end of block" ∨ u.describe = "token \"|\"" ∨
      u.describe = "token \"" ++ "\x7d" ++ "\"" := by
  obtain ⟨kind, space, text, pos⟩ := u
  have hs := hu.closes
  cases kind with
  | stop => exact .inl rfl
  | mark =>
    have ho : text ≠ "[" := by simpa [Token.is] using hu.opening
    have hc : text ≠ "]" := by simpa [Token.is] using hu.closing
    simp only [Token.sign] at hs
    unfold Sign.ofMark at hs
    split at hs
    · exact .inr (.inl rfl)
    · exact absurd rfl hc
    · exact absurd rfl ho
    · exact .inr (.inr rfl)
    all_goals cases hs
  | _ => cases hs

theorem unclosed_mirrored (hf : form.IsEither) (hu : EndsBody u) :
    Item.Mirrors (.report ⟨u.pos, .unclosed form.closing u⟩)
      (.report ⟨u.pos, .unclosed form.mirrored.closing u⟩) := by
  refine .report rfl ?_
  show "expected '" ++ form.opening ++ "', found " ++ u.describe =
    exchanged ("expected '" ++ form.closing ++ "', found " ++ u.describe)
  have hboth : ∀ found ∈ ["end of block", "token \"|\"", "token \"" ++ "\x7d" ++ "\""],
      ("expected '" ++ "[" ++ "', found " ++ found =
        exchanged ("expected '" ++ "]" ++ "', found " ++ found)) ∧
      ("expected '" ++ "]" ++ "', found " ++ found =
        exchanged ("expected '" ++ "[" ++ "', found " ++ found)) := by
    decide +kernel
  have hfound := hboth u.describe (by simpa using describe_of_endsBody hu)
  rcases hf with rfl | rfl
  · exact hfound.1
  · exact hfound.2

end Messages

section Forms

theorem Form.IsEither.mirrored (hf : form.IsEither) : form.mirrored.IsEither := by
  rcases hf with rfl | rfl
  · exact .inr rfl
  · exact .inl rfl

theorem Form.IsEither.endsBody (hf : form.IsEither) (hu : EndsBody u) :
    u.is form.closing = false ∧ u.is form.opening = false := by
  rcases hf with rfl | rfl
  · exact ⟨hu.closing, hu.opening⟩
  · exact ⟨hu.opening, hu.closing⟩

/-- A bracket closes and its mirror image too, or both open. -/
theorem Form.IsEither.bracket (hf : form.IsEither) (hd : d.is "[" = true ∨ d.is "]" = true) :
    (d.is form.closing = true ∧ d.is form.opening = false ∧
      d.mirrored.is form.mirrored.closing = true ∧ d.mirrored.is form.mirrored.opening = false) ∨
    (d.is form.closing = false ∧ d.is form.opening = true ∧
      d.mirrored.is form.mirrored.closing = false ∧ d.mirrored.is form.mirrored.opening = true) := by
  have opens (ho : d.is "[" = true) : d.is "]" = false ∧ d.mirrored.is "[" = false :=
    ⟨is_eq_false ho (by decide), is_eq_false (is_mirrored_opening ho) (by decide)⟩
  have closes (hc : d.is "]" = true) : d.is "[" = false ∧ d.mirrored.is "]" = false :=
    ⟨is_eq_false hc (by decide), is_eq_false (is_mirrored_closing hc) (by decide)⟩
  rcases hf with rfl | rfl <;> rcases hd with hd | hd
  · exact .inr ⟨(opens hd).1, hd, (opens hd).2, is_mirrored_opening hd⟩
  · exact .inl ⟨hd, (closes hd).1, is_mirrored_closing hd, (closes hd).2⟩
  · exact .inl ⟨hd, (opens hd).1, is_mirrored_opening hd, (opens hd).2⟩
  · exact .inr ⟨(closes hd).1, hd, (closes hd).2, is_mirrored_closing hd⟩

theorem role_mirrored (form : Form) (nested first : Bool)
    (h : v'.is form.mirrored.opening = v.is form.opening) :
    form.mirrored.role nested first v' = (form.role nested first v).mirrored := by
  unfold Form.role
  cases nested with
  | true => rfl
  | false =>
    cases first with
    | false => rfl
    | true =>
      simp only [h, Bool.false_eq_true, if_false, if_true]
      split <;> rfl

end Forms

/-- What stands behind the last bracket, and its mirror image. -/
theorem trailing_mirrored (hb : Bracketed body) (rest : List Token) (hu : EndsBody u) : ∃ found found',
    (trailing (body ++ u :: rest)).Gives found (u :: rest) ∧
    (trailing (body.map Token.mirrored ++ u :: rest)).Gives found' (u :: rest) ∧
    List.Forall₂ Item.Mirrors found found' := by
  induction hb with
  | @run run hr =>
    rw [map_mirrored_run hr]
    exact ⟨_, _, trailing_run rest hr hu, trailing_run rest hr hu, mirrors_runItems run u⟩
  | @bracket run d more hr hd _ ih =>
    obtain ⟨found, found', hfound, hfound', hm⟩ := ih
    have hd' : d.mirrored.is "[" = true ∨ d.mirrored.is "]" = true :=
      hd.symm.imp is_mirrored_closing is_mirrored_opening
    have hrest := trailing_bracket hr hd hfound
    have hrest' := trailing_bracket hr hd' hfound'
    rw [runItems_mirrored] at hrest'
    rw [map_mirrored_bracket hr, List.append_assoc, List.cons_append]
    exact ⟨_, _, hrest, hrest',
      List.rel_append (mirrors_runItems run d) (.cons (afterBracket_mirrored hd) hm)⟩

/-- A body from inside its brackets on, and its mirror image. -/
theorem inside_mirrored (nested first : Bool) (hf : form.IsEither) (hb : Bracketed body)
    (rest : List Token) (hu : EndsBody u) (hl : List.Forall₂ Item.Mirrors lead lead') : ∃ parts parts',
    (inside form nested first lead (body ++ u :: rest)).Gives parts (u :: rest) ∧
    (inside form.mirrored nested first lead' (body.map Token.mirrored ++ u :: rest)).Gives parts'
      (u :: rest) ∧ List.Forall₂ Segment.Mirrors parts parts' := by
  induction hb generalizing nested first lead lead' with
  | @run run hr =>
    obtain ⟨hc, ho⟩ := hf.endsBody hu
    obtain ⟨hc', ho'⟩ := hf.mirrored.endsBody hu
    have hpart := inside_unclosed form nested first lead rest hr hu hc ho
    have hpart' := inside_unclosed form.mirrored nested first lead' rest hr hu hc' ho'
    rw [role_mirrored form nested first (ho'.trans ho.symm)] at hpart'
    rw [map_mirrored_run hr]
    exact ⟨_, _, hpart, hpart', .cons (.mk (List.rel_append hl (mirrors_runItems run u)))
      (.cons (.mk (.cons (unclosed_mirrored hf hu) .nil)) .nil)⟩
  | @bracket run d more hr hd hmore ih =>
    have hs : d.sign = .close := hd.elim sign_of_is_opening sign_of_is_closing
    have hs' : d.mirrored.sign = .close := hd.elim
      (fun h => sign_of_is_closing (is_mirrored_opening h))
      fun h => sign_of_is_opening (is_mirrored_closing h)
    have hitems := List.rel_append hl (mirrors_runItems run d)
    rw [map_mirrored_bracket hr, List.append_assoc, List.cons_append]
    rcases hf.bracket hd with ⟨hc, ho, hc', ho'⟩ | ⟨hc, ho, hc', ho'⟩
    · cases nested with
      | true =>
        obtain ⟨parts, parts', hparts, hparts', hm⟩ := ih false false .nil
        have hpart := inside_closing form first lead hr hs hc hparts
        have hpart' := inside_closing form.mirrored first lead' hr hs' hc' hparts'
        rw [runItems_mirrored, here_bracket _ _ (more ++ u :: rest)] at hpart'
        exact ⟨_, _, hpart, hpart', .cons (.mk hitems) hm⟩
      | false =>
        obtain ⟨found, found', hfound, hfound', hm⟩ := trailing_mirrored hmore rest hu
        have hpart := inside_last form first lead hr hs hc hfound
        have hpart' := inside_last form.mirrored first lead' hr hs' hc' hfound'
        rw [runItems_mirrored, here_bracket _ _ (more ++ u :: rest), here_mirrored,
          role_mirrored form false first (ho'.trans ho.symm)] at hpart'
        exact ⟨_, _, hpart, hpart', .cons (.mk hitems) (.cons (.mk hm) .nil)⟩
    · have hdeep : List.Forall₂ Item.Mirrors
          (if nested then [.report ⟨here (more ++ u :: rest), .tooDeep form.opening⟩] else [])
          (if nested then [.report ⟨here (more.map Token.mirrored ++ u :: rest),
            .tooDeep form.mirrored.opening⟩] else []) := by
        cases nested with
        | true =>
          rw [here_mirrored]
          exact .cons (tooDeep_mirrored hf _) .nil
        | false => exact .nil
      obtain ⟨parts, parts', hparts, hparts', hm⟩ := ih true false hdeep
      have hpart := inside_opening form nested first lead hr hs hc ho hparts
      have hpart' := inside_opening form.mirrored nested first lead' hr hs' hc' ho' hparts'
      rw [runItems_mirrored, here_bracket _ _ (more ++ u :: rest),
        role_mirrored form nested first (ho'.trans ho.symm)] at hpart'
      exact ⟨_, _, hpart, hpart', .cons (.mk hitems) hm⟩

/-- A body with a bracket in it, and the same body with its brackets exchanged. -/
theorem segments_mirrored (rest : List Token) (hb : Bracketed body)
    (hd : ∃ d ∈ body, d.is "[" = true ∨ d.is "]" = true) (hu : EndsBody u) : ∃ parts parts',
    (segments (body ++ u :: rest)).Gives parts (u :: rest) ∧
    (segments (body.map Token.mirrored ++ u :: rest)).Gives parts' (u :: rest) ∧
    List.Forall₂ Segment.Mirrors parts parts' := by
  obtain ⟨e, hm, he⟩ := hd
  cases hb with
  | run hr =>
    have hs : e.sign = .close := he.elim sign_of_is_opening sign_of_is_closing
    have htext := hr e hm
    rw [isText_of_sign_close hs] at htext
    cases htext
  | @bracket run d more hr hd hmore =>
    have hitems := mirrors_runItems run d
    rw [map_mirrored_bracket hr, List.append_assoc, List.cons_append]
    rcases hd with ho | hc
    · obtain ⟨parts, parts', hparts, hparts', hm⟩ :=
        inside_mirrored false true (.inl rfl) hmore rest hu .nil
      have hall := segments_forward_of_inside hr ho hparts
      have hall' := segments_reversed_of_inside hr (is_mirrored_opening ho) hparts'
      rw [runItems_mirrored, here_bracket _ _ (more ++ u :: rest)] at hall'
      exact ⟨_, _, hall, hall', .cons (.mk hitems) hm⟩
    · obtain ⟨parts, parts', hparts, hparts', hm⟩ :=
        inside_mirrored false true (.inr rfl) hmore rest hu .nil
      have hall := segments_reversed_of_inside hr hc hparts
      have hall' := segments_forward_of_inside hr (is_mirrored_closing hc) hparts'
      rw [runItems_mirrored, here_bracket _ _ (more ++ u :: rest)] at hall'
      exact ⟨_, _, hall, hall', .cons (.mk hitems) hm⟩

end Script

end Storyline
