import Storyline.Proofs.Grammar.Threads
import Storyline.Script.Thread

namespace Storyline.Script

/-- A run of text, which may be empty. -/
def IsRun (run : List Token) : Prop := ∀ t ∈ run, t.isText = true

theorem isRun_nil : IsRun [] := fun _ h => absurd h List.not_mem_nil

theorem isRun_singleton {t : Token} (h : t.isText = true) : IsRun [t] :=
  List.forall_mem_singleton.mpr h

/-- The token ends the body of an option. -/
structure EndsBody (u : Token) : Prop where
  closes : u.sign = .close
  opening : u.is "[" = false
  closing : u.is "]" = false

/-- The text of a run with a token after it. -/
def runItems (run : List Token) (after : Token) : List Item :=
  match run with
  | [] => []
  | t :: us =>
    [.content t.pos (.text (t.printed ++
      us.foldr (fun u tail => u.space ++ u.printed ++ tail) "") t.space after.space)]

/-- What a part belongs to and what it holds. -/
def Segment.outline : Segment → Role × List Item
  | .mk _ role body => (role, body)

/-- A run that belongs to a part of an option, and the token after it. -/
structure Stretch where
  role : Role
  run : List Token
  after : Token

def Stretch.outline (s : Stretch) : Role × List Item := (s.role, runItems s.run s.after)

variable {u : Token} {run vs rest : List Token} {form : Form} {first : Bool} {lead : List Item}
  {parts : List Segment} {body : List Item}

theorem sign_of_is_opening (h : u.is "[" = true) : u.sign = .close := by
  simp only [Token.is, Bool.and_eq_true, beq_iff_eq] at h
  simp [Token.sign, h.1, h.2, Sign.ofMark]

theorem sign_of_is_closing (h : u.is "]" = true) : u.sign = .close := by
  simp only [Token.is, Bool.and_eq_true, beq_iff_eq] at h
  simp [Token.sign, h.1, h.2, Sign.ofMark]

theorem isText_of_sign_close (h : u.sign = .close) : u.isText = false := by
  simp [Token.isText, h]

/-- A run of text is a thread. -/
theorem thread_run (vs : List Token) (hr : IsRun run) (hu : u.sign = .close) :
    (thread (run ++ u :: vs)).Gives (runItems run u) (u :: vs) := by
  have hclose : Writes (.thread []) (u :: vs) (u :: vs) := .close hu
  cases run with
  | nil => exact hclose.reads
  | cons t run =>
    have ht := hr t List.mem_cons_self
    have hrest : ∀ w ∈ run, w.isText = true := fun w hw => hr w (List.mem_cons_of_mem t hw)
    exact (Writes.text ht hrest (isText_of_sign_close hu) hclose).reads

theorem trailing_run (vs : List Token) (hr : IsRun run) (hu : EndsBody u) :
    (trailing (run ++ u :: vs)).Gives (runItems run u) (u :: vs) := by
  rw [trailing, ← List.append_nil (runItems run u)]
  refine (thread_run vs hr hu.closes).andThen fun _ => ?_
  simp only [hu.opening, hu.closing, Bool.or_self, Bool.false_eq_true, if_false]
  exact .stay _ _

/-- A bracket behind the last one is a mistake, and what is behind it belongs to the last part. -/
theorem trailing_bracket (hr : IsRun run) (hu : u.is "[" = true ∨ u.is "]" = true)
    (h : (trailing vs).Gives body rest) :
    (trailing (run ++ u :: vs)).Gives
      (runItems run u ++ .report ⟨u.pos, .afterBracket u⟩ :: body) rest := by
  have hsign : u.sign = .close := hu.elim sign_of_is_opening sign_of_is_closing
  rw [trailing]
  refine (thread_run vs hr hsign).andThen fun _ => ?_
  have hbracket : (u.is "[" || u.is "]") = true := by simpa using hu
  simp only [hbracket, if_true]
  exact Span.Gives.past (h.after _)

/-- A run in inner brackets, up to the bracket that closes them. -/
theorem inside_closing (form : Form) (first : Bool) (lead : List Item) (hr : IsRun run)
    (hs : u.sign = .close) (hu : u.is form.closing = true)
    (h : (inside form false false [] vs).Gives parts rest) :
    (inside form true first lead (run ++ u :: vs)).Gives
      (.mk (here (run ++ u :: vs)) form.inner (lead ++ runItems run u) :: parts) rest := by
  rw [inside]
  refine (thread_run _ hr hs).bind fun _ => ?_
  simp only [hu, if_true]
  exact Span.Gives.past (h.map _)

/-- A run up to the last bracket, and what is behind it. -/
theorem inside_last (form : Form) (first : Bool) (lead : List Item) (hr : IsRun run)
    (hs : u.sign = .close) (hu : u.is form.closing = true)
    (h : (trailing vs).Gives body rest) :
    (inside form false first lead (run ++ u :: vs)).Gives
      [.mk (here (run ++ u :: vs)) (form.role false first u) (lead ++ runItems run u),
        .mk (here vs) form.outer body] rest := by
  rw [inside]
  refine (thread_run _ hr hs).bind fun _ => ?_
  simp only [hu, if_true, Bool.false_eq_true, if_false]
  exact Span.Gives.past ((h.map _).map _)

/-- A run up to a bracket that opens. In inner brackets that is a mistake. -/
theorem inside_opening (form : Form) (nested first : Bool) (lead : List Item) (hr : IsRun run)
    (hs : u.sign = .close) (hc : u.is form.closing = false) (hu : u.is form.opening = true)
    (h : (inside form true false
      (if nested then [.report ⟨here vs, .tooDeep form.opening⟩] else []) vs).Gives parts rest) :
    (inside form nested first lead (run ++ u :: vs)).Gives
      (.mk (here (run ++ u :: vs)) (form.role nested first u) (lead ++ runItems run u) :: parts)
      rest := by
  rw [inside]
  refine (thread_run _ hr hs).bind fun _ => ?_
  simp only [hc, hu, if_true, Bool.false_eq_true, if_false]
  exact Span.Gives.past (h.map _)

/-- A run that no bracket closes, which is a mistake. -/
theorem inside_unclosed (form : Form) (nested first : Bool) (lead : List Item) (vs : List Token)
    (hr : IsRun run) (hu : EndsBody u) (hc : u.is form.closing = false)
    (ho : u.is form.opening = false) :
    (inside form nested first lead (run ++ u :: vs)).Gives
      [.mk (here (run ++ u :: vs)) (form.role nested first u) (lead ++ runItems run u),
        .mk (here (u :: vs)) form.outer [.report ⟨u.pos, .unclosed form.closing u⟩]] (u :: vs) := by
  have htrailing : (trailing (u :: vs)).Gives [] (u :: vs) := trailing_run vs isRun_nil hu
  rw [inside]
  refine (thread_run _ hr hu.closes).bind fun _ => ?_
  simp only [hc, ho, Bool.false_eq_true, if_false]
  exact (htrailing.map _).map _

/-- The body of an option up to its first bracket. -/
theorem segments_forward_of_inside (hr : IsRun run) (hu : u.is "[" = true)
    (h : (inside forward false true [] vs).Gives parts rest) :
    (segments (run ++ u :: vs)).Gives
      (.mk (here (run ++ u :: vs)) .answer (runItems run u) :: parts) rest := by
  rw [segments]
  refine (thread_run _ hr (sign_of_is_opening hu)).bind fun _ => ?_
  simp only [hu, if_true]
  exact Span.Gives.past (h.map _)

theorem segments_reversed_of_inside (hr : IsRun run) (hu : u.is "]" = true)
    (h : (inside reversed false true [] vs).Gives parts rest) :
    (segments (run ++ u :: vs)).Gives
      (.mk (here (run ++ u :: vs)) .question (runItems run u) :: parts) rest := by
  have ho : u.is "[" = false := is_eq_false hu (by decide)
  rw [segments]
  refine (thread_run _ hr (sign_of_is_closing hu)).bind fun _ => ?_
  simp only [ho, hu, if_true, Bool.false_eq_true, if_false]
  exact Span.Gives.past (h.map _)

/-- Questions in inner brackets, each with a part after it that is shown and answered, from behind
the bracket that opens the first of them up to the last bracket of all. -/
inductive Alternates : List Token → List Stretch → Prop where
  | last {q c b d} : IsRun q → c.is "]" = true → IsRun b → d.is "]" = true →
      Alternates (q ++ c :: (b ++ [d])) [⟨.question, q, c⟩, ⟨.both, b, d⟩]
  | more {q c b o ts found} : IsRun q → c.is "]" = true → IsRun b → o.is "[" = true →
      Alternates ts found →
      Alternates (q ++ c :: (b ++ o :: ts)) (⟨.question, q, c⟩ :: ⟨.both, b, o⟩ :: found)

/-- What may stand behind the opening bracket: one question, or more of the answer with questions in
brackets of their own. -/
inductive Encloses : List Token → List Stretch → Prop where
  | question {q c} : IsRun q → c.is "]" = true → Encloses (q ++ [c]) [⟨.question, q, c⟩]
  | split {a o ts found} : IsRun a → o.is "[" = true → Alternates ts found →
      Encloses (a ++ o :: ts) (⟨.answer, a, o⟩ :: found)

/-- A body in forward brackets: the answer, what the brackets enclose, and with `last` the rest of the
answer. -/
structure IsForward (ts : List Token) (stretches : List Stretch) (last : List Token) (u : Token)
    (rest : List Token) : Prop where
  written : ∃ lead o enclosed found, IsRun lead ∧ o.is "[" = true ∧ Encloses enclosed found ∧
    ts = lead ++ o :: (enclosed ++ (last ++ u :: rest)) ∧ stretches = ⟨.answer, lead, o⟩ :: found
  last : IsRun last
  ends : EndsBody u

section Forward

variable {ts last : List Token} {found : List Stretch}

theorem Alternates.gives (h : Alternates ts found) (rest : List Token) (hl : IsRun last)
    (hu : EndsBody u) :
    ∃ parts, (inside forward true false [] (ts ++ (last ++ u :: rest))).Gives parts (u :: rest) ∧
      parts.map Segment.outline = found.map Stretch.outline ++ [(.answer, runItems last u)] := by
  induction h with
  | @last q c b d hq hc hb hd =>
    have hbehind := inside_last forward false [] hb
      (sign_of_is_closing hd) hd (trailing_run rest hl hu)
    have hall := inside_closing forward false [] hq
      (sign_of_is_closing hc) hc hbehind
    have htokens : q ++ c :: (b ++ [d]) ++ (last ++ u :: rest) =
        q ++ c :: (b ++ d :: (last ++ u :: rest)) := by simp
    rw [htokens]
    exact ⟨_, hall, rfl⟩
  | @more q c b o ts found hq hc hb ho _ ih =>
    obtain ⟨parts, hparts, houtline⟩ := ih
    have hnot : o.is "]" = false := is_eq_false ho (by decide)
    have hbehind := inside_opening forward false false [] hb (sign_of_is_opening ho) hnot ho hparts
    have hall := inside_closing forward false [] hq
      (sign_of_is_closing hc) hc hbehind
    have htokens : q ++ c :: (b ++ o :: ts) ++ (last ++ u :: rest) =
        q ++ c :: (b ++ o :: (ts ++ (last ++ u :: rest))) := by simp
    rw [htokens]
    refine ⟨_, hall, ?_⟩
    simp only [List.map_cons, houtline]
    rfl

theorem Encloses.gives (h : Encloses ts found) (rest : List Token) (hl : IsRun last)
    (hu : EndsBody u) :
    ∃ parts, (inside forward false true [] (ts ++ (last ++ u :: rest))).Gives parts (u :: rest) ∧
      parts.map Segment.outline = found.map Stretch.outline ++ [(.answer, runItems last u)] := by
  cases h with
  | @question q c hq hc =>
    have hnot : c.is "[" = false := is_eq_false hc (by decide)
    have hall := inside_last forward true [] hq
      (sign_of_is_closing hc) hc (trailing_run rest hl hu)
    have hrole : forward.role false true c = .question := by simp [Form.role, forward, hnot]
    have htokens : q ++ [c] ++ (last ++ u :: rest) = q ++ c :: (last ++ u :: rest) := by simp
    rw [hrole] at hall
    rw [htokens]
    exact ⟨_, hall, rfl⟩
  | @split a o ts found ha ho hts =>
    obtain ⟨parts, hparts, houtline⟩ := hts.gives rest hl hu
    have hnot : o.is "]" = false := is_eq_false ho (by decide)
    have hall := inside_opening forward false true [] ha
      (sign_of_is_opening ho) hnot ho hparts
    have hrole : forward.role false true o = .answer := by simp [Form.role, forward, ho]
    have htokens : a ++ o :: ts ++ (last ++ u :: rest) =
        a ++ o :: (ts ++ (last ++ u :: rest)) := by simp
    rw [hrole] at hall
    rw [htokens]
    refine ⟨_, hall, ?_⟩
    simp only [List.map_cons, houtline]
    rfl

/-- A body in forward brackets is read without a mistake, each part for what it belongs to. -/
theorem IsForward.gives (h : IsForward ts found last u rest) :
    ∃ parts, (segments ts).Gives parts (u :: rest) ∧
      parts.map Segment.outline = (found ++ [Stretch.mk .answer last u]).map Stretch.outline := by
  obtain ⟨lead, o, enclosed, inner, hlead, ho, he, rfl, rfl⟩ := h.written
  obtain ⟨parts, hparts, houtline⟩ := he.gives rest h.last h.ends
  refine ⟨_, segments_forward_of_inside hlead ho hparts, ?_⟩
  simp only [List.map_cons, List.map_append, List.cons_append, houtline]
  rfl

end Forward

end Storyline.Script
