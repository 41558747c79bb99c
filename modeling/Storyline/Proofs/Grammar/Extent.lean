import Storyline.Proofs.Grammar.Takes
import Storyline.Proofs.Yields

namespace Storyline

variable {α : Type} {t : Token} {ts : List Token}

namespace Token.InExpression

theorem kind_mem (h : t.InExpression) : t.kind ∈ [Kind.word, .number, .symbol, .mark] := by
  have ofOp {text : String} (ho : t.isOp text = true) : t.kind ∈ [Kind.word, .number, .symbol, .mark] := by
    simp only [isOp, Bool.and_eq_true, Bool.or_eq_true, beq_iff_eq] at ho
    rcases ho.1 with hk | hk <;> rw [hk] <;> decide
  cases h with
  | word kind => rw [kind]; decide
  | number kind => rw [kind]; decide
  | infixOp op spelled => exact ofOp spelled
  | prefixOp op spelled => exact ofOp spelled
  | dot spelled => exact ofOp spelled
  | delimiter known spelled =>
    simp only [is, Bool.and_eq_true, beq_iff_eq] at spelled
    rw [spelled.1]
    decide

/-- Punctuation in an expression has the text of an operator, of a dot or of a delimiter. -/
theorem text_mem (h : t.InExpression) (hk : t.kind ≠ .word) (hn : t.kind ≠ .number) :
    t.text ∈ BinaryOp.all.map BinaryOp.spelling ++ UnaryOp.all.map UnaryOp.spelling ++
      [".", "(", ")", "\x7b", "\x7d", ","] := by
  have ofOp {text : String} (ho : t.isOp text = true) : t.text = text := by
    simp only [isOp, Bool.and_eq_true, beq_iff_eq] at ho
    exact ho.2
  cases h with
  | word kind => exact absurd kind hk
  | number kind => exact absurd kind hn
  | infixOp op spelled =>
    rw [ofOp spelled]
    cases op <;> decide
  | prefixOp op spelled =>
    rw [ofOp spelled]
    cases op <;> decide
  | dot spelled =>
    rw [ofOp spelled]
    decide
  | delimiter known spelled =>
    simp only [is, Bool.and_eq_true, beq_iff_eq] at spelled
    rw [spelled.2]
    simp only [List.mem_append, List.mem_cons] at known ⊢
    exact .inr (.inr known)

/-- The delimiters of blocks, cases, options and conditions stand in no expression. -/
theorem isOp_eq_false (h : t.InExpression) {text : String} (hm : text ∈ ["|", "[", "]", "?"]) :
    t.isOp text = false := by
  rw [Bool.eq_false_iff]
  intro ho
  simp only [isOp, Bool.and_eq_true, Bool.or_eq_true, beq_iff_eq] at ho
  obtain ⟨hk, ht⟩ := ho
  have hword : t.kind ≠ .word := by rcases hk with hk | hk <;> rw [hk] <;> decide
  have hnumber : t.kind ≠ .number := by rcases hk with hk | hk <;> rw [hk] <;> decide
  have hknown := h.text_mem hword hnumber
  rw [ht] at hknown
  have hnone : ∀ text ∈ ["|", "[", "]", "?"],
      text ∉ BinaryOp.all.map BinaryOp.spelling ++ UnaryOp.all.map UnaryOp.spelling ++
        [".", "(", ")", "\x7b", "\x7d", ","] := by decide
  exact hnone text hm hknown

end Token.InExpression

namespace Build

/-- Reports leave the nodes and the front alone. -/
theorem thread_reports (ds : List Diagnostic) (items : List Item) (front : Front) (story : Story) :
    thread (ds.map .report ++ items) front story =
      thread items front { story with diagnostics := story.diagnostics ++ ds } := by
  induction ds generalizing story with
  | nil => rfl
  | cons d rest ih =>
    have hfirst : item (.report d) front story =
        .ok front { story with diagnostics := story.diagnostics.push d } := rfl
    rw [List.map_cons, List.cons_append, thread, run_bind hfirst, ih]
    simp

end Build

/-- The rule takes tokens of expressions alone. The rule around it goes on with the same front and the
same nodes, and knows of the mistakes noticed; where the tokens ended, it does not go on. -/
structure Read.StaysInside {ts : List Token} (r : Read α ts) : Prop where
  takes : r.Takes Token.InExpression
  links : ∀ k front story, Build.thread (r.items k).value front story =
    match r with
    | none => .error .unfinished story
    | some s => Build.thread (k s.value s.rest s.suffix.length_le).value front
        { story with diagnostics := story.diagnostics ++ s.reports }

theorem Read.Takes.staysInside {r : Read α ts} (h : r.Takes Token.InExpression) : r.StaysInside where
  takes := h
  links k front story := by
    cases r with
    | none => rfl
    | some s => exact Build.thread_reports s.reports _ front story

namespace Script

/-- Arguments with their opening parenthesis, or with the mistake that it is missing. -/
def argumentList (ts : List Token) : Read (List Expr) ts :=
  (expect "(" ts).andThen fun _ us _ => arguments us

theorem argumentList_takes (ts : List Token) : (argumentList ts).Takes Token.InExpression :=
  .andThen (delimiter_takes (by decide) ts) fun _ us _ => arguments_takes us

/-- Whatever the tokens are, expressions, selectors, argument lists and assigned variables stay inside
what can be an expression. No start, stop, blank line, rule, scanning error, text or literal is among
the tokens they take, and no bar, square bracket or question mark. -/
theorem expressions_stay_inside (ts : List Token) :
    (expression ts).StaysInside ∧ (selector ts).StaysInside ∧ (argumentList ts).StaysInside ∧
    (assignable ts).StaysInside ∧
    ∀ t : Token, t.InExpression →
      t.kind ∉ [Kind.start, .stop, .blank, .rule, .error, .text, .literal] ∧
      ∀ text ∈ ["|", "[", "]", "?"], t.isOp text = false := by
  refine ⟨(climb_takes _ ts).staysInside, (climb_takes _ ts).staysInside,
    (argumentList_takes ts).staysInside, (assignable_takes ts).staysInside, fun t ht => ⟨?_, ?_⟩⟩
  · have hkinds : ∀ kind ∈ [Kind.word, .number, .symbol, .mark],
        kind ∉ [Kind.start, .stop, .blank, .rule, .error, .text, .literal] := by decide
    exact hkinds t.kind ht.kind_mem
  · exact fun text hm => ht.isOp_eq_false hm

end Script

end Storyline
