import Storyline.Script.Thread

namespace Storyline

/-- What a rule that needs tokens comes to: a value and the mistakes noticed on the way, unless the
tokens ended. -/
abbrev Got (α : Type) := Option (α × List Diagnostic)

/-- A reading as a span. Where the tokens ended in it none are left. -/
def Read.span {α : Type} {ts : List Token} (r : Read α ts) : Span (Got α) ts :=
  match r with
  | none => .finish none ts
  | some s => s.toSpan.map fun a => some (a, s.reports)

theorem Read.span_past {α : Type} {t : Token} {ts : List Token} (r : Read α ts) :
    r.past.span = (r.span.past : Span (Got α) (t :: ts)) := by
  cases r <;> rfl

theorem Read.span_map {α β : Type} {ts : List Token} (r : Read α ts) (f : α → β) :
    (r.map f).span = r.span.map (Option.map (Prod.map f id)) := by
  cases r <;> rfl

namespace Script

/-- The rules, each with what it is told besides the tokens. Expressions have six tiers at most. -/
inductive Rule where
  | expect (delimiter : String)
  | climb (tiers : List (List BinaryOp)) (few : tiers.length ≤ 6)
  | climbOn (ops : List BinaryOp) (tighter : List (List BinaryOp)) (few : tighter.length < 6)
    (left : Expr)
  | operand
  | primary
  | reference (t : Token)
  | firstPiece (t : Token)
  | pieces
  | arguments
  | argumentsOn
  | nameTail
  | name
  | wantedName (wanted : Wanted)
  | params
  | paramList
  | words (delimiter before : String)
  | skipBrace
  | assignedTo (t : Token)
  | assignable
  | amount
  | mutation
  | program
  | closeTerm (found : Option Terms)
  | guardTerm
  | braceTerm
  | keywordTerm
  | terms
  | textTail
  | textRun (t : Token)
  | cue (pos : Position)
  | destination (pos : Position)
  | braced (pos : Position) (content : Content)
  | malformed
  | change (pos : Position) (op : BinaryOp)
  | put (pos : Position) (value : Float)
  | echo (pos : Position)
  | skipBlock (depth : Nat)
  | endBlock
  | weight (weighted : Bool)
  | closeBrace
  | thread
  | block (t : Token)
  | brace (pos : Position)
  | jump (pos : Position) (condition : Expr)
  | switch (pos : Position) (selection : Selection)
  | cases (weighted : Bool)
  | label (pos : Position)
  | option (pos : Position) (leader : Leader)
  | segments
  | inside (form : Form) (nested first : Bool) (lead : List Item)
  | trailing
  | script

/-- What a rule comes to. -/
@[reducible] def Rule.Result : Rule → Type
  | .expect _ | .skipBrace => Got Unit
  | .climb _ _ | .climbOn _ _ _ _ | .operand | .primary | .reference _ => Got Expr
  | .firstPiece _ | .pieces => Got Pieces
  | .arguments | .argumentsOn => Got (List Expr)
  | .nameTail | .words _ _ => Got String
  | .name | .wantedName _ => Got (Option String)
  | .params | .paramList => Got (List String)
  | .assignedTo _ | .assignable => Got (Option Expr)
  | .amount => Got Float
  | .mutation => Got (Option (Expr × Float))
  | .closeTerm _ | .guardTerm | .braceTerm | .keywordTerm | .terms => Got Terms
  | .textTail => Got (String × String)
  | .weight _ => Option Expr × List Item
  | .cases _ => List Case
  | .segments | .inside _ _ _ _ => List Segment
  | .program | .textRun _ | .cue _ | .destination _ | .braced _ _ | .malformed | .change _ _
  | .put _ _ | .echo _ | .skipBlock _ | .endBlock | .closeBrace | .thread | .block _ | .brace _
  | .jump _ _ | .switch _ _ | .label _ | .option _ _ | .trailing | .script => List Item

/-- A rule and the tokens it is called on. -/
structure Call where
  rule : Rule
  tokens : List Token

namespace Call

/-- What the reader of the rule makes of the tokens. -/
def read : (c : Call) → Span c.rule.Result c.tokens
  | ⟨.expect delimiter, ts⟩ => (Storyline.expect delimiter ts).span
  | ⟨.climb tiers _, ts⟩ => (climb tiers ts).span
  | ⟨.climbOn ops tighter _ left, ts⟩ => (climbOn ops tighter left ts).span
  | ⟨.operand, ts⟩ => (operand ts).span
  | ⟨.primary, []⟩ => Read.span none
  | ⟨.primary, t :: ts⟩ => (primary t ts).span
  | ⟨.reference t, ts⟩ => (reference t ts).span
  | ⟨.firstPiece t, ts⟩ => (firstPiece t ts).span
  | ⟨.pieces, ts⟩ => (pieces ts).span
  | ⟨.arguments, ts⟩ => (arguments ts).span
  | ⟨.argumentsOn, ts⟩ => (argumentsOn ts).span
  | ⟨.nameTail, ts⟩ => (nameTail ts).span
  | ⟨.name, ts⟩ => (name ts).span
  | ⟨.wantedName wanted, ts⟩ => (wantedName wanted ts).span
  | ⟨.params, ts⟩ => (params ts).span
  | ⟨.paramList, ts⟩ => (paramList ts).span
  | ⟨.words delimiter before, ts⟩ => (words delimiter before ts).span
  | ⟨.skipBrace, ts⟩ => (skipBrace ts).span
  | ⟨.assignedTo t, ts⟩ => (assignedTo t ts).span
  | ⟨.assignable, ts⟩ => (assignable ts).span
  | ⟨.amount, ts⟩ => (amount ts).span
  | ⟨.mutation, ts⟩ => (mutation ts).span
  | ⟨.program, ts⟩ => program ts
  | ⟨.closeTerm found, ts⟩ => (closeTerm found ts).span
  | ⟨.guardTerm, ts⟩ => (guardTerm ts).span
  | ⟨.braceTerm, ts⟩ => (braceTerm ts).span
  | ⟨.keywordTerm, ts⟩ => (keywordTerm ts).span
  | ⟨.terms, ts⟩ => (terms ts).span
  | ⟨.textTail, ts⟩ => (textTail ts).span
  | ⟨.textRun t, ts⟩ => textRun t ts
  | ⟨.cue pos, ts⟩ => cue pos ts
  | ⟨.destination pos, ts⟩ => destination pos ts
  | ⟨.braced pos content, ts⟩ => braced pos content ts
  | ⟨.malformed, ts⟩ => malformed ts
  | ⟨.change pos op, ts⟩ => change pos op ts
  | ⟨.put pos value, ts⟩ => put pos value ts
  | ⟨.echo pos, ts⟩ => echo pos ts
  | ⟨.skipBlock depth, ts⟩ => skipBlock depth ts
  | ⟨.endBlock, ts⟩ => endBlock ts
  | ⟨.weight weighted, ts⟩ => weight weighted ts
  | ⟨.closeBrace, ts⟩ => closeBrace ts
  | ⟨.thread, ts⟩ => thread ts
  | ⟨.block t, ts⟩ => block t ts
  | ⟨.brace pos, ts⟩ => brace pos ts
  | ⟨.jump pos condition, ts⟩ => jump pos condition ts
  | ⟨.switch pos selection, ts⟩ => switch pos selection ts
  | ⟨.cases weighted, ts⟩ => Script.cases weighted ts
  | ⟨.label pos, ts⟩ => label pos ts
  | ⟨.option pos leader, ts⟩ => option pos leader ts
  | ⟨.segments, ts⟩ => segments ts
  | ⟨.inside form nested first lead, ts⟩ => inside form nested first lead ts
  | ⟨.trailing, ts⟩ => trailing ts
  | ⟨.script, ts⟩ => script ts

/-- The tokens that the reader leaves. -/
def rest (c : Call) : List Token := c.read.rest

theorem rest_suffix (c : Call) : c.rest <:+ c.tokens := c.read.suffix

end Call

/-- What a rule does with its tokens: it looks at the next one, takes it, calls rules on those that
follow, and goes on by what it found. -/
inductive Plan (α : Type) where
  | done (a : α)
  /-- Looks at the next token, if there is one. -/
  | look (k : Option Token → Plan α)
  /-- Counts the tokens that are left. -/
  | count (k : Nat → Plan α)
  /-- Takes the next token. -/
  | take (p : Plan α)
  | call (rule : Rule) (k : rule.Result → Plan α)

/-- One thing that a call does: it takes a token, or it calls. -/
inductive Step where
  | token
  | call (c : Call)

namespace Plan

variable {α β : Type}

/-- What the plan comes to, with the readings of the rules that it calls. -/
def run : Plan α → (ts : List Token) → Span α ts
  | done a, ts => .stay a ts
  | look k, ts => (k ts.head?).run ts
  | count k, ts => (k ts.length).run ts
  | take p, [] => p.run []
  | take p, _ :: us => (p.run us).past
  | call rule k, ts => (Call.read ⟨rule, ts⟩).bind fun found us _ => (k found).run us

/-- What is done on the way, in order. -/
def steps : Plan α → List Token → List Step
  | done _, _ => []
  | look k, ts => (k ts.head?).steps ts
  | count k, ts => (k ts.length).steps ts
  | take p, [] => p.steps []
  | take p, _ :: us => .token :: p.steps us
  | call rule k, ts =>
    let c : Call := ⟨rule, ts⟩
    .call c :: (k c.read.value).steps c.rest

/-- The same plan with another outcome. -/
def map (f : α → β) : Plan α → Plan β
  | done a => done (f a)
  | look k => look fun t => (k t).map f
  | count k => count fun n => (k n).map f
  | take p => take (p.map f)
  | call rule k => call rule fun found => (k found).map f

theorem run_map (f : α → β) (p : Plan α) (ts : List Token) :
    (p.map f).run ts = (p.run ts).map f := by
  induction p generalizing ts with
  | done a => rfl
  | look k ih => exact ih ts.head? ts
  | count k ih => exact ih ts.length ts
  | take p ih =>
    cases ts with
    | nil => exact ih []
    | cons t us => exact congrArg Span.past (ih us)
  | call rule k ih =>
    have hk (found : rule.Result) (us : List Token) := ih found us
    simp only [map, run, hk]
    rfl

/-- Goes on with the next token. Where there is none, the outcome is `ended`. -/
def ahead (ended : α) (k : Token → Plan α) : Plan α :=
  look fun
    | none => done ended
    | some t => k t

/-- Goes on with the position of the next token. -/
def here (k : Position → Plan α) : Plan α :=
  look fun
    | none => k default
    | some t => k t.pos

/-- Nothing more is read. -/
def stay (a : α) : Plan (Got α) := done (some (a, []))

/-- Nothing more is read, and that is a mistake. -/
def miss (d : Diagnostic) (a : α) : Plan (Got α) := done (some (a, [d]))

/-- Goes on with what was read, unless the tokens ended. -/
def got (k : α → Plan (Got β)) : Got α → Plan (Got β)
  | none => done none
  | some (a, reports) => (k a).map (Option.map (Prod.map id (reports ++ ·)))

/-- The mistakes noticed as items, then those that what was read stands for; where the tokens ended
the script is cut. -/
def items (k : α → Plan (List Item)) : Got α → Plan (List Item)
  | none => done [.cut]
  | some (a, reports) => (k a).map (reports.map .report ++ ·)

/-- What was read with the mistakes as items; where the tokens ended, `a` and a cut. -/
def lead (a : α) : Got α → α × List Item
  | none => (a, [.cut])
  | some (a, reports) => (a, reports.map .report)

/-- More items follow those found. -/
def follow (p : Plan (List Item)) (found : List Item) : Plan (List Item) := p.map (found ++ ·)

section Running

variable {t : Token} {ts : List Token}

@[simp] theorem run_ahead_nil (ended : α) (k : Token → Plan α) :
    (ahead ended k).run [] = .stay ended [] := rfl

@[simp] theorem run_ahead_cons (ended : α) (k : Token → Plan α) (t : Token) (us : List Token) :
    (ahead ended k).run (t :: us) = (k t).run (t :: us) := rfl

theorem run_here (k : Position → Plan α) (ts : List Token) :
    (here k).run ts = (k (Storyline.here ts)).run ts := by
  cases ts <;> rfl

theorem run_take {p : Plan α} {s : Span α ts} (h : p.run ts = s) :
    (take p).run (t :: ts) = s.past := congrArg Span.past h

theorem run_take_read {p : Plan (Got α)} {r : Read α ts} (h : p.run ts = r.span) :
    (take p).run (t :: ts) = r.past.span := by
  rw [Read.span_past]
  exact run_take h

theorem run_call {s : Span α ts} {k : α → Plan β}
    {next : (a : α) → (us : List Token) → us.length ≤ ts.length → Span β us}
    (h : ∀ a us hlt, (k a).run us = next a us hlt) :
    (s.bind fun found us _ => (k found).run us) = s.bind next := by
  have hs := h s.value s.rest s.suffix.length_le
  simp only [Span.bind, hs]

theorem run_got {r : Read α ts} {k : α → Plan (Got β)}
    {next : (a : α) → (us : List Token) → us.length ≤ ts.length → Read β us}
    (h : ∀ a us hlt, (k a).run us = (next a us hlt).span) :
    (r.span.bind fun found us _ => (got k found).run us) = (r.andThen next).span := by
  cases r with
  | none => rfl
  | some s =>
    have hs := h s.value s.rest s.suffix.length_le
    have hrun := run_map (Option.map (Prod.map id (s.reports ++ ·))) (k s.value) s.rest
    rw [hs] at hrun
    cases hnext : next s.value s.rest s.suffix.length_le with
    | none => simp [hnext, Read.span, Read.andThen, Span.bind, got, hrun, Span.map, Span.finish]
    | some r => simp [hnext, Read.span, Read.andThen, Span.bind, got, hrun, Span.map]

theorem run_got_stay (r : Read α ts) (f : α → β) :
    (r.span.bind fun found us _ => (got (fun a => stay (f a)) found).run us) = (r.map f).span := by
  cases r with
  | none => rfl
  | some s => simp [Read.span, Read.map, Span.bind, Span.map, got, stay, map, run, Span.stay]

theorem run_items {r : Read α ts} {k : α → Plan (List Item)}
    {next : (a : α) → (us : List Token) → us.length ≤ ts.length → Span (List Item) us}
    (h : ∀ a us hlt, (k a).run us = next a us hlt) :
    (r.span.bind fun found us _ => (items k found).run us) = r.items next := by
  cases r with
  | none => rfl
  | some s =>
    have hs := h s.value s.rest s.suffix.length_le
    simp [Read.span, Read.items, Span.bind, Span.map, items, run_map, hs]

theorem run_lead {r : Read α ts} {p : Plan (Got α)} (a : α) (h : p.run ts = r.span) :
    (p.map (lead a)).run ts = r.lead a := by
  rw [run_map, h]
  cases r <;> rfl

theorem run_follow {s : Span (List Item) ts} {p : Plan (List Item)}
    {next : (us : List Token) → us.length ≤ ts.length → Span (List Item) us}
    (h : ∀ us hlt, p.run us = next us hlt) :
    (s.bind fun found us _ => (follow p found).run us) = s.andThen next := by
  have hs := h s.rest s.suffix.length_le
  simp [Span.bind, Span.andThen, Span.map, follow, run_map, hs]

end Running

end Plan

end Script

end Storyline
