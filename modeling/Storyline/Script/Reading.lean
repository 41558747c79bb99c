import Storyline.Script.Basic
import Storyline.Span

namespace Storyline

namespace Span

variable {ts : List Token}

/-- The items read from the rest follow those already read. -/
def andThen (s : Span (List Item) ts)
    (k : (us : List Token) → us.length ≤ ts.length → Span (List Item) us) : Span (List Item) ts :=
  let r := k s.rest s.suffix.length_le
  ⟨s.value ++ r.value, r.rest, r.suffix.trans s.suffix⟩

def after (items : List Item) (s : Span (List Item) ts) : Span (List Item) ts :=
  s.map (items ++ ·)

end Span

/-- What was read, the tokens that follow and the mistakes noticed on the way. -/
structure Reading (α : Type) (tokens : List Token) extends Span α tokens where
  reports : List Diagnostic

/-- The reading of a rule, unless the tokens end first. -/
abbrev Read (α : Type) (tokens : List Token) := Option (Reading α tokens)

namespace Read

variable {α β : Type} {t : Token} {ts : List Token}

/-- Nothing was read. -/
def stay (a : α) (ts : List Token) : Read α ts := some ⟨.stay a ts, []⟩

/-- Nothing was read, and that is a mistake. -/
def miss (d : Diagnostic) (a : α) (ts : List Token) : Read α ts := some ⟨.stay a ts, [d]⟩

def past (r : Read α ts) : Read α (t :: ts) :=
  match r with
  | none => none
  | some r => some ⟨r.toSpan.past, r.reports⟩

def map (f : α → β) (r : Read α ts) : Read β ts :=
  match r with
  | none => none
  | some r => some ⟨r.toSpan.map f, r.reports⟩

/-- Reads on from the rest. -/
def andThen (r : Read α ts)
    (k : (a : α) → (us : List Token) → us.length ≤ ts.length → Read β us) : Read β ts :=
  match r with
  | none => none
  | some r =>
    match k r.value r.rest r.suffix.length_le with
    | none => none
    | some s => some ⟨⟨s.value, s.rest, s.suffix.trans r.suffix⟩, r.reports ++ s.reports⟩

/-- The mistakes noticed so far as items, then the items that the value stands for; where the
tokens end the script is cut. -/
def items (r : Read α ts)
    (k : (a : α) → (us : List Token) → us.length ≤ ts.length → Span (List Item) us) :
    Span (List Item) ts :=
  match r with
  | none => .finish [.cut] ts
  | some r =>
    let s := k r.value r.rest r.suffix.length_le
    ⟨r.reports.map .report ++ s.value, s.rest, s.suffix.trans r.suffix⟩

end Read

/-- The value and the mistakes noticed so far; where the tokens end, `a` and a cut. -/
def Read.lead {α : Type} {ts : List Token} (a : α) (r : Read α ts) : Span (α × List Item) ts :=
  match r with
  | none => .finish (a, [.cut]) ts
  | some r => r.toSpan.map fun a => (a, r.reports.map .report)

/-- The position of the next token. -/
def here (ts : List Token) : Position :=
  match ts with
  | [] => default
  | t :: _ => t.pos

/-- Takes a delimiter, or reports it missing and goes on as if it stood there. -/
def expect (delimiter : String) (ts : List Token) : Read Unit ts :=
  match ts with
  | [] => none
  | t :: us =>
    if t.is delimiter then Read.past (.stay () us)
    else .miss ⟨t.pos, .unclosed delimiter t⟩ () (t :: us)

end Storyline
