namespace Storyline

/-- What was read from the front of a list, and the part that follows. That is a suffix of the list,
so whatever reads on from it comes to an end. -/
structure Span (α : Type) {τ : Type} (input : List τ) where
  value : α
  rest : List τ
  suffix : rest <:+ input

namespace Span

variable {α β τ : Type} {t : τ} {ts : List τ}

/-- Nothing was read. -/
def stay (a : α) (ts : List τ) : Span α ts := ⟨a, ts, List.suffix_refl ts⟩

/-- All is read. -/
def finish (a : α) (ts : List τ) : Span α ts := ⟨a, [], List.nil_suffix⟩

/-- So many elements are read. -/
def skip (n : Nat) (a : α) (ts : List τ) : Span α ts := ⟨a, ts.drop n, List.drop_suffix n ts⟩

/-- The same after one element more. -/
def past (s : Span α ts) : Span α (t :: ts) :=
  ⟨s.value, s.rest, s.suffix.trans (List.suffix_cons t ts)⟩

def map (f : α → β) (s : Span α ts) : Span β ts := ⟨f s.value, s.rest, s.suffix⟩

/-- Reads on from the rest, knowing what was read. -/
def bind (s : Span α ts) (k : (a : α) → (us : List τ) → us.length ≤ ts.length → Span β us) :
    Span β ts :=
  let r := k s.value s.rest s.suffix.length_le
  ⟨r.value, r.rest, r.suffix.trans s.suffix⟩

theorem length_rest_le (s : Span α ts) : s.rest.length ≤ ts.length := s.suffix.length_le

end Span

/-- A reading that may fail. -/
abbrev Scan (α : Type) {τ : Type} (input : List τ) := Option (Span α input)

namespace Scan

variable {α β τ : Type} {t : τ} {ts : List τ}

def stay (a : α) (ts : List τ) : Scan α ts := some (.stay a ts)

def past (s : Scan α ts) : Scan α (t :: ts) :=
  match s with
  | none => none
  | some s => some s.past

def map (f : α → β) (s : Scan α ts) : Scan β ts :=
  match s with
  | none => none
  | some s => some (s.map f)

/-- Reads on from the rest. -/
def andThen (s : Scan α ts) (k : (a : α) → (us : List τ) → us.length ≤ ts.length → Scan β us) :
    Scan β ts :=
  match s with
  | none => none
  | some s =>
    match k s.value s.rest s.suffix.length_le with
    | none => none
    | some r => some ⟨r.value, r.rest, r.suffix.trans s.suffix⟩

end Scan

end Storyline
