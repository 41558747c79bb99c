import Mathlib.Data.List.Forall2
import Storyline.Proofs.Targets.Written

namespace Storyline

/-- What is noticed in a script and may be reported of it. -/
inductive Notice where
  | mistake (d : Diagnostic)
  /-- A name that is claimed, and where a mistake in it is reported. -/
  | name (name : String) (seen : Position)

def Notice.pos : Notice → Position
  | mistake d => d.pos
  | name _ seen => seen

mutual

/-- The mistakes and the names in an item, in the order they are met. -/
def Item.notices : Item → List Notice
  | .report d => [.mistake d]
  | .label _ name seen => [.name name seen]
  | .loop _ body => Script.notices body
  | .define _ name _ seen body => .name name seen :: Script.notices body
  | .jump _ _ yes no => Script.notices yes ++ Script.notices no
  | .switch _ _ found => Script.caseNotices found
  | .option _ _ _ parts => Script.segmentNotices parts
  | _ => []

def Script.notices : List Item → List Notice
  | [] => []
  | i :: rest => i.notices ++ Script.notices rest

def Script.caseNotices : List Case → List Notice
  | [] => []
  | .mk _ body :: rest => Script.notices body ++ Script.caseNotices rest

def Script.segmentNotices : List Segment → List Notice
  | [] => []
  | .mk _ _ body :: rest => Script.notices body ++ Script.segmentNotices rest

end

namespace Script

variable {a b : List Item}

theorem notices_append : notices (a ++ b) = notices a ++ notices b := by
  induction a with
  | nil => rfl
  | cons i rest ih => rw [List.cons_append, notices, notices, ih, List.append_assoc]

theorem notices_reports (ds : List Diagnostic) :
    notices (ds.map .report) = ds.map .mistake := by
  induction ds with
  | nil => rfl
  | cons d rest ih => exact congrArg (Notice.mistake d :: ·) ih

/-- An empty case holds nothing to notice. -/
theorem caseNotices_padded (selection : Selection) (found : List Case) :
    caseNotices (Selection.padded selection found) = caseNotices found := by
  cases selection with
  | index e =>
    match found with
    | [] => rfl
    | [.mk w body] => rfl
    | _ :: _ :: _ => rfl
  | _ => rfl

end Script

/-- Positions met from the tokens `ts` up to `rest`, each that of the next token where it is met. -/
inductive Passes : List Position → List Token → List Token → Prop where
  | stay (ts : List Token) : Passes [] ts ts
  | step {ps t ts rest} : Passes ps ts rest → Passes ps (t :: ts) rest
  | note {ps ts rest} : Passes ps ts rest → Passes (here ts :: ps) ts rest

namespace Passes

variable {ps qs : List Position} {t : Token} {ts us rest : List Token}

theorem append (h : Passes ps ts us) (h' : Passes qs us rest) : Passes (ps ++ qs) ts rest := by
  induction h with
  | stay ts => exact h'
  | step _ ih => exact .step (ih h')
  | note _ ih => exact .note (ih h')

theorem suffix (h : Passes ps ts rest) : rest <:+ ts := by
  induction h with
  | stay ts => exact List.suffix_refl ts
  | @step ps t ts rest _ ih => exact ih.trans (List.suffix_cons t ts)
  | note _ ih => exact ih

theorem of_suffix (h : rest <:+ ts) : Passes [] ts rest := by
  obtain ⟨before, rfl⟩ := h
  induction before with
  | nil => exact .stay rest
  | cons t before ih => exact .step ih

/-- Positions that are left out leave the others in order. -/
theorem sublist (h : Passes ps ts rest) (hs : qs.Sublist ps) : Passes qs ts rest := by
  induction h generalizing qs with
  | stay ts =>
    rw [List.sublist_nil.mp hs]
    exact .stay ts
  | step _ ih => exact .step (ih hs)
  | note _ ih =>
    cases hs with
    | cons _ hs => exact ih hs
    | cons_cons _ hs => exact .note (ih hs)

/-- Where a token is left, what was met before it are tokens, at indices that never go down. -/
theorem indices (h : Passes ps ts rest) (hr : rest ≠ []) : ∃ indices : List Nat,
    indices.Pairwise (· ≤ ·) ∧
      List.Forall₂ (fun p i => (ts[i]?).map Token.pos = some p) ps indices := by
  induction h with
  | stay ts => exact ⟨[], .nil, .nil⟩
  | @step ps t ts rest _ ih =>
    obtain ⟨indices, hle, hat⟩ := ih hr
    refine ⟨indices.map (· + 1), ?_, ?_⟩
    · exact hle.map (· + 1) fun i j hij => Nat.succ_le_succ hij
    · exact List.forall₂_map_right_iff.mpr hat
  | @note ps ts rest hp ih =>
    obtain ⟨indices, hle, hat⟩ := ih hr
    refine ⟨0 :: indices, List.pairwise_cons.mpr ⟨fun i _ => Nat.zero_le i, hle⟩, .cons ?_ hat⟩
    cases ts with
    | nil => exact absurd (List.suffix_nil.mp hp.suffix) hr
    | cons t ts => rfl

end Passes

/-- The mistakes of a reading are met along its tokens. -/
theorem Along.passes {ds : List Diagnostic} {ts rest : List Token} (h : Along ds ts rest) :
    Passes (ds.map Diagnostic.pos) ts rest := by
  induction h with
  | stay ts => exact .stay ts
  | step _ ih => exact .step ih
  | note hp _ _ ih =>
    rw [List.map_cons, hp]
    exact .note ih

/-- The position was met in front of tokens that reach at least to `last`. -/
def Placed (tokens last : List Token) (p : Position) : Prop :=
  ∃ us, us <:+ tokens ∧ last <:+ us ∧ p = here us

/-- Where a token is left, a position that was met is that of a token. -/
theorem Placed.mem {tokens last : List Token} {p : Position} (h : Placed tokens last p)
    (hl : last ≠ []) : ∃ t ∈ tokens, t.pos = p := by
  obtain ⟨us, hus, hlast, rfl⟩ := h
  cases us with
  | nil => exact absurd (List.suffix_nil.mp hlast) hl
  | cons t us => exact ⟨t, hus.mem List.mem_cons_self, rfl⟩

/-- The positions an item gives to nodes, apart from those of the items inside it. -/
def Item.StandsAt (ok : Position → Prop) : Item → Prop
  | .content pos _ => ok pos
  | .ask pos => ok pos
  | .call pos _ _ => ok pos
  | .label pos _ _ => ok pos
  | .loop pos _ => ok pos
  | .define pos _ _ _ _ => ok pos
  | .jump pos _ _ _ => ok pos
  | .switch pos _ _ => ok pos
  | .option pos _ _ parts => ok pos ∧ ∀ at' role body, .mk at' role body ∈ parts → ok at'
  | _ => True

end Storyline
