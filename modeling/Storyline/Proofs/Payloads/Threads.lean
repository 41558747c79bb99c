import Storyline.Proofs.Payloads.Splices
import Storyline.Proofs.Targets.Written
import Storyline.Script.Linking

namespace Storyline

/-- The content of a node is in order. -/
def Content.IsValid : Content → Prop
  | .move target source => Assignment.IsValid ⟨target, source⟩
  | .echo e => e.WellSpliced
  | _ => True

namespace Script

/-- What the tokens behind a brace make a switch go by. -/
inductive SelectedBy (t : Token) (us : List Token) : Selection → Prop where
  | sigil {selection : Selection} (sign : sigil? t = some selection) : SelectedBy t us selection
  | index {s : Reading Expr (t :: us)} {v : Token} {ws : List Token} (plain : sigil? t = none)
      (read : selector (t :: us) = some s) (behind : s.rest = v :: ws) (bar : v.is "|" = true) :
      SelectedBy t us (.index s.value)
  | pick {s : Reading Expr (t :: us)} {v : Token} {ws : List Token} (plain : sigil? t = none)
      (read : selector (t :: us) = some s) (behind : s.rest = v :: ws) (tilde : v.isOp "~" = true) :
      SelectedBy t us (.pick s.value)

/-- A brace at the position opens a switch that goes by the selection. -/
def Opens (tokens : List Token) (pos : Position) (selection : Selection) : Prop :=
  ∃ before brace t us, tokens = before ++ brace :: t :: us ∧ brace.is "\x7b" = true ∧
    brace.pos = pos ∧ SelectedBy t us selection

/-- Only a weighted switch has a weight here. -/
structure IsCase (weighted : Bool) (c : Case) : Prop where
  unweighted : weighted = false → c.weight = none
  spliced : ∀ e, c.weight = some e → e.WellSpliced

theorem isCase_none (weighted : Bool) (body : List Item) : IsCase weighted (.mk none body) :=
  ⟨fun _ => rfl, fun e he => by cases he⟩

structure IsSwitch (tokens : List Token) (pos : Position) (selection : Selection)
    (found : List Case) : Prop where
  opened : Opens tokens pos selection
  some : found ≠ []
  /-- The value of an index may always choose between two cases. -/
  two : ∀ e, selection = .index e → 2 ≤ found.length
  cases : ∀ c ∈ found, IsCase selection.isWeighted c
  value : ∀ e, selection = .index e ∨ selection = .pick e → e.WellSpliced

/-- What the item itself carries is in order. -/
def IsValid (tokens : List Token) : Item → Prop
  | .content _ c => c.IsValid
  | .call _ _ args => ∀ e ∈ args, e.WellSpliced
  | .jump _ condition _ _ => condition.WellSpliced
  | .switch pos selection found => IsSwitch tokens pos selection found
  | .option _ _ terms _ => terms.IsValid
  | _ => True

theorem isCase_padded {selection : Selection} {weighted : Bool} {found : List Case}
    (h : ∀ c ∈ found, IsCase weighted c) :
    ∀ c ∈ Selection.padded selection found, IsCase weighted c := by
  have hnone := isCase_none weighted []
  cases selection with
  | index e =>
    match found with
    | [] => exact List.forall_mem_cons.mpr ⟨hnone, List.forall_mem_singleton.mpr hnone⟩
    | [one] =>
      have hone := List.forall_mem_singleton.mp h
      exact List.forall_mem_cons.mpr ⟨hone, List.forall_mem_singleton.mpr hnone⟩
    | _ :: _ :: _ => exact h
  | _ => exact h

theorem padded_ne_nil {selection : Selection} {found : List Case} (h : found ≠ []) :
    Selection.padded selection found ≠ [] := by
  cases selection with
  | index e =>
    match found with
    | [] => exact absurd rfl h
    | [one] => exact List.cons_ne_nil one _
    | _ :: _ :: _ => exact h
  | _ => exact h

theorem two_le_length_padded (found : List Case) : 2 ≤ (padded found).length := by
  match found with
  | [] => exact Nat.le_refl 2
  | [one] => exact Nat.le_refl 2
  | _ :: _ :: rest => exact Nat.le_add_left 2 rest.length

/-- A switch whose brace and value are known is in order once its cases are. -/
theorem isSwitch_padded {tokens : List Token} {pos : Position} {selection : Selection}
    {found : List Case} (opened : Opens tokens pos selection) (hsome : found ≠ [])
    (hcases : ∀ c ∈ found, IsCase selection.isWeighted c)
    (value : ∀ e, selection = .index e ∨ selection = .pick e → e.WellSpliced) :
    IsSwitch tokens pos selection (Selection.padded selection found) where
  opened := opened
  some := padded_ne_nil hsome
  two e he := by
    subst he
    exact two_le_length_padded found
  cases := isCase_padded hcases
  value := value

variable {α : Type} {tokens : List Token} {t : Token} {ts us : List Token}

theorem each_valid {Q : α → Prop} {r : Read α ts}
    {k : (a : α) → (us : List Token) → us.length ≤ ts.length → Span (List Item) us}
    (hts : ts <:+ tokens) (h : r.Finds Q)
    (hk : ∀ a us hus, us <:+ tokens → Q a → Each (IsValid tokens) (k a us hus).value) :
    Each (IsValid tokens) (r.items k).value := by
  refine each_found hts trivial (fun _ _ _ _ => trivial) fun a us hus hrest hread => ?_
  obtain ⟨s, hs, rfl, -⟩ := hread
  exact hk s.value us hus hrest (h s hs)

theorem is_of_sign_brace (h : t.sign = .brace) : t.is "\x7b" = true := by
  unfold Token.sign at h
  split at h
  all_goals try cases h
  next hk =>
    unfold Sign.ofMark at h
    split at h
    all_goals try cases h
    next ht => simp [Token.is, hk, ht]

theorem content_valid {c : Content} (h : t.sign = .content c) : c.IsValid := by
  unfold Token.sign at h
  split at h
  all_goals try cases h
  · trivial
  · unfold Sign.ofMark at h
    split at h
    all_goals try cases h
    · trivial
    · trivial

theorem textRun_valid (hts : ts <:+ tokens) : Each (IsValid tokens) (textRun t ts).value :=
  each_valid hts (Read.Finds.any _) fun _ _ _ _ _ => ⟨trivial, trivial⟩

theorem cue_valid (pos : Position) (hts : ts <:+ tokens) :
    Each (IsValid tokens) (cue pos ts).value := by
  refine each_valid hts (Read.Finds.any _) fun name us _ _ _ => ?_
  split <;> exact ⟨trivial, trivial⟩

theorem destination_valid (pos : Position) (hts : ts <:+ tokens) :
    Each (IsValid tokens) (destination pos ts).value := by
  refine each_valid hts (Read.Finds.any _) fun found us _ hus _ => ?_
  split
  · trivial
  split
  · exact ⟨trivial, trivial⟩
  · next u vs _ =>
    split
    · have hvs : vs <:+ tokens := (List.suffix_cons u vs).trans hus
      exact each_valid hvs (arguments_spliced vs) fun _ _ _ _ hargs => ⟨hargs, trivial⟩
    · exact ⟨trivial, trivial⟩

theorem braced_valid (pos : Position) {content : Content} (h : content.IsValid)
    (hts : ts <:+ tokens) : Each (IsValid tokens) (braced pos content ts).value :=
  each_valid hts (Read.Finds.any _) fun _ _ _ _ _ => ⟨h, trivial⟩

theorem malformed_valid (hts : ts <:+ tokens) : Each (IsValid tokens) (malformed ts).value :=
  each_valid hts (Read.Finds.any _) fun _ _ _ _ _ => trivial

theorem change_valid (pos : Position) (op : BinaryOp) (hts : ts <:+ tokens) :
    Each (IsValid tokens) (change pos op ts).value := by
  refine each_valid hts (mutation_target ts) fun found us _ hus hfound => ?_
  split
  · exact malformed_valid hus
  · next target n =>
    have hmove : Content.IsValid (.move target (.binary op target (.number n))) :=
      isValid_change (hfound _ rfl) op (.number n)
    exact braced_valid pos hmove hus

theorem put_valid (pos : Position) (value : Float) (hts : ts <:+ tokens) :
    Each (IsValid tokens) (put pos value ts).value := by
  refine each_valid hts (assignable_target ts) fun found us _ hus hfound => ?_
  split
  · exact malformed_valid hus
  · next target =>
    have hmove : Content.IsValid (.move target (.number value)) :=
      isValid_put (hfound target rfl) value
    exact braced_valid pos hmove hus

theorem echo_valid (pos : Position) (hts : ts <:+ tokens) :
    Each (IsValid tokens) (echo pos ts).value :=
  each_valid hts (expression_spliced ts) fun _ _ _ hus he => braced_valid pos he hus

theorem closeBrace_valid (hts : ts <:+ tokens) : Each (IsValid tokens) (closeBrace ts).value :=
  each_valid hts (Read.Finds.any _) fun _ _ _ _ _ => trivial

theorem skipBlock_valid (depth : Nat) (ts : List Token) :
    Each (IsValid tokens) (skipBlock depth ts).value := by
  induction ts generalizing depth with
  | nil => exact ⟨trivial, trivial⟩
  | cons t us ih =>
    rw [skipBlock.eq_def]
    dsimp only
    split
    · trivial
    · exact ih _
    · exact ih _
    · exact ih _

theorem endBlock_valid (ts : List Token) : Each (IsValid tokens) (endBlock ts).value := by
  cases ts with
  | nil => exact ⟨trivial, trivial⟩
  | cons t us =>
    rw [endBlock]
    split
    · trivial
    · exact each_after ⟨trivial, trivial⟩ (skipBlock_valid 0 (t :: us))

theorem assign_valid {target value : Expr} (op : Option BinaryOp) (ht : target.IsTarget)
    (hv : value.WellSpliced) : (assign target op value).IsValid := by
  cases op with
  | none => exact ⟨ht, hv⟩
  | some op => exact isValid_change ht op hv

theorem program_valid (ts : List Token) (hts : ts <:+ tokens) :
    Each (IsValid tokens) (program ts).value := by
  cases ts with
  | nil =>
    rw [program]
    exact ⟨trivial, trivial⟩
  | cons t us =>
    have hus : us <:+ tokens := (List.suffix_cons t us).trans hts
    rw [program]
    split
    · trivial
    split
    · exact program_valid us hus
    split
    · refine each_valid hus (assignedTo_target t us) fun target vs _ hvs htarget => ?_
      split
      · exact ⟨trivial, trivial⟩
      · next v ws _ =>
        have hws : ws <:+ tokens := (List.suffix_cons v ws).trans hvs
        split
        · exact each_after ⟨trivial, trivial⟩ (program_valid ws hws)
        · next target =>
          split
          · exact each_after ⟨trivial, trivial⟩ (program_valid (v :: ws) hvs)
          · next op _ =>
            refine each_valid hws (expression_spliced ws) fun value xs _ hxs hvalue => ?_
            have hmove := assign_valid op (htarget target rfl) hvalue
            exact each_after ⟨hmove, trivial⟩ (program_valid xs hxs)
    · exact each_after ⟨trivial, trivial⟩ (program_valid us hus)
termination_by ts.length
decreasing_by all_goals grind

theorem weight_valid (tokens : List Token) (weighted : Bool) (ts : List Token) :
    Each (IsValid tokens) (weight weighted ts).value.2 ∧
    ∀ body, IsCase weighted (.mk (weight weighted ts).value.1 body) := by
  cases ts with
  | nil => exact ⟨trivial, isCase_none weighted⟩
  | cons t us =>
    rw [weight]
    split
    · next h =>
      obtain ⟨hweighted, -⟩ := Bool.and_eq_true_iff.mp h
      have hvalue : Read.Finds (fun found => ∀ e : Expr, found = some e → e.WellSpliced)
          ((expression us).andThen fun e vs _ => (expect ")" vs).map fun _ => some e) := by
        refine (expression_spliced us).andThen fun e vs _ he => ?_
        refine (Read.Finds.any _).map fun _ _ e' he' => ?_
        exact Option.some.inj he' ▸ he
      unfold Read.lead
      split
      · exact ⟨⟨trivial, trivial⟩, isCase_none weighted⟩
      · next r hr =>
        refine ⟨each_reports fun _ _ => trivial, fun body => ⟨fun hf => ?_, hvalue r hr⟩⟩
        rw [hf] at hweighted
        cases hweighted
    · exact ⟨trivial, isCase_none weighted⟩

/-- A switch has a case at least, with weights only where it goes by weight. -/
def AreCases (weighted : Bool) (found : List Case) : Prop :=
  found ≠ [] ∧ ∀ c ∈ found, IsCase weighted c

theorem cases_areCases (weighted : Bool) (ts : List Token) :
    AreCases weighted (cases weighted ts).value := by
  have hweight := (weight_valid ts weighted ts).2
  rw [cases]
  refine holds_bind (Q := fun p : Option Expr × List Item => ∀ body, IsCase weighted (.mk p.1 body))
    (R := AreCases weighted) (List.suffix_refl ts) hweight fun p us hus hsuffix hp => ?_
  refine holds_bind (Q := fun _ => True) (R := AreCases weighted) hsuffix trivial
    fun body vs hvs _ _ => ?_
  have alone (body : List Item) : AreCases weighted [.mk p.1 body] :=
    ⟨List.cons_ne_nil _ _, List.forall_mem_singleton.mpr (hp body)⟩
  split
  · exact alone _
  · next v ws _ _ =>
    split
    · have hrest := cases_areCases weighted ws
      exact ⟨List.cons_ne_nil _ _, List.forall_mem_cons.mpr ⟨hp _, hrest.2⟩⟩
    · exact alone _
termination_by ts.length
decreasing_by (subst_vars; simp only [List.length_cons] at *; omega)

mutual

theorem thread_valid (ts : List Token) (hts : ts <:+ tokens) :
    Each (IsValid tokens) (thread ts).value := by
  cases ts with
  | nil =>
    rw [thread]
    exact ⟨trivial, trivial⟩
  | cons t us =>
    have hus : us <:+ tokens := (List.suffix_cons t us).trans hts
    rw [thread]
    split
    · trivial
    · exact thread_valid us hus
    · exact each_after ⟨trivial, trivial⟩ (thread_valid us hus)
    · next c h => exact each_after ⟨content_valid h, trivial⟩ (thread_valid us hus)
    · exact each_after ⟨trivial, trivial⟩ (thread_valid us hus)
    · exact each_andThen hus (textRun_valid hus) fun vs _ hvs => thread_valid vs hvs
    · exact each_andThen hus (cue_valid t.pos hus) fun vs _ hvs => thread_valid vs hvs
    · exact each_andThen hus (destination_valid t.pos hus) fun vs _ hvs => thread_valid vs hvs
    · exact each_andThen hus (block_valid t us hus) fun vs _ hvs => thread_valid vs hvs
    · next h =>
      exact each_andThen hus (brace_valid t (is_of_sign_brace h) us hts)
        fun vs _ hvs => thread_valid vs hvs
    · exact each_andThen hus (label_valid t.pos us hus) fun vs _ hvs => thread_valid vs hvs
termination_by 7 * ts.length
decreasing_by all_goals (subst_vars; simp only [List.length_cons] at *; omega)

theorem block_valid (t : Token) (ts : List Token) (hts : ts <:+ tokens) :
    Each (IsValid tokens) (block t ts).value := by
  rw [block]
  refine each_andThen hts ?_ fun us _ _ => endBlock_valid us
  split
  · exact option_valid t.pos .repeated ts hts
  · exact option_valid t.pos .once ts hts
  · exact thread_valid ts hts
  · exact each_after ⟨trivial, trivial⟩ (thread_valid ts hts)
  · exact program_valid ts hts
  · exact each_after ⟨trivial, trivial⟩ (thread_valid ts hts)
termination_by 7 * ts.length + 6
decreasing_by all_goals omega

theorem brace_valid (opening : Token) (hopening : opening.is "\x7b" = true) (ts : List Token)
    (hts : opening :: ts <:+ tokens) : Each (IsValid tokens) (brace opening.pos ts).value := by
  have hbrace : ts <:+ tokens := (List.suffix_cons opening ts).trans hts
  cases ts with
  | nil =>
    rw [brace]
    exact ⟨trivial, trivial⟩
  | cons t us =>
    have hus : us <:+ tokens := (List.suffix_cons t us).trans hbrace
    have hopens {selection : Selection} (h : SelectedBy t us selection) :
        Opens tokens opening.pos selection := by
      obtain ⟨before, hbefore⟩ := hts
      exact ⟨before, opening, t, us, hbefore.symm, hopening, rfl, h⟩
    rw [brace]
    split
    · exact change_valid opening.pos _ hus
    · exact put_valid opening.pos _ hus
    split
    · exact echo_valid opening.pos hus
    split
    · next selection h =>
      refine switch_valid us hus (hopens (.sigil h)) fun e he => ?_
      unfold sigil? at h
      rcases he with rfl | rfl <;> grind
    · next hplain =>
      refine each_found hbrace trivial (fun _ _ _ _ => trivial) fun e vs _ hvs hread => ?_
      obtain ⟨s, hs, rfl, hrest⟩ := hread
      have hvalue := selector_spliced (t :: us) s hs
      split
      · exact ⟨trivial, trivial⟩
      · next v ws _ =>
        have hws : ws <:+ tokens := (List.suffix_cons v ws).trans hvs
        split
        · exact ⟨hvalue, trivial⟩
        split
        · exact jump_valid opening.pos hvalue ws hws
        split
        · next hbar =>
          refine switch_valid ws hws (hopens (.index hplain hs hrest hbar)) fun e he => ?_
          obtain rfl := Selection.index.inj (he.resolve_right fun h => by cases h)
          exact hvalue
        split
        · next htilde =>
          refine switch_valid ws hws (hopens (.pick hplain hs hrest htilde)) fun e he => ?_
          obtain rfl := Selection.pick.inj (he.resolve_left fun h => by cases h)
          exact hvalue
        · exact ⟨trivial, hvalue, trivial⟩
termination_by 7 * ts.length + 5
decreasing_by all_goals (subst_vars; simp only [List.length_cons] at *; omega)

theorem jump_valid (pos : Position) {condition : Expr} (hc : condition.WellSpliced)
    (ts : List Token) (hts : ts <:+ tokens) :
    Each (IsValid tokens) (jump pos condition ts).value := by
  rw [jump]
  refine holds_bind hts (thread_valid ts hts) fun yes us _ hus hyes => ?_
  split
  · exact ⟨⟨hc, hyes, trivial⟩, trivial⟩
  · next u vs _ =>
    have hvs : vs <:+ tokens := (List.suffix_cons u vs).trans hus
    split
    · have hboth : Each (IsValid tokens) ((thread vs).bind fun no ws _ =>
          Span.after [.jump pos condition yes no] (closeBrace ws)).value :=
        holds_bind hvs (thread_valid vs hvs) fun no ws _ hws hno =>
          each_after ⟨⟨hc, hyes, hno⟩, trivial⟩ (closeBrace_valid hws)
      exact hboth
    · exact each_after ⟨⟨hc, hyes, trivial⟩, trivial⟩ (closeBrace_valid hus)
termination_by 7 * ts.length + 3
decreasing_by all_goals (subst_vars; simp only [List.length_cons] at *; omega)

theorem switch_valid {pos : Position} {selection : Selection} (ts : List Token)
    (hts : ts <:+ tokens) (opened : Opens tokens pos selection)
    (value : ∀ e, selection = .index e ∨ selection = .pick e → e.WellSpliced) :
    Each (IsValid tokens) (switch pos selection ts).value := by
  obtain ⟨hsome, hcases⟩ := cases_areCases selection.isWeighted ts
  have hswitch := isSwitch_padded opened hsome hcases value
  rw [switch]
  refine holds_bind (Q := fun found => found = (cases selection.isWeighted ts).value ∧
    EachCase (IsValid tokens) found) hts ⟨rfl, cases_valid selection.isWeighted ts hts⟩
    fun found us _ hus hfound => ?_
  obtain ⟨rfl, hfound⟩ := hfound
  exact each_after ⟨⟨hswitch, eachCase_padded hfound⟩, trivial⟩ (closeBrace_valid hus)
termination_by 7 * ts.length + 3
decreasing_by all_goals omega

theorem cases_valid (weighted : Bool) (ts : List Token) (hts : ts <:+ tokens) :
    EachCase (IsValid tokens) (cases weighted ts).value := by
  have hweight := (weight_valid tokens weighted ts).1
  rw [cases]
  refine holds_bind (Q := fun p => Each (IsValid tokens) p.2) hts hweight fun p us _ hus hlead => ?_
  refine holds_bind hus (thread_valid us hus) fun body vs _ hvs hbody => ?_
  have hall := each_append.mpr ⟨hlead, hbody⟩
  split
  · exact ⟨hall, trivial⟩
  · next v ws _ =>
    split
    · have hws : ws <:+ tokens := (List.suffix_cons v ws).trans hvs
      exact ⟨hall, cases_valid weighted ws hws⟩
    · exact ⟨hall, trivial⟩
termination_by 7 * ts.length + 2
decreasing_by all_goals (subst_vars; simp only [List.length_cons] at *; omega)

theorem label_valid (pos : Position) (ts : List Token) (hts : ts <:+ tokens) :
    Each (IsValid tokens) (label pos ts).value := by
  cases ts with
  | nil =>
    rw [label]
    exact ⟨trivial, trivial⟩
  | cons t us =>
    have hus : us <:+ tokens := (List.suffix_cons t us).trans hts
    rw [label]
    split
    · exact ⟨⟨trivial, thread_valid us hus⟩, trivial⟩
    refine each_valid hts (Read.Finds.any _) fun found vs _ hvs _ => ?_
    split
    · trivial
    split
    · exact ⟨trivial, trivial⟩
    · next v ws _ =>
      have hws : ws <:+ tokens := (List.suffix_cons v ws).trans hvs
      split
      · refine each_valid hws (Read.Finds.any _) fun params xs _ hxs _ => ?_
        exact ⟨⟨trivial, thread_valid xs hxs⟩, trivial⟩
      · exact ⟨trivial, trivial⟩
termination_by 7 * ts.length + 5
decreasing_by all_goals (subst_vars; simp only [List.length_cons] at *; omega)

theorem option_valid (pos : Position) (leader : Leader) (ts : List Token) (hts : ts <:+ tokens) :
    Each (IsValid tokens) (option pos leader ts).value := by
  rw [option]
  refine each_valid hts (terms_valid ts) fun found us _ hus hfound => ?_
  exact ⟨⟨hfound, segments_valid us hus⟩, trivial⟩
termination_by 7 * ts.length + 5
decreasing_by all_goals omega

theorem segments_valid (ts : List Token) (hts : ts <:+ tokens) :
    EachPart (IsValid tokens) (segments ts).value := by
  rw [segments]
  refine holds_bind hts (thread_valid ts hts) fun body us _ hus hbody => ?_
  split
  · exact ⟨hbody, trivial⟩
  · next u vs _ =>
    have hvs : vs <:+ tokens := (List.suffix_cons u vs).trans hus
    split
    · exact ⟨hbody, inside_valid forward false true [] trivial vs hvs⟩
    split
    · exact ⟨hbody, inside_valid reversed false true [] trivial vs hvs⟩
    · exact ⟨hbody, trivial⟩
termination_by 7 * ts.length + 4
decreasing_by all_goals (subst_vars; simp only [List.length_cons] at *; omega)

theorem inside_valid (form : Form) (nested first : Bool) (lead : List Item)
    (hl : Each (IsValid tokens) lead) (ts : List Token) (hts : ts <:+ tokens) :
    EachPart (IsValid tokens) (inside form nested first lead ts).value := by
  rw [inside]
  refine holds_bind hts (thread_valid ts hts) fun body us _ hus hbody => ?_
  have hall := each_append.mpr ⟨hl, hbody⟩
  split
  · exact ⟨hall, trivial⟩
  · next u vs hle =>
    have hlt : vs.length < ts.length := hle
    have hvs : vs <:+ tokens := (List.suffix_cons u vs).trans hus
    split
    · split
      · exact ⟨hall, inside_valid form false false [] trivial vs hvs⟩
      · exact ⟨hall, last_written form [] trivial (trailing_valid vs hvs)⟩
    split
    · refine ⟨hall, inside_valid form true false _ ?_ vs hvs⟩
      split
      · exact ⟨trivial, trivial⟩
      · trivial
    · have hmistake : Each (IsValid tokens) [.report ⟨u.pos, .unclosed form.closing u⟩] :=
        ⟨trivial, trivial⟩
      exact ⟨hall, last_written form _ hmistake (trailing_valid (u :: vs) hus)⟩
termination_by 7 * ts.length + 2
decreasing_by all_goals omega

theorem trailing_valid (ts : List Token) (hts : ts <:+ tokens) :
    Each (IsValid tokens) (trailing ts).value := by
  rw [trailing]
  refine each_andThen hts (thread_valid ts hts) fun us _ hus => ?_
  split
  · trivial
  · next u vs _ =>
    split
    · have hvs : vs <:+ tokens := (List.suffix_cons u vs).trans hus
      exact each_after ⟨trivial, trivial⟩ (trailing_valid vs hvs)
    · trivial
termination_by 7 * ts.length + 1
decreasing_by all_goals (subst_vars; simp only [List.length_cons] at *; omega)

end

/-- Whatever the items of a script carry is in order. -/
theorem script_valid (ts : List Token) (hts : ts <:+ tokens) :
    Each (IsValid tokens) (script ts).value := by
  rw [script]
  refine each_andThen hts (thread_valid ts hts) fun us _ hus => ?_
  split
  · trivial
  · next u vs _ =>
    have hvs : vs <:+ tokens := (List.suffix_cons u vs).trans hus
    split
    · trivial
    · exact each_after ⟨trivial, trivial⟩ (script_valid vs hvs)
termination_by ts.length
decreasing_by all_goals (subst_vars; simp only [List.length_cons] at *; omega)

end Script

end Storyline
