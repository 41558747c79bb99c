import Storyline.Proofs.Grammar.Threads
import Storyline.Proofs.Mistakes.Reading

namespace Storyline

mutual

/-- The item and all items inside it satisfy `P`. -/
def Item.Each (P : Item → Prop) : Item → Prop
  | .loop pos body => P (.loop pos body) ∧ Script.Each P body
  | .define pos name params seen body =>
    P (.define pos name params seen body) ∧ Script.Each P body
  | .jump pos condition yes no =>
    P (.jump pos condition yes no) ∧ Script.Each P yes ∧ Script.Each P no
  | .switch pos selection cases => P (.switch pos selection cases) ∧ Script.EachCase P cases
  | .option pos leader terms parts => P (.option pos leader terms parts) ∧ Script.EachPart P parts
  | i => P i

def Script.Each (P : Item → Prop) : List Item → Prop
  | [] => True
  | i :: rest => i.Each P ∧ Script.Each P rest

def Script.EachCase (P : Item → Prop) : List Case → Prop
  | [] => True
  | .mk _ body :: rest => Script.Each P body ∧ Script.EachCase P rest

def Script.EachPart (P : Item → Prop) : List Segment → Prop
  | [] => True
  | .mk _ _ body :: rest => Script.Each P body ∧ Script.EachPart P rest

end

namespace Script

section Each

variable {P : Item → Prop}

theorem each_append {a b : List Item} : Each P (a ++ b) ↔ Each P a ∧ Each P b := by
  induction a with
  | nil => simp [Each]
  | cons i rest ih => simp [Each, ih, and_assoc]

theorem eachCase_padded {selection : Selection} {found : List Case} (h : EachCase P found) :
    EachCase P (Selection.padded selection found) := by
  have hempty : Each P [] := trivial
  cases selection with
  | index e =>
    match found with
    | [] => exact ⟨hempty, hempty, trivial⟩
    | [.mk w body] => exact ⟨h.1, hempty, trivial⟩
    | _ :: _ :: _ => exact h
  | _ => exact h

end Each

/-- The name stands behind an arrow somewhere in the tokens. -/
def Written (tokens : List Token) (name : String) : Prop :=
  ∃ before arrow ts rest, tokens = before ++ arrow :: ts ∧ arrow.is "->" = true ∧
    SpellsName ts name rest

/-- What the item asks for is written in the tokens, and it is no mistake that only linking can
notice. -/
def IsWritten (tokens : List Token) : Item → Prop
  | .report d => d.mistake.IsRead
  | .goto label => Written tokens label
  | .call _ label _ => Written tokens label
  | _ => True

variable {α : Type} {tokens : List Token} {t : Token} {ts us : List Token}

theorem nameTail_spells {s : Reading String ts} (h : nameTail ts = some s) :
    ∃ run v vs, ts = run ++ v :: vs ∧ s.rest = v :: vs ∧ (∀ u ∈ run, joins u = true) ∧
      joins v = false ∧ s.value = run.foldr (fun u tail => u.text ++ tail) "" := by
  induction ts with
  | nil => cases h
  | cons t us ih =>
    rw [nameTail] at h
    split at h
    · next hj =>
      cases htail : nameTail us with
      | none =>
        rw [htail] at h
        cases h
      | some tail =>
        rw [htail] at h
        obtain rfl := Option.some.inj h
        obtain ⟨run, v, vs, hts, hrest, hrun, hv, hvalue⟩ := ih htail
        refine ⟨t :: run, v, vs, congrArg (t :: ·) hts, hrest, ?_, hv, congrArg (t.text ++ ·) hvalue⟩
        exact List.forall_mem_cons.mpr ⟨hj, hrun⟩
    · next hj =>
      obtain rfl := Option.some.inj h
      exact ⟨[], t, us, rfl, rfl, (List.forall_mem_nil _), Bool.eq_false_iff.mpr hj, rfl⟩

/-- A name that was read is spelled by the tokens it was read from. -/
theorem wantedName_spells {wanted : Wanted} {s : Reading (Option String) ts} {label : String}
    (h : wantedName wanted ts = some s) (hs : s.value = some label) :
    SpellsName ts label s.rest := by
  cases ts with
  | nil => cases h
  | cons t us =>
    unfold wantedName at h
    dsimp only at h
    split at h
    · next hk =>
      rw [name, if_pos hk] at h
      cases htail : nameTail us with
      | none =>
        rw [htail] at h
        cases h
      | some tail =>
        rw [htail] at h
        obtain rfl := Option.some.inj h
        obtain ⟨run, v, vs, hts, hrest, hrun, hv, hvalue⟩ := nameTail_spells htail
        have hlabel : t.text ++ tail.value = label := Option.some.inj hs
        refine ⟨t, run, v, vs, congrArg (t :: ·) hts, hrest, hk, hrun, hv, ?_⟩
        rw [← hlabel, hvalue]
    · obtain rfl := Option.some.inj h
      cases hs

theorem each_reports {P : Item → Prop} {ds : List Diagnostic} (h : ∀ d ∈ ds, P (.report d)) :
    Each P (ds.map .report) := by
  induction ds with
  | nil => trivial
  | cons d rest ih =>
    obtain ⟨hd, hrest⟩ := List.forall_mem_cons.mp h
    exact ⟨hd, ih hrest⟩

/-- What was read first, and what is read from the rest. -/
theorem each_andThen {P : Item → Prop} {s : Span (List Item) ts}
    {k : (us : List Token) → us.length ≤ ts.length → Span (List Item) us} (hts : ts <:+ tokens)
    (h : Each P s.value) (hk : ∀ us hus, us <:+ tokens → Each P (k us hus).value) :
    Each P (s.andThen k).value :=
  each_append.mpr ⟨h, hk s.rest s.suffix.length_le (s.suffix.trans hts)⟩

theorem holds_bind {β : Type} {Q : α → Prop} {R : β → Prop} {s : Span α ts}
    {k : (a : α) → (us : List Token) → us.length ≤ ts.length → Span β us} (hts : ts <:+ tokens)
    (h : Q s.value) (hk : ∀ a us hus, us <:+ tokens → Q a → R (k a us hus).value) :
    R (s.bind k).value :=
  hk s.value s.rest s.suffix.length_le (s.suffix.trans hts) h

theorem each_after {P : Item → Prop} {s : Span (List Item) ts} {items : List Item}
    (hi : Each P items) (h : Each P s.value) : Each P (Span.after items s).value :=
  each_append.mpr ⟨hi, h⟩

/-- What stands for the mistakes in a reading, and what its value stands for. -/
theorem each_found {P : Item → Prop} {r : Read α ts}
    {k : (a : α) → (us : List Token) → us.length ≤ ts.length → Span (List Item) us}
    (hts : ts <:+ tokens) (hcut : P .cut)
    (hreports : ∀ s, r = some s → ∀ d ∈ s.reports, P (.report d))
    (hk : ∀ a us hus, us <:+ tokens → (∃ s, r = some s ∧ s.value = a ∧ s.rest = us) →
      Each P (k a us hus).value) :
    Each P (r.items k).value := by
  cases r with
  | none => exact ⟨hcut, trivial⟩
  | some s =>
    have hvalue := hk s.value s.rest s.suffix.length_le (s.suffix.trans hts) ⟨s, rfl, rfl, rfl⟩
    exact each_append.mpr ⟨each_reports (hreports s rfl), hvalue⟩

theorem each_items {r : Read α ts}
    {k : (a : α) → (us : List Token) → us.length ≤ ts.length → Span (List Item) us}
    (hts : ts <:+ tokens) (h : r.Tells)
    (hk : ∀ a us hus, us <:+ tokens → (∃ s, r = some s ∧ s.value = a ∧ s.rest = us) →
      Each (IsWritten tokens) (k a us hus).value) :
    Each (IsWritten tokens) (r.items k).value :=
  each_found hts trivial (fun s hs => (h s hs).isRead) hk

theorem textRun_written (hts : ts <:+ tokens) : Each (IsWritten tokens) (textRun t ts).value :=
  each_items hts (textTail_tells ts) fun _ _ _ _ _ => ⟨trivial, trivial⟩

theorem cue_written (pos : Position) (hts : ts <:+ tokens) :
    Each (IsWritten tokens) (cue pos ts).value := by
  refine each_items hts (words_tells ">" "" ts) fun name us _ _ _ => ?_
  split <;> exact ⟨trivial, trivial⟩

theorem destination_written (pos : Position) (ht : t.is "->" = true) (hts : t :: ts <:+ tokens) :
    Each (IsWritten tokens) (destination pos ts).value := by
  have htail : ts <:+ tokens := (List.suffix_cons t ts).trans hts
  refine each_items htail (wantedName_tells .labelName ts) fun found us _ hus hread => ?_
  obtain ⟨s, hs, hvalue, -⟩ := hread
  split
  · trivial
  · next label =>
    have hwritten : Written tokens label := by
      obtain ⟨before, hbefore⟩ := hts
      exact ⟨before, t, ts, s.rest, hbefore.symm, ht, wantedName_spells hs hvalue⟩
    split
    · exact ⟨trivial, trivial⟩
    · next u vs _ =>
      split
      · have hvs : vs <:+ tokens := (List.suffix_cons u vs).trans hus
        exact each_items hvs (arguments_tells vs) fun _ _ _ _ _ => ⟨hwritten, trivial⟩
      · exact ⟨hwritten, trivial⟩

theorem braced_written (pos : Position) (content : Content) (hts : ts <:+ tokens) :
    Each (IsWritten tokens) (braced pos content ts).value :=
  each_items hts (expect_tells "\x7d" ts) fun _ _ _ _ _ => ⟨trivial, trivial⟩

theorem malformed_written (hts : ts <:+ tokens) : Each (IsWritten tokens) (malformed ts).value :=
  each_items hts (skipBrace_tells ts) fun _ _ _ _ _ => trivial

theorem change_written (pos : Position) (op : BinaryOp) (hts : ts <:+ tokens) :
    Each (IsWritten tokens) (change pos op ts).value := by
  refine each_items hts (mutation_tells ts) fun found us _ hus _ => ?_
  split
  · exact malformed_written hus
  · exact braced_written pos _ hus

theorem put_written (pos : Position) (value : Float) (hts : ts <:+ tokens) :
    Each (IsWritten tokens) (put pos value ts).value := by
  refine each_items hts (assignable_tells ts) fun found us _ hus _ => ?_
  split
  · exact malformed_written hus
  · exact braced_written pos _ hus

theorem echo_written (pos : Position) (hts : ts <:+ tokens) :
    Each (IsWritten tokens) (echo pos ts).value :=
  each_items hts (expression_tells ts) fun _ _ _ hus _ => braced_written pos _ hus

theorem closeBrace_written (hts : ts <:+ tokens) : Each (IsWritten tokens) (closeBrace ts).value :=
  each_items hts (expect_tells "\x7d" ts) fun _ _ _ _ _ => trivial

theorem skipBlock_written (depth : Nat) (ts : List Token) :
    Each (IsWritten tokens) (skipBlock depth ts).value := by
  induction ts generalizing depth with
  | nil => exact ⟨trivial, trivial⟩
  | cons t us ih =>
    rw [skipBlock.eq_def]
    dsimp only
    split
    · trivial
    · exact ih _
    · exact ih _
    · exact ih _

theorem endBlock_written (ts : List Token) : Each (IsWritten tokens) (endBlock ts).value := by
  cases ts with
  | nil => exact ⟨trivial, trivial⟩
  | cons t us =>
    rw [endBlock]
    split
    · trivial
    · exact each_after ⟨trivial, trivial⟩ (skipBlock_written 0 (t :: us))

theorem program_written (ts : List Token) (hts : ts <:+ tokens) :
    Each (IsWritten tokens) (program ts).value := by
  cases ts with
  | nil =>
    rw [program]
    exact ⟨trivial, trivial⟩
  | cons t us =>
    have hus : us <:+ tokens := (List.suffix_cons t us).trans hts
    rw [program]
    split
    · trivial
    split
    · exact program_written us hus
    split
    · refine each_items hus (assignedTo_tells t us) fun target vs _ hvs _ => ?_
      split
      · exact ⟨trivial, trivial⟩
      · next v ws _ _ =>
        have hws : ws <:+ tokens := (List.suffix_cons v ws).trans hvs
        split
        · exact each_after ⟨trivial, trivial⟩ (program_written ws hws)
        split
        · exact each_after ⟨trivial, trivial⟩ (program_written (v :: ws) hvs)
        · refine each_items hws (expression_tells ws) fun value xs _ hxs _ => ?_
          exact each_after ⟨trivial, trivial⟩ (program_written xs hxs)
    · exact each_after ⟨trivial, trivial⟩ (program_written us hus)
termination_by ts.length
decreasing_by all_goals grind

/-- A weight holds no item but the mistakes in it. -/
theorem weight_written (weighted : Bool) (ts : List Token) :
    Each (IsWritten tokens) (weight weighted ts).value.2 := by
  cases ts with
  | nil => exact trivial
  | cons t us =>
    rw [weight]
    split
    · have htells := Read.Tells.andThen (expression_tells us)
        fun e vs _ => .map (fun _ => some e) (expect_tells ")" vs)
      unfold Read.lead
      split
      · exact ⟨trivial, trivial⟩
      · next r hr => exact each_reports (htells r hr).isRead
    · trivial

theorem last_written (form : Form) {P : Item → Prop} (lead : List Item) (hl : Each P lead)
    {s : Span (List Item) ts} (h : Each P s.value) : EachPart P (form.last lead s).value :=
  ⟨each_append.mpr ⟨hl, h⟩, trivial⟩

theorem is_of_sign_goto (h : t.sign = .goto) : t.is "->" = true := by
  unfold Token.sign at h
  split at h
  all_goals try cases h
  next hk =>
    unfold Sign.ofMark at h
    split at h
    all_goals try cases h
    next ht => simp [Token.is, hk, ht]

mutual

theorem thread_written (ts : List Token) (hts : ts <:+ tokens) :
    Each (IsWritten tokens) (thread ts).value := by
  cases ts with
  | nil =>
    rw [thread]
    exact ⟨trivial, trivial⟩
  | cons t us =>
    have hus : us <:+ tokens := (List.suffix_cons t us).trans hts
    rw [thread]
    split
    · trivial
    · exact thread_written us hus
    · exact each_after ⟨trivial, trivial⟩ (thread_written us hus)
    · exact each_after ⟨trivial, trivial⟩ (thread_written us hus)
    · exact each_after ⟨trivial, trivial⟩ (thread_written us hus)
    · exact each_andThen hus (textRun_written hus) fun vs _ hvs => thread_written vs hvs
    · exact each_andThen hus (cue_written t.pos hus) fun vs _ hvs => thread_written vs hvs
    · next h =>
      exact each_andThen hus (destination_written t.pos (is_of_sign_goto h) hts)
        fun vs _ hvs => thread_written vs hvs
    · exact each_andThen hus (block_written t us hus) fun vs _ hvs => thread_written vs hvs
    · exact each_andThen hus (brace_written t.pos us hus) fun vs _ hvs => thread_written vs hvs
    · exact each_andThen hus (label_written t.pos us hus) fun vs _ hvs => thread_written vs hvs
termination_by 7 * ts.length
decreasing_by all_goals (subst_vars; simp only [List.length_cons] at *; omega)

theorem block_written (t : Token) (ts : List Token) (hts : ts <:+ tokens) :
    Each (IsWritten tokens) (block t ts).value := by
  rw [block]
  refine each_andThen hts ?_ fun us _ _ => endBlock_written us
  split
  · exact option_written t.pos .repeated ts hts
  · exact option_written t.pos .once ts hts
  · exact thread_written ts hts
  · exact each_after ⟨trivial, trivial⟩ (thread_written ts hts)
  · exact program_written ts hts
  · exact each_after ⟨trivial, trivial⟩ (thread_written ts hts)
termination_by 7 * ts.length + 6
decreasing_by all_goals omega

theorem brace_written (pos : Position) (ts : List Token) (hts : ts <:+ tokens) :
    Each (IsWritten tokens) (brace pos ts).value := by
  cases ts with
  | nil =>
    rw [brace]
    exact ⟨trivial, trivial⟩
  | cons t us =>
    have hus : us <:+ tokens := (List.suffix_cons t us).trans hts
    rw [brace]
    split
    · exact change_written pos _ hus
    · exact put_written pos _ hus
    split
    · exact echo_written pos hus
    split
    · exact switch_written pos _ us hus
    refine each_items hts (selector_tells (t :: us)) fun e vs _ hvs _ => ?_
    split
    · exact ⟨trivial, trivial⟩
    · next v ws _ _ =>
      have hws : ws <:+ tokens := (List.suffix_cons v ws).trans hvs
      split
      · exact ⟨trivial, trivial⟩
      split
      · exact jump_written pos e ws hws
      split
      · exact switch_written pos _ ws hws
      split
      · exact switch_written pos _ ws hws
      · exact ⟨trivial, trivial, trivial⟩
termination_by 7 * ts.length + 5
decreasing_by all_goals (subst_vars; simp only [List.length_cons] at *; omega)

theorem jump_written (pos : Position) (condition : Expr) (ts : List Token) (hts : ts <:+ tokens) :
    Each (IsWritten tokens) (jump pos condition ts).value := by
  rw [jump]
  refine holds_bind hts (thread_written ts hts) fun yes us _ hus hyes => ?_
  split
  · exact ⟨⟨trivial, hyes, trivial⟩, trivial⟩
  · next u vs _ =>
    have hvs : vs <:+ tokens := (List.suffix_cons u vs).trans hus
    split
    · have hboth : Each (IsWritten tokens) ((thread vs).bind fun no ws _ =>
          Span.after [.jump pos condition yes no] (closeBrace ws)).value :=
        holds_bind hvs (thread_written vs hvs) fun no ws _ hws hno =>
          each_after ⟨⟨trivial, hyes, hno⟩, trivial⟩ (closeBrace_written hws)
      exact hboth
    · exact each_after ⟨⟨trivial, hyes, trivial⟩, trivial⟩ (closeBrace_written hus)
termination_by 7 * ts.length + 3
decreasing_by all_goals (subst_vars; simp only [List.length_cons] at *; omega)

theorem switch_written (pos : Position) (selection : Selection) (ts : List Token)
    (hts : ts <:+ tokens) : Each (IsWritten tokens) (switch pos selection ts).value := by
  rw [switch]
  refine holds_bind hts (cases_written selection.isWeighted ts hts) fun found us _ hus hfound => ?_
  exact each_after ⟨⟨trivial, eachCase_padded hfound⟩, trivial⟩ (closeBrace_written hus)
termination_by 7 * ts.length + 3
decreasing_by all_goals omega

theorem cases_written (weighted : Bool) (ts : List Token) (hts : ts <:+ tokens) :
    EachCase (IsWritten tokens) (cases weighted ts).value := by
  have hweight : Each (IsWritten tokens) (weight weighted ts).value.2 := weight_written weighted ts
  rw [cases]
  refine holds_bind (Q := fun p => Each (IsWritten tokens) p.2) hts hweight fun p us _ hus hlead => ?_
  refine holds_bind hus (thread_written us hus) fun body vs _ hvs hbody => ?_
  have hall := each_append.mpr ⟨hlead, hbody⟩
  split
  · exact ⟨hall, trivial⟩
  · next v ws _ =>
    split
    · have hws : ws <:+ tokens := (List.suffix_cons v ws).trans hvs
      exact ⟨hall, cases_written weighted ws hws⟩
    · exact ⟨hall, trivial⟩
termination_by 7 * ts.length + 2
decreasing_by all_goals (subst_vars; simp only [List.length_cons] at *; omega)

theorem label_written (pos : Position) (ts : List Token) (hts : ts <:+ tokens) :
    Each (IsWritten tokens) (label pos ts).value := by
  cases ts with
  | nil =>
    rw [label]
    exact ⟨trivial, trivial⟩
  | cons t us =>
    have hus : us <:+ tokens := (List.suffix_cons t us).trans hts
    rw [label]
    split
    · exact ⟨⟨trivial, thread_written us hus⟩, trivial⟩
    refine each_items hts (wantedName_tells .labelName (t :: us)) fun found vs _ hvs _ => ?_
    split
    · trivial
    split
    · exact ⟨trivial, trivial⟩
    · next v ws _ _ =>
      have hws : ws <:+ tokens := (List.suffix_cons v ws).trans hvs
      split
      · refine each_items hws (paramList_tells ws) fun params xs _ hxs _ => ?_
        exact ⟨⟨trivial, thread_written xs hxs⟩, trivial⟩
      · exact ⟨trivial, trivial⟩
termination_by 7 * ts.length + 5
decreasing_by all_goals (subst_vars; simp only [List.length_cons] at *; omega)

theorem option_written (pos : Position) (leader : Leader) (ts : List Token) (hts : ts <:+ tokens) :
    Each (IsWritten tokens) (option pos leader ts).value := by
  rw [option]
  refine each_items hts (terms_tells ts) fun found us _ hus _ => ?_
  exact ⟨⟨trivial, segments_written us hus⟩, trivial⟩
termination_by 7 * ts.length + 5
decreasing_by all_goals omega

theorem segments_written (ts : List Token) (hts : ts <:+ tokens) :
    EachPart (IsWritten tokens) (segments ts).value := by
  rw [segments]
  refine holds_bind hts (thread_written ts hts) fun body us _ hus hbody => ?_
  split
  · exact ⟨hbody, trivial⟩
  · next u vs _ =>
    have hvs : vs <:+ tokens := (List.suffix_cons u vs).trans hus
    split
    · exact ⟨hbody, inside_written forward false true [] trivial vs hvs⟩
    split
    · exact ⟨hbody, inside_written reversed false true [] trivial vs hvs⟩
    · exact ⟨hbody, trivial⟩
termination_by 7 * ts.length + 4
decreasing_by all_goals (subst_vars; simp only [List.length_cons] at *; omega)

theorem inside_written (form : Form) (nested first : Bool) (lead : List Item)
    (hl : Each (IsWritten tokens) lead) (ts : List Token) (hts : ts <:+ tokens) :
    EachPart (IsWritten tokens) (inside form nested first lead ts).value := by
  rw [inside]
  refine holds_bind hts (thread_written ts hts) fun body us _ hus hbody => ?_
  have hall := each_append.mpr ⟨hl, hbody⟩
  split
  · exact ⟨hall, trivial⟩
  · next u vs hle =>
    have hlt : vs.length < ts.length := hle
    have hvs : vs <:+ tokens := (List.suffix_cons u vs).trans hus
    split
    · split
      · exact ⟨hall, inside_written form false false [] trivial vs hvs⟩
      · exact ⟨hall, last_written form [] trivial (trailing_written vs hvs)⟩
    split
    · refine ⟨hall, inside_written form true false _ ?_ vs hvs⟩
      split
      · exact ⟨trivial, trivial⟩
      · trivial
    · have hmistake : Each (IsWritten tokens) [.report ⟨u.pos, .unclosed form.closing u⟩] :=
        ⟨trivial, trivial⟩
      exact ⟨hall, last_written form _ hmistake (trailing_written (u :: vs) hus)⟩
termination_by 7 * ts.length + 2
decreasing_by all_goals omega

theorem trailing_written (ts : List Token) (hts : ts <:+ tokens) :
    Each (IsWritten tokens) (trailing ts).value := by
  rw [trailing]
  refine each_andThen hts (thread_written ts hts) fun us _ hus => ?_
  split
  · trivial
  · next u vs _ =>
    split
    · have hvs : vs <:+ tokens := (List.suffix_cons u vs).trans hus
      exact each_after ⟨trivial, trivial⟩ (trailing_written vs hvs)
    · trivial
termination_by 7 * ts.length + 1
decreasing_by all_goals (subst_vars; simp only [List.length_cons] at *; omega)

end

/-- Whatever a script asks for is written in its tokens. -/
theorem script_written (ts : List Token) (hts : ts <:+ tokens) :
    Each (IsWritten tokens) (script ts).value := by
  rw [script]
  refine each_andThen hts (thread_written ts hts) fun us _ hus => ?_
  split
  · trivial
  · next u vs _ =>
    have hvs : vs <:+ tokens := (List.suffix_cons u vs).trans hus
    split
    · trivial
    · exact each_after ⟨trivial, trivial⟩ (script_written vs hvs)
termination_by ts.length
decreasing_by all_goals (subst_vars; simp only [List.length_cons] at *; omega)

end Script

end Storyline
