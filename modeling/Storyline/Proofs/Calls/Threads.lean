import Storyline.Proofs.Calls.Expressions

namespace Storyline.Script.Plan

variable (ts : List Token)

section Flat

theorem run_textTail : textTail.run ts = (Script.textTail ts).span := by
  cases ts with
  | nil => rfl
  | cons t us =>
    rw [textTail, run_ahead_cons, Script.textTail]
    split
    · apply run_take_read
      exact run_got_stay (Script.textTail us) fun run => (t.space ++ t.printed ++ run.1, run.2)
    · rfl

theorem pays_textTail : textTail.Pays 0 false false 0 := by
  simp [textTail]

theorem run_textRun (t : Token) : (textRun t).run ts = Script.textRun t ts :=
  run_items fun _ _ _ => rfl

theorem pays_textRun (t : Token) : (textRun t).Pays 1 false false 1 := by
  simp [textRun]

theorem run_cue (pos : Position) : (cue pos).run ts = Script.cue pos ts := by
  refine run_items fun name us _ => ?_
  split
  · exact run_here _ us
  · rfl

theorem pays_cue (pos : Position) : (cue pos).Pays 1 false false 1 := by
  simp [cue, pays_here]

theorem run_destination (pos : Position) : (destination pos).run ts = Script.destination pos ts := by
  refine run_items fun found us _ => ?_
  cases found with
  | none => rfl
  | some label =>
    cases us with
    | nil => rfl
    | cons u vs =>
      dsimp only
      rw [run_ahead_cons]
      split
      · exact run_take (run_items fun args ws _ => rfl)
      · rfl

theorem pays_destination (pos : Position) : (destination pos).Pays 2 false false 2 := by
  simp only [destination, pays_call, pays_items]
  refine ⟨by simp, by simp, fun found => ?_⟩
  cases found <;> simp

theorem run_braced (pos : Position) (content : Content) :
    (braced pos content).run ts = Script.braced pos content ts := run_items fun _ _ _ => rfl

theorem pays_braced (pos : Position) (content : Content) : (braced pos content).Pays 1 false false 1 := by
  simp [braced]

theorem run_malformed : malformed.run ts = Script.malformed ts := run_items fun _ _ _ => rfl

theorem pays_malformed : malformed.Pays 1 false false 1 := by
  simp [malformed]

theorem run_change (pos : Position) (op : BinaryOp) :
    (change pos op).run ts = Script.change pos op ts := by
  refine run_items fun found us _ => ?_
  cases found <;> rfl

theorem pays_change (pos : Position) (op : BinaryOp) : (change pos op).Pays 2 false false 5 := by
  simp only [change, pays_call, pays_items]
  refine ⟨by simp, by simp, fun found => ?_⟩
  cases found <;> simp

theorem run_put (pos : Position) (value : Float) :
    (put pos value).run ts = Script.put pos value ts := by
  refine run_items fun found us _ => ?_
  cases found <;> rfl

theorem pays_put (pos : Position) (value : Float) : (put pos value).Pays 2 false false 3 := by
  simp only [put, pays_call, pays_items]
  refine ⟨by simp, by simp, fun found => ?_⟩
  cases found <;> simp

theorem run_echo (pos : Position) : (echo pos).run ts = Script.echo pos ts :=
  run_items fun _ _ _ => rfl

theorem pays_echo (pos : Position) : (echo pos).Pays 9 false false 17 := by
  simp [echo]

theorem run_skipBlock (depth : Nat) : (skipBlock depth).run ts = Script.skipBlock depth ts := by
  cases ts with
  | nil => rfl
  | cons t us =>
    rw [skipBlock, run_ahead_cons, Script.skipBlock.eq_def]
    dsimp only
    cases t.kind with
    | stop => cases depth <;> rfl
    | _ => rfl

theorem pays_skipBlock (depth : Nat) : (skipBlock depth).Pays 0 false false 0 := by
  simp only [skipBlock, pays_ahead]
  intro t
  split <;> simp

theorem run_endBlock : endBlock.run ts = Script.endBlock ts := by
  cases ts with
  | nil => rfl
  | cons t us =>
    rw [endBlock, run_ahead_cons, Script.endBlock]
    split <;> rfl

theorem pays_endBlock : endBlock.Pays 1 false false 1 := by
  simp [endBlock]

theorem run_weight (weighted : Bool) : (weight weighted).run ts = Script.weight weighted ts := by
  cases ts with
  | nil => rfl
  | cons t us =>
    rw [weight, run_ahead_cons, Script.weight]
    split
    · exact run_take (run_lead none (run_got fun e vs _ => run_got_stay _ fun _ => some e))
    · rfl

theorem pays_weight (weighted : Bool) : (weight weighted).Pays 0 false false 0 := by
  simp [weight]

theorem run_closeBrace : closeBrace.run ts = Script.closeBrace ts := run_items fun _ _ _ => rfl

theorem pays_closeBrace : closeBrace.Pays 1 false false 1 := by
  simp [closeBrace]

end Flat

section Threads

theorem run_thread : thread.run ts = Script.thread ts := by
  cases ts with
  | nil =>
    rw [Script.thread]
    rfl
  | cons t us =>
    rw [thread, run_ahead_cons, Script.thread]
    cases t.sign with
    | close => rfl
    | blank => rfl
    | error => rfl
    | content c => rfl
    | leave => rfl
    | _ => exact run_take (run_follow fun vs _ => rfl)

theorem pays_thread : thread.Pays 0 false false 0 := by
  simp only [thread, pays_ahead]
  intro t
  cases t.sign <;> simp

theorem run_block (t : Token) : (block t).run ts = Script.block t ts := by
  rw [block, Script.block]
  by_cases h : t.text ∈ ["+", "*", "-", ">", "!"]
  · simp only [List.mem_cons, List.not_mem_nil, or_false] at h
    obtain h | h | h | h | h := h <;> simp only [h]
    · exact run_follow fun us _ => rfl
    · exact run_follow fun us _ => rfl
    · exact run_follow fun us _ => rfl
    · exact run_follow (s := .after [.ask t.pos] (Script.thread ts)) fun us _ => rfl
    · exact run_follow fun us _ => rfl
  · simp only [List.mem_cons, List.not_mem_nil, or_false, not_or] at h
    obtain ⟨hplus, hstar, hdash, hprompt, hprogram⟩ := h
    simp only [run_here]
    exact run_follow (s := .after _ (Script.thread ts)) fun us _ => rfl

theorem pays_block (t : Token) : (block t).Pays 3 false false 6 := by
  unfold block
  split
  · simp
  · simp
  · simp
  · simp
  · simp
  · exact pays_here fun pos held => by simp

theorem run_brace (pos : Position) : (brace pos).run ts = Script.brace pos ts := by
  cases ts with
  | nil =>
    rw [Script.brace]
    rfl
  | cons t us =>
    rw [brace, run_ahead_cons, Script.brace]
    cases braceForm t with
    | change op => rfl
    | put value => rfl
    | other =>
      dsimp only
      split
      · rfl
      · cases sigil? t with
        | some selection => rfl
        | none =>
          refine run_items fun e vs _ => ?_
          cases vs with
          | nil => rfl
          | cons v ws =>
            rw [run_ahead_cons]
            dsimp only
            split
            · rfl
            split
            · rfl
            split
            · rfl
            split <;> rfl

theorem pays_brace (pos : Position) : (brace pos).Pays 9 false false 15 := by
  simp only [brace, pays_ahead]
  intro t
  cases braceForm t with
  | change op => simp
  | put value => simp
  | other => cases sigil? t <;> simp

theorem run_jump (pos : Position) (condition : Expr) :
    (jump pos condition).run ts = Script.jump pos condition ts := by
  rw [Script.jump]
  refine run_call fun yes us _ => ?_
  cases us with
  | nil => rfl
  | cons u vs =>
    rw [run_ahead_cons]
    dsimp only
    split <;> rfl

theorem pays_jump (pos : Position) (condition : Expr) : (jump pos condition).Pays 2 false false 3 := by
  simp [jump]

theorem run_switch (pos : Position) (selection : Selection) :
    (switch pos selection).run ts = Script.switch pos selection ts := by
  rw [Script.switch]
  rfl

theorem pays_switch (pos : Position) (selection : Selection) : (switch pos selection).Pays 2 false false 5 := by
  simp [switch]

theorem run_cases (weighted : Bool) : (cases weighted).run ts = Script.cases weighted ts := by
  rw [Script.cases]
  refine run_call fun wl us _ => run_call fun body vs _ => ?_
  cases vs with
  | nil => rfl
  | cons v ws =>
    rw [run_ahead_cons]
    dsimp only
    split <;> rfl

theorem pays_cases (weighted : Bool) : (cases weighted).Pays 1 false false 2 := by
  simp [cases]

theorem run_label (pos : Position) : (label pos).run ts = Script.label pos ts := by
  cases ts with
  | nil =>
    rw [Script.label]
    rfl
  | cons t us =>
    rw [label, run_ahead_cons, Script.label]
    split
    · rfl
    · refine run_items fun found vs _ => ?_
      cases found with
      | none => rfl
      | some name =>
        cases vs with
        | nil => rfl
        | cons v ws =>
          rw [named, run_ahead_cons]
          dsimp only
          split
          · exact run_take (run_items fun params xs _ => run_here _ xs)
          · rfl

theorem pays_named (pos : Position) (found : Option String) :
    (named pos found).Pays 2 false false 0 := by
  cases found with
  | none => trivial
  | some name => simp [named, pays_here]

theorem pays_label (pos : Position) : (label pos).Pays 2 false false 2 := by
  simp [label, pays_named]

theorem run_option (pos : Position) (leader : Leader) :
    (option pos leader).run ts = Script.option pos leader ts := by
  rw [Script.option]
  exact run_items fun found us _ => rfl

theorem pays_option (pos : Position) (leader : Leader) : (option pos leader).Pays 2 false false 3 := by
  simp [option]

theorem run_segments : segments.run ts = Script.segments ts := by
  rw [segments, run_here, Script.segments]
  refine run_call fun body us _ => ?_
  cases us with
  | nil => rfl
  | cons u vs =>
    rw [run_ahead_cons]
    dsimp only
    split
    · rfl
    split <;> rfl

theorem pays_segments : segments.Pays 1 false false 1 :=
  pays_here fun pos held => by simp

theorem run_last (form : Form) (part : Segment) (lead : List Item) :
    (last form part lead).run ts = (form.last lead (Script.trailing ts)).map (part :: ·) := by
  rw [last, run_here]
  rfl

theorem pays_last {rank credit : Nat} {taken held : Bool} (form : Form) (part : Segment) (lead : List Item)
    (lower : taken = false → 1 < rank) (covered : 2 ≤ credit) :
    (last form part lead).Pays rank taken held credit :=
  pays_here fun _ _ => ⟨lower, covered, fun _ => trivial⟩

theorem run_inside (form : Form) (nested first : Bool) (lead : List Item) :
    (inside form nested first lead).run ts = Script.inside form nested first lead ts := by
  rw [inside, run_here, Script.inside]
  refine run_call fun body us _ => ?_
  cases us with
  | nil => rfl
  | cons u vs =>
    rw [run_ahead_cons]
    dsimp only
    split
    · split
      · rfl
      · exact run_take (run_last vs ..)
    split
    · refine run_take ?_
      rw [run_here]
      rfl
    · exact run_last (u :: vs) ..

theorem pays_inside (form : Form) (nested first : Bool) (lead : List Item) :
    (inside form nested first lead).Pays 2 false false 3 := by
  refine pays_here fun pos held => ?_
  simp [pays_last, pays_here]

theorem run_trailing : trailing.run ts = Script.trailing ts := by
  rw [Script.trailing]
  refine run_follow fun us _ => ?_
  cases us with
  | nil => rfl
  | cons u vs =>
    rw [run_ahead_cons]
    dsimp only
    split <;> rfl

theorem pays_trailing : trailing.Pays 1 false false 1 := by
  simp [trailing]

theorem run_script : script.run ts = Script.script ts := by
  rw [Script.script]
  refine run_follow fun us _ => ?_
  cases us with
  | nil => rfl
  | cons u vs =>
    rw [run_ahead_cons]
    dsimp only
    split <;> rfl

theorem pays_script : script.Pays 1 false false 1 := by
  simp [script]

end Threads

end Storyline.Script.Plan

namespace Storyline.Script

/-- Each reader puts its reading together from those of the calls in its plan. -/
theorem Call.run_plan (c : Call) : c.rule.plan.run c.tokens = c.read := by
  obtain ⟨rule, ts⟩ := c
  cases rule with
  | expect delimiter => exact Plan.run_expect ts delimiter
  | climb tiers few => exact Plan.run_climb ts tiers few
  | climbOn ops tighter few left => exact Plan.run_climbOn ts ops tighter few left
  | operand => exact Plan.run_operand ts
  | primary => exact Plan.run_primary ts
  | reference t => exact Plan.run_reference ts t
  | firstPiece t => exact Plan.run_firstPiece ts t
  | pieces => exact Plan.run_pieces ts
  | arguments => exact Plan.run_arguments ts
  | argumentsOn => exact Plan.run_argumentsOn ts
  | nameTail => exact Plan.run_nameTail ts
  | name => exact Plan.run_name ts
  | wantedName wanted => exact Plan.run_wantedName ts wanted
  | params => exact Plan.run_params ts
  | paramList => exact Plan.run_paramList ts
  | words delimiter before => exact Plan.run_words ts delimiter before
  | skipBrace => exact Plan.run_skipBrace ts
  | assignedTo t => exact Plan.run_assignedTo ts t
  | assignable => exact Plan.run_assignable ts
  | amount => exact Plan.run_amount ts
  | mutation => exact Plan.run_mutation ts
  | program => exact Plan.run_program ts
  | closeTerm found => exact Plan.run_closeTerm ts found
  | guardTerm => exact Plan.run_guardTerm ts
  | braceTerm => exact Plan.run_braceTerm ts
  | keywordTerm => exact Plan.run_keywordTerm ts
  | terms => exact Plan.run_terms ts
  | textTail => exact Plan.run_textTail ts
  | textRun t => exact Plan.run_textRun ts t
  | cue pos => exact Plan.run_cue ts pos
  | destination pos => exact Plan.run_destination ts pos
  | braced pos content => exact Plan.run_braced ts pos content
  | malformed => exact Plan.run_malformed ts
  | change pos op => exact Plan.run_change ts pos op
  | put pos value => exact Plan.run_put ts pos value
  | echo pos => exact Plan.run_echo ts pos
  | skipBlock depth => exact Plan.run_skipBlock ts depth
  | endBlock => exact Plan.run_endBlock ts
  | weight weighted => exact Plan.run_weight ts weighted
  | closeBrace => exact Plan.run_closeBrace ts
  | thread => exact Plan.run_thread ts
  | block t => exact Plan.run_block ts t
  | brace pos => exact Plan.run_brace ts pos
  | jump pos condition => exact Plan.run_jump ts pos condition
  | switch pos selection => exact Plan.run_switch ts pos selection
  | cases weighted => exact Plan.run_cases ts weighted
  | label pos => exact Plan.run_label ts pos
  | option pos leader => exact Plan.run_option ts pos leader
  | segments => exact Plan.run_segments ts
  | inside form nested first lead => exact Plan.run_inside ts form nested first lead
  | trailing => exact Plan.run_trailing ts
  | script => exact Plan.run_script ts

/-- The cost of a rule pays for the call itself and for those that its plan makes. -/
theorem Rule.pays_plan (rule : Rule) : rule.plan.Pays rule.rank false false (rule.cost - 1) := by
  cases rule with
  | expect delimiter => exact Plan.pays_expect delimiter
  | climb tiers few => exact Plan.pays_climb tiers few
  | climbOn ops tighter few left => exact Plan.pays_climbOn ops tighter few left
  | operand => exact Plan.pays_operand
  | primary => exact Plan.pays_primary
  | reference t => exact Plan.pays_reference t
  | firstPiece t => exact Plan.pays_firstPiece t
  | pieces => exact Plan.pays_pieces
  | arguments => exact Plan.pays_arguments
  | argumentsOn => exact Plan.pays_argumentsOn
  | nameTail => exact Plan.pays_nameTail
  | name => exact Plan.pays_name
  | wantedName wanted => exact Plan.pays_wantedName wanted
  | params => exact Plan.pays_params
  | paramList => exact Plan.pays_paramList
  | words delimiter before => exact Plan.pays_words delimiter before
  | skipBrace => exact Plan.pays_skipBrace
  | assignedTo t => exact Plan.pays_assignedTo t
  | assignable => exact Plan.pays_assignable
  | amount => exact Plan.pays_amount
  | mutation => exact Plan.pays_mutation
  | program => exact Plan.pays_program
  | closeTerm found => exact Plan.pays_closeTerm found
  | guardTerm => exact Plan.pays_guardTerm
  | braceTerm => exact Plan.pays_braceTerm
  | keywordTerm => exact Plan.pays_keywordTerm
  | terms => exact Plan.pays_terms
  | textTail => exact Plan.pays_textTail
  | textRun t => exact Plan.pays_textRun t
  | cue pos => exact Plan.pays_cue pos
  | destination pos => exact Plan.pays_destination pos
  | braced pos content => exact Plan.pays_braced pos content
  | malformed => exact Plan.pays_malformed
  | change pos op => exact Plan.pays_change pos op
  | put pos value => exact Plan.pays_put pos value
  | echo pos => exact Plan.pays_echo pos
  | skipBlock depth => exact Plan.pays_skipBlock depth
  | endBlock => exact Plan.pays_endBlock
  | weight weighted => exact Plan.pays_weight weighted
  | closeBrace => exact Plan.pays_closeBrace
  | thread => exact Plan.pays_thread
  | block t => exact Plan.pays_block t
  | brace pos => exact Plan.pays_brace pos
  | jump pos condition => exact Plan.pays_jump pos condition
  | switch pos selection => exact Plan.pays_switch pos selection
  | cases weighted => exact Plan.pays_cases weighted
  | label pos => exact Plan.pays_label pos
  | option pos leader => exact Plan.pays_option pos leader
  | segments => exact Plan.pays_segments
  | inside form nested first lead => exact Plan.pays_inside form nested first lead
  | trailing => exact Plan.pays_trailing
  | script => exact Plan.pays_script

end Storyline.Script
