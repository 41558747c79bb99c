import Storyline.Proofs.Blocks.FinalStop
import Storyline.Proofs.Notices.Reading

namespace Storyline.Script

variable {tokens ts : List Token}

theorem program_met (ts : List Token) (hts : ts <:+ tokens) :
    (program ts).Meets (ItemsMet tokens ts) := by
  cases ts with
  | nil =>
    rw [program]
    exact .cut List.nil_suffix
  | cons t us =>
    have hus : us <:+ tokens := (List.suffix_cons t us).trans hts
    rw [program]
    split
    · exact .nil (List.suffix_refl _)
    split
    · exact .past (program_met us hus)
    split
    · refine .past (.items (assignedTo_tells t us) fun target vs _ hvs => ?_)
      split
      · exact .cut List.nil_suffix
      · next v ws _ =>
        have hrest : v :: ws <:+ tokens := hvs.trans hus
        have hws : ws <:+ us := (List.suffix_cons v ws).trans hvs
        split
        · have hpassed : ItemsMet tokens (v :: ws) [.passed ws.length] ws :=
            .plain rfl (List.suffix_cons v ws) fun _ _ => trivial
          exact .past_after hpassed (program_met ws (hws.trans hus))
        split
        · exact .after (.report _ (List.suffix_refl _)) (program_met (v :: ws) hrest)
        · refine .past (.items (expression_tells ws) fun value xs _ hxs => ?_)
          have hxs' : xs <:+ us := hxs.trans hws
          have hplaced : Placed tokens xs t.pos := .here hts (hxs'.trans (List.suffix_cons t us))
          exact .after (.content hplaced _ (List.suffix_refl xs)) (program_met xs (hxs'.trans hus))
    · exact .past_after (.report _ (List.suffix_cons t us)) (program_met us hus)
termination_by ts.length
decreasing_by all_goals grind

/-- A weight holds no item but the mistakes in it. -/
theorem weight_met (weighted : Bool) (ts : List Token) :
    (weight weighted ts).Meets fun p us => ItemsMet tokens ts p.2 us := by
  cases ts with
  | nil => exact .nil List.nil_suffix
  | cons t us =>
    rw [weight]
    split
    · have htells := Read.Tells.andThen (expression_tells us)
        fun e vs _ => .map (fun _ => some e) (expect_tells ")" vs)
      refine Met.step (t := t) ?_
      unfold Read.lead
      split
      · exact ItemsMet.cut List.nil_suffix
      · next r hr => exact ItemsMet.reports (htells r hr)
    · exact .nil (List.suffix_refl _)

theorem last_met (form : Form) {lead : List Item} {s : Span (List Item) ts} (hts : ts <:+ tokens)
    (hl : ItemsMet tokens ts lead ts) (h : s.Meets (ItemsMet tokens ts)) :
    (form.last lead s).Meets (PartsMet tokens ts) :=
  .cons hts _ (hl.append h) (.nil (List.suffix_refl _))

mutual

theorem thread_met (ts : List Token) (hts : ts <:+ tokens) :
    (thread ts).Meets (ItemsMet tokens ts) := by
  cases ts with
  | nil =>
    rw [thread]
    exact .cut List.nil_suffix
  | cons t us =>
    have hs : us <:+ t :: us := List.suffix_cons t us
    have hus : us <:+ tokens := hs.trans hts
    have hp : Placed tokens us t.pos := .here hts hs
    rw [thread]
    split
    · exact .nil (List.suffix_refl _)
    · exact .past (thread_met us hus)
    · exact .past_after (.report _ hs) (thread_met us hus)
    · exact .past_after (.content hp _ hs) (thread_met us hus)
    · exact .past_after (.plain rfl hs fun _ _ => trivial) (thread_met us hus)
    · exact .past (.andThen (textRun_met hts) fun vs _ hvs => thread_met vs (hvs.trans hus))
    · exact .past (.andThen (cue_met hp) fun vs _ hvs => thread_met vs (hvs.trans hus))
    · exact .past (.andThen (destination_met hp) fun vs _ hvs => thread_met vs (hvs.trans hus))
    · exact .past (.andThen (block_met t us hp hus) fun vs _ hvs => thread_met vs (hvs.trans hus))
    · exact .past (.andThen (brace_met t.pos us hp hus) fun vs _ hvs => thread_met vs (hvs.trans hus))
    · exact .past (.andThen (label_met t.pos us hp hus) fun vs _ hvs => thread_met vs (hvs.trans hus))
termination_by 7 * ts.length
decreasing_by all_goals (subst_vars; simp only [List.length_cons] at *; omega)

theorem block_met (t : Token) (ts : List Token) (hp : Placed tokens ts t.pos)
    (hts : ts <:+ tokens) : (block t ts).Meets (ItemsMet tokens ts) := by
  rw [block]
  refine .andThen ?_ fun us _ _ => endBlock_met us
  split
  · exact option_met t.pos .repeated ts hp hts
  · exact option_met t.pos .once ts hp hts
  · exact thread_met ts hts
  · exact .after (.plain rfl (List.suffix_refl ts) fun _ hl => hp.mono hl) (thread_met ts hts)
  · exact program_met ts hts
  · exact .after (.report _ (List.suffix_refl ts)) (thread_met ts hts)
termination_by 7 * ts.length + 6
decreasing_by all_goals omega

theorem brace_met (pos : Position) (ts : List Token) (hp : Placed tokens ts pos) (hts : ts <:+ tokens) :
    (brace pos ts).Meets (ItemsMet tokens ts) := by
  cases ts with
  | nil =>
    rw [brace]
    exact .cut List.nil_suffix
  | cons t us =>
    have hs : us <:+ t :: us := List.suffix_cons t us
    have hus : us <:+ tokens := hs.trans hts
    rw [brace]
    split
    · exact .past (change_met _ (hp.mono hs))
    · exact .past (put_met _ (hp.mono hs))
    split
    · exact .past (echo_met (hp.mono hs))
    split
    · exact .past (switch_met pos _ us (hp.mono hs) hus)
    refine .items (selector_tells (t :: us)) fun e vs _ hvs => ?_
    split
    · exact .cut List.nil_suffix
    · next v ws _ =>
      have hws : ws <:+ t :: us := (List.suffix_cons v ws).trans hvs
      have hp' : Placed tokens ws pos := hp.mono hws
      split
      · exact .past (ItemsMet.content hp' _ (List.suffix_refl ws))
      split
      · exact .past (jump_met pos e ws hp' (hws.trans hts))
      split
      · exact .past (switch_met pos _ ws hp' (hws.trans hts))
      split
      · exact .past (switch_met pos _ ws hp' (hws.trans hts))
      · have hcontent : ItemsMet tokens (v :: ws) [.content pos (.echo e)] (v :: ws) :=
          .content (hp.mono hvs) _ (List.suffix_refl _)
        exact ItemsMet.append (.report _ (List.suffix_refl _)) hcontent
termination_by 7 * ts.length + 5
decreasing_by all_goals (subst_vars; simp only [List.length_cons] at *; omega)

theorem jump_met (pos : Position) (condition : Expr) (ts : List Token) (hp : Placed tokens ts pos)
    (hts : ts <:+ tokens) : (jump pos condition ts).Meets (ItemsMet tokens ts) := by
  rw [jump]
  refine .bind (thread_met ts hts) fun yes us _ hus hyes => ?_
  split
  · exact .jump (hp.mono hus) condition hyes (.nil List.nil_suffix)
  · next u vs _ =>
    have hvs : vs <:+ ts := (List.suffix_cons u vs).trans hus
    split
    · refine .skip (.bind (thread_met vs (hvs.trans hts)) fun no ws _ hws hno => ?_)
      have hjump : ItemsMet tokens ts [.jump pos condition yes no] ws :=
        .jump (hp.mono (hws.trans hvs)) condition hyes (Met.step hno)
      exact .after hjump (closeBrace_met ws)
    · have hjump : ItemsMet tokens ts [.jump pos condition yes []] (u :: vs) :=
        .jump (hp.mono hus) condition hyes (.nil (List.suffix_refl _))
      exact .after hjump (closeBrace_met (u :: vs))
termination_by 7 * ts.length + 3
decreasing_by all_goals (subst_vars; simp only [List.length_cons] at *; omega)

theorem switch_met (pos : Position) (selection : Selection) (ts : List Token) (hp : Placed tokens ts pos)
    (hts : ts <:+ tokens) : (switch pos selection ts).Meets (ItemsMet tokens ts) := by
  rw [switch]
  refine .bind (cases_met selection.isWeighted ts hts) fun found us _ hus hfound => ?_
  exact .after (.switch (hp.mono hus) selection hfound) (closeBrace_met us)
termination_by 7 * ts.length + 3
decreasing_by all_goals omega

theorem cases_met (weighted : Bool) (ts : List Token) (hts : ts <:+ tokens) :
    (cases weighted ts).Meets (CasesMet tokens ts) := by
  rw [cases]
  have hweight : (weight weighted ts).Meets fun p us => ItemsMet tokens ts p.2 us :=
    weight_met weighted ts
  refine .bind hweight fun ⟨w, lead⟩ us _ hus hlead => ?_
  refine .bind (thread_met us (hus.trans hts)) fun body vs _ hvs hbody => ?_
  have hall : ItemsMet tokens ts (lead ++ body) vs := hlead.append hbody
  split
  · exact .cons w hall (.nil (List.suffix_refl _))
  · next v ws _ =>
    split
    · have hws : ws <:+ us := (List.suffix_cons v ws).trans hvs
      have hrest := cases_met weighted ws (hws.trans (hus.trans hts))
      exact .cons w hall (Met.step hrest)
    · exact .cons w hall (.nil (List.suffix_refl _))
termination_by 7 * ts.length + 2
decreasing_by all_goals (subst_vars; simp only [List.length_cons] at *; omega)

theorem label_met (pos : Position) (ts : List Token) (hp : Placed tokens ts pos) (hts : ts <:+ tokens) :
    (label pos ts).Meets (ItemsMet tokens ts) := by
  cases ts with
  | nil =>
    rw [label]
    exact .cut List.nil_suffix
  | cons t us =>
    have hs : us <:+ t :: us := List.suffix_cons t us
    rw [label]
    split
    · have hbody := thread_met us (hs.trans hts)
      have hloop : ItemsMet tokens us [.loop pos (thread us).value] (thread us).rest :=
        .loop (hp.mono ((thread us).suffix.trans hs)) hbody
      exact Met.step hloop
    refine .items (wantedName_tells .labelName (t :: us)) fun found vs _ hvs => ?_
    split
    · exact .nil (List.suffix_refl vs)
    split
    · exact .cut List.nil_suffix
    · next v ws _ =>
      have hws : ws <:+ t :: us := (List.suffix_cons v ws).trans hvs
      split
      · refine .past (.items (paramList_tells ws) fun params xs _ hxs => ?_)
        have hbody := thread_met xs (hxs.trans (hws.trans hts))
        have hsuffix := (thread xs).suffix.trans (hxs.trans hws)
        exact .define (hp.mono hsuffix) _ params hbody
      · exact .label (hp.mono hvs) _ (List.suffix_refl _)
termination_by 7 * ts.length + 5
decreasing_by all_goals (subst_vars; simp only [List.length_cons] at *; omega)

theorem option_met (pos : Position) (leader : Leader) (ts : List Token) (hp : Placed tokens ts pos)
    (hts : ts <:+ tokens) : (option pos leader ts).Meets (ItemsMet tokens ts) := by
  rw [option]
  refine .items (terms_tells ts) fun found us _ hus => ?_
  have hparts := segments_met us (hus.trans hts)
  exact .option (hp.mono ((segments us).suffix.trans hus)) leader found hparts
termination_by 7 * ts.length + 5
decreasing_by all_goals omega

theorem segments_met (ts : List Token) (hts : ts <:+ tokens) :
    (segments ts).Meets (PartsMet tokens ts) := by
  rw [segments]
  refine .bind (thread_met ts hts) fun body us _ hus hbody => ?_
  split
  · exact .cons hts _ hbody (.nil (List.suffix_refl _))
  · next u vs _ =>
    have hvs : vs <:+ tokens := (List.suffix_cons u vs).trans (hus.trans hts)
    have hnone : ItemsMet tokens vs [] vs := .nil (List.suffix_refl vs)
    split
    · exact .cons hts _ hbody (Met.step (inside_met forward false true vs hnone hvs))
    split
    · exact .cons hts _ hbody (Met.step (inside_met reversed false true vs hnone hvs))
    · exact .cons hts _ hbody (.nil (List.suffix_refl _))
termination_by 7 * ts.length + 4
decreasing_by all_goals (subst_vars; simp only [List.length_cons] at *; omega)

theorem inside_met (form : Form) (nested first : Bool) {lead : List Item} (ts : List Token)
    (hl : ItemsMet tokens ts lead ts) (hts : ts <:+ tokens) :
    (inside form nested first lead ts).Meets (PartsMet tokens ts) := by
  rw [inside]
  refine .bind (thread_met ts hts) fun body us _ hus hbody => ?_
  have hall : ItemsMet tokens ts (lead ++ body) us := hl.append hbody
  split
  · exact .cons hts _ hall (.nil (List.suffix_refl _))
  · next u vs hle =>
    have hlt : vs.length < ts.length := hle
    have hvs : vs <:+ tokens := (List.suffix_cons u vs).trans (hus.trans hts)
    have hnone : ItemsMet tokens vs [] vs := .nil (List.suffix_refl vs)
    split
    · split
      · exact .cons hts _ hall (Met.step (inside_met form false false vs hnone hvs))
      · exact .cons hts _ hall (Met.step (last_met form hvs hnone (trailing_met vs hvs)))
    split
    · refine .cons hts _ hall (Met.step (inside_met form true false vs ?_ hvs))
      split
      · exact .report _ (List.suffix_refl vs)
      · exact hnone
    · have hmistake : ItemsMet tokens (u :: vs) [.report ⟨u.pos, .unclosed form.closing u⟩]
        (u :: vs) := .report _ (List.suffix_refl _)
      have hus' := hus.trans hts
      exact .cons hts _ hall (last_met form hus' hmistake (trailing_met (u :: vs) hus'))
termination_by 7 * ts.length + 2
decreasing_by all_goals omega

theorem trailing_met (ts : List Token) (hts : ts <:+ tokens) :
    (trailing ts).Meets (ItemsMet tokens ts) := by
  rw [trailing]
  refine .andThen (thread_met ts hts) fun us _ hus => ?_
  split
  · exact .nil (List.suffix_refl _)
  · next u vs _ =>
    split
    · have hvs : vs <:+ tokens := (List.suffix_cons u vs).trans (hus.trans hts)
      exact .past_after (.report _ (List.suffix_cons u vs)) (trailing_met vs hvs)
    · exact .nil (List.suffix_refl _)
termination_by 7 * ts.length + 1
decreasing_by all_goals (subst_vars; simp only [List.length_cons] at *; omega)

end

/-- The items are cut, or all that is noticed in them is met in front of a token. -/
def WhollyMet (tokens ts : List Token) (items : List Item) : Prop :=
  none ∈ gaps items ∨ ∃ u us, ItemsMet tokens ts items (u :: us)

theorem ItemsMet.wholly {us : List Token} {a b : List Item} (h : ItemsMet tokens ts a us)
    (h' : WhollyMet tokens us b) : WhollyMet tokens ts (a ++ b) := by
  rcases h' with hcut | ⟨u, vs, hb⟩
  · left
    rw [gaps_append]
    exact List.mem_append_right _ hcut
  · exact .inr ⟨u, vs, h.append hb⟩

/-- Behind a thread the script goes on at a token, unless it is cut. -/
theorem wholly_andThen {us : List Token} {s : Span (List Item) us}
    {k : (vs : List Token) → vs.length ≤ us.length → Span (List Item) vs} (hs : s.Stops)
    (h : s.Meets (ItemsMet tokens ts))
    (hk : ∀ v vs hle, v :: vs <:+ us → WhollyMet tokens (v :: vs) (k (v :: vs) hle).value) :
    WhollyMet tokens ts (s.andThen k).value := by
  obtain ⟨items, vs, hsuffix⟩ := s
  rcases hs with ⟨-, hcut⟩ | ⟨w, ws, hrest, -⟩
  · left
    show none ∈ gaps (items ++ _)
    rw [gaps_append]
    exact List.mem_append_left _ hcut
  · obtain rfl : vs = w :: ws := hrest
    exact ItemsMet.wholly h (hk w ws _ hsuffix)

/-- A script is cut, or all that is noticed in it is met in front of a token. -/
theorem script_met (ts : List Token) (hts : ts <:+ tokens) :
    WhollyMet tokens ts (script ts).value := by
  rw [script]
  refine wholly_andThen (thread_stops ts) (thread_met ts hts) fun u us hle hus => ?_
  dsimp only
  -- The stop is the token that is left in the end; any other token is a mistake and passed.
  split
  · exact .inr ⟨u, us, .nil (List.suffix_refl _)⟩
  · have hmistake : ItemsMet tokens (u :: us) [.report ⟨u.pos, .unexpected u⟩] us :=
      .report _ (List.suffix_cons u us)
    have hrest := script_met us ((List.suffix_cons u us).trans (hus.trans hts))
    exact hmistake.wholly hrest
termination_by ts.length
decreasing_by all_goals grind

end Storyline.Script
