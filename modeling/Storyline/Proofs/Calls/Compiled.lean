import Mathlib.Data.Prod.Lex
import Mathlib.Logic.Relation
import Storyline.Compile
import Storyline.Proofs.Calls.Threads
import Storyline.Proofs.Ends.Resolved

namespace Storyline

namespace Script

/-- The steps lead from some tokens to others: each token that is taken stands next, and so do the
tokens that each rule is called on. -/
inductive Takes : List Token → List Step → List Token → Prop where
  | done (ts : List Token) : Takes ts [] ts
  | token {t : Token} {ts us : List Token} {steps : List Step} (h : Takes ts steps us) :
    Takes (t :: ts) (.token :: steps) us
  | call {rule : Rule} {ts us : List Token} {steps : List Step}
    (h : Takes (Call.rest ⟨rule, ts⟩) steps us) : Takes ts (.call ⟨rule, ts⟩ :: steps) us

/-- The calls among some steps. -/
def called : List Step → List Call
  | [] => []
  | .token :: steps => called steps
  | .call c :: steps => c :: called steps

/-- The calls that a call makes itself. -/
def Call.calls (c : Call) : List Call := called c.steps

theorem Plan.takes {α : Type} (p : Plan α) (ts : List Token) :
    Takes ts (p.steps ts) (p.run ts).rest := by
  induction p generalizing ts with
  | done a => exact .done ts
  | look k ih => exact ih ts.head? ts
  | count k ih => exact ih ts.length ts
  | take p ih =>
    cases ts with
    | nil => exact ih []
    | cons t us => exact .token (ih us)
  | call rule k ih => exact .call (ih (Call.read ⟨rule, ts⟩).value (Call.rest ⟨rule, ts⟩))

theorem Call.rest_plan (c : Call) : (c.rule.plan.run c.tokens).rest = c.rest :=
  congrArg Span.rest c.run_plan

namespace Plan

variable {α : Type} {p : Plan α} {rank credit : Nat} {taken held : Bool} {ts : List Token}

/-- The calls are on what is left of the tokens at the start, and on fewer of them or of a lower
rule. -/
theorem Pays.lower {start : List Token} (h : p.Pays rank taken held credit) (hs : ts <:+ start)
    (hheld : held = true → ts ≠ []) (hlt : taken = true → ts.length < start.length) {d : Call}
    (hd : d ∈ called (p.steps ts)) :
    d.tokens <:+ start ∧ (d.tokens.length < start.length ∨ d.rule.rank < rank) := by
  induction p generalizing taken held credit ts with
  | done a => cases hd
  | look k ih =>
    cases ts with
    | nil => exact ih none h.1 hs nofun hlt hd
    | cons t us => exact ih (some t) (h.2 t) hs (fun _ => List.cons_ne_nil t us) hlt hd
  | count k ih => exact ih ts.length (h ts.length) hs hheld hlt hd
  | take p ih =>
    cases ts with
    | nil => exact absurd rfl (hheld h.1)
    | cons t us =>
      have hsuffix : us <:+ start := (List.suffix_cons t us).trans hs
      have hfewer : us.length < start.length := Nat.lt_of_succ_le hs.length_le
      exact ih h.2 hsuffix nofun (fun _ => hfewer) hd
  | call rule k ih =>
    obtain ⟨hlower, -, hk⟩ := h
    have hrest : Call.rest ⟨rule, ts⟩ <:+ ts := Call.rest_suffix ⟨rule, ts⟩
    cases hd with
    | head =>
      cases taken with
      | false => exact ⟨hs, .inr (hlower rfl)⟩
      | true => exact ⟨hs, .inl (hlt rfl)⟩
    | tail _ hd =>
      have hfewer (ht : taken = true) := hrest.length_le.trans_lt (hlt ht)
      exact ih _ (hk _) (hrest.trans hs) nofun hfewer hd

/-- The calls come to no more than the credit and the tokens pay for, if each of them comes to no more
than its own cost and tokens do. -/
theorem Pays.count_le {weight : Call → Nat} (h : p.Pays rank taken held credit)
    (hheld : held = true → ts ≠ [])
    (hd : ∀ d ∈ called (p.steps ts),
      weight d + 21 * d.rest.length ≤ 21 * d.tokens.length + d.rule.cost) :
    (called (p.steps ts)).foldr (fun d n => weight d + n) 1 + 21 * (p.run ts).rest.length ≤
      21 * ts.length + credit + 1 := by
  induction p generalizing taken held credit ts with
  | done a =>
    show 1 + 21 * ts.length ≤ _
    omega
  | look k ih =>
    cases ts with
    | nil => exact ih none h.1 nofun hd
    | cons t us => exact ih (some t) (h.2 t) (fun _ => List.cons_ne_nil t us) hd
  | count k ih => exact ih ts.length (h ts.length) hheld hd
  | take p ih =>
    cases ts with
    | nil => exact absurd rfl (hheld h.1)
    | cons t us =>
      have hle := ih h.2 nofun hd
      simp only [tokenWorth] at hle
      simp only [steps, called, run, Span.past, List.length_cons]
      omega
  | call rule k ih =>
    obtain ⟨-, hcovered, hk⟩ := h
    have hcall := hd ⟨rule, ts⟩ (.head _)
    have hle := ih _ (hk _) nofun fun d hmem => hd d (.tail _ hmem)
    simp only [steps, called, run, Span.bind, List.foldr_cons]
    simp only [Call.rest] at hle hcall ⊢
    omega

end Plan

namespace Call

theorem calls_lower {c d : Call} (h : d ∈ c.calls) :
    d.tokens <:+ c.tokens ∧
      (d.tokens.length < c.tokens.length ∨ d.rule.rank < c.rule.rank) :=
  c.rule.pays_plan.lower (List.suffix_refl c.tokens) nofun nofun h

/-- A call goes down in unread tokens, and where none is taken in rank. -/
theorem calls_decrease {c d : Call} (h : d ∈ c.calls) :
    Prod.Lex (· < ·) (· < ·) (d.tokens.length, d.rule.rank) (c.tokens.length, c.rule.rank) := by
  obtain ⟨hsuffix, hlower⟩ := calls_lower h
  apply Prod.lex_def.mpr
  cases Nat.lt_or_eq_of_le hsuffix.length_le with
  | inl hlt => exact .inl hlt
  | inr heq => exact .inr ⟨heq, hlower.resolve_left (by omega)⟩

/-- How many calls a call comes to, itself included. -/
def count (c : Call) : Nat := c.calls.attach.foldr (fun d n => d.1.count + n) 1
termination_by (c.tokens.length, c.rule.rank)
decreasing_by exact calls_decrease d.2

theorem count_eq (c : Call) : c.count = c.calls.foldr (fun d n => d.count + n) 1 := by
  have hmap : c.calls.attach.foldr (fun d n => d.1.count + n) 1 =
      (c.calls.attach.map Subtype.val).foldr (fun d n => d.count + n) 1 := by
    rw [List.foldr_map]
  rw [count, hmap, List.attach_map_subtype_val]

/-- Whatever is called in the end, directly or not, is called on a part of the tokens; and unless
tokens were taken on the way, by a rule of higher rank. -/
theorem chain_lower {c d : Call} (h : Relation.TransGen (fun c d => d ∈ c.calls) c d) :
    d.tokens <:+ c.tokens ∧
      (d.tokens.length < c.tokens.length ∨ d.rule.rank < c.rule.rank) := by
  induction h with
  | single h => exact calls_lower h
  | tail _ h ih =>
    obtain ⟨hsuffix, hlower⟩ := calls_lower h
    have hle := hsuffix.length_le
    refine ⟨hsuffix.trans ih.1, ?_⟩
    cases ih.2 with
    | inl hlt => exact .inl (hle.trans_lt hlt)
    | inr hrank => exact hlower.imp (fun hlt => hlt.trans_le ih.1.length_le) hrank.trans'

/-- The cost of a call, with what its tokens are worth, pays for all calls that it comes to. -/
theorem count_le (c : Call) :
    c.count + 21 * c.rest.length ≤ 21 * c.tokens.length + c.rule.cost := by
  have hpos : 0 < c.rule.cost := by
    obtain ⟨rule, ts⟩ := c
    cases rule <;> simp
  have hheld : false = true → c.tokens ≠ [] := nofun
  have hsum := c.rule.pays_plan.count_le hheld fun d hd => d.count_le
  rw [c.rest_plan] at hsum
  rw [count_eq, calls, steps]
  omega
termination_by (c.tokens.length, c.rule.rank)
decreasing_by exact calls_decrease hd

end Call

end Script

namespace Build

/-- Links that cannot be tied are no sign of a script cut short. -/
theorem yields_tie (target : Target) (ends : List LooseEnd) (story : Story) :
    Yields (· ≠ .unfinished) (fun _ _ => True) (tie target ends) story := by
  induction ends generalizing story with
  | nil => trivial
  | cons loose rest ih =>
    have hend : Yields (· ≠ .unfinished) (fun _ _ => True) (tieEnd target loose) story := by
      apply yields_tieEnd <;> simp
    exact hend.bind fun _ after _ => ih after

theorem close_ne_unfinished {front : Front} {story after : Story} :
    close front story ≠ .error .unfinished after := by
  have hrets := yields_tie .ret front.ends.rets story
  have hclose : Yields (· ≠ .unfinished) (fun _ _ => True) (close front) story :=
    hrets.bind fun _ s _ => (yields_tie .esc front.ends.escs s).bind fun _ _ _ => trivial
  exact fun h => hclose.of_error h rfl

end Build

/-- A compilation that fails misses its final stop, finds a token behind it, or has two nodes of one
name to write. -/
theorem compile_error_cases {start : String} {tokens : List Token} {e : CompileError}
    (h : compile start tokens = .error e) :
    e = .missingStop (lastPosition tokens) ∨
    (∃ t rest, (Script.script tokens).rest = t :: rest ∧ e = .tokenAfterStop t) ∨
    ∃ name, e = .build (.duplicateNode name) := by
  have hrecorded := compile_recorded start tokens
  rw [h] at hrecorded
  cases hrun : Build.whole start (here tokens) (Script.script tokens).value (.empty start) with
  | error cause story =>
    cases cause with
    | unfinished => exact .inl (Except.error.inj (h.symm.trans (compile_of_unfinished hrun)))
    | duplicateNode name =>
      have he := h.symm.trans (compile_of_error (by simp) hrun)
      exact .inr (.inr ⟨name, Except.error.inj he⟩)
    | retied name outlet =>
      cases h.symm.trans (compile_of_error (by simp) hrun)
      exact hrecorded.elim
    | noSuchLink name outlet =>
      cases h.symm.trans (compile_of_error (by simp) hrun)
      exact hrecorded.elim
  | ok front story =>
    cases hrest : (Script.script tokens).rest with
    | cons t rest =>
      have he := h.symm.trans (compile_of_rest hrun hrest)
      exact .inr (.inl ⟨t, rest, rfl, Except.error.inj he⟩)
    | nil =>
      cases hclose : Build.close front story with
      | error cause after =>
        cases h.symm.trans (compile_of_close_error hrun hrest hclose)
        cases cause with
        | unfinished => exact absurd hclose Build.close_ne_unfinished
        | duplicateNode name => exact .inr (.inr ⟨name, rfl⟩)
        | retied name outlet => exact hrecorded.elim
        | noSuchLink name outlet => exact hrecorded.elim
      | ok u after =>
        have hc := h.symm.trans (compile_of_close hrun hrest hclose)
        unfold complete at hc
        split at hc
        · cases hc
        · cases hc
          exact hrecorded.elim

/-- Reading comes to an end on any tokens, and so does compiling. Each reader puts its reading together
from those of the calls in its plan, and the steps of the plan lead to where the reader leaves off; a
chain of calls stays within the tokens it starts on, and one that comes back to a rule, or to another
that is no lower, has taken one of them; reading a whole script comes to at most twenty-one calls for
each token, and two more; and compiling then has a story, or misses the final stop, or finds a token
left by the reading, or has two nodes of one name to write. -/
theorem compile_ends (start : String) (tokens : List Token) :
    (∀ c : Script.Call, c.rule.plan.run c.tokens = c.read) ∧
    (∀ c : Script.Call, Script.Takes c.tokens c.steps c.rest) ∧
    (∀ c d : Script.Call, Relation.TransGen (fun c d => d ∈ c.calls) c d →
      d.tokens <:+ c.tokens ∧
        (c.rule.rank ≤ d.rule.rank → d.tokens.length < c.tokens.length)) ∧
    (Script.Call.mk .script tokens).count ≤ 21 * tokens.length + 2 ∧
    ((∃ story, compile start tokens = .ok story) ∨
      compile start tokens = .error (.missingStop (lastPosition tokens)) ∨
      (∃ t rest, (Script.Call.mk .script tokens).rest = t :: rest ∧
        compile start tokens = .error (.tokenAfterStop t)) ∨
      ∃ name, compile start tokens = .error (.build (.duplicateNode name))) := by
  refine ⟨Script.Call.run_plan, ?_, ?_, ?_, ?_⟩
  · intro c
    have htakes := c.rule.plan.takes c.tokens
    rwa [c.rest_plan] at htakes
  · intro c d h
    obtain ⟨hsuffix, hlower⟩ := Script.Call.chain_lower h
    exact ⟨hsuffix, fun hle => hlower.resolve_right (Nat.not_lt.mpr hle)⟩
  · have hle := Script.Call.count_le ⟨.script, tokens⟩
    simp only [Script.Rule.cost] at hle
    omega
  · cases hc : compile start tokens with
    | ok story => exact .inl ⟨story, rfl⟩
    | error e =>
      obtain rfl | ⟨t, rest, hrest, rfl⟩ | ⟨name, rfl⟩ := compile_error_cases hc
      · exact .inr (.inl rfl)
      · exact .inr (.inr (.inl ⟨t, rest, hrest, rfl⟩))
      · exact .inr (.inr (.inr ⟨name, rfl⟩))

end Storyline
