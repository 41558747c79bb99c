import Storyline.Proofs.Blocks.Cuts
import Storyline.Proofs.Blocks.Reading
import Storyline.Proofs.Ends.Resolved

namespace Storyline

namespace Script

/-- A rule that began at `ts` outside all blocks read the final stop, and left what follows it. -/
structure Ends (gaps : List (Option Nat)) (ts rest : List Token) : Prop where
  length_le : rest.length ≤ ts.length
  range : ∀ n, some n ∈ gaps → rest.length ≤ n ∧ n < ts.length
  whole : none ∉ gaps → ∀ passed, Agrees passed gaps ts rest → finalStop passed 0 ts = some rest
  cut : none ∈ gaps → ∀ passed, Agrees passed gaps ts rest → finalStop passed 0 ts = none

variable {a b : List (Option Nat)} {t : Token} {ts us rest : List Token}

theorem Ends.after_crosses (ha : Crosses a ts us) (hb : Ends b us rest) : Ends (a ++ b) ts rest := by
  have h1 := ha.length_le
  have h2 := hb.length_le
  have hl {passed : List Nat} (h : Agrees passed (a ++ b) ts rest) : Agrees passed a ts us :=
    h.left (fun n hn => (hb.range n hn).2) h2
  have hr {passed : List Nat} (h : Agrees passed (a ++ b) ts rest) : Agrees passed b us rest :=
    h.right (fun n hn => (ha.range n hn).1) h1
  refine ⟨by omega, ?_, ?_, ?_⟩
  · intro n hn
    rcases List.mem_append.mp hn with hn | hn
    · have := ha.range n hn
      omega
    · have := hb.range n hn
      omega
  · intro hnone passed h
    simp only [List.mem_append, not_or] at hnone
    rw [ha.whole hnone.1 passed (hl h), hb.whole hnone.2 passed (hr h)]
  · intro hnone passed h
    by_cases hn : none ∈ a
    · exact ha.cut hn passed (hl h)
    · rw [ha.whole hn passed (hl h)]
      exact hb.cut ((List.mem_append.mp hnone).resolve_left hn) passed (hr h)

theorem Ends.stop (h : t.kind = .stop) (us : List Token) : Ends [] (t :: us) us := by
  refine ⟨by simp, fun n hn => by simp at hn, fun _ passed ha => ?_, fun hn => by simp at hn⟩
  have hp : us.length ∉ passed := by
    intro hm
    cases (ha _ (Nat.le_refl _) (Nat.lt_succ_self _)).mp hm
  exact finalStop_stop_zero hp h

theorem Ends.finish_nil (h : none ∈ a) (hr : ∀ n, some n ∉ a) : Ends a [] [] :=
  ⟨Nat.le_refl _, fun n hn => absurd hn (hr n), fun hn => absurd h hn, fun _ _ _ => rfl⟩

end Script

/-- The tokens ended and the items are cut, or what was left starts with a token of the rule around
them. -/
def Span.Stops {ts : List Token} (s : Span (List Item) ts) : Prop :=
  (s.rest = [] ∧ none ∈ Script.gaps s.value) ∨ ∃ u vs, s.rest = u :: vs ∧ u.sign = .close

namespace Span.Stops

variable {t : Token} {ts : List Token} {s : Span (List Item) ts}

theorem past (h : s.Stops) : Span.Stops (s.past : Span (List Item) (t :: ts)) := h

theorem after (items : List Item) (h : s.Stops) : (Span.after items s).Stops := by
  refine h.imp (fun ⟨hr, hn⟩ => ⟨hr, ?_⟩) id
  show none ∈ Script.gaps (items ++ s.value)
  rw [Script.gaps_append]
  exact List.mem_append_right _ hn

theorem andThen {k : (us : List Token) → us.length ≤ ts.length → Span (List Item) us}
    (h : ∀ us hus, (k us hus).Stops) : (s.andThen k).Stops := by
  refine (h s.rest s.suffix.length_le).imp (fun ⟨hr, hn⟩ => ⟨hr, ?_⟩) id
  show none ∈ Script.gaps (s.value ++ _)
  rw [Script.gaps_append]
  exact List.mem_append_right _ hn

end Span.Stops

namespace Script

variable {t : Token}

theorem thread_stops (ts : List Token) : (thread ts).Stops := by
  cases ts with
  | nil =>
    rw [thread]
    exact .inl ⟨rfl, List.mem_singleton_self _⟩
  | cons t us =>
    rw [thread]
    split
    · next h => exact .inr ⟨t, us, rfl, h⟩
    · exact .past (thread_stops us)
    · exact .past (.after _ (thread_stops us))
    · exact .past (.after _ (thread_stops us))
    · exact .past (.after _ (thread_stops us))
    all_goals exact .past (.andThen fun vs _ => thread_stops vs)
termination_by ts.length
decreasing_by all_goals grind

/-- What closes a thread is a stop or a mark. -/
theorem isPlain_of_sign_close (h : t.sign = .close) (hs : t.kind ≠ .stop) : t.IsPlain := by
  refine ⟨fun hk => ?_, hs⟩
  rw [Token.sign, hk] at h
  cases h

theorem ends_andThen {ts : List Token} {s : Span (List Item) ts}
    {k : (us : List Token) → us.length ≤ ts.length → Span (List Item) us} (hc : s.Crosses)
    (hs : s.Stops) (hnil : ∀ h, k [] h = .finish [] [])
    (hclose : ∀ u vs h, u.sign = .close →
      Ends (gaps (k (u :: vs) h).value) (u :: vs) (k (u :: vs) h).rest) :
    Ends (gaps (s.andThen k).value) ts (s.andThen k).rest := by
  obtain ⟨items, us, hsuffix⟩ := s
  unfold Span.andThen
  dsimp only
  rw [gaps_append]
  rcases hs with ⟨hr, hn⟩ | ⟨u, vs, hr, hu⟩
  · obtain rfl : us = [] := hr
    rw [hnil, show gaps (Span.finish [] ([] : List Token)).value = [] from rfl, List.append_nil]
    exact ⟨Nat.zero_le _, hc.range, fun h => absurd hn h, hc.cut⟩
  · obtain rfl : us = u :: vs := hr
    exact .after_crosses hc (hclose u vs _ hu)

/-- A whole script ends at its final stop. -/
theorem script_ends (ts : List Token) : Ends (gaps (script ts).value) ts (script ts).rest := by
  rw [script]
  refine ends_andThen (thread_crosses ts) (thread_stops ts) (fun _ => rfl) fun u vs _ hu => ?_
  dsimp only
  split
  · next h => exact .stop h vs
  · next h =>
    have hu : Crosses [] (u :: vs) vs := .past (isPlain_of_sign_close hu h) (.stay vs)
    exact .after_crosses hu (script_ends vs)
termination_by ts.length
decreasing_by all_goals grind

theorem mem_passed {items : List Item} {n : Nat} : n ∈ passed items ↔ some n ∈ gaps items := by
  simp [passed]

/-- The final stop of a script is where reading it ended. -/
theorem finalStop_script (tokens : List Token) :
    finalStop (passed (script tokens).value) 0 tokens =
      if none ∈ gaps (script tokens).value then none else some (script tokens).rest := by
  have he := script_ends tokens
  have ha : Agrees (passed (script tokens).value) (gaps (script tokens).value) tokens
      (script tokens).rest := fun n _ _ => mem_passed
  split
  · next h => exact he.cut h _ ha
  · next h => exact he.whole h _ ha

/-- Plain tokens may be passed over or not. -/
theorem finalStop_of_plain {passed : List Nat} {ts : List Token}
    (h : ∀ t us, t :: us <:+ ts → us.length ∈ passed → t.IsPlain) (depth : Nat) :
    finalStop passed depth ts = finalStop [] depth ts := by
  induction ts generalizing depth with
  | nil => rfl
  | cons t us ih =>
    have ih := ih fun u vs hu hp => h u vs (hu.trans (List.suffix_cons t us)) hp
    have hn : us.length ∉ ([] : List Nat) := List.not_mem_nil
    by_cases hp : us.length ∈ passed
    · rw [finalStop_passed hp, finalStop_plain (h t us (List.suffix_refl _) hp), ih]
    by_cases hs : t.kind = .start
    · rw [finalStop_start hp hs, finalStop_start hn hs, ih]
    by_cases ht : t.kind = .stop
    · cases depth with
      | zero => rw [finalStop_stop_zero hp ht, finalStop_stop_zero hn ht]
      | succ depth => rw [finalStop_stop_succ hp ht, finalStop_stop_succ hn ht, ih]
    · rw [finalStop_plain ⟨hs, ht⟩, finalStop_plain ⟨hs, ht⟩, ih]

end Script

open Script

/-- What reading a script left decides how compiling it ends, unless building the story fails. -/
theorem compile_by_rest {start : String} {tokens : List Token}
    (hb : ∀ e, compile start tokens ≠ .error (.build e)) :
    (none ∈ gaps (script tokens).value ∧
      compile start tokens = .error (.missingStop (lastPosition tokens))) ∨
    (none ∉ gaps (script tokens).value ∧ ∃ t rest, (script tokens).rest = t :: rest ∧
      compile start tokens = .error (.tokenAfterStop t)) ∨
    (none ∉ gaps (script tokens).value ∧ (script tokens).rest = [] ∧
      ∃ story, compile start tokens = .ok story) := by
  have hl := Build.Links.whole start (here tokens) (script tokens).value (.empty start)
  cases hrun : Build.whole start (here tokens) (script tokens).value (.empty start) with
  | error e story =>
    by_cases he : e = .unfinished
    · subst he
      exact .inl ⟨hl.of_error hrun rfl, compile_of_unfinished hrun⟩
    · exact absurd (compile_of_error he hrun) (hb e)
  | ok front story =>
    have hn := hl.of_ok hrun
    cases hrest : (script tokens).rest with
    | cons t rest => exact .inr (.inl ⟨hn, t, rest, rfl, compile_of_rest hrun hrest⟩)
    | nil =>
      refine .inr (.inr ⟨hn, rfl, ?_⟩)
      have hr := compile_recorded start tokens
      cases hclose : Build.close front story with
      | error e after => exact absurd (compile_of_close_error hrun hrest hclose) (hb e)
      | ok u after =>
        have hc := compile_of_close hrun hrest hclose
        cases hd : after.dangling with
        | nil =>
          rw [complete, hd] at hc
          exact ⟨after, hc⟩
        | cons link links =>
          rw [complete, hd] at hc
          rw [hc] at hr
          exact hr.elim

/-- Where nothing goes wrong in building the story, a script without a final stop is missing it, one
with tokens after it is refused for the first of them, and any other compiles. Tokens that a program
block passes over count for nothing, so this is so of the script as written where none of them opens
or closes a block. -/
theorem compile_final_stop (start : String) (tokens : List Token)
    (hb : ∀ e, compile start tokens ≠ .error (.build e)) :
    (∀ last, compile start tokens = .error (.missingStop last) ↔
      finalStop (passed (script tokens).value) 0 tokens = none ∧ last = lastPosition tokens) ∧
    (∀ t, compile start tokens = .error (.tokenAfterStop t) ↔
      ∃ rest, finalStop (passed (script tokens).value) 0 tokens = some (t :: rest)) ∧
    (∀ t rest e, finalStop (passed (script tokens).value) 0 tokens = some (t :: rest) →
      compile start tokens = .error e →
        e.message = CompileError.place t.pos ++ t.describe ++ " after the final stop") ∧
    ((∃ story, compile start tokens = .ok story) ↔
      finalStop (passed (script tokens).value) 0 tokens = some []) ∧
    ((∀ t us, t :: us <:+ tokens → us.length ∈ passed (script tokens).value → t.IsPlain) →
      finalStop (passed (script tokens).value) 0 tokens = finalStop [] 0 tokens) := by
  have hf := finalStop_script tokens
  obtain ⟨hn, hc⟩ | ⟨hn, u, vs, hr, hc⟩ | ⟨hn, hr, story, hc⟩ := compile_by_rest hb
  · rw [if_pos hn] at hf
    refine ⟨fun last => ?_, fun t => ?_, fun t rest e h => ?_, ?_, fun h => finalStop_of_plain h 0⟩
    · simp [hc, hf, eq_comm]
    · simp [hc, hf]
    · simp [hf] at h
    · simp [hc, hf]
  · rw [if_neg hn, hr] at hf
    refine ⟨fun last => ?_, fun t => ?_, fun t rest e h he => ?_, ?_, fun h => finalStop_of_plain h 0⟩
    · simp [hc, hf]
    · simp [hc, hf]
    · obtain ⟨rfl, rfl⟩ : u = t ∧ vs = rest := by simpa [hf] using h
      rw [hc] at he
      cases he
      rfl
    · simp [hc, hf]
  · rw [if_neg hn, hr] at hf
    refine ⟨fun last => ?_, fun t => ?_, fun t rest e h => ?_, ?_, fun h => finalStop_of_plain h 0⟩
    · simp [hc, hf]
    · simp [hc, hf]
    · simp [hf] at h
    · simp [hc, hf]

theorem compile_final_stop_word :
    compile "start" [⟨.word, "", "hi", ⟨1, 1⟩⟩, .stop ⟨1, 3⟩, ⟨.word, "", "on", ⟨2, 1⟩⟩] =
      .error (.tokenAfterStop ⟨.word, "", "on", ⟨2, 1⟩⟩) := by
  refine ((compile_final_stop _ _ ?_).2.1 _).mpr ⟨[], ?_⟩
  · intro e h
    have hc : (match compile "start" [⟨.word, "", "hi", ⟨1, 1⟩⟩, .stop ⟨1, 3⟩,
        ⟨.word, "", "on", ⟨2, 1⟩⟩] with | .error (.build _) => true | _ => false) = false := by
      decide +kernel
    rw [h] at hc
    cases hc
  · decide +kernel

/-- The token after something that cannot be assigned to is passed over even where it closes the
block, so that a final stop can be missed: here by a program block that calls `f`. -/
theorem final_stop_of_call_missed : ¬ ∀ start tokens,
    (∀ e, compile start tokens ≠ .error (.build e)) →
    ((∃ last, compile start tokens = .error (.missingStop last)) ↔
      finalStop [] 0 tokens = none) := by
  intro h
  let tokens : List Token := [⟨.start, " ", "!", ⟨1, 1⟩⟩, ⟨.word, " ", "f", ⟨1, 2⟩⟩,
    ⟨.mark, "", "(", ⟨1, 3⟩⟩, ⟨.mark, " ", ")", ⟨1, 4⟩⟩, .stop ⟨1, 5⟩, .stop ⟨1, 6⟩]
  have hc : (match compile "start" tokens with
      | .error (.missingStop _) => true | _ => false) = true := by
    decide +kernel
  have hm : ∃ last, compile "start" tokens = .error (.missingStop last) := by
    split at hc
    · next last he => exact ⟨last, he⟩
    · cases hc
  have hb : ∀ e, compile "start" tokens ≠ .error (.build e) := by
    intro e he
    obtain ⟨last, hl⟩ := hm
    rw [hl] at he
    cases he
  have hn := (h "start" tokens hb).mp hm
  exact absurd hn (by decide +kernel)

end Storyline
