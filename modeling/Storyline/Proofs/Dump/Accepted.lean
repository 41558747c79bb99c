import Storyline.Proofs.Dump.Grammar

namespace Storyline.Dump

/-- Line `n`, counted from one, is the first entry that spells no token. -/
def StuckAt (n : Nat) (lines : List (List Char)) : Prop :=
  ∃ before line after, lines = before ++ line :: after ∧ n = before.length + 1 ∧
    IsEntry (Text.trim line) ∧ (¬ ∃ t, SpellsToken (Text.trim line) t) ∧
    ∀ earlier ∈ entries before, ∃ t, SpellsToken earlier t

theorem entries_cons (line : List Char) (rest : List (List Char)) :
    entries (line :: rest) =
      if IsEntry (Text.trim line) then Text.trim line :: entries rest else entries rest := by
  simp only [entries, List.map_cons, List.filter_cons, decide_eq_true_eq]

theorem isSkipped_eq_true_iff {line : List Char} : isSkipped line = true ↔ ¬ IsEntry line := by
  cases line with
  | nil => simp [isSkipped, IsEntry]
  | cons c rest => simp [isSkipped, IsEntry]

theorem isSkipped_eq_false_iff {line : List Char} : isSkipped line = false ↔ IsEntry line := by
  rw [← Bool.not_eq_true, isSkipped_eq_true_iff, not_not]

section Lines

variable {n : Nat} {line : List Char} {rest lines : List (List Char)} {tokens : List Token}

theorem readLines_of_not_entry (h : ¬ IsEntry (Text.trim line)) :
    readLines n (line :: rest) = readLines (n + 1) rest := by
  rw [readLines, if_pos (isSkipped_eq_true_iff.mpr h)]

theorem readLines_of_error {failure : Failure} (h : IsEntry (Text.trim line))
    (hline : readLine (Text.trim line) = .error failure) :
    readLines n (line :: rest) = .error ⟨n, column line failure.rest, failure.mistake⟩ := by
  rw [readLines, isSkipped_eq_false_iff.mpr h, hline]
  rfl

theorem readLines_of_ok {t : Token} (h : IsEntry (Text.trim line))
    (hline : readLine (Text.trim line) = .ok t) :
    readLines n (line :: rest) = (readLines (n + 1) rest).map (t :: ·) := by
  rw [readLines, isSkipped_eq_false_iff.mpr h, hline]
  cases readLines (n + 1) rest <;> rfl

/-- Lines are read exactly as tokens that their entries spell, one each. -/
theorem readLines_eq_ok_iff :
    readLines n lines = .ok tokens ↔ List.Forall₂ SpellsToken (entries lines) tokens := by
  induction lines generalizing n tokens with
  | nil =>
    have hnil : entries [] = [] := rfl
    rw [readLines, hnil, List.forall₂_nil_left_iff]
    exact ⟨fun h => (Except.ok.inj h).symm, fun h => congrArg Except.ok h.symm⟩
  | cons line rest ih =>
    rw [entries_cons]
    by_cases hentry : IsEntry (Text.trim line)
    · rw [if_pos hentry, List.forall₂_cons_left_iff]
      cases hline : readLine (Text.trim line) with
      | error failure =>
        rw [readLines_of_error hentry hline]
        refine ⟨fun h => (by cases h), ?_⟩
        rintro ⟨t, ts, hspells, -, -⟩
        rw [readLine_eq_ok_iff.mpr hspells] at hline
        cases hline
      | ok t =>
        rw [readLines_of_ok hentry hline]
        constructor
        · intro h
          cases hrest : readLines (n + 1) rest with
          | error e =>
            rw [hrest] at h
            cases h
          | ok ts =>
            rw [hrest] at h
            exact ⟨t, ts, readLine_eq_ok_iff.mp hline, ih.mp hrest, (Except.ok.inj h).symm⟩
        · rintro ⟨t', ts, hspells, hts, rfl⟩
          rw [readLine_eq_ok_iff.mpr hspells] at hline
          obtain rfl := Except.ok.inj hline
          rw [ih.mpr hts]
          rfl
    · rw [if_neg hentry, readLines_of_not_entry hentry]
      exact ih

/-- Reading fails with what is wrong with the first entry that spells no token. -/
theorem error_of_readLines {e : Error} (h : readLines (n + 1) lines = .error e) :
    ∃ before line after failure, lines = before ++ line :: after ∧
      e = ⟨n + before.length + 1, column line failure.rest, failure.mistake⟩ ∧
      IsEntry (Text.trim line) ∧ readLine (Text.trim line) = .error failure ∧
      ∀ earlier ∈ entries before, ∃ t, SpellsToken earlier t := by
  induction lines generalizing n with
  | nil => cases h
  | cons line rest ih =>
    have later (h : readLines (n + 1 + 1) rest = .error e)
        (hline : IsEntry (Text.trim line) → ∃ t, SpellsToken (Text.trim line) t) :
        ∃ before stuck after failure, line :: rest = before ++ stuck :: after ∧
          e = ⟨n + before.length + 1, column stuck failure.rest, failure.mistake⟩ ∧
          IsEntry (Text.trim stuck) ∧ readLine (Text.trim stuck) = .error failure ∧
          ∀ earlier ∈ entries before, ∃ t, SpellsToken earlier t := by
      obtain ⟨before, stuck, after, failure, rfl, rfl, hstuck, hfails, hbefore⟩ := ih h
      refine ⟨line :: before, stuck, after, failure, rfl, ?_, hstuck, hfails, ?_⟩
      · rw [List.length_cons, Nat.add_right_comm n 1 before.length, Nat.add_assoc n before.length 1]
      · rw [entries_cons]
        split
        · next hentry => exact List.forall_mem_cons.mpr ⟨hline hentry, hbefore⟩
        · exact hbefore
    by_cases hentry : IsEntry (Text.trim line)
    · cases hline : readLine (Text.trim line) with
      | error failure =>
        rw [readLines_of_error hentry hline] at h
        obtain rfl := Except.error.inj h
        exact ⟨[], line, rest, failure, rfl, rfl, hentry, hline, List.forall_mem_nil _⟩
      | ok t =>
        rw [readLines_of_ok hentry hline] at h
        refine later ?_ fun _ => ⟨t, readLine_eq_ok_iff.mp hline⟩
        cases hrest : readLines (n + 1 + 1) rest with
        | error other =>
          rw [hrest] at h
          exact h
        | ok ts =>
          rw [hrest] at h
          cases h
    · rw [readLines_of_not_entry hentry] at h
      exact later h fun he => absurd he hentry

/-- Reading stops at the first entry that spells no token. -/
theorem stuckAt_of_readLines {e : Error} (h : readLines (n + 1) lines = .error e) :
    ∃ m, e.line = n + m ∧ StuckAt m lines := by
  obtain ⟨before, line, after, failure, rfl, rfl, hentry, hline, hbefore⟩ := error_of_readLines h
  refine ⟨before.length + 1, rfl, before, line, after, rfl, rfl, hentry, ?_, hbefore⟩
  rintro ⟨t, hspells⟩
  rw [readLine_eq_ok_iff.mpr hspells] at hline
  cases hline

end Lines

theorem exists_forall₂_iff {α β : Type} {R : α → β → Prop} {as : List α} :
    (∃ bs, List.Forall₂ R as bs) ↔ ∀ a ∈ as, ∃ b, R a b := by
  induction as with
  | nil => simp
  | cons a as ih =>
    rw [List.forall_mem_cons, ← ih]
    constructor
    · rintro ⟨_, h⟩
      obtain ⟨b, bs, hb, hbs, rfl⟩ := List.forall₂_cons_left_iff.mp h
      exact ⟨⟨b, hb⟩, bs, hbs⟩
    · rintro ⟨⟨b, hb⟩, bs, hbs⟩
      exact ⟨b :: bs, .cons hb hbs⟩

/-- A listing is read exactly as the tokens that its entries spell, one each and in order; it can be
read if each of them spells one. Another listing fails, and the line reported is the first whose
entry spells none. -/
theorem read_exact (text : String) :
    (∀ tokens, read text = .ok tokens ↔
      List.Forall₂ SpellsToken (entries (linesOf text)) tokens) ∧
    ((∃ tokens, read text = .ok tokens) ↔
      ∀ line ∈ entries (linesOf text), ∃ t, SpellsToken line t) ∧
    ((∃ tokens, read text = .ok tokens) ∨
      ∃ e, read text = .error e ∧ StuckAt e.line (linesOf text)) := by
  have hread (tokens : List Token) :
      read text = .ok tokens ↔ List.Forall₂ SpellsToken (entries (linesOf text)) tokens :=
    readLines_eq_ok_iff
  refine ⟨hread, ?_, ?_⟩
  · simp only [hread]
    exact exists_forall₂_iff
  · cases h : read text with
    | ok tokens => exact .inl ⟨tokens, rfl⟩
    | error e =>
      obtain ⟨m, hm, hstuck⟩ := stuckAt_of_readLines (n := 0) h
      rw [Nat.zero_add] at hm
      exact .inr ⟨e, rfl, hm ▸ hstuck⟩

/-- Line 3 is reported, at its end: the comment counts as a line, and its last string is not closed. -/
example : read "# note\n1:1 stop \"\" \"\"\n 2:1 text \"\" \"a\n" = .error ⟨3, 16, .quoted⟩ := by
  decide +kernel

end Storyline.Dump
