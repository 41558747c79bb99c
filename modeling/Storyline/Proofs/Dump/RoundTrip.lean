import Storyline.Dump.Writing
import Storyline.Proofs.Dump.Accepted
import Storyline.Proofs.Names.Text

namespace Storyline

namespace Text

/-- Lines that each end in a separator, and the empty piece behind the last. -/
theorem split_lines {separator : Char} {lines : List (List Char)}
    (h : ∀ line ∈ lines, separator ∉ line) :
    split separator (lines.flatMap fun line => line ++ [separator]) = lines ++ [[]] := by
  induction lines with
  | nil => rfl
  | cons line rest ih =>
    have hline := h line List.mem_cons_self
    have hrest := ih fun other hm => h other (List.mem_cons_of_mem _ hm)
    rw [List.flatMap_cons, List.append_assoc, List.singleton_append, split_append_separator,
      split_of_not_mem hline, hrest]
    rfl

end Text

namespace Dump

/-- The digits of a number start with no zero, unless it is zero. -/
theorem digits_eq_cons (n : Nat) : ∃ c rest, digits n = c :: rest ∧ (c = '0' → n = 0) := by
  rw [digits, Nat.toString_eq_ofList_toDigits, String.toList_ofList]
  induction n using Nat.strongRecOn with
  | ind n ih =>
    by_cases hn : n < 10
    · refine ⟨n.digitChar, [], Nat.toDigits_of_lt_base hn, ?_⟩
      exact Nat.digitChar_eq_zero.mp
    · have hdiv : n / 10 < n := by omega
      obtain ⟨c, rest, hd, hc⟩ := ih (n / 10) hdiv
      refine ⟨c, rest ++ [(n % 10).digitChar], ?_, ?_⟩
      · rw [Nat.toDigits_of_base_le (by omega) (by omega), hd, List.cons_append]
      · intro h
        have := hc h
        omega

theorem spells_digits (n : UInt64) : SpellsNumber (digits n.toNat) n := by
  obtain ⟨c, rest, hd, hzero⟩ := digits_eq_cons n.toNat
  by_cases hc : c = '0'
  · have hn : n = 0 := UInt64.toNat_inj.mp (hzero hc)
    rw [hn]
    exact .zero
  · have hall := all_isDigit_digits n.toNat
    have hvalue : Nat.ofDigitChars 10 (digits n.toNat) 0 = n.toNat := by
      rw [digits, Nat.toString_eq_ofList_toDigits, String.toList_ofList]
      exact Nat.ofDigitChars_ten_toDigits
    rw [hd] at hall hvalue ⊢
    exact .digits hc hall hvalue

theorem toList_positionText (p : Position) :
    p.text.toList = digits p.line.toNat ++ ':' :: digits p.col.toNat := by
  simp [Position.text, digits]

theorem spells_position (p : Position) : SpellsPosition p.text.toList p := by
  rw [toList_positionText]
  exact .mk (spells_digits p.line) (spells_digits p.col)

/-- Each character is spelled by its escape. -/
theorem spells_escape (cs : List Char) : SpellsInside (cs.flatMap escape) cs := by
  induction cs with
  | nil => exact .nil
  | cons c cs ih =>
    rw [List.flatMap_cons]
    by_cases hquote : c = '"'
    · subst hquote
      exact .escaped (by decide) ih
    by_cases hslash : c = '\\'
    · subst hslash
      exact .escaped (by decide) ih
    by_cases hfeed : c = '\n'
    · subst hfeed
      exact .escaped (by decide) ih
    by_cases htab : c = '\t'
    · subst htab
      exact .escaped (by decide) ih
    · have hself : escape c = [c] := by simp [escape, hquote, hslash, hfeed, htab]
      rw [hself, List.singleton_append]
      exact .plain hquote hslash ih

theorem toList_quote (s : String) : (quote s).toList = '"' :: (s.toList.flatMap escape ++ ['"']) := by
  simp [quote]

theorem spells_quote (s : String) : SpellsQuoted (quote s).toList s := by
  rw [toList_quote]
  exact .mk (spells_escape s.toList)

/-- The line of a token. -/
def line (t : Token) : List Char :=
  t.pos.text.toList ++ ' ' :: (t.kind.spelling.toList ++
    ' ' :: ((quote t.space).toList ++ ' ' :: (quote t.text).toList))

theorem toList_writeToken (t : Token) : (writeToken t).toList = line t ++ ['\n'] := by
  simp [writeToken, line]

theorem toList_write (tokens : List Token) :
    (write tokens).toList = (tokens.map line).flatMap fun line => line ++ ['\n'] := by
  rw [write, String.toList_join, List.flatMap_map, List.flatMap_map]
  exact congrArg (tokens.flatMap ·) (funext toList_writeToken)

theorem spells_line (t : Token) : SpellsToken (line t) t := by
  have hgap : IsGap [' '] := ⟨List.cons_ne_nil _ _, fun c hc => .inl (List.mem_singleton.mp hc)⟩
  have h := SpellsToken.mk (spells_position t.pos) hgap hgap hgap (spells_quote t.space)
    (spells_quote t.text)
  simpa only [line, List.singleton_append] using h

theorem not_mem_escape (c : Char) : '\n' ∉ escape c := by
  intro h
  unfold escape at h
  split at h
  · revert h
    decide
  split at h
  · revert h
    decide
  split at h
  · revert h
    decide
  split at h
  · revert h
    decide
  · next hfeed _ => exact hfeed (List.mem_singleton.mp h).symm

theorem not_mem_quote (s : String) : '\n' ∉ (quote s).toList := by
  intro h
  rw [toList_quote] at h
  simp only [List.mem_cons, List.mem_append, List.mem_flatMap, List.not_mem_nil, or_false] at h
  rcases h with h | ⟨c, -, hc⟩ | h
  · exact absurd h (by decide)
  · exact not_mem_escape c hc
  · exact absurd h (by decide)

/-- No line feed stands in a line. -/
theorem not_mem_line (t : Token) : '\n' ∉ line t := by
  have hdigits (n : Nat) : '\n' ∉ digits n := by
    intro h
    have := List.all_eq_true.mp (all_isDigit_digits n) '\n' h
    cases this
  have hkind : '\n' ∉ t.kind.spelling.toList := by cases t.kind <;> decide
  have hpos : '\n' ∉ t.pos.text.toList := by
    have hline := hdigits t.pos.line.toNat
    have hcol := hdigits t.pos.col.toNat
    rw [toList_positionText, List.mem_append, List.mem_cons]
    rintro (h | h | h)
    · exact hline h
    · exact absurd h (by decide)
    · exact hcol h
  simp [line, hpos, hkind, not_mem_quote]

theorem isBlank_of_isDigit {c : Char} (h : c.isDigit = true) : Text.isBlank c = false := by
  simp only [Char.isDigit, Bool.and_eq_true, decide_eq_true_eq, ge_iff_le,
    UInt32.le_iff_toNat_le] at h
  have hlow : 48 ≤ c.toNat := h.1
  have hhigh : c.toNat ≤ 57 := h.2
  simp only [Text.isBlank, Text.blankRanges, List.any_cons, List.any_nil, Bool.or_false,
    Bool.or_eq_false_iff, Bool.and_eq_false_iff, decide_eq_false_iff_not]
  omega

namespace SpellsToken

variable {cs : List Char} {t : Token}

/-- A line for a token starts with its position. -/
theorem head? (h : SpellsToken cs t) : ∃ c more, cs = c :: more ∧ c.isDigit = true := by
  cases h with
  | mk pos =>
    cases pos with
    | mk line =>
      obtain ⟨c, more, rfl, hdigit⟩ := line.head?
      exact ⟨c, _, rfl, hdigit⟩

/-- A line for a token ends with a quote. -/
theorem getLast? (h : SpellsToken cs t) : cs.getLast? = some '"' := by
  cases h with
  | mk _ _ _ _ _ inside =>
    cases inside
    simp [List.getLast?_cons]

theorem trim_eq (h : SpellsToken cs t) : Text.trim cs = cs := by
  obtain ⟨c, more, rfl, hdigit⟩ := h.head?
  apply Text.trim_eq_self
  · intro d hd
    obtain rfl := Option.some.inj hd
    exact isBlank_of_isDigit hdigit
  · intro d hd
    obtain rfl := Option.some.inj (h.getLast?.symm.trans hd)
    decide

theorem isEntry (h : SpellsToken cs t) : IsEntry cs := by
  obtain ⟨c, more, rfl, hdigit⟩ := h.head?
  refine ⟨List.cons_ne_nil c more, ?_⟩
  intro hsharp
  obtain rfl := Option.some.inj hsharp
  cases hdigit

theorem readLines (h : SpellsToken cs t) (n : Nat) (rest : List (List Char)) :
    readLines n (cs :: rest) = (readLines (n + 1) rest).map (t :: ·) :=
  readLines_of_ok (h.trim_eq.symm ▸ h.isEntry) (h.trim_eq.symm ▸ readLine_eq_ok_iff.mpr h)

end SpellsToken

/-- Lines of tokens, and the empty piece behind the last, read from any line number on. -/
theorem readLines_lines (n : Nat) (tokens : List Token) :
    readLines n (tokens.map line ++ [[]]) = .ok tokens := by
  induction tokens generalizing n with
  | nil => rfl
  | cons t rest ih =>
    rw [List.map_cons, List.cons_append, (spells_line t).readLines, ih (n + 1)]
    rfl

/-- Whatever the kinds, positions, spaces and texts of tokens are, their listing is read back as
these tokens. -/
theorem read_write (tokens : List Token) : read (write tokens) = .ok tokens := by
  have hfeed : ∀ l ∈ tokens.map line, '\n' ∉ l := by
    intro l hl
    obtain ⟨t, -, rfl⟩ := List.mem_map.mp hl
    exact not_mem_line t
  rw [read, toList_write, Text.split_lines hfeed]
  exact readLines_lines 1 tokens

end Dump

end Storyline
