import Mathlib.Data.List.Forall2
import Storyline.Json.Basic
import Storyline.Proofs.Dump.RoundTrip

namespace Storyline.Json

/-- One digit at least. -/
def IsDigits (cs : List Char) : Prop := cs ≠ [] ∧ cs.all Char.isDigit = true

inductive IsFraction : List Char → Prop where
  | none : IsFraction []
  | some {ds : List Char} (digits : IsDigits ds) : IsFraction ('.' :: ds)

inductive IsExponent : List Char → Prop where
  | none : IsExponent []
  | plus {ds : List Char} (digits : IsDigits ds) : IsExponent ('e' :: '+' :: ds)
  | minus {ds : List Char} (digits : IsDigits ds) : IsExponent ('e' :: '-' :: ds)

/-- Digits, a fraction and an exponent. -/
inductive IsMagnitude : List Char → Prop where
  | mk {whole fraction exponent : List Char} (digits : IsDigits whole)
      (part : IsFraction fraction) (scale : IsExponent exponent) :
      IsMagnitude (whole ++ (fraction ++ exponent))

inductive IsNumber : List Char → Prop where
  | plain {cs : List Char} (h : IsMagnitude cs) : IsNumber cs
  | negative {cs : List Char} (h : IsMagnitude cs) : IsNumber ('-' :: cs)

section Numbers

open Decimal (Digits Layout zeros)

theorem toList_pushn (c : Char) (n : Nat) : ("".pushn c n).toList = List.replicate n c := by
  rw [String.pushn_eq_repeat_push]
  induction n with
  | zero => rfl
  | succ n ih => simp [Nat.repeat, ih, ← List.replicate_succ', List.replicate_succ]

theorem isDigits_digits (n : Nat) : IsDigits (digits n) := by
  obtain ⟨c, rest, h, -⟩ := Dump.digits_eq_cons n
  refine ⟨?_, all_isDigit_digits n⟩
  rw [h]
  exact List.cons_ne_nil c rest

theorem isDigits_append {cs ds : List Char} (hc : cs.all Char.isDigit = true)
    (hd : ds.all Char.isDigit = true) (hne : cs ++ ds ≠ []) : IsDigits (cs ++ ds) := by
  refine ⟨hne, ?_⟩
  rw [List.all_append, hc, hd]
  rfl

theorem isDigits_zero : IsDigits ['0'] := by simp [IsDigits]

theorem all_zeros (n : Nat) : (zeros n).toList.all Char.isDigit = true := by
  rw [zeros, toList_pushn, List.all_eq_true]
  intro c hc
  rw [List.eq_of_mem_replicate hc]
  rfl

theorem isMagnitude_positional (d : Digits) (wholeFraction : Bool) :
    IsMagnitude (d.positional wholeFraction).toList := by
  obtain ⟨hne, hall⟩ : IsDigits d.text.toList := isDigits_digits d.digits
  unfold Digits.positional
  split
  · have hwhole := isDigits_append hall (all_zeros d.exponent.toNat) (by simp [hne])
    cases wholeFraction with
    | false => simpa using IsMagnitude.mk hwhole .none .none
    | true => simpa using IsMagnitude.mk hwhole (.some isDigits_zero) .none
  split
  · next hexponent hmagnitude =>
    -- the point stands behind a digit and before another
    have hpoint : d.magnitude.toNat + 1 < d.text.toList.length := by
      simp only [Digits.magnitude, String.length_toList] at hmagnitude ⊢
      omega
    have hwhole : IsDigits (d.text.toList.take (d.magnitude.toNat + 1)) := by
      refine ⟨by simp [hne], List.all_eq_true.mpr fun c hc => ?_⟩
      exact List.all_eq_true.mp hall c (List.mem_of_mem_take hc)
    have hpart : IsDigits (d.text.toList.drop (d.magnitude.toNat + 1)) := by
      refine ⟨by simp; omega, List.all_eq_true.mpr fun c hc => ?_⟩
      exact List.all_eq_true.mp hall c (List.mem_of_mem_drop hc)
    simpa using IsMagnitude.mk hwhole (.some hpart) .none
  · have hpart := isDigits_append (all_zeros (-d.magnitude - 1).toNat) hall (by simp [hne])
    simpa using IsMagnitude.mk isDigits_zero (.some hpart) .none

theorem isMagnitude_exponential (d : Digits) : IsMagnitude d.exponential.toList := by
  obtain ⟨c, rest, htext, -⟩ := Dump.digits_eq_cons d.digits
  have htext : d.text.toList = c :: rest := htext
  have hall : (c :: rest).all Char.isDigit = true := htext ▸ all_isDigit_digits d.digits
  obtain ⟨hc, hrest⟩ : c.isDigit = true ∧ rest.all Char.isDigit = true := by simpa using hall
  have hwhole : IsDigits [c] := ⟨List.cons_ne_nil c [], by simp [hc]⟩
  have hhead : (d.text.take 1).toString = String.ofList [c] := by
    simp [← String.toList_inj, htext]
  have htail : (d.text.drop 1).toString = String.ofList rest := by
    simp [← String.toList_inj, htext]
  have hscale : IsExponent ((if 0 ≤ d.magnitude then "e+" else "e-").toList ++
      digits d.magnitude.natAbs) := by
    split
    · exact .plus (isDigits_digits d.magnitude.natAbs)
    · exact .minus (isDigits_digits d.magnitude.natAbs)
  rw [Digits.exponential, hhead, htail]
  cases rest with
  | nil => simpa [digits] using IsMagnitude.mk hwhole .none hscale
  | cons a more =>
    have hpart : IsDigits (a :: more) := ⟨List.cons_ne_nil a more, hrest⟩
    simpa [digits] using IsMagnitude.mk hwhole (.some hpart) hscale

theorem isMagnitude_write (d : Digits) (layout : Layout) : IsMagnitude (d.write layout).toList := by
  unfold Digits.write
  split
  · exact isMagnitude_positional d layout.wholeFraction
  · exact isMagnitude_exponential d

end Numbers

/-- The space between two signs. -/
def IsSpace (cs : List Char) : Prop := ∀ c ∈ cs, c = ' ' ∨ c = '\n'

/-- The letters that a backslash may precede, and what they stand for. -/
def escapes : List (Char × Char) :=
  [('"', '"'), ('\\', '\\'), ('n', '\n'), ('r', '\r'), ('t', '\t'), ('b', '\x08'), ('f', '\x0c')]

/-- The inside of a quoted string. -/
inductive SpellsInside : List Char → List Char → Prop where
  | nil : SpellsInside [] []
  | plain {c : Char} {cs ds : List Char} (quote : c ≠ '"') (slash : c ≠ '\\')
      (printed : 32 ≤ c.toNat) (rest : SpellsInside cs ds) : SpellsInside (c :: cs) (c :: ds)
  | escaped {c d : Char} {cs ds : List Char} (known : (c, d) ∈ escapes)
      (rest : SpellsInside cs ds) : SpellsInside ('\\' :: c :: cs) (d :: ds)
  | coded {d : Char} {a b : Nat} {cs ds : List Char} (high : a < 16) (low : b < 16)
      (value : d.toNat = 16 * a + b) (rest : SpellsInside cs ds) :
      SpellsInside ('\\' :: 'u' :: '0' :: '0' :: a.digitChar :: b.digitChar :: cs) (d :: ds)

inductive SpellsString : List Char → String → Prop where
  | mk {cs : List Char} {s : String} (inside : SpellsInside cs s.toList) :
      SpellsString ('"' :: (cs ++ ['"'])) s

/-- Things between two brackets, with commas between them. -/
inductive Listed {α : Type} (P : List Char → α → Prop) : List Char → List α → Prop where
  | nil {gap : List Char} (space : IsSpace gap) : Listed P gap []
  | one {before cs after : List Char} {a : α} (front : IsSpace before) (item : P cs a)
      (back : IsSpace after) : Listed P (before ++ (cs ++ after)) [a]
  | more {before cs after rest : List Char} {a b : α} {as : List α} (front : IsSpace before)
      (item : P cs a) (back : IsSpace after) (others : Listed P rest (b :: as)) :
      Listed P (before ++ (cs ++ (after ++ ',' :: rest))) (a :: b :: as)

/-- A name and a value. -/
inductive Field {α : Type} (P : List Char → α → Prop) : List Char → String × α → Prop where
  | mk {name gap cs : List Char} {key : String} {a : α} (quoted : SpellsString name key)
      (space : IsSpace gap) (value : P cs a) : Field P (name ++ ':' :: (gap ++ cs)) (key, a)

/-- What a text in JSON may look like, said without the writer of such texts. A number that JSON has
no text for is null. -/
inductive Spells : List Char → Json → Prop where
  | null : Spells ['n', 'u', 'l', 'l'] null
  | yes : Spells ['t', 'r', 'u', 'e'] (bool true)
  | no : Spells ['f', 'a', 'l', 's', 'e'] (bool false)
  | count (n : Nat) : Spells (digits n) (count n)
  | number {cs : List Char} (x : Float) (text : IsNumber cs ∨ cs = ['n', 'u', 'l', 'l']) :
      Spells cs (number x)
  | string {cs : List Char} {s : String} (quoted : SpellsString cs s) : Spells cs (string s)
  | array {cs : List Char} {items : List Json} (inside : Listed Spells cs items) :
      Spells ('[' :: (cs ++ [']'])) (array items)
  | object {cs : List Char} {fields : List (String × Json)} (inside : Listed (Field Spells) cs fields) :
      Spells ('\x7b' :: (cs ++ ['\x7d'])) (object fields)

theorem spells_number (x : Float) : Spells (Decimal.Layout.json.write x).toList (number x) := by
  apply Spells.number
  simp only [Decimal.Layout.write]
  split
  · exact .inr rfl
  split
  · cases Decimal.isNegative x <;> exact .inr rfl
  · refine .inl ?_
    cases Decimal.isNegative x with
    | false => simpa using IsNumber.plain (isMagnitude_write _ _)
    | true => simpa using IsNumber.negative (isMagnitude_write _ _)

/-- Each character is spelled by its escape. -/
theorem spells_escape (c : Char) {cs ds : List Char} (h : SpellsInside cs ds) :
    SpellsInside ((escape c).toList ++ cs) (c :: ds) := by
  by_cases hquote : c = '"'
  · subst hquote
    exact .escaped (by decide) h
  by_cases hslash : c = '\\'
  · subst hslash
    exact .escaped (by decide) h
  by_cases hfeed : c = '\n'
  · subst hfeed
    exact .escaped (by decide) h
  by_cases hreturn : c = '\r'
  · subst hreturn
    exact .escaped (by decide) h
  by_cases htab : c = '\t'
  · subst htab
    exact .escaped (by decide) h
  by_cases hback : c.toNat = 8
  · obtain rfl : c = '\x08' := Char.toNat_inj.mp hback
    exact .escaped (by decide) h
  by_cases hform : c.toNat = 12
  · obtain rfl : c = '\x0c' := Char.toNat_inj.mp hform
    exact .escaped (by decide) h
  by_cases hcontrol : c.toNat < 32
  · have hcode : (escape c).toList =
        ['\\', 'u', '0', '0', (c.toNat / 16).digitChar, (c.toNat % 16).digitChar] := by
      simp [escape, hquote, hslash, hfeed, hreturn, htab, hback, hform, hcontrol]
    rw [hcode]
    exact .coded (by omega) (by omega) (by omega) h
  · have hself : (escape c).toList = [c] := by
      simp [escape, hquote, hslash, hfeed, hreturn, htab, hback, hform, hcontrol]
    rw [hself]
    exact .plain hquote hslash (by omega) h

theorem spells_quote (s : String) : SpellsString (quote s).toList s := by
  have hquote : (quote s).toList =
      '"' :: ((s.toList.flatMap fun c => (escape c).toList) ++ ['"']) := by
    simp [quote, String.toList_join, List.flatMap_map]
  have hinside (cs : List Char) :
      SpellsInside (cs.flatMap fun c => (escape c).toList) cs := by
    induction cs with
    | nil => exact .nil
    | cons c cs ih => simpa using spells_escape c ih
  rw [hquote]
  exact .mk (hinside s.toList)

section Lists

variable {α : Type} {P : List Char → α → Prop} {before after : List Char} {as : List α}

theorem isSpace_nil : IsSpace [] := fun _ h => nomatch h

theorem IsSpace.append (hb : IsSpace before) (ha : IsSpace after) : IsSpace (before ++ after) := by
  intro c hc
  cases List.mem_append.mp hc with
  | inl h => exact hb c h
  | inr h => exact ha c h

/-- Things with the same space around each of them. -/
theorem listed_intercalate {texts : List (List Char)} (hb : IsSpace before) (ha : IsSpace after)
    (h : List.Forall₂ P texts as) :
    Listed P (before ++ (List.intercalate (',' :: before) texts ++ after)) as := by
  induction h with
  | nil => exact .nil (hb.append (isSpace_nil.append ha))
  | @cons cs a texts as hp h ih =>
    cases h with
    | nil => simpa using Listed.one hb hp ha
    | cons hq h =>
      rw [List.intercalate_cons_cons]
      simpa using Listed.more hb hp isSpace_nil ih

/-- The line feed and the blanks in front of a line. -/
def margin (depth : Nat) : List Char := '\n' :: List.replicate (2 * depth) ' '

theorem isSpace_margin (depth : Nat) : IsSpace (margin depth) := by
  intro c hc
  cases List.mem_cons.mp hc with
  | inl h => exact .inr h
  | inr h => exact .inl (List.eq_of_mem_replicate h)

theorem listed_enclosed (depth : Nat) {lines : List String}
    (h : List.Forall₂ P (lines.map String.toList) as) :
    ∃ inside, Listed P inside as ∧ ∀ opening closing,
      (enclosed opening closing depth lines).toList = opening.toList ++ (inside ++ closing.toList) := by
  cases lines with
  | nil =>
    cases h
    exact ⟨[], .nil isSpace_nil, fun opening closing => by simp [enclosed]⟩
  | cons line rest =>
    have hlead : IsSpace (margin depth ++ [' ', ' ']) :=
      (isSpace_margin depth).append fun c hc => .inl (by simpa using hc)
    refine ⟨_, listed_intercalate hlead (isSpace_margin depth) h, fun opening closing => ?_⟩
    simp [enclosed, margin, toList_pushn, String.toList_intercalate]

end Lists

section Writing

mutual

/-- A value written on one line. -/
theorem spells_compact (v : Json) : Spells v.compact.toList v := by
  cases v with
  | null => exact .null
  | bool b =>
    cases b with
    | false => exact .no
    | true => exact .yes
  | count n => exact .count n
  | number x => exact spells_number x
  | string s => exact .string (spells_quote s)
  | array items =>
    have h := listed_intercalate isSpace_nil isSpace_nil (spells_compactItems items)
    simpa [compact, String.toList_intercalate] using Spells.array h
  | object fields =>
    have h := listed_intercalate isSpace_nil isSpace_nil (spells_compactFields fields)
    simpa [compact, String.toList_intercalate] using Spells.object h

theorem spells_compactItems (items : List Json) :
    List.Forall₂ Spells ((compactItems items).map String.toList) items := by
  cases items with
  | nil => exact .nil
  | cons v rest => exact .cons (spells_compact v) (spells_compactItems rest)

theorem spells_compactFields (fields : List (String × Json)) :
    List.Forall₂ (Field Spells) ((compactFields fields).map String.toList) fields := by
  cases fields with
  | nil => exact .nil
  | cons f rest =>
    obtain ⟨key, v⟩ := f
    have h := Field.mk (spells_quote key) isSpace_nil (spells_compact v)
    exact .cons (by simpa using h) (spells_compactFields rest)

end

mutual

/-- A value written with one item or field a line. -/
theorem spells_pretty (depth : Nat) (v : Json) : Spells (v.pretty depth).toList v := by
  cases v with
  | null => exact spells_compact null
  | bool b => exact spells_compact (bool b)
  | count n => exact spells_compact (count n)
  | number x => exact spells_compact (number x)
  | string s => exact spells_compact (string s)
  | array items =>
    obtain ⟨inside, h, htext⟩ := listed_enclosed depth (spells_prettyItems (depth + 1) items)
    rw [pretty, htext]
    exact .array h
  | object fields =>
    obtain ⟨inside, h, htext⟩ := listed_enclosed depth (spells_prettyFields (depth + 1) fields)
    rw [pretty, htext]
    exact .object h

theorem spells_prettyItems (depth : Nat) (items : List Json) :
    List.Forall₂ Spells ((prettyItems depth items).map String.toList) items := by
  cases items with
  | nil => exact .nil
  | cons v rest => exact .cons (spells_pretty depth v) (spells_prettyItems depth rest)

theorem spells_prettyFields (depth : Nat) (fields : List (String × Json)) :
    List.Forall₂ (Field Spells) ((prettyFields depth fields).map String.toList) fields := by
  cases fields with
  | nil => exact .nil
  | cons f rest =>
    obtain ⟨key, v⟩ := f
    have hgap : IsSpace [' '] := fun c hc => .inl (by simpa using hc)
    have h := Field.mk (spells_quote key) hgap (spells_pretty depth v)
    exact .cons (by simpa using h) (spells_prettyFields depth rest)

end

end Writing

end Storyline.Json
