import Storyline.Script.Linking

namespace Storyline

namespace Text

/-- What stands behind a text without a separator in it belongs to the last piece. -/
theorem split_append_of_not_mem {separator : Char} (a : List Char) {b : List Char}
    (h : separator ∉ b) : ∃ pieces piece, split separator a = pieces ++ [piece] ∧
      split separator (a ++ b) = pieces ++ [piece ++ b] := by
  induction a with
  | nil => exact ⟨[], [], rfl, by rw [List.nil_append, split_of_not_mem h]; rfl⟩
  | cons c cs ih =>
    obtain ⟨pieces, piece, hs, hb⟩ := ih
    rw [List.cons_append, split, split]
    split
    · exact ⟨[] :: pieces, piece, by rw [hs]; rfl, by rw [hb]; rfl⟩
    · rw [hs, hb]
      cases pieces with
      | nil => exact ⟨[], c :: piece, rfl, rfl⟩
      | cons first rest => exact ⟨(c :: first) :: rest, piece, rfl, rfl⟩

end Text

/-- The digits of an index. -/
def digits (n : Nat) : List Char := (toString n).toList

theorem digits_injective {m n : Nat} (h : digits m = digits n) : m = n := by
  have h : Nat.toDigits 10 m = Nat.toDigits 10 n := by
    simpa [digits, Nat.toString_eq_ofList_toDigits] using h
  have := congrArg (Nat.ofDigitChars 10 · 0) h
  simpa [Nat.ofDigitChars_ten_toDigits] using this

theorem all_isDigit_digits (n : Nat) : (digits n).all Char.isDigit = true := by
  rw [digits, Nat.toString_eq_ofList_toDigits, String.toList_ofList, List.all_eq_true]
  intro c hc
  exact Nat.isDigit_of_mem_toDigits (by omega) (by omega) hc

theorem dot_not_mem_digits (n : Nat) : '.' ∉ digits n := by
  intro h
  have := List.all_eq_true.mp (all_isDigit_digits n) '.' h
  cases this

/-- No label that a script defines ends in a number behind a dot. -/
def IsLabel (label : String) : Prop :=
  ∀ part ∈ ((Text.split '.' label.toList).drop 1).getLast?, part.all Char.isDigit = false

/-- Pieces that do not end in a number, and the numbers behind them. -/
theorem append_numbers_inj {a b m n : List (List Char)}
    (ha : ∀ x ∈ a.getLast?, x.all Char.isDigit = false)
    (hb : ∀ x ∈ b.getLast?, x.all Char.isDigit = false)
    (hm : ∀ x ∈ m, x.all Char.isDigit = true) (hn : ∀ x ∈ n, x.all Char.isDigit = true)
    (h : a ++ m = b ++ n) : a = b ∧ m = n := by
  have nothing {l k : List (List Char)} (hl : ∀ x ∈ (k ++ l).getLast?, x.all Char.isDigit = false)
      (hd : ∀ x ∈ l, x.all Char.isDigit = true) : l = [] := by
    rcases List.eq_nil_or_concat l with rfl | ⟨rest, x, rfl⟩
    · rfl
    · have hx := hd x (by simp)
      rw [hl x (by simp)] at hx
      cases hx
  rcases List.append_eq_append_iff.mp h with ⟨l, rfl, rfl⟩ | ⟨l, rfl, rfl⟩
  · obtain rfl := nothing hb fun x hx => hm x (List.mem_append_left _ hx)
    simp
  · obtain rfl := nothing ha fun x hx => hn x (List.mem_append_left _ hx)
    simp

namespace Path

variable {p q : Path} {label : String}

theorem indices_root : (root label).indices = [0] := rfl

theorem eq_root (h : p.indices = [0]) : p = root p.label := by
  obtain ⟨label, outer, last⟩ := p
  simp only [indices, List.append_eq_singleton_iff, List.reverse_eq_nil_iff] at h
  rcases h with ⟨rfl, h⟩ | ⟨-, h⟩
  · simp only [List.cons.injEq, and_true] at h
    rw [h]
    rfl
  · cases h

theorem indices_injective (hl : p.label = q.label) (h : p.indices = q.indices) : p = q := by
  obtain ⟨label, outer, last⟩ := p
  obtain ⟨label', outer', last'⟩ := q
  obtain ⟨ho, he⟩ := List.append_inj' h rfl
  simp only [List.reverse_inj] at ho
  simp only [List.cons.injEq, and_true] at he
  rw [show label = label' from hl, ho, he]

/-- The pieces of a name are those of its label and the indices. -/
theorem split_name (p : Path) : Text.split '.' p.name.toList =
    Text.split '.' p.label.toList ++ if p.indices = [0] then [] else p.indices.map digits := by
  have more (is : List Nat) (a : List Char) :
      Text.split '.' (List.intercalate ['.'] (a :: is.map digits)) =
        Text.split '.' a ++ is.map digits := by
    induction is generalizing a with
    | nil => simp
    | cons i rest ih =>
      rw [List.map_cons, List.intercalate_cons_cons, List.append_assoc, List.singleton_append,
        Text.split_append_separator, ih, Text.split_of_not_mem (dot_not_mem_digits i)]
      rfl
  unfold name
  split
  · rw [List.append_nil]
  · rw [← more, String.toList_intercalate, List.map_cons, List.map_map]
    rfl

theorem indices_ne_nil (p : Path) : p.indices ≠ [] := by
  simp [indices]

theorem name_injective (hp : IsLabel p.label) (hq : IsLabel q.label) (h : p.name = q.name) :
    p = q := by
  have hs := congrArg (fun s => Text.split '.' s.toList) h
  simp only [split_name] at hs
  have numbers (r : Path) : ∀ x ∈ if r.indices = [0] then [] else r.indices.map digits,
      x.all Char.isDigit = true := by
    intro x hx
    split at hx
    · cases hx
    · obtain ⟨i, -, rfl⟩ := List.mem_map.mp hx
      exact all_isDigit_digits i
  have hlabel : Text.split '.' p.label.toList = Text.split '.' q.label.toList ∧
      (if p.indices = [0] then [] else p.indices.map digits) =
        if q.indices = [0] then [] else q.indices.map digits := by
    unfold IsLabel at hp hq
    have hne := Text.split_ne_nil '.' p.label.toList
    have hne' := Text.split_ne_nil '.' q.label.toList
    cases ha : Text.split '.' p.label.toList with
    | nil => exact absurd ha hne
    | cons first rest =>
      cases hb : Text.split '.' q.label.toList with
      | nil => exact absurd hb hne'
      | cons first' rest' =>
        rw [ha, hb, List.cons_append, List.cons_append, List.cons.injEq] at hs
        rw [ha] at hp
        rw [hb] at hq
        obtain ⟨hr, hd⟩ := append_numbers_inj hp hq (numbers p) (numbers q) hs.2
        have hr : rest = rest' := hr
        exact ⟨by rw [hs.1, hr], hd⟩
  have hl : p.label = q.label := String.toList_inj.mp (Text.split_injective hlabel.1)
  refine indices_injective hl ?_
  have hd := hlabel.2
  split at hd <;> split at hd
  · next h1 h2 => rw [h1, h2]
  · exact absurd (List.map_eq_nil_iff.mp hd.symm) q.indices_ne_nil
  · exact absurd (List.map_eq_nil_iff.mp hd) p.indices_ne_nil
  · exact (List.map_inj_right fun _ _ => digits_injective).mp hd

end Path

/-- A part of a numbered copy of a label that follows a dot is no number. -/
theorem isLabel_numbered (base : String) (n : Nat) : IsLabel (base ++ "'" ++ toString n) := by
  intro part hp
  have hdot : '.' ∉ '\'' :: digits n := by
    simp only [List.mem_cons, not_or]
    exact ⟨by decide, dot_not_mem_digits n⟩
  obtain ⟨pieces, piece, -, hs⟩ := Text.split_append_of_not_mem base.toList hdot
  have he : (base ++ "'" ++ toString n).toList = base.toList ++ '\'' :: digits n := by
    simp [digits]
  rw [he, hs] at hp
  cases pieces with
  | nil => simp at hp
  | cons first rest =>
    obtain rfl : piece ++ '\'' :: digits n = part := by simpa using hp
    have : Char.isDigit '\'' = false := by decide
    simp [this]

theorem isLabel_of_not_numeric {label : String} (h : Build.hasNumericPart label = false) :
    IsLabel label := by
  intro part hp
  unfold Build.hasNumericPart at h
  rw [List.any_eq_false] at h
  simpa using h part (List.mem_of_getLast? hp)

theorem numbered_injective {base : String} {m n : Nat}
    (h : base ++ "'" ++ toString m = base ++ "'" ++ toString n) : m = n := by
  have h := congrArg String.toList h
  simp only [String.toList_append] at h
  exact digits_injective (List.append_cancel_left h)

/-- The label a script gives is the name as written or a numbered copy of it. -/
def MayName (written label : String) : Prop :=
  label = written ∨ ∃ n : Nat, label = written ++ "'" ++ toString n

namespace Story

/-- The search stops at the first copy that is not taken. -/
theorem firstFree_least (base : String) (taken : List String) (n : Nat) :
    ∃ m, n ≤ m ∧ firstFree base taken n = base ++ "'" ++ toString m ∧
      base ++ "'" ++ toString m ∉ taken ∧
      ∀ k, n ≤ k → k < m → base ++ "'" ++ toString k ∈ taken := by
  rw [firstFree]
  split
  · next h =>
    obtain ⟨m, hm, he, hfree, htaken⟩ :=
      firstFree_least base (taken.erase (base ++ "'" ++ toString n)) (n + 1)
    refine ⟨m, by omega, he, fun hmem => ?_, fun k hk hlt => ?_⟩
    · have hne : base ++ "'" ++ toString m ≠ base ++ "'" ++ toString n := by
        intro hs
        have := numbered_injective hs
        omega
      exact hfree ((List.mem_erase_of_ne hne).mpr hmem)
    · rcases Nat.eq_or_lt_of_le hk with rfl | hk
      · exact h
      · exact List.mem_of_mem_erase (htaken k hk hlt)
  · next h => exact ⟨n, Nat.le_refl _, rfl, h, fun k hk hlt => by omega⟩
termination_by taken.length
decreasing_by
  have h : base ++ "'" ++ toString n ∈ taken := by assumption
  have := List.length_pos_of_mem h
  rw [List.length_erase_of_mem h]
  omega

theorem firstFree_eq (base : String) (taken : List String) (n : Nat) :
    ∃ m, n ≤ m ∧ firstFree base taken n = base ++ "'" ++ toString m := by
  obtain ⟨m, hm, he, -⟩ := firstFree_least base taken n
  exact ⟨m, hm, he⟩

theorem firstFree_not_mem (base : String) (taken : List String) (n : Nat) :
    firstFree base taken n ∉ taken := by
  obtain ⟨m, -, he, hfree, -⟩ := firstFree_least base taken n
  exact he ▸ hfree

end Story

end Storyline
