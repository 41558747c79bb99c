import Mathlib.Data.List.Forall2
import Storyline.Dump.Reading

namespace Storyline.Dump

/-- A number of at most 64 bits in decimal digits, with no zero in front. -/
inductive SpellsNumber : List Char → UInt64 → Prop where
  | zero : SpellsNumber ['0'] 0
  | digits {c : Char} {cs : List Char} {n : UInt64} (first : c ≠ '0')
      (all : (c :: cs).all Char.isDigit = true)
      (value : Nat.ofDigitChars 10 (c :: cs) 0 = n.toNat) : SpellsNumber (c :: cs) n

/-- One blank at least. -/
structure IsGap (cs : List Char) : Prop where
  some : cs ≠ []
  all : ∀ c ∈ cs, c = ' ' ∨ c = '\t'

/-- The letters that a backslash may precede, and what they stand for. -/
def escapes : List (Char × Char) := [('n', '\n'), ('t', '\t'), ('"', '"'), ('\\', '\\')]

/-- The inside of a quoted string. -/
inductive SpellsInside : List Char → List Char → Prop where
  | nil : SpellsInside [] []
  | plain {c : Char} {cs ds : List Char} (quote : c ≠ '"') (slash : c ≠ '\\')
      (rest : SpellsInside cs ds) : SpellsInside (c :: cs) (c :: ds)
  | escaped {c d : Char} {cs ds : List Char} (known : (c, d) ∈ escapes)
      (rest : SpellsInside cs ds) : SpellsInside ('\\' :: c :: cs) (d :: ds)

inductive SpellsQuoted : List Char → String → Prop where
  | mk {cs : List Char} {s : String} (inside : SpellsInside cs s.toList) :
      SpellsQuoted ('"' :: (cs ++ ['"'])) s

inductive SpellsPosition : List Char → Position → Prop where
  | mk {cs ds : List Char} {pos : Position} (line : SpellsNumber cs pos.line)
      (col : SpellsNumber ds pos.col) : SpellsPosition (cs ++ ':' :: ds) pos

/-- A position, a kind and two quoted strings, with gaps between them and nothing after them. -/
inductive SpellsToken : List Char → Token → Prop where
  | mk {place gap gap' gap'' space text : List Char} {t : Token} (pos : SpellsPosition place t.pos)
      (first : IsGap gap) (second : IsGap gap') (third : IsGap gap'')
      (before : SpellsQuoted space t.space) (inside : SpellsQuoted text t.text) :
      SpellsToken
        (place ++ (gap ++ (t.kind.spelling.toList ++ (gap' ++ (space ++ (gap'' ++ text)))))) t

/-- A line without the blanks around it that stands for a token, well written or not. -/
def IsEntry (line : List Char) : Prop := line ≠ [] ∧ line.head? ≠ some '#'

instance : DecidablePred IsEntry := fun _ => inferInstanceAs (Decidable (_ ∧ _))

/-- The lines that stand for tokens, without the blanks around them. -/
def entries (lines : List (List Char)) : List (List Char) :=
  (lines.map Text.trim).filter IsEntry

/-- The lines of a text. -/
def linesOf (text : String) : List (List Char) := Text.split '\n' text.toList

section Runs

variable {p : Char → Bool} {run rest : List Char}

theorem takeWhile_run (hrun : run.all p = true) (hrest : ∀ c ∈ rest.head?, p c = false) :
    (run ++ rest).takeWhile p = run := by
  rw [List.takeWhile_append_of_pos (List.all_eq_true.mp hrun)]
  cases rest with
  | nil => simp
  | cons c cs => simp [hrest c rfl]

theorem dropWhile_run (hrun : run.all p = true) (hrest : ∀ c ∈ rest.head?, p c = false) :
    (run ++ rest).dropWhile p = rest := by
  rw [List.dropWhile_append_of_pos (List.all_eq_true.mp hrun)]
  cases rest with
  | nil => rfl
  | cons c cs => simp [hrest c rfl]

end Runs

section Readers

variable {cs rest used : List Char}

theorem bind_eq_ok {ε α β : Type} {x : Except ε α} {f : α → Except ε β} {b : β} :
    (x >>= f) = .ok b ↔ ∃ a, x = .ok a ∧ f a = .ok b := by
  cases x <;> simp [bind, Except.bind]

theorem digitsValue_eq (cs : List Char) : digitsValue cs = Nat.ofDigitChars 10 cs 0 :=
  Nat.ofDigitChars_eq_foldl.symm

theorem spells_of_readNumber {n : UInt64} (h : readNumber cs = .ok (n, rest)) :
    ∃ used, SpellsNumber used n ∧ cs = used ++ rest := by
  cases cs with
  | nil => cases h
  | cons c more =>
    rw [readNumber] at h
    split at h
    · next hzero =>
      obtain ⟨rfl, rfl⟩ := Prod.mk.inj (Except.ok.inj h)
      exact ⟨['0'], .zero, by rw [hzero, List.singleton_append]⟩
    split at h
    · next hzero hdigit =>
      dsimp only at h
      split at h
      · next hlt =>
        obtain ⟨rfl, rfl⟩ := Prod.mk.inj (Except.ok.inj h)
        refine ⟨(c :: more).takeWhile Char.isDigit, ?_, List.takeWhile_append_dropWhile.symm⟩
        rw [digitsValue_eq] at hlt ⊢
        have hall : ((c :: more).takeWhile Char.isDigit).all Char.isDigit = true :=
          List.all_takeWhile
        have hvalue : ∀ n, n < UInt64.size → n = n.toUInt64.toNat := fun n hn =>
          (UInt64.toNat_ofNat_of_lt' hn).symm
        rw [List.takeWhile_cons_of_pos hdigit] at hlt hall ⊢
        exact .digits hzero hall (hvalue _ hlt)
      · cases h
    · cases h

theorem SpellsNumber.read {n : UInt64} (h : SpellsNumber used n)
    (hrest : ∀ c ∈ rest.head?, c.isDigit = false) : readNumber (used ++ rest) = .ok (n, rest) := by
  cases h with
  | zero => simp [readNumber]
  | @digits c cs _ first all value =>
    have hdigit : c.isDigit = true := by
      rw [List.all_cons, Bool.and_eq_true] at all
      exact all.1
    have htake := takeWhile_run all hrest
    have hdrop := dropWhile_run all hrest
    rw [List.cons_append] at htake hdrop ⊢
    simp only [readNumber, first, hdigit, if_true, if_false, htake, hdrop]
    rw [digitsValue_eq, value, if_pos n.toNat_lt_size]
    exact congrArg (fun m => Except.ok (m, rest)) UInt64.ofNat_toNat

theorem SpellsNumber.head? {n : UInt64} (h : SpellsNumber used n) :
    ∃ c more, used = c :: more ∧ c.isDigit = true := by
  cases h with
  | zero => exact ⟨'0', [], rfl, rfl⟩
  | @digits c cs _ first all value =>
    rw [List.all_cons, Bool.and_eq_true] at all
    exact ⟨c, cs, rfl, all.1⟩

theorem spells_of_readPosition {pos : Position} (h : readPosition cs = .ok (pos, rest)) :
    ∃ used, SpellsPosition used pos ∧ cs = used ++ rest := by
  obtain ⟨⟨line, more⟩, hline, hmore⟩ := bind_eq_ok.mp h
  dsimp only at hmore
  split at hmore
  · obtain ⟨⟨col, left⟩, hcol, hleft⟩ := bind_eq_ok.mp hmore
    obtain ⟨rfl, rfl⟩ := Prod.mk.inj (Except.ok.inj hleft)
    obtain ⟨used, hused, rfl⟩ := spells_of_readNumber hline
    obtain ⟨used', hused', rfl⟩ := spells_of_readNumber hcol
    exact ⟨used ++ ':' :: used', .mk hused hused', by simp⟩
  · cases hmore

theorem SpellsPosition.read {pos : Position} (h : SpellsPosition used pos)
    (hrest : ∀ c ∈ rest.head?, c.isDigit = false) :
    readPosition (used ++ rest) = .ok (pos, rest) := by
  obtain ⟨line, col⟩ := h
  next cs ds =>
  have hcolon : ∀ c ∈ (':' :: (ds ++ rest)).head?, c.isDigit = false := by
    intro c hc
    obtain rfl := Option.some.inj hc
    decide
  have hline := line.read hcolon
  have hcol := col.read hrest
  rw [List.append_assoc, List.cons_append]
  simp only [readPosition, hline, hcol, bind, Except.bind, pure, Except.pure]

theorem isSpace_iff {c : Char} : isSpace c = true ↔ c = ' ' ∨ c = '\t' := by
  simp [isSpace]

theorem isGap_of_readSpaces {u : Unit} (h : readSpaces cs = .ok (u, rest)) :
    ∃ used, IsGap used ∧ cs = used ++ rest := by
  rw [readSpaces] at h
  split at h
  · next hhead =>
    obtain ⟨-, rfl⟩ := Prod.mk.inj (Except.ok.inj h)
    refine ⟨cs.takeWhile isSpace, ⟨?_, ?_⟩, List.takeWhile_append_dropWhile.symm⟩
    · cases cs with
      | nil => cases hhead
      | cons c more =>
        have hc : isSpace c = true := hhead
        rw [List.takeWhile_cons_of_pos hc]
        exact List.cons_ne_nil _ _
    · intro c hc
      exact isSpace_iff.mp (List.all_eq_true.mp List.all_takeWhile c hc)
  · cases h

theorem IsGap.all_isSpace (h : IsGap used) : used.all isSpace = true :=
  List.all_eq_true.mpr fun c hc => isSpace_iff.mpr (h.all c hc)

theorem IsGap.head? (h : IsGap used) :
    ∃ c more, used = c :: more ∧ (c = ' ' ∨ c = '\t') := by
  cases used with
  | nil => exact absurd rfl h.some
  | cons c more => exact ⟨c, more, rfl, h.all c List.mem_cons_self⟩

theorem IsGap.read (h : IsGap used) (hrest : ∀ c ∈ rest.head?, isSpace c = false) :
    readSpaces (used ++ rest) = .ok ((), rest) := by
  obtain ⟨c, more, rfl, hc⟩ := h.head?
  have hhead : (c :: more ++ rest).head?.any isSpace = true := isSpace_iff.mpr hc
  rw [readSpaces, if_pos hhead, dropWhile_run h.all_isSpace hrest]

theorem readKind_spelling (kind : Kind) {rest : List Char}
    (hrest : ∀ c ∈ rest.head?, c.isLower = false) :
    readKind (kind.spelling.toList ++ rest) = .ok (kind, rest) := by
  have hall : kind.spelling.toList.all Char.isLower = true := by cases kind <;> decide
  have hne : kind.spelling.toList ≠ [] := by cases kind <;> decide
  have htake := takeWhile_run hall hrest
  have hdrop := dropWhile_run hall hrest
  rw [readKind, htake, hdrop]
  split
  · next hnil => exact absurd hnil hne
  · rw [String.ofList_toList, Kind.ofSpelling?_spelling]

theorem spelling_of_readKind {kind : Kind} (h : readKind cs = .ok (kind, rest)) :
    cs = kind.spelling.toList ++ rest := by
  rw [readKind] at h
  split at h
  · cases h
  · next run hrun =>
    split at h
    · next found hfound =>
      obtain ⟨rfl, rfl⟩ := Prod.mk.inj (Except.ok.inj h)
      have hs := List.find?_some hfound
      rw [beq_iff_eq.mp hs, String.toList_ofList]
      exact List.takeWhile_append_dropWhile.symm
    · cases h

theorem unescape?_eq_some_iff {c d : Char} : unescape? c = some d ↔ (c, d) ∈ escapes := by
  unfold unescape? escapes
  split
  · next h => simp [h, eq_comm]
  split
  · next h => simp [h, eq_comm]
  split
  · next h => simp [h, eq_comm]
  split
  · next h => simp [h, eq_comm]
  · next hn ht hq hs => simp [hn, ht, hq, hs]

theorem readInside_eq_ok_iff {inside : List Char} :
    readInside cs = .ok (inside, rest) ↔
      ∃ used, SpellsInside used inside ∧ cs = used ++ '"' :: rest := by
  constructor
  · intro h
    fun_induction readInside cs generalizing inside with
    | case1 => cases h
    | case2 cs =>
      obtain ⟨rfl, rfl⟩ := Prod.mk.inj (Except.ok.inj h)
      exact ⟨[], .nil, rfl⟩
    | case3 => cases h
    | case4 => cases h
    | case5 c cs d hd ih =>
      obtain ⟨⟨more, left⟩, hmore, h⟩ := bind_eq_ok.mp h
      obtain ⟨rfl, rfl⟩ := Prod.mk.inj (Except.ok.inj h)
      obtain ⟨used, hused, rfl⟩ := ih hmore
      exact ⟨'\\' :: c :: used, .escaped (unescape?_eq_some_iff.mp hd) hused, rfl⟩
    | case6 c cs hquote hlast hslash ih =>
      obtain ⟨⟨more, left⟩, hmore, h⟩ := bind_eq_ok.mp h
      obtain ⟨rfl, rfl⟩ := Prod.mk.inj (Except.ok.inj h)
      obtain ⟨used, hused, rfl⟩ := ih hmore
      refine ⟨c :: used, .plain hquote ?_ hused, rfl⟩
      rintro rfl
      cases used with
      | nil => exact hslash _ _ rfl rfl
      | cons d used => exact hslash _ _ rfl rfl
  · rintro ⟨used, hused, rfl⟩
    induction hused with
    | nil => rfl
    | plain quote slash _ ih =>
      rw [List.cons_append, readInside, ih]
      · rfl
      · exact quote
      · exact fun he _ => slash he
      · exact fun _ _ he _ => slash he
    | escaped known _ ih =>
      have hd := unescape?_eq_some_iff.mpr known
      simp only [List.cons_append, readInside, hd, ih, bind, Except.bind, pure, Except.pure]

theorem readQuoted_eq_ok_iff {s : String} :
    readQuoted cs = .ok (s, rest) ↔ ∃ used, SpellsQuoted used s ∧ cs = used ++ rest := by
  constructor
  · intro h
    unfold readQuoted at h
    split at h
    · obtain ⟨⟨inside, left⟩, hinside, hs⟩ := bind_eq_ok.mp h
      obtain ⟨rfl, rfl⟩ := Prod.mk.inj (Except.ok.inj hs)
      obtain ⟨used, hused, rfl⟩ := readInside_eq_ok_iff.mp hinside
      refine ⟨'"' :: (used ++ ['"']), .mk ?_, by simp⟩
      rw [String.toList_ofList]
      exact hused
    · cases h
  · rintro ⟨used, ⟨inside⟩, rfl⟩
    next cs =>
    have hinside : readInside (cs ++ '"' :: rest) = .ok (s.toList, rest) :=
      readInside_eq_ok_iff.mpr ⟨cs, inside, rfl⟩
    rw [List.cons_append, List.append_assoc, List.singleton_append]
    simp only [readQuoted, hinside, bind, Except.bind, pure, Except.pure, String.ofList_toList]

/-- A line is read as a token exactly if it spells it. -/
theorem readLine_eq_ok_iff {t : Token} : readLine cs = .ok t ↔ SpellsToken cs t := by
  constructor
  · intro h
    obtain ⟨⟨pos, cs1⟩, hpos, h⟩ := bind_eq_ok.mp h
    obtain ⟨⟨_, cs2⟩, hgap1, h⟩ := bind_eq_ok.mp h
    obtain ⟨⟨kind, cs3⟩, hkind, h⟩ := bind_eq_ok.mp h
    obtain ⟨⟨_, cs4⟩, hgap2, h⟩ := bind_eq_ok.mp h
    obtain ⟨⟨space, cs5⟩, hspace, h⟩ := bind_eq_ok.mp h
    obtain ⟨⟨_, cs6⟩, hgap3, h⟩ := bind_eq_ok.mp h
    obtain ⟨⟨text, cs7⟩, htext, h⟩ := bind_eq_ok.mp h
    cases cs7 with
    | cons => cases h
    | nil =>
      obtain rfl := Except.ok.inj h
      obtain ⟨place, hplace, rfl⟩ := spells_of_readPosition hpos
      obtain ⟨gap1, hg1, rfl⟩ := isGap_of_readSpaces hgap1
      obtain rfl := spelling_of_readKind hkind
      obtain ⟨gap2, hg2, rfl⟩ := isGap_of_readSpaces hgap2
      obtain ⟨quoted1, hq1, rfl⟩ := readQuoted_eq_ok_iff.mp hspace
      obtain ⟨gap3, hg3, rfl⟩ := isGap_of_readSpaces hgap3
      obtain ⟨quoted2, hq2, rfl⟩ := readQuoted_eq_ok_iff.mp htext
      rw [List.append_nil]
      exact .mk (t := ⟨kind, space, text, pos⟩) hplace hg1 hg2 hg3 hq1 hq2
  · rintro ⟨hplace, hg1, hg2, hg3, hq1, hq2⟩
    next place gap1 gap2 gap3 quoted1 quoted2 =>
    have gap {used : List Char} (h : IsGap used) (more : List Char) :
        ∀ c ∈ (used ++ more).head?, c.isDigit = false ∧ c.isLower = false := by
      obtain ⟨d, rest, rfl, hd⟩ := h.head?
      intro c hc
      obtain rfl := Option.some.inj hc
      rcases hd with rfl | rfl <;> decide
    have quoted {used : List Char} {s : String} (h : SpellsQuoted used s) (more : List Char) :
        ∀ c ∈ (used ++ more).head?, isSpace c = false := by
      obtain ⟨-⟩ := h
      intro c hc
      obtain rfl := Option.some.inj hc
      decide
    have hkind (more : List Char) :
        ∀ c ∈ (t.kind.spelling.toList ++ more).head?, isSpace c = false := by
      intro c hc
      cases hk : t.kind <;> rw [hk] at hc <;> obtain rfl := Option.some.inj hc <;> decide
    have hpos (more : List Char) := hplace.read fun c hc => (gap hg1 more c hc).1
    have hgap1 (more : List Char) := hg1.read (hkind more)
    have hspelling (more : List Char) := readKind_spelling t.kind fun c hc => (gap hg2 more c hc).2
    have hgap2 (more : List Char) := hg2.read (quoted hq1 more)
    have hspace (more : List Char) : readQuoted (quoted1 ++ more) = .ok (t.space, more) :=
      readQuoted_eq_ok_iff.mpr ⟨quoted1, hq1, rfl⟩
    have hlast := quoted hq2 []
    rw [List.append_nil] at hlast
    have hgap3 := hg3.read hlast
    have htext : readQuoted quoted2 = .ok (t.text, []) :=
      readQuoted_eq_ok_iff.mpr ⟨quoted2, hq2, (List.append_nil quoted2).symm⟩
    simp only [readLine, hpos, hgap1, hspelling, hgap2, hspace, hgap3, htext, bind, Except.bind,
      pure, Except.pure]

end Readers

end Storyline.Dump
