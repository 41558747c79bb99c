namespace Storyline.Text

/-- The first and last character of each run of white space. -/
def blankRanges : List (Nat × Nat) :=
  [(0x9, 0xd), (0x20, 0x20), (0x85, 0x85), (0xa0, 0xa0), (0x1680, 0x1680), (0x2000, 0x200a),
    (0x2028, 0x2029), (0x202f, 0x202f), (0x205f, 0x205f), (0x3000, 0x3000)]

def isBlank (c : Char) : Bool :=
  blankRanges.any fun (first, last) => first ≤ c.toNat && c.toNat ≤ last

theorem isBlank_of_isWhitespace {c : Char} (h : c.isWhitespace) : isBlank c := by
  simp only [Char.isWhitespace, Bool.or_eq_true, decide_eq_true_eq] at h
  rcases h with ((rfl | rfl) | rfl) | rfl <;> decide

/-- The text from its first character that is no white space to its last. -/
def trim (cs : List Char) : List Char :=
  ((cs.dropWhile isBlank).reverse.dropWhile isBlank).reverse

/-- The white space in front of a text. -/
def margin (cs : List Char) : List Char := cs.takeWhile isBlank

/-- A text is its margin, what is left when it is trimmed, and white space. -/
theorem margin_append_trim (cs : List Char) :
    ∃ tail, cs = margin cs ++ trim cs ++ tail ∧ tail.all isBlank = true := by
  refine ⟨((cs.dropWhile isBlank).reverse.takeWhile isBlank).reverse, ?_, ?_⟩
  · rw [margin, trim, List.append_assoc, ← List.reverse_append, List.takeWhile_append_dropWhile,
      List.reverse_reverse, List.takeWhile_append_dropWhile]
  · rw [List.all_reverse]
    exact List.all_takeWhile

/-- Nothing is trimmed off a text between two characters that are no white space. -/
theorem trim_eq_self {cs : List Char} (hfirst : ∀ c ∈ cs.head?, isBlank c = false)
    (hlast : ∀ c ∈ cs.getLast?, isBlank c = false) : trim cs = cs := by
  have keeps (ds : List Char) (h : ∀ c ∈ ds.head?, isBlank c = false) :
      ds.dropWhile isBlank = ds := by
    cases ds with
    | nil => rfl
    | cons d ds => simp [h d rfl]
  have hfront := keeps cs hfirst
  have hback := keeps cs.reverse (by rwa [List.head?_reverse])
  rw [trim, hfront, hback, List.reverse_reverse]

theorem isBlank_of_mem_head?_dropWhile {cs : List Char} {c : Char}
    (h : c ∈ (cs.dropWhile isBlank).head?) : isBlank c = false := by
  have := List.head?_dropWhile_not isBlank cs
  rw [h] at this
  simpa using this

theorem head?_trim {cs : List Char} : ∀ c ∈ (trim cs).head?, isBlank c = false := by
  intro c hc
  have hfront : (cs.dropWhile isBlank).head? = some c := by
    have htail := List.takeWhile_append_dropWhile (p := isBlank)
      (l := (cs.dropWhile isBlank).reverse)
    have := congrArg List.reverse htail
    rw [List.reverse_append, List.reverse_reverse] at this
    rw [← this, List.head?_append]
    change (trim cs).head?.or _ = _
    rw [hc, Option.some_or]
  exact isBlank_of_mem_head?_dropWhile hfront

theorem getLast?_trim {cs : List Char} : ∀ c ∈ (trim cs).getLast?, isBlank c = false := by
  intro c hc
  rw [trim, List.getLast?_reverse] at hc
  exact isBlank_of_mem_head?_dropWhile hc

theorem trim_append_left {front : List Char} (h : front.all isBlank = true) (cs : List Char) :
    trim (front ++ cs) = trim cs := by
  rw [trim, List.dropWhile_append_of_pos (List.all_eq_true.mp h), trim]

theorem trim_append_right {back : List Char} (h : back.all isBlank = true) (cs : List Char) :
    trim (cs ++ back) = trim cs := by
  have hback : back.dropWhile isBlank = [] := by
    rw [← List.append_nil back, List.dropWhile_append_of_pos (List.all_eq_true.mp h),
      List.dropWhile_nil]
  rw [trim, trim, List.dropWhile_append]
  split
  · next hempty => rw [hback, List.isEmpty_iff.mp hempty]
  · rw [List.reverse_append, List.dropWhile_append_of_pos]
    intro c hc
    exact List.all_eq_true.mp h c (List.mem_reverse.mp hc)

/-- Trimming takes the white space off both ends, all of it and nothing else. -/
theorem trim_eq_iff {cs kept : List Char} : trim cs = kept ↔
    (∃ front back, cs = front ++ kept ++ back ∧ front.all isBlank = true ∧
      back.all isBlank = true) ∧
    (∀ c ∈ kept.head?, isBlank c = false) ∧ (∀ c ∈ kept.getLast?, isBlank c = false) := by
  constructor
  · rintro rfl
    obtain ⟨tail, hcs, htail⟩ := margin_append_trim cs
    exact ⟨⟨margin cs, tail, hcs, List.all_takeWhile, htail⟩, head?_trim, getLast?_trim⟩
  · rintro ⟨⟨front, back, rfl, hfront, hback⟩, hfirst, hlast⟩
    rw [trim_append_right hback, trim_append_left hfront, trim_eq_self hfirst hlast]

/-- The pieces between separators. -/
def split (separator : Char) : List Char → List (List Char)
  | [] => [[]]
  | c :: cs =>
    if c = separator then [] :: split separator cs
    else
      match split separator cs with
      | [] => [[c]]
      | piece :: rest => (c :: piece) :: rest

section Split

variable {separator : Char}

theorem split_eq_splitOn (separator : Char) (cs : List Char) :
    split separator cs = cs.splitOn separator := by
  induction cs with
  | nil => rw [split, List.splitOn_nil]
  | cons c cs ih =>
    have hne := List.splitOn_ne_nil separator cs
    rw [split, List.splitOn_cons_eq_if_modifyHead, ih]
    simp only [beq_iff_eq]
    split
    · rfl
    · cases hs : cs.splitOn separator with
      | nil => exact absurd hs hne
      | cons piece rest => rfl

theorem split_ne_nil (separator : Char) (cs : List Char) : split separator cs ≠ [] := by
  rw [split_eq_splitOn]
  exact List.splitOn_ne_nil separator cs

theorem split_append_separator (separator : Char) (a b : List Char) :
    split separator (a ++ separator :: b) = split separator a ++ split separator b := by
  simp only [split_eq_splitOn]
  exact List.splitOn_append_cons_self a b

theorem split_of_not_mem {cs : List Char} (h : separator ∉ cs) : split separator cs = [cs] := by
  rw [split_eq_splitOn]
  exact List.splitOn_eq_singleton h

/-- The pieces make up the text. -/
theorem intercalate_split (separator : Char) (cs : List Char) :
    List.intercalate [separator] (split separator cs) = cs := by
  rw [split_eq_splitOn]
  exact List.intercalate_splitOn separator

theorem split_injective {a b : List Char} (h : split separator a = split separator b) : a = b := by
  have := congrArg (List.intercalate [separator]) h
  rwa [intercalate_split, intercalate_split] at this

/-- No piece holds a separator. -/
theorem not_mem_of_mem_split {cs piece : List Char} (h : piece ∈ split separator cs) :
    separator ∉ piece := by
  induction cs generalizing piece with
  | nil =>
    rw [List.mem_singleton.mp h]
    exact List.not_mem_nil
  | cons c cs ih =>
    rw [split] at h
    split at h
    · rcases List.mem_cons.mp h with rfl | h
      · exact List.not_mem_nil
      · exact ih h
    · next hc =>
      split at h
      · rw [List.mem_singleton.mp h, List.mem_singleton]
        exact fun he => hc he.symm
      · next first rest hsplit =>
        rw [hsplit] at ih
        rcases List.mem_cons.mp h with rfl | h
        · rw [List.mem_cons, not_or]
          exact ⟨fun he => hc he.symm, ih List.mem_cons_self⟩
        · exact ih (List.mem_cons_of_mem first h)

/-- The pieces of a text are the only ones without separators that it can be put together from. -/
theorem split_eq_iff {cs : List Char} {pieces : List (List Char)} :
    split separator cs = pieces ↔ pieces ≠ [] ∧ (∀ piece ∈ pieces, separator ∉ piece) ∧
      List.intercalate [separator] pieces = cs := by
  constructor
  · rintro rfl
    exact ⟨split_ne_nil separator cs, fun _ => not_mem_of_mem_split, intercalate_split separator cs⟩
  · rintro ⟨hne, hpieces, rfl⟩
    rw [split_eq_splitOn]
    exact List.splitOn_intercalate separator hpieces hne

end Split

/-- The number of bytes of a text in UTF-8. -/
def bytes : List Char → Nat
  | [] => 0
  | c :: cs => c.utf8Size + bytes cs

theorem bytes_eq_utf8ByteSize (cs : List Char) : bytes cs = (String.ofList cs).utf8ByteSize := by
  induction cs with
  | nil => rfl
  | cons c cs ih =>
    rw [bytes, ih, String.ofList_cons]
    simp

end Storyline.Text
