import Mathlib.Computability.Language
import Storyline.Proofs.Dump.RoundTrip

namespace Storyline

namespace Text

variable {cs : List Char}

theorem bytes_append (a b : List Char) : bytes (a ++ b) = bytes a + bytes b := by
  induction a with
  | nil => exact (Nat.zero_add _).symm
  | cons c a ih => rw [List.cons_append, bytes, bytes, ih, Nat.add_assoc]

end Text

namespace Dump

/-- Some text of the language stands on one line. -/
def OnLine (language : Language Char) : Prop := ∃ cs ∈ language, '\n' ∉ cs

/-- What stands in front of `rest` can be completed on its line to a text of the language. -/
def StopsIn (language : Language Char) (cs rest : List Char) : Prop :=
  ∃ seen more, cs = seen ++ rest ∧ '\n' ∉ more ∧ seen ++ more ∈ language

/-- Wherever the reader fails, it stops at such a place. -/
def Stops {α : Type} (language : Language Char) (r : List Char → Except Failure α) : Prop :=
  ∀ cs failure, r cs = .error failure → StopsIn language cs failure.rest

/-- The reader takes a text of the language off the front, or stops where one could be completed. -/
structure Reads {α : Type} (language : Language Char) (r : LineReader α) : Prop where
  takes : ∀ cs a rest, r cs = .ok (a, rest) → ∃ used ∈ language, cs = used ++ rest
  stops : Stops language r

variable {α β : Type} {language next : Language Char} {cs rest used : List Char}

theorem OnLine.mul (h : OnLine language) (h' : OnLine next) : OnLine (language * next) := by
  obtain ⟨cs, hcs, hfeed⟩ := h
  obtain ⟨ds, hds, hfeed'⟩ := h'
  refine ⟨cs ++ ds, Language.append_mem_mul hcs hds, ?_⟩
  rw [List.mem_append, not_or]
  exact ⟨hfeed, hfeed'⟩

namespace StopsIn

/-- Nothing was read yet. -/
theorem start (h : OnLine language) (cs : List Char) : StopsIn language cs cs := by
  obtain ⟨more, hmore, hfeed⟩ := h
  exact ⟨[], more, rfl, hfeed, hmore⟩

/-- A text that is completed is followed by one of the next language. -/
theorem first (h : StopsIn language cs rest) (hn : OnLine next) :
    StopsIn (language * next) cs rest := by
  obtain ⟨seen, more, rfl, hfeed, hmem⟩ := h
  obtain ⟨after, hafter, hfeed'⟩ := hn
  refine ⟨seen, more ++ after, rfl, ?_, ?_⟩
  · rw [List.mem_append, not_or]
    exact ⟨hfeed, hfeed'⟩
  · rw [← List.append_assoc]
    exact Language.append_mem_mul hmem hafter

/-- A text that was read whole stands in front of the next one. -/
theorem later (hu : used ∈ language) (h : StopsIn next cs rest) :
    StopsIn (language * next) (used ++ cs) rest := by
  obtain ⟨seen, more, rfl, hfeed, hmem⟩ := h
  refine ⟨used ++ seen, more, (List.append_assoc used seen rest).symm, hfeed, ?_⟩
  rw [List.append_assoc]
  exact Language.append_mem_mul hu hmem

end StopsIn

theorem bind_eq_error {ε : Type} {x : Except ε α} {f : α → Except ε β} {e : ε} :
    (x >>= f) = .error e ↔ x = .error e ∨ ∃ a, x = .ok a ∧ f a = .error e := by
  cases x <;> simp [bind, Except.bind]

/-- One reader after another reads texts of the one language followed by those of the other. -/
theorem Reads.andThen {r : LineReader α} {k : α → List Char → Except Failure β}
    (h : Reads language r) (hn : OnLine next) (hk : ∀ a, Stops next (k a)) :
    Stops (language * next) fun cs => r cs >>= fun p => k p.1 p.2 := by
  intro cs failure he
  rcases bind_eq_error.mp he with hr | ⟨⟨a, rest⟩, hr, hrest⟩
  · exact (h.stops cs failure hr).first hn
  · obtain ⟨used, hused, rfl⟩ := h.takes cs a rest hr
    exact .later hused (hk a rest failure hrest)

def numbers : Language Char := {cs | ∃ n, SpellsNumber cs n}

/-- The colon of a position and the number after it. -/
def columns : Language Char := {cs | ∃ ds ∈ numbers, cs = ':' :: ds}

def positions : Language Char := {cs | ∃ pos, SpellsPosition cs pos}

def gaps : Language Char := {cs | IsGap cs}

def kinds : Language Char := {cs | ∃ kind : Kind, cs = kind.spelling.toList}

def strings : Language Char := {cs | ∃ s, SpellsQuoted cs s}

/-- The lines that stand for a token. -/
def tokenLines : Language Char :=
  positions * (gaps * (kinds * (gaps * (strings * (gaps * strings)))))

theorem mem_tokenLines (h : cs ∈ tokenLines) : ∃ t, SpellsToken cs t := by
  obtain ⟨place, hplace, after, h, heq⟩ := Language.mem_mul.mp h
  obtain ⟨gap, hgap, after', h, heq'⟩ := Language.mem_mul.mp h
  obtain ⟨spelling, hkind, after'', h, heq''⟩ := Language.mem_mul.mp h
  obtain ⟨gap', hgap', rest, h, hrest⟩ := Language.mem_mul.mp h
  obtain ⟨space, hspace, rest', h, hrest'⟩ := Language.mem_mul.mp h
  obtain ⟨gap'', hgap'', text, htext, hrest''⟩ := Language.mem_mul.mp h
  have ⟨pos, hpos⟩ : ∃ pos, SpellsPosition place pos := hplace
  have ⟨kind, hspelling⟩ : ∃ kind : Kind, spelling = kind.spelling.toList := hkind
  have ⟨before, hbefore⟩ : ∃ s, SpellsQuoted space s := hspace
  have ⟨inside, hinside⟩ : ∃ s, SpellsQuoted text s := htext
  have hspells := SpellsToken.mk (t := ⟨kind, before, inside, pos⟩) hpos hgap hgap' hgap''
    hbefore hinside
  rw [← heq, ← heq', ← heq'', ← hrest, ← hrest', ← hrest'', hspelling]
  exact ⟨_, hspells⟩

theorem numbers_onLine : OnLine numbers := ⟨['0'], ⟨0, .zero⟩, by decide⟩

theorem columns_onLine : OnLine columns := by
  obtain ⟨cs, hcs, hfeed⟩ := numbers_onLine
  exact ⟨':' :: cs, ⟨cs, hcs, rfl⟩, by simp [hfeed]⟩

theorem gaps_onLine : OnLine gaps :=
  ⟨[' '], ⟨List.cons_ne_nil _ _, fun _ hc => .inl (List.mem_singleton.mp hc)⟩, by decide⟩

theorem kinds_onLine : OnLine kinds := ⟨Kind.stop.spelling.toList, ⟨.stop, rfl⟩, by decide⟩

theorem strings_onLine : OnLine strings := by
  have hempty : SpellsQuoted ('"' :: ([] ++ ['"'])) "" := .mk .nil
  exact ⟨_, ⟨"", hempty⟩, by decide⟩

theorem readNumber_reads : Reads numbers readNumber where
  takes cs n rest h := by
    obtain ⟨used, hused, he⟩ := spells_of_readNumber h
    exact ⟨used, ⟨n, hused⟩, he⟩
  stops cs failure h := by
    have hrest : failure.rest = cs := by
      unfold readNumber fail at h
      grind
    rw [hrest]
    exact .start numbers_onLine cs

theorem readColumn_stops (line : UInt64) : Stops columns fun cs => match cs with
      | ':' :: cs => do
        let (col, cs) ← readNumber cs
        return ((⟨line, col⟩ : Position), cs)
      | cs => fail .position cs := by
  intro cs failure h
  dsimp only at h
  split at h
  · next cs =>
    rcases bind_eq_error.mp h with hn | ⟨p, -, hp⟩
    · obtain ⟨seen, more, rfl, hfeed, hmem⟩ := readNumber_reads.stops cs failure hn
      exact ⟨':' :: seen, more, rfl, hfeed, seen ++ more, hmem, rfl⟩
    · cases hp
  · obtain rfl := Except.error.inj h
    exact .start columns_onLine _

theorem readPosition_reads : Reads positions readPosition where
  takes cs pos rest h := by
    obtain ⟨used, hused, he⟩ := spells_of_readPosition h
    exact ⟨used, ⟨pos, hused⟩, he⟩
  stops cs failure h := by
    have hstops := readNumber_reads.andThen columns_onLine readColumn_stops
    obtain ⟨seen, more, he, hfeed, hmem⟩ := hstops cs failure h
    refine ⟨seen, more, he, hfeed, ?_⟩
    obtain ⟨line, ⟨m, hm⟩, column, ⟨col, ⟨n, hn⟩, rfl⟩, heq⟩ := Language.mem_mul.mp hmem
    rw [← heq]
    exact ⟨⟨m, n⟩, .mk hm hn⟩

theorem readSpaces_reads : Reads gaps readSpaces where
  takes cs u rest h := isGap_of_readSpaces h
  stops cs failure h := by
    unfold readSpaces at h
    split at h
    · cases h
    · obtain rfl := Except.error.inj h
      exact .start gaps_onLine cs

theorem readKind_reads : Reads kinds readKind where
  takes cs kind rest h := ⟨kind.spelling.toList, ⟨kind, rfl⟩, spelling_of_readKind h⟩
  stops cs failure h := by
    have hrest : failure.rest = cs := by
      unfold readKind at h
      split at h
      · obtain rfl := Except.error.inj h
        rfl
      · split at h
        · cases h
        · obtain rfl := Except.error.inj h
          rfl
    rw [hrest]
    exact .start kinds_onLine cs

/-- Reading the inside of a string stops between two of its characters. -/
theorem stopped_of_readInside {failure : Failure} (h : readInside cs = .error failure) :
    ∃ used inside, SpellsInside used inside ∧ cs = used ++ failure.rest := by
  fun_induction readInside cs with
  | case1 =>
    obtain rfl := Except.error.inj h
    exact ⟨[], [], .nil, rfl⟩
  | case2 cs => cases h
  | case3 =>
    obtain rfl := Except.error.inj h
    exact ⟨[], [], .nil, rfl⟩
  | case4 =>
    obtain rfl := Except.error.inj h
    exact ⟨[], [], .nil, rfl⟩
  | case5 c cs d hd ih =>
    rcases bind_eq_error.mp h with hr | ⟨p, -, hp⟩
    · obtain ⟨used, inside, hused, he⟩ := ih hr
      exact ⟨'\\' :: c :: used, d :: inside, .escaped (unescape?_eq_some_iff.mp hd) hused,
        congrArg ('\\' :: c :: ·) he⟩
    · cases hp
  | case6 c cs hquote hlast hslash ih =>
    rcases bind_eq_error.mp h with hr | ⟨p, -, hp⟩
    · obtain ⟨used, inside, hused, he⟩ := ih hr
      refine ⟨c :: used, c :: inside, .plain hquote ?_ hused, congrArg (c :: ·) he⟩
      rintro rfl
      cases cs with
      | nil => exact hlast rfl rfl
      | cons d cs => exact hslash d cs rfl rfl
    · cases hp

theorem readQuoted_reads : Reads strings readQuoted where
  takes cs s rest h := by
    obtain ⟨used, hused, he⟩ := readQuoted_eq_ok_iff.mp h
    exact ⟨used, ⟨s, hused⟩, he⟩
  stops cs failure h := by
    unfold readQuoted at h
    split at h
    · next cs =>
      rcases bind_eq_error.mp h with hr | ⟨p, -, hp⟩
      · obtain ⟨used, inside, hused, he⟩ := stopped_of_readInside hr
        refine ⟨'"' :: used, ['"'], congrArg ('"' :: ·) he, by decide, String.ofList inside, ?_⟩
        exact .mk (by rwa [String.toList_ofList])
      · cases hp
    · obtain rfl := Except.error.inj h
      exact .start strings_onLine cs

/-- Nothing may follow the second string. -/
theorem readEnd_stops (t : Token) : Stops 1 fun cs => match cs with
    | [] => (return t : Except Failure Token)
    | cs => fail .malformed cs := by
  intro cs failure h
  dsimp only at h
  split at h
  · cases h
  · obtain rfl := Except.error.inj h
    exact .start ⟨[], Language.nil_mem_one, List.not_mem_nil⟩ cs

/-- Wherever reading a line stops, what was read can be completed to a line for a token. -/
theorem readLine_stops : Stops tokenLines readLine := by
  have hend : OnLine 1 := ⟨[], Language.nil_mem_one, List.not_mem_nil⟩
  have hlast := strings_onLine.mul hend
  have hgap := gaps_onLine.mul hlast
  have hstring := strings_onLine.mul hgap
  have hgap' := gaps_onLine.mul hstring
  have hkind := kinds_onLine.mul hgap'
  have hgap'' := gaps_onLine.mul hkind
  have hall : Stops (positions * (gaps * (kinds * (gaps * (strings * (gaps * (strings * 1)))))))
      readLine :=
    readPosition_reads.andThen hgap'' fun pos =>
    readSpaces_reads.andThen hkind fun _ =>
    readKind_reads.andThen hgap' fun kind =>
    readSpaces_reads.andThen hstring fun _ =>
    readQuoted_reads.andThen hgap fun space =>
    readSpaces_reads.andThen hlast fun _ =>
    readQuoted_reads.andThen hend fun text => readEnd_stops ⟨kind, space, text, pos⟩
  rwa [mul_one] at hall

/-- A text of one line is read as the token it spells. -/
theorem SpellsToken.read {t : Token} (h : SpellsToken cs t) (hfeed : '\n' ∉ cs) :
    read (String.ofList cs) = .ok [t] := by
  rw [Dump.read, String.toList_ofList, Text.split_of_not_mem hfeed, h.readLines]
  rfl

/-- The number of bytes in front of the place where reading an untrimmed line stopped. -/
theorem column_eq {line seen rest : List Char} (h : Text.trim line = seen ++ rest) :
    column line rest = Text.bytes (Text.margin line ++ seen) + 1 := by
  rw [column, h, Text.bytes_append, Text.bytes_append]
  omega

/-- The place that is reported for a listing lies in the line reported, at a character of what is
left when it is trimmed or at its end. What stands in front of it can be completed to a line that is
read as a token; the line itself is not read, for the same mistake at the same column. -/
theorem read_error_place {text : String} {e : Error} (h : read text = .error e) :
    ∃ before line after seen rest tail,
      linesOf text = before ++ line :: after ∧ e.line = before.length + 1 ∧
      line = Text.margin line ++ seen ++ rest ++ tail ∧ Text.trim line = seen ++ rest ∧
      e.col = Text.bytes (Text.margin line ++ seen) + 1 ∧
      (∃ more t, '\n' ∉ more ∧ read (String.ofList (seen ++ more)) = .ok [t]) ∧
      read (String.ofList line) = .error ⟨1, e.col, e.mistake⟩ := by
  have hlines : readLines (0 + 1) (linesOf text) = .error e := h
  obtain ⟨before, line, after, failure, hsplit, rfl, hentry, hfails, -⟩ := error_of_readLines hlines
  obtain ⟨seen, more, hseen, hmore, hmem⟩ := readLine_stops (Text.trim line) failure hfails
  obtain ⟨tail, hline, -⟩ := Text.margin_append_trim line
  have hfeed : '\n' ∉ line := by
    have hpiece : line ∈ Text.split '\n' text.toList := by
      rw [← linesOf, hsplit]
      exact List.mem_append_right before List.mem_cons_self
    exact Text.not_mem_of_mem_split hpiece
  have hcol := column_eq hseen
  refine ⟨before, line, after, seen, failure.rest, tail, hsplit, ?_, ?_, hseen, hcol, ?_, ?_⟩
  · exact congrArg (· + 1) (Nat.zero_add before.length)
  · rw [hseen, ← List.append_assoc] at hline
    exact hline
  · obtain ⟨t, hspells⟩ := mem_tokenLines hmem
    refine ⟨more, t, hmore, hspells.read ?_⟩
    -- What was read is a part of the line, which holds no line feed.
    have hread : '\n' ∉ seen := by
      intro hin
      rw [hline, hseen] at hfeed
      simp [hin] at hfeed
    rw [List.mem_append, not_or]
    exact ⟨hread, hmore⟩
  · rw [read, String.toList_ofList, Text.split_of_not_mem hfeed, readLines_of_error hentry hfails]

/-- Reading stops inside the second string, in front of an escape that stands for nothing; the wide
space in front of the line and the letters before that place take more than one byte each. -/
theorem unknown_escape_error_place :
    read "# note\n\u2003 3:14 text \"é\" \"日\\q\" \n" = .error ⟨2, 24, .quoted⟩ ∧
    ∃ before line after seen rest tail,
      linesOf "# note\n\u2003 3:14 text \"é\" \"日\\q\" \n" = before ++ line :: after ∧
      2 = before.length + 1 ∧
      line = Text.margin line ++ seen ++ rest ++ tail ∧ Text.trim line = seen ++ rest ∧
      24 = Text.bytes (Text.margin line ++ seen) + 1 ∧
      (∃ more t, '\n' ∉ more ∧ read (String.ofList (seen ++ more)) = .ok [t]) ∧
      read (String.ofList line) = .error ⟨1, 24, .quoted⟩ := by
  have h : read "# note\n\u2003 3:14 text \"é\" \"日\\q\" \n" = .error ⟨2, 24, .quoted⟩ := by
    decide +kernel
  exact ⟨h, read_error_place h⟩

end Dump

end Storyline
