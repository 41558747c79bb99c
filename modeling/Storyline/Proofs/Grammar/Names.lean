import Storyline.Proofs.Grammar.Threads
import Mathlib.Data.List.TakeWhile

namespace Storyline

namespace Read

variable {α β : Type} {t : Token} {ts us : List Token} {a : α}

/-- What a rule reads, which tokens it leaves and which mistakes it notices, unless the tokens end. -/
def outcome (r : Read α ts) : Option (α × List Token × List Diagnostic) :=
  Option.map (fun s => (s.value, s.rest, s.reports)) r

theorem outcome_past (r : Read α ts) : outcome (past r : Read α (t :: ts)) = r.outcome := by
  cases r <;> rfl

theorem outcome_eq_some_iff {r : Read α ts} : r.outcome = some (a, us, []) ↔ r.Gives a us := by
  unfold outcome Gives
  rw [Option.map_eq_some_iff]
  simp only [Prod.mk.injEq]

/-- A rule that reads on after another one that made no mistake. -/
theorem Gives.outcome_andThen {r : Read α ts}
    {k : (a : α) → (us : List Token) → us.length ≤ ts.length → Read β us} (h : r.Gives a us) :
    ∃ hus, (r.andThen k).outcome = (k a us hus).outcome := by
  obtain ⟨s, rfl, rfl, rfl, hn⟩ := h
  refine ⟨s.suffix.length_le, ?_⟩
  unfold Read.andThen
  cases hk : k s.value s.rest s.suffix.length_le with
  | none => simp only [hk]; rfl
  | some next => simp only [hk, Read.outcome, Option.map_some, hn, List.nil_append]

end Read

namespace Script

variable {t u : Token} {ts us : List Token} {label : String}

/-- The text of tokens that are put together without the space between them. -/
def joinedText (run : List Token) : String := String.join (run.map Token.text)

theorem joinedText_cons (t : Token) (run : List Token) :
    joinedText (t :: run) = t.text ++ joinedText run := String.join_cons

theorem foldr_text (run : List Token) :
    run.foldr (fun u tail => u.text ++ tail) "" = joinedText run := by
  induction run with
  | nil => rfl
  | cons u run ih => rw [List.foldr_cons, ih, joinedText_cons]

theorem nameTail_of_cons (h : ts.dropWhile joins = u :: us) :
    (nameTail ts).Gives (joinedText (ts.takeWhile joins)) (u :: us) := by
  have hu : joins u = false := by
    have hstop := List.head?_dropWhile_not joins ts
    rwa [h] at hstop
  have hrun : ∀ v ∈ ts.takeWhile joins, joins v = true := fun v hv => List.mem_takeWhile_imp hv
  have hgives : (nameTail (ts.takeWhile joins ++ u :: us)).Gives _ (u :: us) :=
    nameTail_gives hrun hu
  rwa [← h, List.takeWhile_append_dropWhile, h, foldr_text] at hgives

theorem nameTail_of_nil (h : ts.dropWhile joins = []) : nameTail ts = none := by
  induction ts with
  | nil => rfl
  | cons t us ih =>
    rw [List.dropWhile_eq_nil_iff] at h ih
    obtain ⟨ht, hus⟩ := List.forall_mem_cons.mp h
    rw [nameTail, if_pos ht, ih hus]
    rfl

theorem name_of_cons (word : t.kind = .word) (h : ts.dropWhile joins = u :: us) :
    (name (t :: ts)).Gives (some (joinedText (t :: ts.takeWhile joins))) (u :: us) := by
  rw [name, if_pos word, joinedText_cons]
  exact ((nameTail_of_cons h).map _).past

/-- No splice adjoins what goes on with a name. -/
def IsWhole (ts : List Token) : Prop :=
  ∀ u ∈ (ts.dropWhile joins).head?, (u.adjoins && u.is "\x7b") = false

/-- Without a splice the pieces are one text, and the same. -/
theorem IsWhole.pieces_eq (whole : IsWhole ts) :
    pieces ts = (nameTail ts).map fun tail => ⟨tail, []⟩ := by
  induction ts with
  | nil =>
    rw [pieces, nameTail]
    rfl
  | cons t us ih =>
    unfold IsWhole at whole ih
    rw [pieces, nameTail]
    cases hj : joins t with
    | true =>
      rw [List.dropWhile_cons_of_pos hj] at whole
      rw [Bool.true_or, if_pos rfl, if_pos rfl, firstPiece, is_eq_false_of_joins hj,
        if_neg Bool.false_ne_true, ih whole]
      cases nameTail us <;> rfl
    | false =>
      rw [List.dropWhile_cons_of_neg (by simp [hj])] at whole
      rw [Bool.false_or, whole t rfl, if_neg Bool.false_ne_true, if_neg Bool.false_ne_true]
      rfl

theorem IsWhole.firstPiece_eq (whole : IsWhole ts) (word : t.kind = .word) :
    firstPiece t ts = (nameTail ts).map fun tail => ⟨t.text ++ tail, []⟩ := by
  rw [firstPiece, is_eq_false_of_kind (by simp [word]), if_neg Bool.false_ne_true, whole.pieces_eq]
  cases nameTail ts <;> rfl

theorem IsWhole.reference_of_nil (whole : IsWhole ts) (word : t.kind = .word)
    (h : ts.dropWhile joins = []) : reference t ts = none := by
  rw [reference, whole.firstPiece_eq word, nameTail_of_nil h]
  rfl

/-- A name that stands alone is a variable, and arguments that follow directly make a call of it. -/
theorem IsWhole.outcome_reference (whole : IsWhole ts) (word : t.kind = .word)
    (h : ts.dropWhile joins = u :: us) :
    (reference t ts).outcome =
      if opensArguments u then
        ((arguments us).map (.call (joinedText (t :: ts.takeWhile joins)))).outcome
      else some (.var (joinedText (t :: ts.takeWhile joins)), u :: us, []) := by
  have hpiece : (firstPiece t ts).Gives ⟨joinedText (t :: ts.takeWhile joins), []⟩ (u :: us) := by
    rw [whole.firstPiece_eq word, joinedText_cons]
    exact (nameTail_of_cons h).map _
  rw [reference]
  obtain ⟨hus, he⟩ := hpiece.outcome_andThen
  rw [he, if_neg (by simp)]
  dsimp only
  split
  · exact Read.outcome_past _
  · rfl

/-- A name and the arguments behind it. -/
def named (ts : List Token) : Read (Option String × List Expr) ts :=
  (name ts).andThen fun label us _ =>
    (expect "(" us).andThen fun _ vs _ => (arguments vs).map fun args => (label, args)

theorem outcome_named {label : Option String} (h : (name ts).Gives label (u :: us))
    (hu : u.is "(" = true) :
    (named ts).outcome = ((arguments us).map fun args => (label, args)).outcome := by
  rw [named]
  obtain ⟨hus, he⟩ := h.outcome_andThen
  rw [he]
  obtain ⟨hvs, he⟩ := (Read.Gives.expect hu).outcome_andThen
  exact he

/-- A word and what adjoins it, where that is not followed by an adjoining splice, is read by the rule for
names and by the rule for variables alike: as the same text, put together from the same tokens. The second
rule gives the variable of that name, or, where arguments follow directly, a call of it with what is read
as arguments there; the first rule and arguments behind it leave the tokens that the call leaves. Where the
tokens end, both fail. -/
theorem reference_reads_name (word : t.kind = .word) (whole : IsWhole ts) :
    let label := joinedText (t :: ts.takeWhile joins)
    (ts.dropWhile joins = [] → name (t :: ts) = none ∧ reference t ts = none) ∧
    ∀ u us, ts.dropWhile joins = u :: us →
      (name (t :: ts)).Gives (some label) (u :: us) ∧
      (opensArguments u = false → (reference t ts).Gives (.var label) (u :: us)) ∧
      (opensArguments u = true →
        (reference t ts).outcome = ((arguments us).map (.call label)).outcome ∧
        (named (t :: ts)).outcome = ((arguments us).map fun args => (some label, args)).outcome) := by
  intro label
  refine ⟨fun hend => ⟨?_, whole.reference_of_nil word hend⟩, fun u us hrest => ?_⟩
  · rw [name, if_pos word, nameTail_of_nil hend]
    rfl
  · have hname : (name (t :: ts)).Gives (some label) (u :: us) := name_of_cons word hrest
    have hreference := whole.outcome_reference word hrest
    refine ⟨hname, fun hu => ?_, fun hu => ⟨?_, ?_⟩⟩
    · rw [hu, if_neg Bool.false_ne_true] at hreference
      exact Read.outcome_eq_some_iff.mp hreference
    · rwa [if_pos hu] at hreference
    · rw [opensArguments, Bool.and_eq_true] at hu
      exact outcome_named hname hu.1

/-- A dotted name with a number in it and arguments behind it, as a call and as a name. -/
theorem reference_reads_name_call :
    let t : Token := ⟨.word, " ", "a", ⟨1, 1⟩⟩
    let ts : List Token := [⟨.symbol, "", ".", ⟨1, 2⟩⟩, ⟨.number, "", "1", ⟨1, 3⟩⟩,
      ⟨.mark, "", "(", ⟨1, 4⟩⟩, ⟨.word, "", "x", ⟨1, 5⟩⟩, ⟨.mark, "", ")", ⟨1, 6⟩⟩,
      ⟨.mark, "", "\x7b", ⟨1, 7⟩⟩, .stop ⟨2, 1⟩]
    t.kind = .word ∧ IsWhole ts ∧
      (name (t :: ts)).Gives (some "a.1") (ts.drop 2) ∧
      (reference t ts).outcome = ((arguments (ts.drop 3)).map (.call "a.1")).outcome ∧
      Option.map (fun s => (s.value.1, s.rest)) (named (t :: ts)) = some (some "a.1", ts.drop 5) := by
  intro t ts
  have whole : IsWhole ts := by
    intro u hu
    obtain rfl : ts[2] = u := Option.some.inj hu
    rfl
  obtain ⟨hname, -, hcall⟩ := (reference_reads_name (show t.kind = .word from rfl) whole).2
    ts[2] (ts.drop 3) rfl
  exact ⟨rfl, whole, hname, (hcall rfl).1, by decide +kernel⟩

/-- What an arrow in front of a variable or a call asks for. -/
def asked? (pos : Position) : Expr → Option Item
  | .var label => some (.goto label)
  | .call label args => some (.call pos label args)
  | _ => none

/-- Behind an arrow a variable is a label to go to and a call is a call of a label: of the same name, with
the same arguments, mistakes and tokens behind it. -/
theorem destination_of_reference (word : t.kind = .word) (whole : IsWhole ts) (pos : Position)
    {r : Reading Expr ts} (h : reference t ts = some r) :
    ∃ item, asked? pos r.value = some item ∧
      (destination pos (t :: ts)).Gives (r.reports.map .report ++ [item]) r.rest := by
  cases hrest : ts.dropWhile joins with
  | nil =>
    rw [whole.reference_of_nil word hrest] at h
    cases h
  | cons u us =>
    have hwanted : (wantedName .labelName (t :: ts)).Gives
        (some (joinedText (t :: ts.takeWhile joins))) (u :: us) := by
      rw [wantedName, if_pos word]
      exact name_of_cons word hrest
    have hreference := whole.outcome_reference word hrest
    unfold destination
    cases hu : opensArguments u with
    | false =>
      rw [hu, if_neg Bool.false_ne_true] at hreference
      obtain ⟨s, hs, hvalue, htokens, hreports⟩ := Read.outcome_eq_some_iff.mp hreference
      obtain rfl := Option.some.inj (hs.symm.trans h)
      rw [hvalue, htokens, hreports]
      refine ⟨_, rfl, hwanted.items fun _ => ?_⟩
      simp only [hu, Bool.false_eq_true, if_false]
      exact .stay _ _
    | true =>
      rw [hu, if_pos rfl, h] at hreference
      cases hargs : arguments us with
      | none =>
        rw [hargs] at hreference
        cases hreference
      | some args =>
        rw [hargs] at hreference
        obtain ⟨hvalue, hsame⟩ := Prod.mk.inj (Option.some.inj hreference)
        obtain ⟨htokens, hreports⟩ := Prod.mk.inj hsame
        rw [hvalue, htokens, hreports]
        refine ⟨_, rfl, hwanted.items fun _ => ?_⟩
        simp only [hu, if_true, hargs]
        exact ⟨rfl, rfl⟩

end Script

end Storyline
