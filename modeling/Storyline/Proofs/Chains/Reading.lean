import Storyline.Proofs.Grammar.Threads
import Storyline.Proofs.Options.Strings

namespace Storyline

/-- Punctuation that ends a thread, since it belongs to the construct around it. -/
def terminators : List String := ["|", "]", "[", "\x7d"]

/-- Punctuation that is no text where it stands in a thread. -/
def introducers : List String := ["\x7b", "@", "->", "<-", "<", "/", "//"]

namespace Token

/-- The token is a part of a run of text. -/
def isProse (t : Token) : Bool :=
  t.kind.isContent ||
    (t.kind == .mark && !terminators.contains t.text && !introducers.contains t.text)

/-- A token that stands in a thread and opens nothing in it. -/
inductive IsFlat (t : Token) : Prop where
  | prose (prose : t.isProse = true)
  | lineBreak (kind : t.kind = .mark) (text : t.text = "/")
  | paragraph (kind : t.kind = .mark) (text : t.text = "//")
  | rule (kind : t.kind = .rule)
  | blank (kind : t.kind = .blank)
  | error (kind : t.kind = .error)
  | stray (kind : t.kind = .mark) (text : t.text ∈ terminators)

/-- What a token outside a run of text shows. -/
def content? (t : Token) : Option Content :=
  match t.kind, t.text with
  | .mark, "/" => some .lineBreak
  | .mark, "//" => some .paragraph
  | .rule, _ => some .rule
  | _, _ => none

/-- What is wrong with a token that should not stand in a flat script. -/
def mistake? (t : Token) : Option Mistake :=
  if t.kind = .error then some (.scanner t.text)
  else if t.kind = .mark ∧ t.text ∈ terminators then some (.unexpected t)
  else none

end Token

/-- A run of text as it is printed, without the space in front of it. -/
def Flat.runText (first : Token) (run : List Token) : String :=
  first.printed ++ run.foldr (fun t tail => t.space ++ t.printed ++ tail) ""

/-- The space in front of the next token. -/
def Flat.spaceBefore : List Token → String
  | [] => ""
  | t :: _ => t.space

/-- What tokens show, in order: each run of text at once, with the space before and after it, and each
break and rule by itself. -/
def Flat.contents : List Token → List (Position × Content)
  | [] => []
  | t :: ts =>
    if t.isProse then
      let rest := ts.dropWhile Token.isProse
      (t.pos, .text (Flat.runText t (ts.takeWhile Token.isProse)) t.space (Flat.spaceBefore rest)) ::
        Flat.contents rest
    else (t.content?.map (t.pos, ·)).toList ++ Flat.contents ts
termination_by ts => ts.length
decreasing_by
  · exact Nat.lt_succ_of_le (ts.dropWhile_suffix Token.isProse).length_le
  · exact Nat.lt_succ_self ts.length

/-- One mistake for each scanning mistake and each stray terminator. -/
def Flat.mistakes (ts : List Token) : List Diagnostic :=
  ts.filterMap fun t => t.mistake?.map (⟨t.pos, ·⟩)

/-- The tokens of a flat script, the last of which is its stop. -/
inductive Flat.IsScript : List Token → Prop where
  | stop {t : Token} (kind : t.kind = .stop) : Flat.IsScript [t]
  | token {t : Token} {ts : List Token} (flat : t.IsFlat) (rest : Flat.IsScript ts) :
      Flat.IsScript (t :: ts)

variable {t : Token} {ts us vs : List Token}

theorem Flat.IsScript.of_tokens {stop : Token} (h : ∀ t ∈ ts, t.IsFlat) (hs : stop.kind = .stop) :
    Flat.IsScript (ts ++ [stop]) := by
  induction ts with
  | nil => exact .stop hs
  | cons t ts ih =>
    obtain ⟨ht, hts⟩ := List.forall_mem_cons.mp h
    exact .token ht (ih hts)

theorem Token.isProse_of_kind {kind : Kind} (h : t.kind = kind) (hc : kind.isContent = false)
    (hm : kind ≠ .mark) : t.isProse = false := by
  subst h
  rw [isProse, hc, Bool.false_or, beq_eq_false_iff_ne.mpr hm]
  rfl

/-- A run of text comes to an end inside the script. -/
theorem Flat.IsScript.dropWhile (h : Flat.IsScript ts) : ∃ v vs,
    ts.dropWhile Token.isProse = v :: vs ∧ v.isProse = false ∧ Flat.IsScript (v :: vs) := by
  induction h with
  | @stop t kind =>
    have hprose := Token.isProse_of_kind kind rfl (by decide)
    rw [List.dropWhile_cons_of_neg (by simp [hprose])]
    exact ⟨t, [], rfl, hprose, .stop kind⟩
  | @token t ts flat rest ih =>
    by_cases ht : t.isProse = true
    · rw [List.dropWhile_cons_of_pos ht]
      exact ih
    · rw [List.dropWhile_cons_of_neg ht]
      exact ⟨t, ts, rfl, Bool.eq_false_iff.mpr ht, .token flat rest⟩

/-- Punctuation that neither ends a thread nor introduces an item is text. -/
theorem Sign.ofMark_of_not_mem {text : String} (ht : text ∉ terminators)
    (hi : text ∉ introducers) : ofMark text = .text := by
  unfold ofMark
  split <;> first | rfl | exact absurd (by decide) ht | exact absurd (by decide) hi

namespace Token

theorem sign_of_mark (h : t.kind = .mark) : t.sign = Sign.ofMark t.text := by
  rw [sign, h]

theorem sign_of_stray (h : t.kind = .mark) (ht : t.text ∈ terminators) : t.sign = .close := by
  rw [sign_of_mark h]
  simp only [terminators, List.mem_cons, List.not_mem_nil, or_false] at ht
  rcases ht with ht | ht | ht | ht <;> rw [ht] <;> rfl

theorem isProse_of_mark (h : t.kind = .mark) :
    t.isProse = true ↔ t.text ∉ terminators ∧ t.text ∉ introducers := by
  simp [isProse, h, Kind.isContent]

/-- The tokens that run together with text are the prose. -/
theorem isText_eq (t : Token) : t.isText = t.isProse := by
  cases hk : t.kind with
  | mark =>
    rw [Bool.eq_iff_iff, isProse_of_mark hk, isText, sign_of_mark hk]
    by_cases ht : t.text ∈ terminators
    · simp only [terminators, List.mem_cons, List.not_mem_nil, or_false] at ht
      rcases ht with ht | ht | ht | ht <;> rw [ht] <;> decide
    by_cases hi : t.text ∈ introducers
    · simp only [introducers, List.mem_cons, List.not_mem_nil, or_false] at hi
      rcases hi with hi | hi | hi | hi | hi | hi | hi <;> rw [hi] <;> decide
    · rw [Sign.ofMark_of_not_mem ht hi]
      exact iff_of_true rfl ⟨ht, hi⟩
  | _ => simp [isText, sign, isProse, hk, Kind.isContent]

theorem isProse_of_sign {sign : Sign} (h : t.sign = sign) (hs : sign ≠ .text) :
    t.isProse = false := by
  rw [← isText_eq, isText, h]
  cases sign <;> first | rfl | exact absurd rfl hs

/-- A break or a rule stands for itself, whatever is around it. -/
theorem sign_of_content? {c : Content} (h : t.content? = some c) :
    t.sign = .content c ∧ t.mistake? = none := by
  unfold content? at h
  split at h
  case h_1 hk ht =>
    cases h
    rw [sign_of_mark hk, mistake?, hk, ht]
    exact ⟨rfl, rfl⟩
  case h_2 hk ht =>
    cases h
    rw [sign_of_mark hk, mistake?, hk, ht]
    exact ⟨rfl, rfl⟩
  case h_3 hk =>
    cases h
    rw [sign, mistake?, hk]
    exact ⟨rfl, rfl⟩
  case h_4 => cases h

theorem sign_of_prose (h : t.isProse = true) : t.sign = .text := by
  rw [← isText_eq, isText] at h
  cases hs : t.sign <;> rw [hs] at h <;> first | rfl | cases h

end Token

/-- A content with its position. -/
def Item.shown? : Item → Option (Position × Content)
  | content pos c => some (pos, c)
  | _ => none

/-- The items say what the tokens from `ts` up to `us` come to. -/
structure Tally (items : List Item) (ts us : List Token) : Prop where
  plain : ∀ i ∈ items, i.IsPlain
  shown : items.filterMap Item.shown? ++ Flat.contents us = Flat.contents ts
  noted : Script.reports items ++ Flat.mistakes us = Flat.mistakes ts

namespace Tally

variable {items more : List Item}

theorem nil (ts : List Token) : Tally [] ts ts := ⟨List.forall_mem_nil _, rfl, rfl⟩

theorem append (h : Tally items ts us) (hm : Tally more us vs) : Tally (items ++ more) ts vs where
  plain := List.forall_mem_append.mpr ⟨h.plain, hm.plain⟩
  shown := by rw [List.filterMap_append, List.append_assoc, hm.shown, h.shown]
  noted := by
    rw [Script.reports, List.filterMap_append, List.append_assoc]
    exact hm.noted ▸ h.noted

theorem of_none (hp : t.isProse = false) (hc : t.content? = none) (hm : t.mistake? = none) :
    Tally [] (t :: ts) ts where
  plain := List.forall_mem_nil _
  shown := by simp [Flat.contents, hp, hc]
  noted := by simp [Flat.mistakes, hm, Script.reports]

theorem of_content {c : Content} (hp : t.isProse = false) (hc : t.content? = some c)
    (hm : t.mistake? = none) : Tally [.content t.pos c] (t :: ts) ts where
  plain := List.forall_mem_singleton.mpr trivial
  shown := by simp [Flat.contents, hp, hc, Item.shown?]
  noted := by simp [Flat.mistakes, hm, Script.reports, Item.report?]

theorem of_mistake {m : Mistake} (hp : t.isProse = false) (hc : t.content? = none)
    (hm : t.mistake? = some m) : Tally [.report ⟨t.pos, m⟩] (t :: ts) ts where
  plain := List.forall_mem_singleton.mpr trivial
  shown := by simp [Flat.contents, hp, hc, Item.shown?]
  noted := by simp [Flat.mistakes, hm, Script.reports, Item.report?]

end Tally

theorem Token.mistake?_of_prose (h : t.isProse = true) : t.mistake? = none := by
  rw [mistake?, if_neg, if_neg]
  · rintro ⟨hk, ht⟩
    exact ((isProse_of_mark hk).mp h).1 ht
  · intro hk
    rw [isProse_of_kind hk rfl (by decide)] at h
    cases h

/-- A run of text holds no mistake. -/
theorem mistakes_dropWhile (ts : List Token) :
    Flat.mistakes (ts.dropWhile Token.isProse) = Flat.mistakes ts := by
  induction ts with
  | nil => rfl
  | cons t ts ih =>
    rw [List.dropWhile_cons]
    split
    · next ht =>
      have hnone := Token.mistake?_of_prose ht
      rw [ih]
      simp [Flat.mistakes, hnone]
    · rfl

/-- A run of text is one item. -/
theorem Tally.of_run (ts : List Token) (h : t.isProse = true) :
    Tally [.content t.pos (.text (Flat.runText t (ts.takeWhile Token.isProse)) t.space
      (Flat.spaceBefore (ts.dropWhile Token.isProse)))] (t :: ts) (ts.dropWhile Token.isProse) where
  plain := List.forall_mem_singleton.mpr trivial
  shown := by
    rw [Flat.contents, if_pos h]
    rfl
  noted := by
    have hrun := mistakes_dropWhile (t :: ts)
    rw [List.dropWhile_cons_of_pos h] at hrun
    exact hrun

namespace Script

theorem textRun_reads (h : Flat.IsScript ts) (ht : t.isProse = true) :
    Flat.IsScript (textRun t ts).rest ∧ Tally (textRun t ts).value (t :: ts) (textRun t ts).rest := by
  obtain ⟨v, vs, hdrop, hv, hrest⟩ := h.dropWhile
  have hrun : ∀ u ∈ ts.takeWhile Token.isProse, u.isText = true := by
    intro u hu
    rw [Token.isText_eq]
    exact List.all_eq_true.mp List.all_takeWhile u hu
  have hgives : (textRun t (ts.takeWhile Token.isProse ++ v :: vs)).Gives _ (v :: vs) :=
    textRun_gives hrun ((Token.isText_eq v).trans hv)
  have htally := Tally.of_run ts ht
  rw [← hdrop, List.takeWhile_append_dropWhile] at hgives
  rw [hgives.1, hgives.2]
  rw [hdrop] at htally ⊢
  exact ⟨hrest, htally⟩

/-- A thread of a flat script ends at the stop or at a stray terminator. -/
inductive AtTerminator : List Token → Prop where
  | stop {t : Token} (kind : t.kind = .stop) : AtTerminator [t]
  | stray {t : Token} {ts : List Token} (kind : t.kind = .mark) (text : t.text ∈ terminators)
      (rest : Flat.IsScript ts) : AtTerminator (t :: ts)

/-- What reading a thread of a flat script comes to. -/
def ReadsThread {ts : List Token} (s : Span (List Item) ts) : Prop :=
  AtTerminator s.rest ∧ Tally s.value ts s.rest

theorem ReadsThread.stay (h : AtTerminator ts) : ReadsThread (Span.stay ([] : List Item) ts) :=
  ⟨h, .nil ts⟩

/-- A thread goes on behind a token with the items that the token stands for. -/
theorem ReadsThread.past {items : List Item} {s : Span (List Item) ts} (h : ReadsThread s)
    (ht : Tally items (t :: ts) ts) :
    ReadsThread (Span.past (.after items s) : Span (List Item) (t :: ts)) :=
  ⟨h.1, ht.append h.2⟩

theorem thread_of_terminator (hsign : t.sign = .close) (h : AtTerminator (t :: ts)) :
    ReadsThread (thread (t :: ts)) := by
  rw [thread, hsign]
  exact .stay h

theorem thread_of_prose (ht : t.isProse = true) : thread (t :: ts) =
    Span.past ((textRun t ts).andThen fun us _ => thread us) := by
  rw [thread, Token.sign_of_prose ht]

theorem thread_of_content {c : Content} (hc : t.content? = some c) (h : ReadsThread (thread ts)) :
    ReadsThread (thread (t :: ts)) := by
  obtain ⟨hsign, hnone⟩ := Token.sign_of_content? hc
  rw [thread, hsign]
  exact h.past (.of_content (Token.isProse_of_sign hsign fun h => by cases h) hc hnone)

theorem thread_of_blank (kind : t.kind = .blank) (h : ReadsThread (thread ts)) :
    ReadsThread (thread (t :: ts)) := by
  have hsign : t.sign = .blank := by rw [Token.sign, kind]
  have hnone : t.mistake? = none := by simp [Token.mistake?, kind]
  have hshows : t.content? = none := by simp [Token.content?, kind]
  rw [thread, hsign]
  exact h.past (.of_none (Token.isProse_of_sign hsign fun h => by cases h) hshows hnone)

theorem thread_of_error (kind : t.kind = .error) (h : ReadsThread (thread ts)) :
    ReadsThread (thread (t :: ts)) := by
  have hsign : t.sign = .error := by rw [Token.sign, kind]
  have hwrong : t.mistake? = some (.scanner t.text) := by simp [Token.mistake?, kind]
  have hshows : t.content? = none := by simp [Token.content?, kind]
  rw [thread, hsign]
  exact h.past (.of_mistake (Token.isProse_of_sign hsign fun h => by cases h) hshows hwrong)

theorem thread_reads {ts : List Token} (h : Flat.IsScript ts) : ReadsThread (thread ts) := by
  cases h with
  | @stop t kind =>
    have hsign : t.sign = .close := by rw [Token.sign, kind]
    exact thread_of_terminator hsign (.stop kind)
  | @token t us flat rest =>
    cases flat with
    | prose prose =>
      obtain ⟨hrest, htally⟩ := textRun_reads rest prose
      have hle := (textRun t us).length_rest_le
      obtain ⟨hend, hmore⟩ := thread_reads hrest
      rw [thread_of_prose prose]
      exact ⟨hend, htally.append hmore⟩
    | lineBreak kind text =>
      have hshows : t.content? = some .lineBreak := by simp [Token.content?, kind, text]
      exact thread_of_content hshows (thread_reads rest)
    | paragraph kind text =>
      have hshows : t.content? = some .paragraph := by simp [Token.content?, kind, text]
      exact thread_of_content hshows (thread_reads rest)
    | rule kind =>
      have hshows : t.content? = some .rule := by simp [Token.content?, kind]
      exact thread_of_content hshows (thread_reads rest)
    | blank kind => exact thread_of_blank kind (thread_reads rest)
    | error kind => exact thread_of_error kind (thread_reads rest)
    | stray kind text =>
      exact thread_of_terminator (Token.sign_of_stray kind text) (.stray kind text rest)
termination_by ts.length
decreasing_by all_goals grind

/-- The span reaches to the end of the tokens. -/
def ReadsAll {ts : List Token} (s : Span (List Item) ts) : Prop :=
  s.rest = [] ∧ Tally s.value ts []

theorem ReadsThread.andThen {s : Span (List Item) ts}
    {k : (us : List Token) → us.length ≤ ts.length → Span (List Item) us} (h : ReadsThread s)
    (hk : ∀ us hle, AtTerminator us → ReadsAll (k us hle)) : ReadsAll (s.andThen k) := by
  obtain ⟨hrest, htally⟩ := hk s.rest s.length_rest_le h.1
  exact ⟨hrest, h.2.append htally⟩

theorem tally_stop (kind : t.kind = .stop) : Tally [] [t] [] := by
  have hprose := Token.isProse_of_kind kind rfl (by decide)
  exact .of_none hprose (by simp [Token.content?, kind]) (by simp [Token.mistake?, kind])

theorem tally_stray (kind : t.kind = .mark) (text : t.text ∈ terminators) (ts : List Token) :
    Tally [.report ⟨t.pos, .unexpected t⟩] (t :: ts) ts := by
  have hsign := Token.sign_of_stray kind text
  have hwrong : t.mistake? = some (.unexpected t) := by simp [Token.mistake?, kind, text]
  refine .of_mistake (Token.isProse_of_sign hsign fun h => by cases h) ?_ hwrong
  cases hc : t.content? with
  | none => rfl
  | some c =>
    rw [(Token.sign_of_content? hc).1] at hsign
    cases hsign

/-- A flat script is read to its stop, and its items come to what its tokens do. -/
theorem script_reads {ts : List Token} (h : Flat.IsScript ts) : ReadsAll (script ts) := by
  rw [script]
  refine (thread_reads h).andThen fun us hle hend => ?_
  cases hend with
  | @stop t kind =>
    simp only [kind, if_true]
    exact ⟨rfl, tally_stop kind⟩
  | @stray t us kind text rest =>
    have hstop : t.kind ≠ .stop := by rw [kind]; decide
    simp only [hstop, if_false]
    obtain ⟨hrest, htally⟩ := script_reads rest
    exact ⟨hrest, (tally_stray kind text us).append htally⟩
termination_by ts.length
decreasing_by all_goals grind

end Script

end Storyline
