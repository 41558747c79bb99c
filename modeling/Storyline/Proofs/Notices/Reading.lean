import Storyline.Proofs.Notices.Passing

namespace Storyline

theorem Placed.mono {tokens last last' : List Token} {p : Position} (h : Placed tokens last p)
    (hl : last' <:+ last) : Placed tokens last' p := by
  obtain ⟨us, hus, hlast, hp⟩ := h
  exact ⟨us, hus, hl.trans hlast, hp⟩

/-- A position is that of the next token where it was taken. -/
theorem Placed.here {tokens ts last : List Token} (hts : ts <:+ tokens) (hl : last <:+ ts) :
    Placed tokens last (here ts) := ⟨ts, hts, hl, rfl⟩

/-- What was noticed from `ts` up to `rest`, and that the positions given to nodes were met. -/
structure Met (tokens : List Token) (noticed : List Notice) (stands : (Position → Prop) → Prop)
    (ts rest : List Token) : Prop where
  passes : Passes (noticed.map Notice.pos) ts rest
  /-- The positions were met even where more is read behind. -/
  stands : ∀ last, last <:+ rest → stands (Placed tokens last)

namespace Met

variable {tokens ts us rest : List Token} {t : Token} {a b : List Notice}
  {A B : (Position → Prop) → Prop}

theorem suffix (h : Met tokens a A ts rest) : rest <:+ ts := h.passes.suffix

/-- Nothing is noticed, and no node is given a position. -/
theorem idle (h : rest <:+ ts) : Met tokens [] (fun _ => True) ts rest :=
  ⟨.of_suffix h, fun _ _ => trivial⟩

/-- A token is passed first. -/
theorem step (h : Met tokens a A ts rest) : Met tokens a A (t :: ts) rest :=
  ⟨.step h.passes, h.stands⟩

/-- A notice of its own comes first. -/
theorem note {n : Notice} (hn : n.pos = here ts) (h : Met tokens a A ts rest) :
    Met tokens (n :: a) A ts rest where
  passes := by
    rw [List.map_cons, hn]
    exact .note h.passes
  stands := h.stands

theorem both (h : Met tokens a A ts us) (h' : Met tokens b B us rest) :
    Met tokens (a ++ b) (fun ok => A ok ∧ B ok) ts rest where
  passes := by
    rw [List.map_append]
    exact h.passes.append h'.passes
  stands last hl := ⟨h.stands last (hl.trans h'.suffix), h'.stands last hl⟩

/-- What is given to nodes may be said otherwise. -/
theorem restate (h : Met tokens a A ts rest)
    (hs : ∀ last, last <:+ rest → A (Placed tokens last) → B (Placed tokens last)) :
    Met tokens a B ts rest :=
  ⟨h.passes, fun last hl => hs last hl (h.stands last hl)⟩

end Met

namespace Script

variable {tokens ts us rest : List Token} {t : Token} {pos : Position}

def ItemsMet (tokens ts : List Token) (items : List Item) (rest : List Token) : Prop :=
  Met tokens (notices items) (fun ok => Each (Item.StandsAt ok) items) ts rest

def CasesMet (tokens ts : List Token) (found : List Case) (rest : List Token) : Prop :=
  Met tokens (caseNotices found) (fun ok => EachCase (Item.StandsAt ok) found) ts rest

def PartsMet (tokens ts : List Token) (parts : List Segment) (rest : List Token) : Prop :=
  Met tokens (segmentNotices parts) (fun ok =>
    (∀ at' role body, .mk at' role body ∈ parts → ok at') ∧ EachPart (Item.StandsAt ok) parts)
    ts rest

namespace ItemsMet

variable {a b body yes no : List Item} {i : Item}

theorem nil (h : rest <:+ ts) : ItemsMet tokens ts [] rest := ⟨.of_suffix h, fun _ _ => trivial⟩

theorem append (h : ItemsMet tokens ts a us) (h' : ItemsMet tokens us b rest) :
    ItemsMet tokens ts (a ++ b) rest := by
  unfold ItemsMet
  rw [notices_append]
  exact (h.both h').restate fun _ _ => each_append.mpr

/-- One item, by what is noticed in it. -/
theorem single {A : (Position → Prop) → Prop} (h : Met tokens i.notices A ts rest)
    (hi : ∀ last, last <:+ rest → A (Placed tokens last) →
      i.Each (Item.StandsAt (Placed tokens last))) : ItemsMet tokens ts [i] rest := by
  have hnotices : notices [i] = i.notices := by simp [notices]
  unfold ItemsMet
  rw [hnotices]
  exact h.restate fun last hl ha => ⟨hi last hl ha, trivial⟩

/-- An item with nothing to notice in it. -/
theorem plain (hn : i.notices = []) (hs : rest <:+ ts)
    (hi : ∀ last, last <:+ rest → i.Each (Item.StandsAt (Placed tokens last))) :
    ItemsMet tokens ts [i] rest := by
  have hidle : Met tokens i.notices (fun _ => True) ts rest := by
    rw [hn]
    exact .idle hs
  exact single hidle fun last hl _ => hi last hl

theorem cut (hs : rest <:+ ts) : ItemsMet tokens ts [.cut] rest := plain rfl hs fun _ _ => trivial

theorem content (hp : Placed tokens rest pos) (c : Content) (hs : rest <:+ ts) :
    ItemsMet tokens ts [.content pos c] rest := plain rfl hs fun _ hl => hp.mono hl

theorem call (hp : Placed tokens rest pos) (label : String) (args : List Expr) (hs : rest <:+ ts) :
    ItemsMet tokens ts [.call pos label args] rest := plain rfl hs fun _ hl => hp.mono hl

/-- A mistake is noticed at the next token. -/
theorem report (mistake : Mistake) (hs : rest <:+ ts) :
    ItemsMet tokens ts [.report ⟨here ts, mistake⟩] rest := by
  have hnote : Met tokens [.mistake ⟨here ts, mistake⟩] (fun _ => True) ts rest :=
    (Met.idle hs).note rfl
  exact single hnote fun _ _ _ => trivial

/-- A mistake in the name is noticed at the next token. -/
theorem label (hp : Placed tokens rest pos) (name : String) (hs : rest <:+ ts) :
    ItemsMet tokens ts [.label pos name (here ts)] rest := by
  have hnote : Met tokens [.name name (here ts)] (fun _ => True) ts rest := (Met.idle hs).note rfl
  exact single hnote fun _ hl _ => hp.mono hl

/-- The mistakes of a reading. -/
theorem reports {ds : List Diagnostic} (h : Along ds ts rest) :
    ItemsMet tokens ts (ds.map .report) rest where
  passes := by
    have hpos : (ds.map Notice.mistake).map Notice.pos = ds.map Diagnostic.pos := by
      rw [List.map_map]
      rfl
    rw [notices_reports, hpos]
    exact h.passes
  stands _ _ := each_reports fun _ _ => trivial

theorem loop (hp : Placed tokens rest pos) (h : ItemsMet tokens ts body rest) :
    ItemsMet tokens ts [.loop pos body] rest :=
  single h fun _ hl hbody => ⟨hp.mono hl, hbody⟩

/-- A mistake in the name is noticed in front of the body. -/
theorem define (hp : Placed tokens rest pos) (name : String) (params : List String)
    (h : ItemsMet tokens ts body rest) :
    ItemsMet tokens ts [.define pos name params (here ts) body] rest := by
  have hnote : Met tokens (.name name (here ts) :: notices body)
      (fun ok => Each (Item.StandsAt ok) body) ts rest := h.note rfl
  exact single hnote fun _ hl hbody => ⟨hp.mono hl, hbody⟩

theorem jump (hp : Placed tokens rest pos) (condition : Expr) (hyes : ItemsMet tokens ts yes us)
    (hno : ItemsMet tokens us no rest) : ItemsMet tokens ts [.jump pos condition yes no] rest :=
  single (hyes.both hno) fun _ hl hboth => ⟨hp.mono hl, hboth⟩

/-- Empty cases that are added give nothing to notice. -/
theorem switch {found : List Case} (hp : Placed tokens rest pos) (selection : Selection)
    (h : CasesMet tokens ts found rest) :
    ItemsMet tokens ts [.switch pos selection (Selection.padded selection found)] rest := by
  have hpadded : Met tokens (caseNotices (Selection.padded selection found))
      (fun ok => EachCase (Item.StandsAt ok) found) ts rest := by
    rw [caseNotices_padded]
    exact h
  exact single hpadded fun _ hl hfound => ⟨hp.mono hl, eachCase_padded hfound⟩

theorem option {parts : List Segment} (hp : Placed tokens rest pos) (leader : Leader)
    (terms : Terms) (h : PartsMet tokens ts parts rest) :
    ItemsMet tokens ts [.option pos leader terms parts] rest :=
  single h fun _ hl ⟨hstarts, hparts⟩ => ⟨⟨hp.mono hl, hstarts⟩, hparts⟩

end ItemsMet

theorem CasesMet.nil (h : rest <:+ ts) : CasesMet tokens ts [] rest :=
  ⟨.of_suffix h, fun _ _ => trivial⟩

theorem CasesMet.cons {body : List Item} {found : List Case} (weight : Option Expr)
    (h : ItemsMet tokens ts body us) (h' : CasesMet tokens us found rest) :
    CasesMet tokens ts (.mk weight body :: found) rest := h.both h'

theorem PartsMet.nil (h : rest <:+ ts) : PartsMet tokens ts [] rest :=
  ⟨.of_suffix h, fun _ _ => ⟨fun _ _ _ hm => (List.not_mem_nil hm).elim, trivial⟩⟩

/-- A part stands where reading it began. -/
theorem PartsMet.cons {body : List Item} {parts : List Segment} (hts : ts <:+ tokens) (role : Role)
    (h : ItemsMet tokens ts body us) (h' : PartsMet tokens us parts rest) :
    PartsMet tokens ts (.mk (here ts) role body :: parts) rest := by
  have hsuffix : rest <:+ ts := h'.suffix.trans h.suffix
  refine (h.both h').restate fun last hl ⟨hbody, hstarts, hparts⟩ => ⟨?_, hbody, hparts⟩
  intro at' role' body' hm
  rcases List.mem_cons.mp hm with heq | hm
  · obtain ⟨rfl, -, -⟩ := Segment.mk.inj heq
    exact .here hts (hl.trans hsuffix)
  · exact hstarts at' role' body' hm

end Script

/-- What was read, and the tokens behind it, are in the relation. -/
def Span.Meets {α : Type} {ts : List Token} (R : α → List Token → Prop) (s : Span α ts) : Prop :=
  R s.value s.rest

namespace Span.Meets

open Script

variable {α β : Type} {tokens ts us : List Token} {t : Token} {found : List Item}

theorem after {s : Span (List Item) us} (hi : ItemsMet tokens ts found us)
    (h : s.Meets (ItemsMet tokens us)) : (Span.after found s).Meets (ItemsMet tokens ts) :=
  hi.append h

/-- A token that was counted before. -/
theorem skip {R : α → List Token → Prop} {s : Span α us} (h : s.Meets R) :
    Span.Meets R (s.past : Span α (t :: us)) := h

/-- A token, what it gives by itself, and what follows. -/
theorem past_after {s : Span (List Item) us} (hi : ItemsMet tokens (t :: us) found us)
    (h : s.Meets (ItemsMet tokens us)) :
    Span.Meets (ItemsMet tokens (t :: us)) (Span.past (.after found s) : Span _ (t :: us)) :=
  hi.append h

theorem past {s : Span (List Item) us} (h : s.Meets (ItemsMet tokens us)) :
    Span.Meets (ItemsMet tokens (t :: us)) (s.past : Span (List Item) (t :: us)) := Met.step h

theorem andThen {s : Span (List Item) us}
    {k : (vs : List Token) → vs.length ≤ us.length → Span (List Item) vs}
    (h : s.Meets (ItemsMet tokens ts))
    (hk : ∀ vs hvs, vs <:+ us → (k vs hvs).Meets (ItemsMet tokens vs)) :
    (s.andThen k).Meets (ItemsMet tokens ts) :=
  h.append (hk s.rest s.suffix.length_le s.suffix)

theorem bind {Q : α → List Token → Prop} {R : β → List Token → Prop} {s : Span α us}
    {k : (a : α) → (vs : List Token) → vs.length ≤ us.length → Span β vs} (h : s.Meets Q)
    (hk : ∀ a vs hvs, vs <:+ us → Q a vs → (k a vs hvs).Meets R) : (s.bind k).Meets R :=
  hk s.value s.rest s.suffix.length_le s.suffix h

/-- The mistakes of a reading, then what its value stands for. -/
theorem items {r : Read α us}
    {k : (a : α) → (vs : List Token) → vs.length ≤ us.length → Span (List Item) vs}
    (h : r.Tells) (hk : ∀ a vs hvs, vs <:+ us → (k a vs hvs).Meets (ItemsMet tokens vs)) :
    (r.items k).Meets (ItemsMet tokens us) := by
  cases r with
  | none => exact .cut (List.nil_suffix)
  | some s =>
    have hreports : ItemsMet tokens us (s.reports.map .report) s.rest := .reports (h s rfl)
    exact hreports.append (hk s.value s.rest s.suffix.length_le s.suffix)

end Span.Meets

namespace Script

variable {tokens ts us : List Token} {t : Token} {pos : Position}

theorem textRun_met (hts : t :: ts <:+ tokens) :
    (textRun t ts).Meets (ItemsMet tokens ts) := by
  refine .items (textTail_tells ts) fun found us _ hus => ?_
  have hplaced : Placed tokens us t.pos := .here hts (hus.trans (List.suffix_cons t ts))
  exact .content hplaced _ (List.suffix_refl us)

theorem cue_met (hp : Placed tokens ts pos) : (cue pos ts).Meets (ItemsMet tokens ts) := by
  refine .items (words_tells ">" "" ts) fun name us _ hus => ?_
  split
  · exact .report _ (List.suffix_refl us)
  · exact .content (hp.mono hus) _ (List.suffix_refl us)

theorem destination_met (hp : Placed tokens ts pos) :
    (destination pos ts).Meets (ItemsMet tokens ts) := by
  refine .items (wantedName_tells .labelName ts) fun found us _ hus => ?_
  split
  · exact .nil (List.suffix_refl us)
  split
  · exact .cut List.nil_suffix
  · next u vs _ =>
    split
    · have hvs : vs <:+ ts := (List.suffix_cons u vs).trans hus
      refine .past (.items (arguments_tells vs) fun args ws _ hws => ?_)
      exact .call (hp.mono (hws.trans hvs)) _ args (List.suffix_refl ws)
    · exact .plain rfl (List.suffix_refl _) fun _ _ => trivial

theorem braced_met (content : Content) (hp : Placed tokens ts pos) :
    (braced pos content ts).Meets (ItemsMet tokens ts) :=
  .items (expect_tells "\x7d" ts) fun _ us _ hus => .content (hp.mono hus) _ (List.suffix_refl us)

theorem malformed_met (ts : List Token) : (malformed ts).Meets (ItemsMet tokens ts) :=
  .items (skipBrace_tells ts) fun _ us _ _ => .nil (List.suffix_refl us)

theorem change_met (op : BinaryOp) (hp : Placed tokens ts pos) :
    (change pos op ts).Meets (ItemsMet tokens ts) := by
  refine .items (mutation_tells ts) fun found us _ hus => ?_
  split
  · exact malformed_met us
  · exact braced_met _ (hp.mono hus)

theorem put_met (value : Float) (hp : Placed tokens ts pos) :
    (put pos value ts).Meets (ItemsMet tokens ts) := by
  refine .items (assignable_tells ts) fun found us _ hus => ?_
  split
  · exact malformed_met us
  · exact braced_met _ (hp.mono hus)

theorem echo_met (hp : Placed tokens ts pos) : (echo pos ts).Meets (ItemsMet tokens ts) :=
  .items (expression_tells ts) fun _ _ _ hus => braced_met _ (hp.mono hus)

theorem closeBrace_met (ts : List Token) : (closeBrace ts).Meets (ItemsMet tokens ts) :=
  .items (expect_tells "\x7d" ts) fun _ us _ _ => .nil (List.suffix_refl us)

theorem skipBlock_met (depth : Nat) (ts : List Token) :
    (skipBlock depth ts).Meets (ItemsMet tokens ts) := by
  induction ts generalizing depth with
  | nil => exact .cut List.nil_suffix
  | cons t us ih =>
    rw [skipBlock.eq_def]
    dsimp only
    split
    · exact .nil (List.suffix_cons t us)
    · exact .past (ih _)
    · exact .past (ih _)
    · exact .past (ih _)

theorem endBlock_met (ts : List Token) : (endBlock ts).Meets (ItemsMet tokens ts) := by
  cases ts with
  | nil => exact .cut List.nil_suffix
  | cons t us =>
    rw [endBlock]
    split
    · exact .nil (List.suffix_cons t us)
    · exact .after (.report _ (List.suffix_refl _)) (skipBlock_met 0 (t :: us))

end Script

end Storyline
