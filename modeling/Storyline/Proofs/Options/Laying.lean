import Mathlib.Data.List.Forall2
import Storyline.Proofs.Options.Offering

namespace Storyline

def Role.asks : Role → Bool
  | answer => false
  | _ => true

def Role.answers : Role → Bool
  | question => false
  | _ => true

namespace Segment

def role : Segment → Role
  | mk _ role _ => role

def contents : Segment → List Content
  | mk _ _ body => Script.contents body

def reports : Segment → List Diagnostic
  | mk _ _ body => Script.reports body

/-- The part holds contents and mistakes only. -/
def IsPlain : Segment → Prop
  | mk _ _ body => ∀ i ∈ body, i.IsPlain

/-- The entry of a part that is written at the path, if it is not empty and its role is listed. -/
def entry (listed : Role → Bool) (path : Path) (part : Segment) : List String :=
  if part.contents.isEmpty || !listed part.role then [] else [path.name]

/-- The entries of parts that are written from the path on. -/
def entries (listed : Role → Bool) : List Segment → Path → List String
  | [], _ => []
  | part :: rest, path =>
    part.entry listed path ++ entries listed rest (path.onward part.contents.length)

/-- How many nodes the parts have. -/
def span : List Segment → Nat
  | [] => 0
  | part :: rest => part.contents.length + span rest

/-- The entries depend on the contents of the parts and on which of them are listed. -/
theorem entries_congr {listed listed' : Role → Bool} {parts parts' : List Segment} {path : Path}
    (h : List.Forall₂ (fun a b => a.contents = b.contents ∧ listed a.role = listed' b.role)
      parts parts') : entries listed parts path = entries listed' parts' path := by
  induction h generalizing path with
  | nil => rfl
  | cons hpart _ ih =>
    obtain ⟨hcontents, hrole⟩ := hpart
    rw [entries, entries, entry, entry, hcontents, hrole, ih]

/-- The last part is for the answer alone and not empty. -/
def advances : List Segment → Bool
  | [] => false
  | [part] => part.role == .answer && !part.contents.isEmpty
  | _ :: part :: rest => advances (part :: rest)

end Segment

/-- The parts stand from the path on. All of them return but for the last one, which goes on at `out`
if the parts advance. -/
def Story.Laid (story : Story) : List Segment → Path → LooseEnd → Prop
  | [], _, _ => True
  | part :: rest, path, out =>
    (part.contents ≠ [] → ∃ last, story.Strung part.contents path last ∧
      if rest.isEmpty && part.role == .answer then last = out else story.Gone .ret last) ∧
    story.Laid rest (path.onward part.contents.length) out

namespace Story.Laid

variable {among : NodeId → Prop} {story after : Story} {parts : List Segment} {path : Path}
  {out other : LooseEnd} {noted : List Diagnostic}

theorem retained (h : story.Laid parts path out) (r : story.Retains among noted after)
    (ha : ∀ id name c link, story.Holds id name (.content c link) → among id) :
    after.Laid parts path out := by
  induction parts generalizing path with
  | nil => trivial
  | cons part rest ih =>
    obtain ⟨hpart, hrest⟩ := h
    refine ⟨fun hc => ?_, ih hrest⟩
    obtain ⟨last, hstr, hgone⟩ := hpart hc
    obtain ⟨id, c, -, hlast, hid⟩ := hstr.last_holds hc
    refine ⟨last, hstr.retained r ha, ?_⟩
    split at hgone
    · next hg => rwa [if_pos hg]
    · next hg =>
      rw [if_neg hg]
      exact hgone.retained r (hlast ▸ ha _ _ _ _ hid)

theorem every (h : story.Laid parts path out) (r : story.Retains EverySlot noted after) :
    after.Laid parts path out :=
  h.retained r fun _ _ _ _ _ => trivial

/-- Where no part goes on, it does not matter where from. -/
theorem of_returning (h : story.Laid parts path out) (ha : Segment.advances parts = false) :
    story.Laid parts path other := by
  induction parts generalizing path with
  | nil => trivial
  | cons part rest ih =>
    obtain ⟨hpart, hrest⟩ := h
    cases rest with
    | nil =>
      refine ⟨fun hc => ?_, trivial⟩
      obtain ⟨last, hstr, hgone⟩ := hpart hc
      have hrole : (part.role == .answer) = false := by
        simpa [Segment.advances, hc] using ha
      rw [hrole] at hgone ⊢
      exact ⟨last, hstr, hgone⟩
    | cons next rest => exact ⟨hpart, ih hrest ha⟩

end Story.Laid

namespace Build

open Story Script

variable {story : Story} {role : Role} {last : Bool} {entry : NodeId} {front : Front} {draft : Draft}

theorem file_question (role : Role) (name : String) (draft : Draft) :
    (draft.file role name).question = draft.question ++ if role.asks then [name] else [] := by
  cases role <;> simp [Draft.file, Role.asks]

theorem file_answer (role : Role) (name : String) (draft : Draft) :
    (draft.file role name).answer = draft.answer ++ if role.answers then [name] else [] := by
  cases role <;> simp [Draft.file, Role.answers]

theorem file_escs (role : Role) (name : String) (draft : Draft) :
    (draft.file role name).escs = draft.escs := by
  cases role <;> rfl

/-- A part that left nothing is not filed. -/
theorem settle_blank {node : Node} (hp : front.path = draft.path)
    (he : story.slots[entry]? = some (.placeholder node)) (hends : front.ends.escs = []) :
    Yields Anything (fun draft' after => story.Retains EverySlot [] after ∧
      draft' = { draft with advancing := false }) (settle role last entry front draft) story := by
  refine Yields.bind (Q := fun found mid => story = found ∧ story = mid) ⟨rfl, rfl⟩ ?_
  rintro _ _ ⟨rfl, rfl⟩
  have hempty : (decide (front.path = draft.path) && story.isPlaceholder entry) = true := by
    rw [isPlaceholder_iff.mpr ⟨node, he⟩, decide_eq_true hp, Bool.and_self]
  have hfile : Yields Anything (fun filed mid => filed = draft ∧ story.Retains EverySlot [] mid)
      (fileSegment role true entry draft) story :=
    Yields.bind (discard_retains entry) fun _ _ h => Yields.pure ⟨rfl, h⟩
  simp only [hempty, Bool.not_true, Bool.and_false, Bool.false_eq_true, if_false]
  refine Yields.bind hfile fun filed mid ⟨hfiled, hr⟩ => ?_
  refine Yields.bind (tie_retains .ret front.ends.rets) fun _ after ⟨hr', _⟩ => Yields.pure ?_
  refine ⟨hr.trans hr', ?_⟩
  rw [hfiled, hends, hp, List.append_nil]

/-- A part that left something is filed, and its end returns unless the option goes on from it. -/
theorem settle_filed {out : LooseEnd} (hp : front.path ≠ draft.path)
    (hends : front.ends = ⟨[out], []⟩) (hset : story.Settled out) :
    Yields Anything (fun draft' after => story.Retains EverySlot [] after ∧
      draft' = { draft.file role draft.path.name with
        path := front.path
        escs := draft.escs ++ if last && role == .answer then [out] else []
        advancing := last && role == .answer } ∧
      ((last && role == .answer) = false → after.Gone .ret out))
      (settle role last entry front draft) story := by
  refine Yields.bind (Q := fun found mid => story = found ∧ story = mid) ⟨rfl, rfl⟩ ?_
  rintro _ _ ⟨rfl, rfl⟩
  have hempty : (decide (front.path = draft.path) && story.isPlaceholder entry) = false := by
    rw [decide_eq_false hp, Bool.false_and]
  have hfile : Yields Anything (fun filed mid => filed = draft.file role draft.path.name ∧
      mid = story) (fileSegment role false entry draft) story := Yields.pure ⟨rfl, rfl⟩
  simp only [hempty, Bool.not_false, Bool.and_true]
  refine Yields.bind hfile ?_
  rintro filed mid ⟨rfl, rfl⟩
  cases hadv : last && role == Role.answer with
  | true =>
    refine Yields.pure ⟨.refl _, ?_, fun h => by cases h⟩
    rw [hends, List.append_nil, file_escs]
    rfl
  | false =>
    rw [hends]
    refine Yields.bind (tie_retains .ret [out]) fun _ after ⟨hr, hg⟩ => Yields.pure ⟨hr, ?_, ?_⟩
    · rw [file_escs]
      rfl
    · exact fun _ => hg out (List.mem_singleton_self out) hset

/-- One part of an option. -/
def segment (last : Bool) (draft : Draft) : Segment → Build Draft
  | .mk pos role body => do
    let entry ← createPlaceholder draft.path pos
    let front ← thread body (entering draft.path (nextEnd entry))
    settle role last entry front draft

theorem segments_cons (part : Segment) (rest : List Segment) (draft : Draft) :
    segments (part :: rest) draft = segment rest.isEmpty draft part >>= segments rest := by
  obtain ⟨pos, role, body⟩ := part
  simp only [segments, segment, bind_assoc]

/-- What linking one plain part comes to. -/
structure Settling (part : Segment) (last : Bool) (draft : Draft) (story : Story) (draft' : Draft)
    (after : Story) : Prop where
  retains : story.Retains EverySlot part.reports after
  path : draft'.path = draft.path.onward part.contents.length
  question : draft'.question = draft.question ++ part.entry Role.asks draft.path
  answer : draft'.answer = draft.answer ++ part.entry Role.answers draft.path
  advancing : draft'.advancing = (last && part.role == .answer && !part.contents.isEmpty)
  laid : ∃ out, (part.contents ≠ [] → ∃ l, after.Strung part.contents draft.path l ∧
      if last && part.role == .answer then l = out else after.Gone .ret l) ∧
    draft'.escs = draft.escs ++ if draft'.advancing then [out] else []

theorem segment_plain {part : Segment} (hp : part.IsPlain) (last : Bool) (draft : Draft)
    {story : Story} : Yields Anything (Settling part last draft story) (segment last draft part)
      story := by
  obtain ⟨pos, role, body⟩ := part
  refine Yields.bind (addSlot_retains draft.path.name _) fun entry s1 ⟨hr1, _, hs1⟩ => ?_
  refine Yields.bind (thread_plain body hp _) fun front s2 h => ?_
  have hall := hr1.trans h.retains
  rw [List.nil_append] at hall
  by_cases hc : contents body = []
  · obtain ⟨-, hslots⟩ := h.blank hc
    have hpath : front.path = draft.path := by rw [h.path, hc]; rfl
    have hentry := (congrArg (·[entry]?) hslots).trans hs1
    refine (settle_blank hpath hentry h.escs).mono fun draft' after ⟨hr, hd⟩ => ?_
    subst hd
    have hnone (listed : Role → Bool) :
        Segment.entry listed draft.path (.mk pos role body) = [] := by
      simp [Segment.entry, Segment.contents, hc]
    refine ⟨hall.quiet hr, ?_, ?_, ?_, ?_, nextEnd entry, fun hne => absurd hc hne, ?_⟩
    · rw [Segment.contents, hc]
      rfl
    · rw [hnone, List.append_nil]
    · rw [hnone, List.append_nil]
    · simp [Segment.contents, hc]
    · simp
  · obtain ⟨out, hrets, hstr, -⟩ := h.strung hc
    obtain ⟨id, c, -, hout, hid⟩ := hstr.last_holds hc
    have hset : s2.Settled out := hout ▸ hid.settled .next
    have hpath : front.path ≠ draft.path := by
      rw [h.path]
      exact Path.onward_ne (mt List.length_eq_zero_iff.mp hc)
    have hends : front.ends = ⟨[out], []⟩ := by
      rw [← hrets, ← show front.ends.escs = [] from h.escs]
    refine (settle_filed hpath hends hset).mono fun draft' after ⟨hr, hd, hg⟩ => ?_
    subst hd
    have hone (listed : Role → Bool) : Segment.entry listed draft.path (.mk pos role body) =
        if listed role then [draft.path.name] else [] := by
      cases hl : listed role <;> simp [Segment.entry, Segment.contents, Segment.role, hc, hl]
    refine ⟨hall.quiet hr, h.path, ?_, ?_, ?_, out, fun _ => ⟨out, hstr.every hr, ?_⟩, rfl⟩
    · rw [hone, ← file_question]
    · rw [hone, ← file_answer]
    · simp [Segment.contents, Segment.role, hc]
    · show if (last && role == .answer) = true then out = out else after.Gone .ret out
      cases hadv : last && role == Role.answer with
      | true => rfl
      | false => exact hg hadv

/-- What linking plain parts comes to. -/
structure Laying (parts : List Segment) (draft : Draft) (story : Story) (draft' : Draft)
    (after : Story) : Prop where
  retains : story.Retains EverySlot (parts.flatMap Segment.reports) after
  path : draft'.path = draft.path.onward (Segment.span parts)
  question : draft'.question = draft.question ++ Segment.entries Role.asks parts draft.path
  answer : draft'.answer = draft.answer ++ Segment.entries Role.answers parts draft.path
  advancing : draft'.advancing = Segment.advances parts
  laid : ∃ out, after.Laid parts draft.path out ∧
    draft'.escs = draft.escs ++ if draft'.advancing then [out] else []

theorem segments_plain (parts : List Segment) (hp : ∀ part ∈ parts, part.IsPlain) (draft : Draft)
    (hadv : parts = [] → draft.advancing = false) {story : Story} :
    Yields Anything (Laying parts draft story) (segments parts draft) story := by
  induction parts generalizing draft story with
  | nil =>
    have hd := hadv rfl
    refine Yields.pure ⟨.refl story, rfl, ?_, ?_, hd, default, trivial, ?_⟩
    · rw [Segment.entries, List.append_nil]
    · rw [Segment.entries, List.append_nil]
    · simp [hd]
  | cons part rest ih =>
    have hrest : ∀ p ∈ rest, p.IsPlain := fun p hm => hp p (List.mem_cons_of_mem part hm)
    rw [segments_cons]
    refine Yields.bind (segment_plain (hp part List.mem_cons_self) rest.isEmpty draft)
      fun draft1 s1 h => ?_
    cases rest with
    | nil =>
      obtain ⟨out, hlaid, hescs⟩ := h.laid
      refine Yields.pure ⟨?_, h.path, ?_, ?_, h.advancing, out, ⟨hlaid, trivial⟩, hescs⟩
      · simpa using h.retains
      · simpa [Segment.entries] using h.question
      · simpa [Segment.entries] using h.answer
    | cons next rest =>
      have hstays : draft1.advancing = false := h.advancing
      refine (ih hrest draft1 (fun _ => hstays)).mono fun draft' after h' => ?_
      obtain ⟨first, hfirst, hescs⟩ := h.laid
      obtain ⟨out, hlaid, hescs'⟩ := h'.laid
      rw [h.path] at hlaid
      refine ⟨h.retains.trans h'.retains, ?_, ?_, ?_, h'.advancing, out, ⟨fun hc => ?_, hlaid⟩, ?_⟩
      · rw [h'.path, h.path, Path.onward_onward]
        rfl
      · rw [h'.question, h.question, h.path, List.append_assoc]
        rfl
      · rw [h'.answer, h.answer, h.path, List.append_assoc]
        rfl
      · obtain ⟨l, hstr, hgone⟩ := hfirst hc
        exact ⟨l, hstr.every h'.retains, hgone.retained h'.retains trivial⟩
      · rw [hescs', hescs, hstays]
        simp

/-- What linking the body of an option with plain parts comes to: `out` is where the option goes on
from. -/
structure Ending (parts : List Segment) (path : Path) (story : Story) (draft : Draft)
    (out : LooseEnd) (after : Story) : Prop where
  retains : story.Retains EverySlot (parts.flatMap Segment.reports) after
  question : draft.question = Segment.entries Role.asks parts path
  answer : draft.answer = Segment.entries Role.answers parts path ++
    if Segment.advances parts then [] else [(path.onward (Segment.span parts)).name]
  escs : draft.escs = [out]
  laid : after.Laid parts path out
  goes : Segment.advances parts = false → ∃ id, out = nextEnd id ∧
    after.Holds id (path.onward (Segment.span parts)).name (.goto none)

theorem body_plain (pos : Position) (parts : List Segment) (hp : ∀ part ∈ parts, part.IsPlain)
    (path : Path) {story : Story} :
    Yields Anything (fun draft after => ∃ out, Ending parts path story draft out after)
      (body pos parts ⟨path, [], [], [], false⟩) story := by
  refine Yields.bind (segments_plain parts hp _ fun _ => rfl) fun draft s1 h => ?_
  obtain ⟨out, hlaid, hescs⟩ := h.laid
  have hquestion : draft.question = Segment.entries Role.asks parts path := h.question
  have hanswer : draft.answer = Segment.entries Role.answers parts path := h.answer
  unfold conclude
  cases hadv : draft.advancing with
  | true =>
    rw [hadv] at hescs
    have hadvances := h.advancing.symm.trans hadv
    refine Yields.pure ⟨out, h.retains, hquestion, ?_, hescs, hlaid, fun hno => ?_⟩
    · rw [hanswer, hadvances, if_pos rfl, List.append_nil]
    · rw [hadvances] at hno
      cases hno
  | false =>
    rw [hadv] at hescs
    have hadvances := h.advancing.symm.trans hadv
    refine Yields.bind (create_retains draft.path _ pos) fun id after ⟨hr, _, hid⟩ => ?_
    rw [h.path] at hid
    refine Yields.pure ⟨nextEnd id, h.retains.quiet hr, ?_, ?_, ?_, ?_, fun _ => ⟨id, rfl, hid⟩⟩
    · rw [file_question, hquestion]
      exact List.append_nil _
    · rw [file_answer, hanswer, hadvances, h.path]
      rfl
    · rw [hescs]
      rfl
    · exact (hlaid.every hr).of_returning hadvances
end Build

end Storyline
