import Storyline.Proofs.Options.Retained

namespace Storyline

/-- The path so many places further on. -/
def Path.onward (p : Path) (n : Nat) : Path := { p with last := p.last + n }

namespace Path

theorem onward_next (p : Path) (n : Nat) : p.next.onward n = p.onward (n + 1) := by
  simp only [onward, next, mk.injEq, true_and]
  omega

theorem onward_onward (p : Path) (m n : Nat) : (p.onward m).onward n = p.onward (m + n) := by
  simp only [onward, Nat.add_assoc]

theorem onward_ne {p : Path} {n : Nat} (h : n ≠ 0) : p.onward n ≠ p := by
  intro he
  have hlast : p.last + n = p.last := congrArg Path.last he
  omega

end Path

def Item.content? : Item → Option Content
  | content _ c => some c
  | _ => none

def Item.report? : Item → Option Diagnostic
  | report d => some d
  | _ => none

/-- A content or a mistake. -/
def Item.IsPlain : Item → Prop
  | content .. => True
  | report _ => True
  | _ => False

namespace Script

def contents (items : List Item) : List Content := items.filterMap Item.content?

def reports (items : List Item) : List Diagnostic := items.filterMap Item.report?

end Script

def Assignment.content (a : Assignment) : Content := .move a.target a.source

namespace Story

/-- Nodes with these contents stand from the path on, each leading to the next one; the loose end is
that of the last. -/
def Strung (story : Story) : List Content → Path → LooseEnd → Prop
  | [], _, _ => True
  | [c], path, last => ∃ id, story.Holds id path.name (.content c none) ∧ last = Build.nextEnd id
  | c :: d :: rest, path, last =>
    (∃ id, story.Holds id path.name (.content c (some (.node path.next.name)))) ∧
      story.Strung (d :: rest) path.next last

/-- Jumps past an option stand from the path on in these slots, one for each guard. -/
def Guarded (story : Story) : List Expr → Path → List NodeId → Prop
  | [], _, [] => True
  | guard :: rest, path, id :: ids =>
    story.Holds id path.name (.jump guard.inverted none (some (.node path.next.name))) ∧
      story.Guarded rest path.next ids
  | _, _, _ => False

variable {among : NodeId → Prop} {noted : List Diagnostic} {story after : Story} {id : NodeId}
  {name : String} {cs : List Content} {path : Path} {last : LooseEnd} {gs : List Expr}
  {ids : List NodeId}

theorem Strung.retained (h : story.Strung cs path last)
    (r : story.Retains among noted after)
    (ha : ∀ id name c link, story.Holds id name (.content c link) → among id) :
    after.Strung cs path last := by
  induction cs generalizing path with
  | nil => trivial
  | cons c rest ih =>
    cases rest with
    | nil =>
      obtain ⟨id, hid, hl⟩ := h
      exact ⟨id, hid.retained r (ha _ _ _ _ hid), hl⟩
    | cons d rest =>
      obtain ⟨⟨id, hid⟩, hrest⟩ := h
      exact ⟨⟨id, hid.retained r (ha _ _ _ _ hid)⟩, ih hrest⟩

theorem Strung.every (h : story.Strung cs path last) (r : story.Retains EverySlot noted after) :
    after.Strung cs path last :=
  h.retained r fun _ _ _ _ _ => trivial

theorem Strung.last_holds (h : story.Strung cs path last) (hc : cs ≠ []) :
    ∃ id c, cs.getLast? = some c ∧ last = Build.nextEnd id ∧
      story.Holds id (path.onward (cs.length - 1)).name (.content c none) := by
  induction cs generalizing path with
  | nil => exact absurd rfl hc
  | cons c rest ih =>
    cases rest with
    | nil =>
      obtain ⟨id, hid, hl⟩ := h
      exact ⟨id, c, rfl, hl, hid⟩
    | cons d rest =>
      obtain ⟨id, c, hc, hl, hid⟩ := ih h.2 (List.cons_ne_nil d rest)
      rw [Path.onward_next] at hid
      exact ⟨id, c, by rw [List.getLast?_cons_cons]; exact hc, hl, hid⟩

theorem Guarded.retained (h : story.Guarded gs path ids) (r : story.Retains among noted after)
    (ha : ∀ id name condition branch next, story.Holds id name (.jump condition branch next) →
      among id) : after.Guarded gs path ids := by
  induction gs generalizing path ids with
  | nil =>
    cases ids with
    | nil => trivial
    | cons id ids => exact h.elim
  | cons guard rest ih =>
    cases ids with
    | nil => exact h.elim
    | cons id ids =>
      obtain ⟨hid, hrest⟩ := h
      exact ⟨hid.retained r (ha _ _ _ _ _ hid), ih hrest⟩

end Story

namespace Build

open Story Script

/-- What linking plain items comes to. -/
structure Strings (items : List Item) (front : Front) (story : Story) (front' : Front)
    (after : Story) : Prop where
  retains : story.Retains EverySlot (reports items) after
  path : front'.path = front.path.onward (contents items).length
  escs : front'.ends.escs = front.ends.escs
  blank : contents items = [] → front'.ends.rets = front.ends.rets ∧ after.slots = story.slots
  strung : contents items ≠ [] → ∃ last, front'.ends.rets = [last] ∧
    after.Strung (contents items) front.path last ∧
    ∀ l ∈ front.ends.rets, story.Settled l → after.Gone (.node front.path.name) l

theorem thread_plain (items : List Item) (hp : ∀ i ∈ items, i.IsPlain) (front : Front)
    {story : Story} :
    Yields Anything (fun front' after => Strings items front story front' after)
      (thread items front) story := by
  induction items generalizing front story with
  | nil =>
    exact Yields.pure ⟨.refl story, rfl, rfl, fun _ => ⟨rfl, rfl⟩, fun h => absurd rfl h⟩
  | cons i rest ih =>
    have hrest : ∀ j ∈ rest, j.IsPlain := fun j hj => hp j (List.mem_cons_of_mem i hj)
    cases i with
    | report d =>
      have hitem : Yields Anything (fun front' mid => front' = front ∧ mid.slots = story.slots ∧
          story.Retains EverySlot [d] mid) (item (.report d) front) story := by
        refine Yields.bind (Q := fun _ mid => mid.slots = story.slots ∧
          story.Retains EverySlot [d] mid) ⟨rfl, (report_retains d.pos d.mistake).of_ok rfl⟩ ?_
        exact fun _ mid h => Yields.pure ⟨rfl, h⟩
      refine Yields.bind hitem fun front' mid ⟨hf, hs, hr⟩ => ?_
      subst hf
      refine (ih hrest front').mono fun front'' after h => ?_
      refine ⟨hr.trans h.retains, h.path, h.escs, fun hb => ?_, fun hne => ?_⟩
      · obtain ⟨hrets, hslots⟩ := h.blank hb
        exact ⟨hrets, hslots.trans hs⟩
      · obtain ⟨last, hrets, hstr, hg⟩ := h.strung hne
        refine ⟨last, hrets, hstr, fun l hl hset => hg l hl ?_⟩
        exact hset.retained hr trivial
    | content pos c =>
      have hitem : Yields Anything (fun front' mid => ∃ id, front' =
          ⟨front.path.next, [nextEnd id], front.ends.escs⟩ ∧ story.Retains EverySlot [] mid ∧
          mid.Holds id front.path.name (.content c none) ∧
          ∀ l ∈ front.ends.rets, story.Settled l → mid.Gone (.node front.path.name) l)
          (item (.content pos c) front) story := by
        refine Yields.bind (arrive_retains front _ pos) fun id mid ⟨hr, _, hh, hg⟩ => ?_
        exact Yields.pure ⟨id, rfl, hr, hh, hg⟩
      refine Yields.bind hitem fun front' mid ⟨id, hf, hr, hh, hg⟩ => ?_
      subst hf
      refine (ih hrest _).mono fun front'' after h => ?_
      have hlen : (contents (.content pos c :: rest)).length = (contents rest).length + 1 := rfl
      have hgone : ∀ l ∈ front.ends.rets, story.Settled l → after.Gone (.node front.path.name) l :=
        fun l hl hset => (hg l hl hset).retained h.retains trivial
      refine ⟨hr.trans h.retains, ?_, h.escs, fun hb => absurd hb (List.cons_ne_nil c _),
        fun _ => ?_⟩
      · rw [h.path, hlen, Path.onward_next]
      · cases hc : contents rest with
        | nil =>
          obtain ⟨hrets, hslots⟩ := h.blank hc
          refine ⟨nextEnd id, hrets, ?_, hgone⟩
          show after.Strung (c :: contents rest) front.path (nextEnd id)
          rw [hc]
          exact ⟨id, hh.retained h.retains trivial, rfl⟩
        | cons d ds =>
          obtain ⟨last, hrets, hstr, hg'⟩ := h.strung (by rw [hc]; exact List.cons_ne_nil d ds)
          have hnext := hg' (nextEnd id) (List.mem_singleton_self _) (hh.settled .next)
          refine ⟨last, hrets, ?_, hgone⟩
          show after.Strung (c :: contents rest) front.path last
          rw [hc] at hstr ⊢
          exact ⟨⟨id, (hh.retained h.retains trivial).tied hnext rfl⟩, hstr⟩
    | _ => exact (hp _ List.mem_cons_self).elim

/-- The consequences of an option are linked as a thread of assignments. -/
theorem chain_eq_thread (pos : Position) (assignments : List Assignment) (path : Path)
    (rets : List LooseEnd) : chain pos assignments path rets =
      (thread (assignments.map fun a => .content pos a.content) ⟨path, rets, []⟩ >>= fun front =>
        pure (front.path, front.ends.rets)) := by
  induction assignments generalizing path rets with
  | nil => rfl
  | cons a rest ih =>
    simp only [chain, List.map_cons, thread, item, append, bind_assoc, pure_bind, ih]
    rfl

theorem contents_moves (pos : Position) (assignments : List Assignment) :
    contents (assignments.map fun a => .content pos a.content) =
      assignments.map Assignment.content := by
  induction assignments with
  | nil => rfl
  | cons a rest ih => exact congrArg (a.content :: ·) ih

theorem reports_moves (pos : Position) (assignments : List Assignment) :
    reports (assignments.map fun a => .content pos a.content) = [] := by
  induction assignments with
  | nil => rfl
  | cons a rest ih => exact ih

/-- The consequences stand in front of the parts of an option and return; they are the first thing
filed under the answer. -/
theorem consequences_laid (pos : Position) (assignments : List Assignment) (draft : Draft)
    {story : Story} :
    Yields Anything (fun draft' after => story.Retains EverySlot [] after ∧
      draft' = { draft with
        path := draft.path.onward assignments.length
        answer := draft.answer ++ if assignments.isEmpty then [] else [draft.path.name] } ∧
      (assignments ≠ [] → ∃ last, after.Gone .ret last ∧
        after.Strung (assignments.map Assignment.content) draft.path last))
      (consequences pos assignments draft) story := by
  cases assignments with
  | nil =>
    refine Yields.pure ⟨.refl story, ?_, fun h => absurd rfl h⟩
    show draft = { draft with path := draft.path, answer := draft.answer ++ [] }
    rw [List.append_nil]
  | cons a rest =>
    have hplain : ∀ i ∈ (a :: rest).map fun a => Item.content pos a.content, i.IsPlain := by
      intro i hi
      obtain ⟨a, -, rfl⟩ := List.mem_map.mp hi
      trivial
    have hchain : Yields Anything (fun found after => story.Retains EverySlot [] after ∧
        found.1 = draft.path.onward (a :: rest).length ∧ ∃ last, found.2 = [last] ∧
          after.Strung ((a :: rest).map Assignment.content) draft.path last)
        (chain pos (a :: rest) draft.path []) story := by
      rw [chain_eq_thread]
      refine Yields.bind (thread_plain _ hplain ⟨draft.path, [], []⟩) fun front mid h => ?_
      have hr := h.retains
      have hpath := h.path
      have hstr := h.strung
      rw [reports_moves] at hr
      rw [contents_moves] at hpath hstr
      obtain ⟨last, hrets, hstr, -⟩ := hstr (by simp)
      exact Yields.pure ⟨hr, by rw [hpath, List.length_map], last, hrets, hstr⟩
    unfold consequences
    rw [if_neg (by simp)]
    refine Yields.bind hchain ?_
    rintro ⟨path, rets⟩ mid ⟨hr, rfl, last, rfl, hstr⟩
    refine Yields.bind (tie_retains .ret [last]) fun _ after ⟨hr', hg⟩ => Yields.pure ?_
    obtain ⟨id, c, -, rfl, hid⟩ := hstr.last_holds (by simp)
    refine ⟨hr.trans hr', rfl, fun _ => ⟨nextEnd id, ?_, hstr.every hr'⟩⟩
    exact hg _ (List.mem_singleton_self _) (hid.settled .next)

/-- The guards stand in front of an option, each a jump past it where its opposite holds. Once what
waits behind them has found the option, each leads on to the next. -/
theorem guards_laid (pos : Position) (gs : List Expr) (path : Path) (rets : List LooseEnd)
    {story : Story} :
    Yields Anything (fun (path', rets', skips) after => story.Retains EverySlot [] after ∧
      path' = path.onward gs.length ∧ ∃ ids, skips = ids.map (⟨·, .branch⟩) ∧
      ∀ later noted, after.Retains EverySlot noted later →
        (∀ l ∈ rets', after.Settled l → later.Gone (.node path'.name) l) →
        later.Guarded gs path ids ∧
          ∀ l ∈ rets, story.Settled l → later.Gone (.node path.name) l)
      (guards pos gs path rets) story := by
  induction gs generalizing path rets story with
  | nil =>
    exact Yields.pure ⟨.refl story, rfl, [], rfl, fun later noted _ hg => ⟨trivial, hg⟩⟩
  | cons guard rest ih =>
    refine Yields.bind (arrive_retains ⟨path, rets, []⟩ _ pos) fun id mid ⟨hr, _, hh, hg⟩ => ?_
    refine Yields.bind (ih path.next [nextEnd id]) ?_
    rintro ⟨path', rets', skips⟩ after ⟨hr', hpath, ids, rfl, hlater⟩
    refine Yields.pure ⟨hr.trans hr', ?_, id :: ids, rfl, fun later noted r hends => ?_⟩
    · rw [hpath, Path.onward_next]
      rfl
    · obtain ⟨hguarded, hnext⟩ := hlater later noted r hends
      have hgone := hnext (nextEnd id) (List.mem_singleton_self _) (hh.settled .next)
      have hheld := (hh.retained hr' trivial).retained r trivial
      refine ⟨⟨hheld.tied hgone rfl, hguarded⟩, fun l hl hset => ?_⟩
      exact ((hg l hl hset).retained hr' trivial).retained r trivial

end Build

end Storyline
