import Storyline.Proofs.Names.Steps

namespace Storyline.Build

open Story

variable {guarded : List String} {st : Stance} {story : Story} {path : Path}
  {rets : List LooseEnd}

/-- The course of guards: the first is written where the option was to be. -/
def guardsCourse (guards : List Expr) (st : Stance) : Course Stance :=
  if guards.isEmpty then .on st else st.write

theorem guardsCourse_write {α : Type} (guards : List Expr) (st : Stance) (k : Stance → Course α) :
    st.write >>= k = guardsCourse guards st >>= fun st => st.write >>= k := by
  unfold guardsCourse Stance.write
  cases guards with
  | nil => rfl
  | cons guard rest =>
    by_cases hf : st.footing = .taken
    · simp [hf, bind, Course.bind]
    · simp [hf, bind, Course.bind]

theorem guards_goes (pos : Position) (gs : List Expr) (path : Path) (rets : List LooseEnd)
    (t : Tidy (st.skipped ++ guarded) story) (s : Stands (st.skipped ++ guarded) st path rets story)
    (b : Within story rets) :
    Goes (guardsCourse gs st) (fun st' (path', rets', skips) after => path.Covers path' ∧
      Went guarded st path rets story st' path' rets' (rets' ++ skips) after)
      (guards pos gs path rets) story := by
  induction gs generalizing st path rets story with
  | nil => exact Goes.pure ⟨path.covers_self, by simpa using Went.refl t s b⟩
  | cons guard rest ih =>
    refine (arrive_goes t ⟨path, rets, []⟩ _ pos s).last fun st1 id mid ⟨hst, ha⟩ => ?_
    subst hst
    have hw : Went guarded st path rets story { st with footing := .free } path.next [nextEnd id]
        [nextEnd id] mid := by
      refine ha.went s (List.Subset.refl _) (fun l hl => .inr ?_) (fun l hl => ?_) _
      · rw [List.mem_singleton.mp hl]
        exact ha.fresh
      · rw [List.mem_singleton.mp hl]
        exact ha.bound
    have hfree : guardsCourse rest { st with footing := .free } =
        .on { st with footing := .free } := by
      unfold guardsCourse Stance.write
      split <;> rfl
    have hi := ih path.next [nextEnd id] hw.tidy hw.stands hw.within
    rw [hfree] at hi
    refine Yields.bind hi fun ⟨path', rets', skips⟩ after ⟨hc, h⟩ => Yields.pure ?_
    have hall := hw.trans h
    refine ⟨path.covers_next.trans hc, ⟨hall.tidy, hall.stands, hall.ran, hall.reaches, ?_, ?_,
      hall.skipped, hall.stays, hall.leaves⟩⟩
    · intro l hl
      rcases List.mem_append.mp hl with hl | hl
      · exact hall.comes l (List.mem_append_left _ hl)
      · rcases List.mem_cons.mp hl with rfl | hl
        · exact .inr ha.fresh
        · exact hall.comes l (List.mem_append_right _ hl)
    · intro l hl
      rcases List.mem_append.mp hl with hl | hl
      · exact hall.within l (List.mem_append_left _ hl)
      · rcases List.mem_cons.mp hl with rfl | hl
        · exact Nat.lt_of_lt_of_le ha.bound h.ran.size
        · exact hall.within l (List.mem_append_right _ hl)

theorem chain_goes (pos : Position) (assignments : List Assignment) (path : Path)
    (rets : List LooseEnd) (hf : st.footing = .free) (t : Tidy (st.skipped ++ guarded) story)
    (s : Stands (st.skipped ++ guarded) st path rets story) (b : Within story rets) :
    Yields (fun e => ¬ IsNoLinkError e)
      (fun (path', rets') after => Went guarded st path rets story st path' rets' rets' after)
      (chain pos assignments path rets) story := by
  induction assignments generalizing path rets story with
  | nil => exact Yields.pure (Went.refl t s b)
  | cons assignment rest ih =>
    have hst : { st with footing := .free } = st := by rw [← hf]
    have ha := arrive_goes t ⟨path, rets, []⟩
      (.content (.move assignment.target assignment.source) none) pos s
    rw [Stance.write, hf, if_neg (by simp), hst] at ha
    refine Yields.bind ha fun id mid ⟨_, ha⟩ => ?_
    have hw : Went guarded st path rets story { st with footing := .free } path.next [nextEnd id]
        [nextEnd id] mid := by
      refine ha.went s (List.Subset.refl _) (fun l hl => .inr ?_) (fun l hl => ?_) _
      · rw [List.mem_singleton.mp hl]
        exact ha.fresh
      · rw [List.mem_singleton.mp hl]
        exact ha.bound
    rw [hst] at hw
    exact Yields.mono (ih path.next [nextEnd id] hw.tidy hw.stands hw.within)
      fun _ _ h => hw.trans h

theorem consequences_goes (pos : Position) (assignments : List Assignment) (draft : Draft)
    (hf : st.footing = .free) (t : Tidy (st.skipped ++ guarded) story)
    (s : Stands (st.skipped ++ guarded) st draft.path [] story) :
    Yields (fun e => ¬ IsNoLinkError e)
      (fun draft' after => draft'.escs = draft.escs ∧ draft'.advancing = draft.advancing ∧
        Went guarded st draft.path [] story st draft'.path [] [] after)
      (consequences pos assignments draft) story := by
  have hb : Within story [] := fun l hl => by cases hl
  unfold consequences
  split
  · exact Yields.pure ⟨rfl, rfl, .refl t s hb⟩
  · refine Yields.bind (chain_goes pos assignments draft.path [] hf t s hb) ?_
    rintro ⟨path', rets'⟩ mid h
    refine Yields.bind (yields_tied h.tidy.distinct .ret rets') fun _ after ht => Yields.pure ?_
    have hend : st.endLoop = .on st := by rw [Stance.endLoop, hf]
    exact ⟨rfl, rfl, h.tie ht (List.Subset.refl _) (List.Subset.refl _) hend (List.nil_subset _) []⟩

/-- An answer that goes on needs no step; any other is given one where the draft left off. -/
theorem conclude_goes (pos : Position) (draft : Draft) (t : Tidy (st.skipped ++ guarded) story)
    (s : draft.advancing = false → Stands (st.skipped ++ guarded) st draft.path [] story)
    (b : Within story draft.escs) :
    Goes (if draft.advancing then pure st else st.write)
      (fun st' draft' after => st'.skipped = st.skipped ∧ Tidy (st.skipped ++ guarded) after ∧
        Ran (st.skipped ++ guarded) draft.path [] story after ∧
        Comes draft.escs story draft'.escs ∧ Within after draft'.escs)
      (conclude pos draft) story := by
  unfold conclude
  split
  · exact Goes.pure ⟨rfl, t, .refl, .refl _ _, b⟩
  next ha =>
  have s := s (by simpa using ha)
  unfold Stance.write
  split
  · next hf =>
    have hs := s.footing
    rw [hf] at hs
    exact Yields.bind (yields_clash t.distinct hs rfl rfl) fun _ _ h => h.elim
  · next hf =>
    have w := s.writable hf
    refine Yields.bind (yields_create t w _ pos) fun id after ⟨hid, hw⟩ => Yields.pure ?_
    refine ⟨rfl, hw.tidy w t, hw.ran w (.inl draft.path.covers_self), fun l hl => ?_,
      fun l hl => ?_⟩
    · rcases List.mem_append.mp hl with hl | hl
      · exact .inl hl
      · rw [List.mem_singleton.mp hl]
        exact .inr (Nat.le_of_eq hid.symm)
    · rw [hw.size]
      rcases List.mem_append.mp hl with hl | hl
      · exact Nat.lt_succ_of_lt (b l hl)
      · rw [List.mem_singleton.mp hl, nextEnd, hid]
        exact Nat.lt_succ_self _

/-- A part of an option left nothing exactly if it ended at the placeholder it began with. -/
theorem isEmpty_eq {st' : Stance} {before : Story} {entry : NodeId} {path' : Path}
    {rets' held' : List LooseEnd}
    (h : Went guarded st path [nextEnd entry] before st' path' rets' held' story)
    (hf : st.footing = .entry) (he : before.status path.name = .waiting entry) :
    (decide (path' = path) && story.isPlaceholder entry) = decide (st'.footing = .entry) := by
  by_cases h' : st'.footing = .entry
  · obtain ⟨-, hp, hs⟩ := h.stays h'
    rw [he] at hs
    simp [hp, h', isPlaceholder_of_waiting hs]
  · have hno : story.isPlaceholder entry = false := by
      rw [← Bool.not_eq_true]
      intro hp
      obtain ⟨node, hn⟩ := isPlaceholder_iff.mp hp
      have hw := status_of_placeholder h.tidy.distinct hn
      by_cases hname : node.name = path.name
      · exact h.leaves entry hf he h' (hname ▸ hw)
      · refine h.ran.stale node.name entry (lt_size_of_waiting he) (fun hb => hname ?_) hw
        exact waiting_injective hb he
    simp [h', hno]

theorem yields_freed {avoid : List String} (t : Tidy avoid story) {entry : NodeId}
    (hw : story.status path.name = .waiting entry) :
    Yields (fun e => ¬ IsNoLinkError e) (fun _ s => Freed path story s) (discard entry) story := by
  refine Yields.mono (status_discard t.distinct entry) fun _ s ⟨hd, hs, h⟩ => ⟨hd, hs, ⟨_, hw⟩, ?_⟩
  intro name
  rw [h]
  by_cases hn : name = path.name
  · rw [if_pos hn, hn, if_pos hw]
  · rw [if_neg hn, if_neg fun h => hn (waiting_injective h hw)]

/-- What a part of an option came to. -/
structure PartWent (guarded : List String) (st : Stance) (path : Path) (held : List LooseEnd)
    (story : Story) (st' : Stance) (draft : Draft) (after : Story) : Prop where
  tidy : Tidy (st'.skipped ++ guarded) after
  ran : Ran (st.skipped ++ guarded) path held story after
  reaches : Reaches (st.skipped ++ guarded) path story draft.path
  label : IsLabel draft.path.label
  skipped : st.skipped ⊆ st'.skipped
  stands : draft.advancing = false → Stands (st'.skipped ++ guarded) st' draft.path [] after

theorem settle_goes (role : Role) (last : Bool) (front : Front) (draft : Draft) {st' : Stance}
    {before : Story} {entry : NodeId}
    (h : Went guarded st draft.path [nextEnd entry] before st' front.path front.ends.rets
      front.held story)
    (hf : st.footing = .entry) (he : before.status draft.path.name = .waiting entry) :
    Goes (st'.endPart (last && role == .answer && st'.footing != .entry))
      (fun st2 draft' after =>
        draft'.advancing = (last && role == .answer && st'.footing != .entry) ∧
        PartWent guarded st draft.path [nextEnd entry] before st2 draft' after ∧
        (∀ l ∈ draft'.escs, l ∈ draft.escs ∨ l ∈ front.held) ∧
        after.slots.size = story.slots.size)
      (settle role last entry front draft) story := by
  refine Goes.step (P := fun found after => story = found ∧ story = after) ⟨rfl, rfl⟩ ?_
  rintro _ _ ⟨rfl, rfl⟩
  dsimp only
  rw [isEmpty_eq h hf he]
  by_cases hk : st'.footing = .entry
  · obtain ⟨-, hpath, hsame⟩ := h.stays hk
    rw [he] at hsame
    have hfoot := h.stands.footing
    rw [hk, hpath] at hfoot
    have hl : IsLabel draft.path.label := hpath ▸ h.stands.label
    have hne : (Footing.entry != Footing.entry) = false := rfl
    simp only [hk, Stance.endPart, hne, Bool.and_false, decide_true, Bool.not_true, fileSegment,
      if_true, Bool.false_eq_true, if_false]
    refine Yields.bind (Yields.bind (yields_freed h.tidy hsame) fun _ mid hd =>
      Yields.pure (Q := fun filed s => filed = draft ∧ Freed draft.path story s) ⟨rfl, hd⟩) ?_
    rintro filed mid ⟨rfl, hd⟩
    refine Yields.bind (yields_tied hd.distinct .ret front.ends.rets) fun _ after ht => ?_
    have hfree {p : Path} (hc : filed.path.Covers p) : after.status p.name = .free := by
      rw [ht.eq_free_iff]
      by_cases hp : p = filed.path
      · rw [hp, hd.status, if_pos rfl]
      · rw [hd.other hl (hc.1 ▸ hl) hp]
        exact h.stands.ahead p (hpath ▸ hc) (hpath ▸ hp)
    have hran : Ran (st'.skipped ++ guarded) filed.path front.held story after :=
      (hd.ran hl hfoot.1 filed.path.covers_self).onward (ht.ran (List.subset_append_left _ _))
    have hsub := Went.avoid_subset guarded h.skipped
    refine Yields.pure ⟨rfl, ⟨ht.tidy (hd.tidy hl hfoot.1 h.tidy),
      h.ran.trans (.inl filed.path.covers_self) h.comes (hran.mono hsub), h.reaches,
      h.stands.label, h.skipped, fun _ => ?_⟩, fun l hm => ?_, ht.size.trans hd.size⟩
    · refine ⟨h.stands.label, h.stands.written, fun p hc _ => hfree (hpath ▸ hc), fun _ => ?_, ?_⟩
      · exact hpath ▸ hran.not_openable hl (hpath ▸ h.stands.closed (hpath ▸ hfoot.1))
      · exact hpath ▸ ⟨hfoot.1, hfree filed.path.covers_self⟩
    · exact (List.mem_append.mp hm).imp id (List.mem_append_right _)
  · have hkd : decide (st'.footing = .entry) = false := decide_eq_false hk
    have hne : (st'.footing != .entry) = true := by simpa using hk
    have hfile : Yields (fun e => ¬ IsNoLinkError e)
        (fun filed s => filed.escs = draft.escs ∧ story = s)
        (fileSegment role false entry draft) story := Yields.pure ⟨by cases role <;> rfl, rfl⟩
    rw [hkd, hne]
    simp only [Bool.not_false, Bool.and_true]
    refine Goes.step hfile ?_
    rintro filed _ ⟨hescs, rfl⟩
    cases hadv : last && role == Role.answer with
    | true =>
      have hpart : PartWent guarded st draft.path [nextEnd entry] before st'
          ⟨front.path, filed.question, filed.answer,
            filed.escs ++ front.ends.escs ++ front.ends.rets, true⟩ story :=
        ⟨h.tidy, h.ran, h.reaches, h.stands.label, h.skipped, fun h => by cases h⟩
      have hend : st'.endPart true = .on st' ∨ st'.endPart true = .doubtful := by
        unfold Stance.endPart
        cases hk' : st'.footing <;> simp_all
      rcases hend with hend | hend
      · rw [hend, if_pos rfl]
        refine Goes.pure ⟨rfl, hpart, fun l hm => ?_, rfl⟩
        simp only [hescs, List.mem_append, Front.held] at hm ⊢
        rcases hm with (hm | hm) | hm
        · exact .inl hm
        · exact .inr (.inr hm)
        · exact .inr (.inl hm)
      · rw [hend]
        trivial
    | false =>
      have hend : st'.endPart false = st'.endLoop := by
        unfold Stance.endPart Stance.endLoop
        cases hk' : st'.footing <;> simp_all
      rw [hend]
      cases hloop : st'.endLoop with
      | on st2 =>
        refine Yields.bind (yields_tied h.tidy.distinct .ret front.ends.rets) fun _ after ht => ?_
        have hw := h.tie ht (List.Subset.refl _) (List.subset_append_left _ _) hloop
          (List.nil_subset _) []
        refine Yields.pure ⟨rfl, ⟨hw.tidy, hw.ran, hw.reaches, hw.stands.label, hw.skipped,
          fun _ => hw.stands⟩, fun l hm => ?_, ht.size⟩
        rw [hescs] at hm
        exact (List.mem_append.mp hm).imp id (List.mem_append_right _)
      | doubtful => trivial
      | _ =>
        unfold Stance.endLoop at hloop
        split at hloop <;> cases hloop

end Storyline.Build
