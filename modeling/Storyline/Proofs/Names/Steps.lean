import Storyline.Proofs.Linking
import Storyline.Proofs.Names.Footing

namespace Storyline.Build

open Story

variable {α β γ : Type} {story : Story}

def Goes (c : Course γ) (Q : γ → α → Story → Prop) (m : Build α) (story : Story) : Prop :=
  match c with
  | .on a => Yields (fun e => ¬ IsNoLinkError e) (Q a) m story
  | .clash => Yields (fun e => IsNoLinkError e → ∃ name, e = .duplicateNode name)
      (fun _ _ => False) m story
  | .cut => Yields (fun e => IsNoLinkError e → e = .unfinished) (fun _ _ => False) m story
  | .doubtful => True

theorem Yields.weaken {E F : BuildError → Prop} {Q : α → Story → Prop} {m : Build α}
    (h : Yields E Q m story) (he : ∀ e, E e → F e) : Yields F Q m story := by
  unfold Yields at h ⊢
  split
  · next hm => rwa [hm] at h
  · next hm =>
    rw [hm] at h
    exact he _ h

namespace Goes

variable {δ : Type} {c : Course γ} {Q : γ → α → Story → Prop} {R : δ → β → Story → Prop}
  {m : Build α} {f : α → Build β} {k : γ → Course δ}

theorem bind (hm : Goes c Q m story) (hf : ∀ a b s, Q a b s → Goes (k a) R (f b) s) :
    Goes (c >>= k) R (m >>= f) story := by
  cases c with
  | on a =>
    have hf := hf a
    show Goes (k a) R (m >>= f) story
    generalize k a = next at hf
    cases next with
    | on d => exact Yields.bind hm hf
    | clash =>
      refine Yields.bind (Yields.weaken hm ?_) hf
      intro e hn hl
      exact absurd hl hn
    | cut =>
      refine Yields.bind (Yields.weaken hm ?_) hf
      intro e hn hl
      exact absurd hl hn
    | doubtful => trivial
  | clash => exact Yields.bind hm fun _ _ h => h.elim
  | cut => exact Yields.bind hm fun _ _ h => h.elim
  | doubtful => trivial

theorem pure {a : γ} {b : α} (h : Q a b story) : Goes (.on a) Q (Pure.pure b) story := h

/-- A step the walk does not notice. -/
theorem step {P : α → Story → Prop} {c : Course δ} (hm : Yields (fun e => ¬ IsNoLinkError e) P m story)
    (hf : ∀ b s, P b s → Goes c R (f b) s) : Goes c R (m >>= f) story :=
  bind (c := .on ()) (Q := fun _ => P) (k := fun _ => c) hm fun _ b s h => hf b s h

/-- What follows is nothing the walk notices. -/
theorem last {R : γ → β → Story → Prop} (hm : Goes c Q m story)
    (hf : ∀ a b s, Q a b s → Yields (fun e => ¬ IsNoLinkError e) (R a) (f b) s) :
    Goes c R (m >>= f) story := by
  cases c with
  | on a => exact Yields.bind hm (hf a)
  | doubtful => trivial
  | _ => exact Yields.bind hm fun _ _ h => h.elim

theorem mono {R : γ → α → Story → Prop} (hm : Goes c Q m story)
    (h : ∀ a b s, Q a b s → R a b s) : Goes c R m story := by
  cases c with
  | on a => exact Yields.mono hm (h a)
  | _ => exact hm

end Goes

variable {avoid guarded : List String} {path : Path} {held rets : List LooseEnd} {st : Stance}

theorem yields_write (t : Tidy avoid story) (w : Writable avoid path story) {slot : Slot}
    {node : Node} (hn : slot.node? = some node) (hname : node.name = path.name) :
    Yields (fun e => ¬ IsNoLinkError e)
      (fun id s => id = story.slots.size ∧ Wrote path (slotStatus story.slots.size slot) story s)
      (addSlot path.name slot) story := by
  refine Yields.weaken (Yields.mono (status_addSlot t.distinct hn hname) ?_) ?_
  · rintro id s ⟨-, hid, hd, hs, hst⟩
    refine ⟨hid, hd, hs, ?_, hst⟩
    cases slot with
    | settled node => exact .inl rfl
    | placeholder node => exact .inr rfl
    | _ => cases hn
  · rintro e ⟨-, hs⟩
    exact absurd hs w.unsettled

theorem yields_clash (hd : story.Distinct) {name : String} (hs : story.status name = .settled)
    {slot : Slot} {node : Node} (hn : slot.node? = some node) (hname : node.name = name) :
    Yields (fun e => IsNoLinkError e → ∃ name, e = .duplicateNode name) (fun _ _ => False)
      (addSlot name slot) story := by
  refine Yields.weaken (Yields.mono (status_addSlot hd hn hname) ?_) ?_
  · rintro id s ⟨hne, -⟩
    exact hne hs
  · rintro e ⟨rfl, -⟩ -
    exact ⟨name, rfl⟩

theorem yields_tied (hd : story.Distinct) (target : Target) (ends : List LooseEnd) :
    Yields (fun e => ¬ IsNoLinkError e) (fun _ s => Tied ends story s) (tie target ends) story :=
  Yields.mono (status_tie hd target ends) fun _ _ ⟨hd, hs, h⟩ => ⟨hd, hs, h⟩

theorem yields_create (t : Tidy avoid story) (w : Writable avoid path story) (body : Body)
    (pos : Position) : Yields (fun e => ¬ IsNoLinkError e)
      (fun id s => id = story.slots.size ∧ Wrote path .settled story s) (create path body pos) story :=
  yields_write t w rfl rfl

theorem yields_createPlaceholder (t : Tidy avoid story) (w : Writable avoid path story)
    (pos : Position) : Yields (fun e => ¬ IsNoLinkError e)
      (fun id s => id = story.slots.size ∧ Wrote path (.waiting id) story s)
      (createPlaceholder path pos) story := by
  refine Yields.mono (yields_write t w rfl rfl) ?_
  rintro id s ⟨rfl, h⟩
  exact ⟨rfl, h⟩

/-- A node was written at the path and the ends that led there were tied. -/
structure Arrived (avoid : List String) (path : Path) (rets : List LooseEnd) (story : Story)
    (id : NodeId) (after : Story) : Prop where
  tidy : Tidy avoid after
  ran : Ran avoid path rets story after
  fresh : story.slots.size ≤ id
  bound : id < after.slots.size
  settled : after.status path.name = .settled
  ahead : ∀ p, path.Covers p → p ≠ path → after.status p.name = .free
  closed : ¬ Openable avoid after path.label

theorem Arrived.of_wrote {id : NodeId} {after : Story} (t : Tidy avoid story)
    (w : Writable avoid path story) (hw : Wrote path .settled story after)
    (hid : id = story.slots.size) : Arrived avoid path rets story id after := by
  refine ⟨hw.tidy w t, hw.ran w (.inl path.covers_self), Nat.le_of_eq hid.symm, ?_, hw.here,
    hw.ahead w, hw.closed w⟩
  rw [hw.size, hid]
  exact Nat.lt_succ_self _

theorem Arrived.tied {id : NodeId} {mid after : Story} (a : Arrived avoid path rets story id mid)
    (hl : IsLabel path.label) (ht : Tied rets mid after) :
    Arrived avoid path rets story id after := by
  have hran : Ran avoid path rets mid after := ht.ran (List.Subset.refl _)
  exact ⟨ht.tidy a.tidy, a.ran.onward hran, a.fresh, ht.size ▸ a.bound, ht.settled a.settled,
    fun p hc hne => ht.eq_free_iff.mpr (a.ahead p hc hne), hran.not_openable hl a.closed⟩

theorem arrive_goes (t : Tidy avoid story) (front : Front) (body : Body) (pos : Position)
    (s : Stands avoid st front.path front.ends.rets story) :
    Goes st.write (fun st' id after => st' = { st with footing := .free } ∧
      Arrived avoid front.path front.ends.rets story id after) (arrive front body pos) story := by
  unfold Stance.write
  split
  · next hf =>
    have hs := s.footing
    rw [hf] at hs
    exact Yields.bind (yields_clash t.distinct hs rfl rfl) fun _ _ h => h.elim
  · next hf =>
    have w := s.writable hf
    refine Yields.bind (yields_create t w body pos) fun id mid ⟨hid, hw⟩ => ?_
    refine Yields.bind (yields_tied hw.distinct _ front.ends.rets) fun _ after ht => ?_
    exact Yields.pure ⟨rfl, (Arrived.of_wrote t w hw hid).tied w.label ht⟩

namespace Arrived

variable {after : Story} {id : NodeId} {q : Path}

/-- The rule may go on behind the node or below it. -/
theorem stands (a : Arrived avoid path rets story id after) (hl : IsLabel path.label)
    (hw : MayName st.label path.label) (hq : path.Covers q) (hne : q ≠ path)
    (hroot : q.indices ≠ [0]) (ends : List LooseEnd) :
    Stands avoid { st with footing := .free } q ends after := by
  have hahead (p : Path) (hp : q.Covers p) : after.status p.name = .free := by
    refine a.ahead p (hq.trans hp) ?_
    rintro rfl
    exact hne (hp.antisymm hq)
  refine ⟨hq.1 ▸ hl, hq.1 ▸ hw, fun p hp _ => hahead p hp, fun _ => hq.1 ▸ a.closed,
    hroot, hahead q q.covers_self⟩

end Arrived

/-- What a rule that began with one stance and ended with another did, and where it left off. -/
structure Went (guarded : List String) (st : Stance) (path : Path) (held : List LooseEnd)
    (story : Story) (st' : Stance) (path' : Path) (rets' held' : List LooseEnd) (after : Story) :
    Prop where
  tidy : Tidy (st'.skipped ++ guarded) after
  stands : Stands (st'.skipped ++ guarded) st' path' rets' after
  ran : Ran (st.skipped ++ guarded) path held story after
  reaches : Reaches (st.skipped ++ guarded) path story path'
  comes : Comes held story held'
  within : Within after held'
  skipped : st.skipped ⊆ st'.skipped
  /-- A placeholder the rule began at is still there only if it went nowhere. -/
  stays : st'.footing = .entry →
    st.footing = .entry ∧ path' = path ∧ after.status path.name = story.status path.name
  leaves : ∀ id, st.footing = .entry → story.status path.name = .waiting id →
    st'.footing ≠ .entry → after.status path.name ≠ .waiting id

namespace Went

variable {st1 st2 : Stance} {path1 path2 : Path} {rets1 rets2 held1 held2 : List LooseEnd}
  {s1 s2 : Story}

theorem avoid_subset (guarded : List String) {a b : List String} (h : a ⊆ b) :
    a ++ guarded ⊆ b ++ guarded := by
  intro name hn
  rcases List.mem_append.mp hn with hn | hn
  · exact List.mem_append_left _ (h hn)
  · exact List.mem_append_right _ hn

theorem refl (t : Tidy (st.skipped ++ guarded) story)
    (s : Stands (st.skipped ++ guarded) st path rets story) (b : Within story held) :
    Went guarded st path held story st path rets held story :=
  ⟨t, s, .refl, .inl path.covers_self, .refl _ _, b, List.Subset.refl _, fun h => ⟨h, rfl, rfl⟩,
    fun _ h _ hne => absurd h hne⟩

theorem trans (h : Went guarded st path held story st1 path1 rets1 held1 s1)
    (h' : Went guarded st1 path1 held1 s1 st2 path2 rets2 held2 s2) :
    Went guarded st path held story st2 path2 rets2 held2 s2 := by
  have hran := h'.ran.mono (avoid_subset guarded h.skipped)
  refine ⟨h'.tidy, h'.stands, h.ran.trans h.reaches h.comes hran, ?_,
    h.comes.trans h.ran.size h'.comes, h'.within, List.Subset.trans h.skipped h'.skipped, ?_, ?_⟩
  · refine h.reaches.trans h.ran h'.stands.label (h'.reaches.imp id fun ho => ?_)
    exact ho.mono (avoid_subset guarded h.skipped)
  · intro he
    obtain ⟨h1, hp, hs⟩ := h'.stays he
    obtain ⟨h0, hp0, hs0⟩ := h.stays h1
    subst hp0
    exact ⟨h0, hp, hs.trans hs0⟩
  · intro id he hw hne
    by_cases h1 : st1.footing = .entry
    · obtain ⟨-, rfl, hs⟩ := h.stays h1
      exact h'.leaves id h1 (hs.trans hw) hne
    · exact h'.ran.stale path.name id
        (Nat.lt_of_lt_of_le (Story.lt_size_of_waiting hw) h.ran.size) (h.leaves id he hw h1)

/-- Ends a rule does not touch are there after it. -/
theorem carry {kept : List LooseEnd} (hk : Within story kept)
    (h : Went guarded st path held story st1 path1 rets1 held1 s1) :
    Went guarded st path (held ++ kept) story st1 path1 rets1 (held1 ++ kept) s1 := by
  refine ⟨h.tidy, h.stands, h.ran.hold (List.subset_append_left _ _), h.reaches, fun l hl => ?_,
    h.within.append (hk.grow h.ran.size), h.skipped, h.stays, h.leaves⟩
  rcases List.mem_append.mp hl with hl | hl
  · exact (h.comes l hl).imp (List.mem_append_left _) id
  · exact .inl (List.mem_append_right _ hl)

/-- The ends that led on are tied: a placeholder where the rule left off stays. -/
theorem tie {ends : List LooseEnd} (h : Went guarded st path held story st1 path1 rets1 held1 s1)
    (ht : Tied ends s1 s2) (hr : rets1 ⊆ ends) (hs : ends ⊆ held1) (he : st1.endLoop = .on st2)
    (hk : held2 ⊆ held1) (rets2 : List LooseEnd) :
    Went guarded st path held story st2 path1 rets2 held2 s2 := by
  have hran : Ran (st1.skipped ++ guarded) path1 held1 s1 s2 := ht.ran hs
  have hall := h.ran.trans h.reaches h.comes (hran.mono (avoid_subset guarded h.skipped))
  have hf := h.stands.footing
  obtain ⟨hst, hne, hh⟩ : st2 = { st1 with footing := st2.footing } ∧ st2.footing ≠ .entry ∧
      st2.footing.Holds path1 rets2 s2 := by
    unfold Stance.endLoop at he
    cases hk : st1.footing <;> rw [hk] at he hf <;> cases he
    · refine ⟨rfl, by rw [hk]; simp, ?_⟩
      rw [hk]
      exact ⟨hf.1, ht.eq_free_iff.mpr hf.2⟩
    · obtain ⟨-, l, hl, hw⟩ := hf
      exact ⟨rfl, by simp, ht.settled_of_mem (hr hl) hw⟩
    · obtain ⟨-, l, hl, hw⟩ := hf
      exact ⟨rfl, by simp, ht.settled_of_mem (hr hl) hw⟩
    · refine ⟨rfl, by rw [hk]; simp, ?_⟩
      rw [hk]
      exact ht.settled hf
  have hskip : st2.skipped = st1.skipped := by rw [hst]
  have hlabel : st2.label = st1.label := by rw [hst]
  rw [← hskip] at hran
  refine ⟨?_, ?_, hall, h.reaches, h.comes.trans h.ran.size (.of_subset hk),
    fun l hl => h.within.grow hran.size l (hk hl), ?_, fun h => absurd h hne, ?_⟩
  · rw [hskip]
    exact ht.tidy h.tidy
  · refine ⟨h.stands.label, hlabel ▸ h.stands.written, fun p hc hp => ?_, fun hp => ?_, hh⟩
    · exact ht.eq_free_iff.mpr (h.stands.ahead p hc hp)
    · exact hran.not_openable h.stands.label (hskip ▸ h.stands.closed hp)
  · rw [hskip]
    exact h.skipped
  · intro id he0 hw _
    have hlt := Nat.lt_of_lt_of_le (Story.lt_size_of_waiting hw) h.ran.size
    by_cases h1 : st1.footing = .entry
    · obtain ⟨-, rfl, hsame⟩ := h.stays h1
      rw [h1] at hf
      obtain ⟨-, l, hl, hw1⟩ := hf
      rw [ht.settled_of_mem (hr hl) hw1]
      simp
    · exact hran.stale path.name id hlt (h.leaves id he0 hw h1)

end Went

/-- A rule that wrote a node where it began and goes on behind it. -/
theorem Arrived.went {after : Story} {id : NodeId} {held' : List LooseEnd}
    (a : Arrived (st.skipped ++ guarded) path rets story id after)
    (s : Stands (st.skipped ++ guarded) st path rets story) (hs : rets ⊆ held)
    (hc : Comes held story held') (hb : Within after held') (ends : List LooseEnd) :
    Went guarded st path held story { st with footing := .free } path.next ends held' after := by
  refine ⟨a.tidy, ?_, a.ran.hold hs, .inl path.covers_next, hc, hb, List.Subset.refl _, ?_, ?_⟩
  · exact a.stands s.label s.written path.covers_next path.next_ne path.indices_next_ne ends
  · intro h
    cases h
  · intro id _ _ _ hw
    rw [a.settled] at hw
    cases hw

/-- What a front holds after a rule, in terms of what it went from. -/
def FrontWent (guarded : List String) (st : Stance) (front : Front) (story : Story)
    (st' : Stance) (front' : Front) (after : Story) : Prop :=
  Went guarded st front.path front.held story st' front'.path front'.ends.rets front'.held after

/-- A rule that wrote a node where it began, linked more below it and goes on behind it. -/
theorem Arrived.resume {mid after : Story} {id : NodeId} {index : Nat} {inner held' : List LooseEnd}
    {skipped : List String} (a : Arrived (st.skipped ++ guarded) path rets story id mid)
    (s : Stands (st.skipped ++ guarded) st path rets story) (hs : rets ⊆ held)
    (hi : Comes held story inner)
    (r : Ran (st.skipped ++ guarded) (path.child index) inner mid after)
    (t : Tidy (skipped ++ guarded) after) (hk : st.skipped ⊆ skipped) (hc : Comes held story held')
    (hb : Within after held') (ends : List LooseEnd) :
    Went guarded st path held story ⟨.free, st.label, skipped⟩ path.next ends held' after := by
  have hfree (p : Path) (hp : path.next.Covers p) : after.status p.name = .free := by
    have hl : p.label = path.label := hp.1
    refine r.free (hl ▸ s.label) (Path.not_covers_child_of_next hp) (hl ▸ a.closed) ?_
    refine a.ahead p (path.covers_next.trans hp) fun he => ?_
    exact path.next_ne ((he ▸ hp).antisymm path.covers_next)
  have hsub := Went.avoid_subset guarded hk
  refine ⟨t, ?_, (a.ran.hold hs).trans (.inl (path.covers_child index)) hi r,
    .inl path.covers_next, hc, hb, hk, ?_, ?_⟩
  · exact ⟨s.label, s.written, fun p hp _ => hfree p hp,
      fun _ ho => r.not_openable s.label a.closed (ho.mono hsub), path.indices_next_ne,
      hfree _ path.next.covers_self⟩
  · intro h
    cases h
  · intro id _ _ _ hw
    rw [r.settled _ a.settled] at hw
    cases hw

theorem Arrived.within_ends {mid : Story} {id : NodeId} (a : Arrived avoid path rets story id mid)
    {l : LooseEnd} (hl : l.node = id) : Within mid [l] := by
  intro other h
  rw [List.mem_singleton.mp h, hl]
  exact a.bound

/-- A placeholder was written at the path and leads on from there. -/
structure Opened (avoid : List String) (st : Stance) (path : Path) (held : List LooseEnd)
    (story : Story) (entry : NodeId) (after : Story) : Prop where
  tidy : Tidy avoid after
  stands : Stands avoid st path [nextEnd entry] after
  ran : Ran avoid path held story after
  waits : after.status path.name = .waiting entry
  fresh : story.slots.size ≤ entry
  bound : entry < after.slots.size

theorem Opened.of_wrote {mid after : Story} {entry : NodeId} {ends : List LooseEnd}
    {footing : Footing} (t : Tidy avoid story) (s : Stands avoid st path rets story)
    (hst : st.footing ≠ .taken) (b : Within story ends) (hs : ends ⊆ held)
    (hw : Wrote path (.waiting entry) story mid) (he : entry = story.slots.size)
    (ht : Tied ends mid after)
    (hf : footing = .label ∧ path.indices = [0] ∨ footing = .entry ∧ path.indices ≠ [0]) :
    Opened avoid { st with footing } path held story entry after := by
  have w := s.writable hst
  have hran : Ran avoid path held story after :=
    (hw.ran w (.inl path.covers_self)).onward (ht.ran hs)
  have hwait : after.status path.name = .waiting entry := by
    refine ht.waiting_of_not_mem (fun l hl => ?_) hw.here
    rw [he]
    exact Nat.ne_of_lt (b l hl)
  refine ⟨ht.tidy (hw.tidy w t), ⟨s.label, s.written, fun p hc hp => ?_, fun hp => ?_, ?_⟩, hran,
    hwait, Nat.le_of_eq he.symm, ?_⟩
  · exact ht.eq_free_iff.mpr (hw.ahead w p hc hp)
  · exact hran.not_openable s.label (s.closed hp)
  · rcases hf with ⟨rfl, hp⟩ | ⟨rfl, hp⟩
    · exact ⟨hp, nextEnd entry, List.mem_singleton_self _, hwait⟩
    · exact ⟨hp, nextEnd entry, List.mem_singleton_self _, hwait⟩
  · rw [ht.size, hw.size, he]
    exact Nat.lt_succ_self _

/-- A rule that began at a placeholder it had opened, and left it behind. -/
theorem Opened.went {inside st' : Stance} {mid after : Story} {entry : NodeId} {path' : Path}
    {kept held' rets' : List LooseEnd}
    (o : Opened (st.skipped ++ guarded) inside path held story entry mid)
    (h : Went guarded inside path [nextEnd entry] mid st' path' rets' held' after)
    (hin : inside.skipped = st.skipped) (hne : st'.footing ≠ .entry) (hk : kept ⊆ held)
    (hb : Within story kept) :
    Went guarded st path held story st' path' rets' (kept ++ held') after := by
  have hsize := Nat.le_trans o.ran.size h.ran.size
  have hnew : Comes held story [nextEnd entry] := by
    intro l hl
    rw [List.mem_singleton.mp hl]
    exact .inr o.fresh
  have hran := h.ran
  have hreach := h.reaches
  rw [hin] at hran hreach
  refine ⟨h.tidy, h.stands, o.ran.trans (.inl path.covers_self) hnew hran,
    .trans (.inl path.covers_self) o.ran h.stands.label hreach, fun l hl => ?_,
    (hb.grow hsize).append h.within, hin ▸ h.skipped, fun he => absurd he hne, ?_⟩
  · rcases List.mem_append.mp hl with hl | hl
    · exact .inl (hk hl)
    · exact hnew.trans o.ran.size h.comes l hl
  · intro id _ hw _
    have hlt := Story.lt_size_of_waiting hw
    refine hran.stale path.name id (Nat.lt_of_lt_of_le hlt o.ran.size) fun hw' => ?_
    rw [o.waits] at hw'
    cases hw'
    exact absurd hlt (Nat.not_lt.mpr o.fresh)

theorem tied_diagnostics (hd : story.Distinct) (diagnostics : Array Diagnostic) :
    Tied [] story { story with diagnostics } :=
  ⟨hd, rfl, fun name => (tied_nil (story.status name)).symm⟩

theorem yields_reported {E : BuildError → Prop} (hd : story.Distinct) (pos : Position)
    (mistake : Mistake) : Yields E (fun _ s => Tied [] story s) (report pos mistake) story :=
  yields_report (tied_diagnostics hd _)

theorem reopens_of_mayName {name written : String} (h : MayName written name) :
    reopens name written = true := by
  rcases h with rfl | ⟨n, rfl⟩
  · simp [reopens]
  · simp [reopens]

/-- A label is new, or it is the name as written and only a placeholder stands there. -/
theorem claim_goes (t : Tidy avoid story) (name : String) (seen : Position) :
    Goes (claimable avoid name) (fun _ label after => Tied [] story after ∧ IsLabel label ∧
      MayName name label ∧ Openable avoid after label) (claim name seen) story := by
  unfold claimable
  split
  · trivial
  next ha =>
  have hfresh (after : Story) (h : Tied [] story after) : IsLabel (story.freshLabel name) ∧
      MayName name (story.freshLabel name) ∧ Openable avoid after (story.freshLabel name) := by
    obtain ⟨n, he⟩ := story.freshLabel_eq name
    refine ⟨he ▸ isLabel_numbered name n, .inr ⟨n, he⟩, .inl ?_⟩
    exact h.eq_free_iff.mpr (status_freshLabel name)
  refine Yields.bind (Q := fun found after => story = found ∧ story = after) ⟨rfl, rfl⟩ ?_
  rintro _ _ ⟨rfl, rfl⟩
  split
  · refine Yields.bind (yields_reported t.distinct _ _) fun _ after h => ?_
    exact Yields.pure ⟨h, hfresh after h⟩
  next hn =>
  split
  · refine Yields.bind (yields_reported t.distinct _ _) fun _ after h => ?_
    exact Yields.pure ⟨h, hfresh after h⟩
  next hd =>
  refine Yields.pure ⟨tied_diagnostics t.distinct _, isLabel_of_not_numeric (by simpa using hn),
    .inl rfl, ?_⟩
  cases hs : story.status name with
  | free => exact .inl hs
  | settled => exact absurd (isDefined_iff.mpr hs) hd
  | waiting id =>
    refine .inr ⟨⟨id, hs⟩, fun ⟨written, hm, hw⟩ => ha ?_⟩
    exact List.any_eq_true.mpr ⟨written, hm, reopens_of_mayName hw⟩

section Operations

variable {front : Front} (t : Tidy (st.skipped ++ guarded) story)
  (s : Stands (st.skipped ++ guarded) st front.path front.ends.rets story)
  (b : Within story front.held)

include t s b

/-- A rule that writes one node holds ends of it and some that it held before. -/
theorem write_goes (body : Body) (pos : Position) (ends : NodeId → Ends)
    (hends : ∀ id, ∀ l ∈ (ends id).rets ++ (ends id).escs, l ∈ front.held ∨ l.node = id) :
    Goes st.write (FrontWent guarded st front story)
      (do let id ← arrive front body pos; return ⟨front.path.next, ends id⟩) story := by
  refine (arrive_goes t front body pos s).last fun st' id after ⟨hst, ha⟩ => Yields.pure ?_
  subst hst
  refine ha.went s (List.subset_append_left _ _) (fun l hl => ?_) (fun l hl => ?_) _
  · rcases hends id l hl with hm | he
    · exact .inl hm
    · exact .inr (he ▸ ha.fresh)
  · rcases hends id l hl with hm | he
    · exact b.grow ha.ran.size l hm
    · exact he ▸ ha.bound

theorem append_goes (body : Body) (pos : Position) :
    Goes st.write (FrontWent guarded st front story) (append front body pos) story := by
  refine write_goes t s b body pos (fun id => ⟨[nextEnd id], front.ends.escs⟩) fun id l hl => ?_
  rcases List.mem_append.mp hl with hl | hl
  · rw [List.mem_singleton.mp hl]
    exact .inr rfl
  · exact .inl (List.mem_append_right _ hl)

theorem prompt_goes (pos : Position) :
    Goes st.write (FrontWent guarded st front story) (prompt front pos) story := by
  refine write_goes t s b .ask pos (fun _ => ⟨front.ends.escs, []⟩) fun id l hl => ?_
  rw [List.append_nil] at hl
  exact .inl (List.mem_append_right _ hl)

theorem call_goes (label : String) (args : List Expr) (pos : Position) :
    Goes st.write (FrontWent guarded st front story) (call front label args pos) story := by
  refine write_goes t s b _ pos (fun id => ⟨[nextEnd id], front.ends.escs ++ [⟨id, .branch⟩]⟩)
    fun id l hl => ?_
  simp only [List.mem_append, List.mem_singleton] at hl
  rcases hl with rfl | hl | rfl
  · exact .inr rfl
  · exact .inl (List.mem_append_right _ hl)
  · exact .inr rfl

/-- Sending the flow elsewhere leaves the place unwritten; the placeholder of another branch is passed
by. -/
theorem divert_goes (target : Target) :
    Goes (.on st.turn) (FrontWent guarded st front story) (divert front target) story := by
  refine Yields.bind (yields_tied t.distinct target front.ends.rets) fun _ after ht => Yields.pure ?_
  have hskip : st.skipped ⊆ st.turn.skipped := by
    unfold Stance.turn
    split
    · exact List.subset_cons_self _ _
    · exact List.Subset.refl _
  have hsub := Went.avoid_subset guarded hskip
  have hran : Ran (st.skipped ++ guarded) front.path front.held story after :=
    ht.ran (List.subset_append_left _ _)
  have hclosed : ¬ Openable (st.turn.skipped ++ guarded) after front.path.label := by
    by_cases hp : front.path.indices = [0]
    · have hf := s.footing
      rw [← front.path.name_of_indices hp]
      cases hk : st.footing with
      | free =>
        rw [hk] at hf
        exact absurd hp hf.1
      | entry =>
        rw [hk] at hf
        exact absurd hp hf.1
      | label =>
        rw [hk] at hf
        obtain ⟨-, l, hl, hw⟩ := hf
        exact not_openable_of_settled (ht.settled_of_mem hl hw)
      | foreign =>
        rw [hk] at hf
        obtain ⟨-, id, hw⟩ := hf
        have hv : Avoided (st.turn.skipped ++ guarded) front.path.label :=
          ⟨st.label, by simp [Stance.turn, hk], s.written⟩
        rw [front.path.name_of_indices hp] at hw ⊢
        rintro (hfree | ⟨-, hno⟩)
        · rw [ht.eq_free_iff, hw] at hfree
          cases hfree
        · exact hno hv
      | taken =>
        rw [hk] at hf
        exact not_openable_of_settled (ht.settled hf)
    · exact fun ho => hran.not_openable s.label (s.closed hp) (ho.mono hsub)
  have hfree (p : Path) (hc : front.path.next.Covers p) : after.status p.name = .free := by
    refine ht.eq_free_iff.mpr (s.ahead p (front.path.covers_next.trans hc) ?_)
    rintro rfl
    exact front.path.next_ne (hc.antisymm front.path.covers_next)
  have hescs : front.ends.escs ⊆ front.held := List.subset_append_right _ _
  refine ⟨(ht.tidy t).mono hsub, ?_, hran, .inl front.path.covers_next, .of_subset hescs, ?_, hskip,
    ?_, ?_⟩
  · exact ⟨s.label, s.written, fun p hc _ => hfree p hc, fun _ => hclosed,
      front.path.indices_next_ne, hfree _ front.path.next.covers_self⟩
  · exact fun l hl => b.grow hran.size l (hescs hl)
  · intro he
    cases he
  · intro id he hw _ hw'
    have hf := s.footing
    rw [he] at hf
    obtain ⟨-, l, hl, hw''⟩ := hf
    rw [ht.settled_of_mem hl hw''] at hw'
    cases hw'

/-- The flow goes on at the placeholder of a label. -/
theorem enterLabel_goes (name : String) (seen pos : Position) :
    Goes (do claimable (st.skipped ++ guarded) name; return ⟨.label, name, st.skipped⟩)
      (FrontWent guarded st front story) (enterLabel front name seen pos) story := by
  refine (claim_goes t name seen).bind fun _ label mid ⟨hm, hl, hn, ho⟩ => ?_
  have t1 := hm.tidy t
  have w := t1.writable_root hl ho
  refine Yields.bind (yields_createPlaceholder t1 w pos) fun entry s1 ⟨he, hw⟩ => ?_
  refine Yields.bind (yields_tied hw.distinct _ front.ends.rets) fun _ after ht => Yields.pure ?_
  have hran : Ran (st.skipped ++ guarded) front.path front.held story after :=
    (hm.ran (List.nil_subset _)).onward <| (hw.ran w (.inr ho)).onward <|
      ht.ran (List.subset_append_left _ _)
  have hnew (l : LooseEnd) (hl : l ∈ front.ends.rets) : l.node ≠ entry := by
    have := b l (List.mem_append_left _ hl)
    rw [← hm.size, ← he] at this
    exact Nat.ne_of_lt this
  refine ⟨ht.tidy (hw.tidy w t1), ?_, hran, .inr ?_, ?_, ?_, List.Subset.refl _, ?_, ?_⟩
  · refine ⟨hl, hn, fun p hc hne => ht.eq_free_iff.mpr (hw.ahead w p hc hne),
      fun hp => absurd Path.indices_root hp, Path.indices_root, nextEnd entry, by simp, ?_⟩
    exact ht.waiting_of_not_mem hnew hw.here
  · have hm' : Ran (st.skipped ++ guarded) front.path [] story mid := hm.ran (List.nil_subset _)
    exact hm'.openable hl ho
  · intro l hl
    rcases List.mem_cons.mp hl with rfl | hl
    · exact .inr (Nat.le_of_eq (he.trans hm.size).symm)
    · exact .inl (List.mem_append_right _ hl)
  · intro l hl
    rcases List.mem_cons.mp hl with rfl | hl
    · rw [nextEnd, ht.size, hw.size, he]
      exact Nat.lt_succ_self _
    · exact b.grow hran.size l (List.mem_append_right _ hl)
  · intro h
    cases h
  · intro id hf hw1 _ hw2
    have hh := s.footing
    rw [hf] at hh
    obtain ⟨hp, l, hl', hw'⟩ := hh
    have hne : front.path ≠ .root label := by
      intro h
      rw [h] at hp
      exact hp Path.indices_root
    have hmid : mid.status front.path.name = .waiting l.node :=
      hm.waiting_of_not_mem (fun _ h => absurd h List.not_mem_nil) hw'
    rw [← hw.other w s.label hne] at hmid
    rw [ht.settled_of_mem hl' hmid] at hw2
    cases hw2

end Operations

end Storyline.Build
