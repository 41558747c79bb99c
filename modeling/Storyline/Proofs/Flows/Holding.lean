import Storyline.Proofs.Flows.Ties
import Storyline.Proofs.Flows.Waits
import Storyline.Proofs.Names.Parts

namespace Storyline

variable {names more : List String} {ends later held kept : List LooseEnd} {story mid after : Story}
  {path : Path} {id : NodeId} {label : String} {avoid frame : List String}

/-- No name comes to wait at a slot that was there before. -/
structure Ages (story after : Story) : Prop where
  size : story.slots.size ≤ after.slots.size
  stale : ∀ name id, id < story.slots.size → story.status name ≠ .waiting id →
    after.status name ≠ .waiting id

/-- A label that waits at one of the ends was written as one of the names. -/
def Named (names : List String) (ends : List LooseEnd) (story : Story) : Prop :=
  ∀ l ∈ ends, ∀ label, IsLabel label → story.status label = .waiting l.node → Avoided names label

/-- No label waits at the slot. -/
def Idle (id : NodeId) (story : Story) : Prop :=
  ∀ label, IsLabel label → story.status label ≠ .waiting id

theorem Within.of_cons {l : LooseEnd} (h : Within story (l :: ends)) : Within story ends :=
  fun other hl => h other (List.mem_cons_of_mem l hl)

theorem Ages.refl (story : Story) : Ages story story := ⟨Nat.le_refl _, fun _ _ _ h => h⟩

theorem Ages.trans (h : Ages story mid) (h' : Ages mid after) : Ages story after := by
  refine ⟨Nat.le_trans h.size h'.size, fun name id hid hs => ?_⟩
  exact h'.stale name id (Nat.lt_of_lt_of_le hid h.size) (h.stale name id hid hs)

theorem Ran.ages (h : Ran avoid path held story after) : Ages story after := ⟨h.size, h.stale⟩

theorem Tied.ages (h : Tied ends story after) : Ages story after := by
  refine ⟨Nat.le_of_eq h.size.symm, fun name id _ hs hw => ?_⟩
  exact hs (h.waiting hw)

theorem Freed.ages (h : Freed path story after) : Ages story after := by
  refine ⟨Nat.le_of_eq h.size.symm, fun name id _ hs hw => ?_⟩
  rw [h.status] at hw
  split at hw
  · cases hw
  · exact hs hw

theorem Wrote.ages {new : Status} (w : Wrote path new story after) : Ages story after := by
  have hsize := w.size
  refine ⟨by omega, fun name id hid hs hw => ?_⟩
  rw [w.status] at hw
  split at hw
  · rcases w.fresh with hn | hn
    · rw [hn] at hw
      cases hw
    · rw [hn] at hw
      cases hw
      exact Nat.lt_irrefl _ hid
  · exact hs hw

theorem Idle.ages (h : Idle id story) (hid : id < story.slots.size) (ha : Ages story after) :
    Idle id after :=
  fun label hl => ha.stale label id hid (h label hl)

/-- No label waits at a node just written. -/
theorem Wrote.idle (w : Wrote path .settled story after) : Idle story.slots.size after := by
  intro label _ hs
  rw [w.status] at hs
  split at hs
  · cases hs
  · exact Nat.lt_irrefl _ (Story.lt_size_of_waiting hs)

/-- What waits below a label is no label. -/
theorem idle_of_waiting (hl : IsLabel path.label) (hp : path.indices ≠ [0])
    (hs : story.status path.name = .waiting id) : Idle id story := by
  intro label hlabel hw
  have hname : (Path.root label).name = path.name := by
    rw [Path.name_root]
    exact Story.waiting_injective hw hs
  have hpath := Path.name_injective hlabel hl hname
  exact hp (hpath ▸ Path.indices_root)

namespace Named

theorem of_idle (h : ∀ l ∈ ends, Idle l.node story) : Named names ends story :=
  fun l hl label hlabel hw => absurd hw (h l hl label hlabel)

theorem mono (h : Named names ends story) (hm : names ⊆ more) : Named more ends story :=
  fun l hl label hlabel hw => (h l hl label hlabel hw).mono hm

theorem append (h : Named names ends story) (h' : Named more later story) :
    Named (names ++ more) (ends ++ later) story := by
  intro l hl
  rcases List.mem_append.mp hl with hl | hl
  · exact h.mono (List.subset_append_left _ _) l hl
  · exact h'.mono (List.subset_append_right _ _) l hl

/-- Ends at which no label waits may be held with the others. -/
theorem idle_append (h : Named names later story) (hi : ∀ l ∈ ends, Idle l.node story) :
    Named names (ends ++ later) story := by
  have hnone : Named [] ends story := .of_idle hi
  exact hnone.append h

theorem append_idle (h : Named names later story) (hi : ∀ l ∈ ends, Idle l.node story) :
    Named names (later ++ ends) story := by
  have hnone : Named [] ends story := .of_idle hi
  have hall := h.append hnone
  rwa [List.append_nil] at hall

theorem ages (h : Named names ends story) (hw : Within story ends) (ha : Ages story after) :
    Named names ends after := by
  intro l hl label hlabel hs
  refine h l hl label hlabel ?_
  by_cases hb : story.status label = .waiting l.node
  · exact hb
  · exact absurd hs (ha.stale label l.node (hw l hl) hb)

end Named

/-- Only a label written as `name` waits at the placeholder of such a label. -/
theorem Named.of_label {name : String} (hs : story.status label = .waiting id)
    (hn : MayName name label) : Named [name] [Build.nextEnd id] story := by
  intro l hl other _ hw
  rw [List.mem_singleton.mp hl] at hw
  obtain rfl := Story.waiting_injective hw hs
  exact ⟨name, List.mem_singleton_self _, hn⟩

/-- Where the ends held elsewhere cannot wait at a label that may be opened, these ends do. -/
theorem Led.own_of_openable (h : Led (ends ++ held) story) (hn : Named names held story)
    (hl : IsLabel label) (ho : Openable (names ++ avoid) story label)
    (hs : story.status (Path.root label).name = .waiting id) : ∃ l ∈ ends, l.node = id := by
  rw [Path.name_root] at hs
  have hno : ¬ Avoided names label := by
    rcases ho with hf | ⟨-, hno⟩
    · rw [hf] at hs
      cases hs
    · exact fun ha => hno (ha.mono (List.subset_append_left _ _))
  obtain ⟨node, hslot, -⟩ := Story.slot_of_waiting hs
  have hone : owed [] id + owed (ends ++ held) id = 1 := Tying.follows h id _ hslot
  have hheld : owed held id = 0 := by
    rw [owed_eq_zero_iff]
    rintro l hm rfl
    exact hno (hn l hm label hl hs)
  have hends : owed ends id ≠ 0 := by
    simp only [owed_nil, owed_append] at hone
    omega
  rw [Ne, owed_eq_zero_iff] at hends
  simpa using hends

/-- The ends of a front that go on with the next node, and all others. -/
theorem Led.split {front : Front} (h : Led (front.held ++ kept) story) :
    Led (front.ends.rets ++ (front.ends.escs ++ kept)) story := by
  rw [← List.append_assoc]
  exact h

/-- The ends of a front and those that the rules around it hold, with the labels that may wait at the
ends of the front. -/
structure FrontLed (kept : List LooseEnd) (w : Waits) (front : Front) (story : Story) : Prop where
  led : Led (front.held ++ kept) story
  rets : Named w.rets front.ends.rets story
  escs : Named w.escs front.ends.escs story

namespace FrontLed

variable {w : Waits} {front : Front}

theorem within (h : FrontLed kept w front story) : Within story front.held :=
  h.led.within.of_append.1

theorem within_kept (h : FrontLed kept w front story) : Within story kept :=
  h.led.within.of_append.2

theorem named_held (h : FrontLed kept w front story) : Named (w.rets ++ w.escs) front.held story :=
  h.rets.append h.escs

theorem ages (h : FrontLed kept w front story) (hl : Led (front.held ++ kept) after)
    (ha : Ages story after) : FrontLed kept w front after :=
  ⟨hl, h.rets.ages h.within.of_append.1 ha, h.escs.ages h.within.of_append.2 ha⟩

end FrontLed

theorem Stands.waits_here {st : Stance} {rets : List LooseEnd} (s : Stands avoid st path rets story)
    (hf : st.footing ≠ .foreign) (hs : story.status path.name = .waiting id) :
    ∃ l ∈ rets, l.node = id := by
  have hfoot := s.footing
  cases hk : st.footing with
  | foreign => exact absurd hk hf
  | free =>
    rw [hk] at hfoot
    rw [hfoot.2] at hs
    cases hs
  | taken =>
    rw [hk] at hfoot
    rw [show story.status path.name = .settled from hfoot] at hs
    cases hs
  | entry =>
    rw [hk] at hfoot
    obtain ⟨-, l, hl, hw⟩ := hfoot
    rw [hw] at hs
    cases hs
    exact ⟨l, hl, rfl⟩
  | label =>
    rw [hk] at hfoot
    obtain ⟨-, l, hl, hw⟩ := hfoot
    rw [hw] at hs
    cases hs
    exact ⟨l, hl, rfl⟩

namespace Build

open Story

variable {α β γ δ ε : Type} {c : Course γ} {c' : Course δ} {Q : γ → α → Story → Prop}
  {m : Build α}

/-- A run that a walk foresees also yields what it yields wherever the walk goes on. -/
theorem Goes.and {F : BuildError → Prop} {R : γ → α → Story → Prop} (h : Goes c Q m story)
    (hr : ∀ a, c = .on a → Yields F (R a) m story) :
    Goes c (fun a b s => Q a b s ∧ R a b s) m story := by
  cases c with
  | on a => exact Yields.and h (hr a rfl)
  | _ => exact h

theorem Goes.of_on {a : γ} (h : Goes c Q m story) (hc : c = .on a) :
    Yields (fun e => ¬ IsNoLinkError e) (Q a) m story := by
  rw [hc] at h
  exact h

/-- Two walks that foresee one run. -/
theorem Goes.bind_both {Q' : δ → α → Story → Prop} {R : ε → β → Story → Prop}
    {f : α → Build β} {k : γ → δ → Course ε} (h : Goes c Q m story) (h' : Goes c' Q' m story)
    (hf : ∀ a a' b s, Q a b s → Q' a' b s → Goes (k a a') R (f b) s) :
    Goes (c >>= fun a => c' >>= fun a' => k a a') R (m >>= f) story := by
  cases c with
  | on a =>
    cases c' with
    | on a' =>
      have hboth : Goes (.on (a, a')) (fun p b s => Q p.1 b s ∧ Q' p.2 b s) m story :=
        Yields.and h h'
      show Goes (k a a') R (m >>= f) story
      exact Goes.bind (k := fun p => k p.1 p.2) hboth fun p b s ⟨q, q'⟩ => hf p.1 p.2 b s q q'
    | doubtful => trivial
    | _ => exact Yields.bind h' fun _ _ he => he.elim
  | doubtful => trivial
  | _ => exact Yields.bind h fun _ _ he => he.elim

variable {st : Stance} {guarded : List String} {rets : List LooseEnd} {w : Waits}

theorem yields_create_led (t : Tidy avoid story) (wr : Writable avoid path story) (body : Body)
    (pos : Position) (h : Led (ends ++ held) story)
    (hn : ∀ id, story.status path.name = .waiting id → ∃ l ∈ ends, l.node = id) :
    Yields (fun e => ¬ IsNoLinkError e) (fun id after => id = story.slots.size ∧
      Wrote path .settled story after ∧
      Tying (.node path.name) ends (openEnds id body ++ held) after) (create path body pos) story := by
  have hfresh : ∀ l ∈ openEnds story.slots.size body, l.node = story.slots.size :=
    fun l hl => node_of_mem_openEnds hl
  have hslot : Slot.Follows (.node path.name) 0 (owed (openEnds story.slots.size body)
      story.slots.size) (.settled ⟨path.name, body, pos⟩) := trivial
  have hled := tying_addSlot h hn hfresh hslot
  refine Yields.mono (Yields.and (yields_create t wr body pos) hled) ?_
  rintro id after ⟨⟨rfl, hw⟩, -, ht⟩
  exact ⟨rfl, hw, ht⟩

theorem tying_createPlaceholder (pos : Position) (h : Led (ends ++ held) story)
    (hn : ∀ id, story.status path.name = .waiting id → ∃ l ∈ ends, l.node = id) :
    Yields (fun _ => True) (fun id after => id = story.slots.size ∧
      Tying (.node path.name) ends (nextEnd id :: held) after)
      (createPlaceholder path pos) story := by
  have hfresh : ∀ l ∈ [nextEnd story.slots.size], l.node = story.slots.size := by
    simp [nextEnd]
  have hone : Slot.Follows (.node path.name) 0 (owed [nextEnd story.slots.size] story.slots.size)
      (.placeholder ⟨path.name, .goto none, pos⟩) := by
    simp [Slot.Follows, nextEnd]
  refine Yields.mono (tying_addSlot h hn hfresh hone) ?_
  rintro id after ⟨rfl, ht⟩
  exact ⟨rfl, ht⟩

theorem yields_tied_led (hd : story.Distinct) {target : Target} (h : Tying target ends held story) :
    Yields (fun e => ¬ IsNoLinkError e) (fun _ after => Tied ends story after ∧ Led held after)
      (tie target ends) story :=
  Yields.and (yields_tied hd target ends) (led_tie h)

theorem led_report (pos : Position) (mistake : Mistake) (h : Led held story) :
    Yields (fun _ => True) (fun _ => Led held) (report pos mistake) story :=
  yields_report (h.same rfl)

theorem led_claim (name : String) (seen : Position) (h : Led held story) :
    Yields (fun _ => True) (fun _ => Led held) (claim name seen) story := by
  refine Yields.bind (Q := fun found after => story = found ∧ story = after) ⟨rfl, rfl⟩ ?_
  rintro _ _ ⟨rfl, rfl⟩
  split
  · exact Yields.bind (led_report seen _ h) fun _ _ hl => Yields.pure hl
  split
  · exact Yields.bind (led_report seen _ h) fun _ _ hl => Yields.pure hl
  · exact Yields.pure h

/-- A node was written where the front led, and took its ends. -/
structure Landed (avoid : List String) (front : Front) (kept : List LooseEnd) (body : Body)
    (story : Story) (id : NodeId) (after : Story) : Prop where
  arrived : Arrived avoid front.path front.ends.rets story id after
  led : Led (openEnds id body ++ (front.ends.escs ++ kept)) after
  idle : Idle id after

theorem arrive_led (t : Tidy avoid story) (front : Front) (body : Body) (pos : Position)
    (s : Stands avoid st front.path front.ends.rets story) (h : Led (front.held ++ kept) story) :
    Goes st.overwrite (fun st' id after => st' = { st with footing := .free } ∧
      Landed avoid front kept body story id after) (arrive front body pos) story := by
  unfold Stance.overwrite
  split
  · trivial
  next hf =>
  unfold Stance.write
  split
  · next ht =>
    have hs := s.footing
    rw [ht] at hs
    exact Yields.bind (yields_clash t.distinct hs rfl rfl) fun _ _ h => h.elim
  · next ht =>
    have wr := s.writable ht
    have hn (id : NodeId) (hw : story.status front.path.name = .waiting id) :=
      s.waits_here hf hw
    refine Yields.bind (yields_create_led t wr body pos h.split hn) fun id mid ⟨hid, hw, htie⟩ => ?_
    refine Yields.bind (yields_tied_led hw.distinct htie) fun _ after ⟨htied, hled⟩ => Yields.pure ?_
    have hlt : id < mid.slots.size := by
      rw [hw.size, hid]
      exact Nat.lt_succ_self _
    exact ⟨rfl, (Arrived.of_wrote t wr hw hid).tied wr.label htied, hled,
      Idle.ages (hid ▸ hw.idle) hlt htied.ages⟩

namespace Landed

variable {front : Front} {body : Body}

theorem named_escs (a : Landed avoid front kept body story id after) (h : FrontLed kept w front story) :
    Named w.escs front.ends.escs after :=
  h.escs.ages h.within.of_append.2 a.arrived.ran.ages

theorem named_kept (a : Landed avoid front kept body story id after) (h : FrontLed kept w front story)
    (hk : Named frame kept story) : Named frame kept after :=
  hk.ages h.within_kept a.arrived.ran.ages

theorem idle_of (a : Landed avoid front kept body story id after)
    (he : ∀ l ∈ ends, l.node = id) : ∀ l ∈ ends, Idle l.node after := by
  intro l hl
  rw [he l hl]
  exact a.idle

end Landed

section Operations

variable {front : Front} (t : Tidy (st.skipped ++ guarded) story)
  (s : Stands (st.skipped ++ guarded) st front.path front.ends.rets story)
  (h : FrontLed kept w front story)

include t s h

theorem append_led (body : Body) (pos : Position) (hb : ∀ id, openEnds id body = [nextEnd id]) :
    Goes (st.overwrite >>= fun _ => .on ⟨[], w.escs⟩) (FrontLed kept) (append front body pos)
      story := by
  refine (arrive_led t front body pos s h.led).bind fun _ id after ⟨_, a⟩ => Goes.pure ?_
  have hescs := a.named_escs h
  refine ⟨a.led.count fun _ => ?_, .of_idle (a.idle_of (by simp [nextEnd])), hescs⟩
  simp [Front.held, hb, Nat.add_assoc]

theorem prompt_led (pos : Position) :
    Goes (st.overwrite >>= fun _ => .on ⟨w.escs, []⟩) (FrontLed kept) (prompt front pos) story := by
  refine (arrive_led t front .ask pos s h.led).bind fun _ id after ⟨_, a⟩ => Goes.pure ?_
  have hescs := a.named_escs h
  refine ⟨a.led.count fun _ => ?_, hescs, .of_idle fun l hl => by cases hl⟩
  simp [Front.held, openEnds, Body.links]

theorem call_led (label : String) (args : List Expr) (pos : Position) :
    Goes (st.overwrite >>= fun _ => .on ⟨[], w.escs⟩) (FrontLed kept) (call front label args pos)
      story := by
  refine (arrive_led t front _ pos s h.led).bind fun _ id after ⟨_, a⟩ => Goes.pure ?_
  have hbranch : ∀ l ∈ [LooseEnd.mk id .branch], l.node = id := by simp
  have hescs := (a.named_escs h).append_idle (a.idle_of hbranch)
  refine ⟨a.led.count fun _ => ?_, .of_idle (a.idle_of (by simp [nextEnd])), hescs⟩
  simp only [Front.held, openEnds, Body.links, nextEnd, List.map, owed_append, owed_cons, owed_nil]
  omega

omit s in
theorem divert_led (target : Target) :
    Goes (.on ⟨[], w.escs⟩) (FrontLed kept) (divert front target) story := by
  refine Yields.bind (yields_tied_led t.distinct (h.led.split.tying target)) fun _ after ⟨ht, hl⟩ => ?_
  have hescs := h.escs.ages h.within.of_append.2 ht.ages
  exact Yields.pure ⟨hl, .of_idle fun l hm => (by cases hm), hescs⟩

omit s in
/-- A label that the ends held elsewhere do not wait for begins anew or takes over its own flow. -/
theorem enterLabel_led (name : String) (seen pos : Position) (hk : Named frame kept story) :
    Goes (claimable ((w.escs ++ frame) ++ (st.skipped ++ guarded)) name >>= fun _ =>
      .on ⟨[name], w.escs⟩) (FrontLed kept) (enterLabel front name seen pos) story := by
  have t' : Tidy ((w.escs ++ frame) ++ (st.skipped ++ guarded)) story :=
    t.mono (List.subset_append_right _ _)
  have hclaim := (claim_goes t' name seen).and (R := fun _ _ s => Led (front.held ++ kept) s)
    fun _ _ => led_claim name seen h.led
  refine hclaim.bind fun _ label mid ⟨⟨hm, hl, hn, ho⟩, hled⟩ => ?_
  have t1 := hm.tidy t'
  have wr := t1.writable_root hl ho
  have hothers : Named (w.escs ++ frame) (front.ends.escs ++ kept) mid :=
    (h.escs.append hk).ages (h.within.of_append.2.append h.within_kept) hm.ages
  have hown (id : NodeId) (hw : mid.status (Path.root label).name = .waiting id) :=
    hled.split.own_of_openable hothers hl ho hw
  refine Yields.bind (Yields.and (yields_createPlaceholder t1 wr pos)
    (tying_createPlaceholder pos hled.split hown)) fun entry s1 ⟨⟨he, hw⟩, _, htie⟩ => ?_
  refine Yields.bind (yields_tied_led hw.distinct htie) fun _ after ⟨ht, hlast⟩ => Yields.pure ?_
  have hlabel : Named [name] [nextEnd entry] s1 := by
    refine .of_label ?_ hn
    rw [← Path.name_root label]
    exact hw.here
  have hentry : Within s1 [nextEnd entry] := by
    intro l hl
    rw [List.mem_singleton.mp hl]
    exact htie.within.of_append.2 _ List.mem_cons_self
  refine ⟨hlast, hlabel.ages hentry ht.ages, ?_⟩
  exact h.escs.ages h.within.of_append.2 (hm.ages.trans (hw.ages.trans ht.ages))

end Operations

end Build

end Storyline
