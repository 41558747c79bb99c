import Storyline.Proofs.Flows.Holding
import Storyline.Proofs.Names.Linking

namespace Storyline.Build

open Story

variable {guarded frame names : List String} {st : Stance} {story : Story} {path : Path}
  {kept : List LooseEnd}

theorem overwrite_free (h : st.footing = .free) : st.overwrite = .on st := by
  unfold Stance.overwrite Stance.write
  simp only [h, reduceCtorEq, if_false]
  rw [← h]

theorem overwrite_of_ne (h : st.footing ≠ .foreign) : st.overwrite = st.write := by
  rw [Stance.overwrite, if_neg h]

/-- Guards lead past the option; no label waits at the ends of those that fail. -/
theorem guards_led (pos : Position) (gs : List Expr) (path : Path) (rets : List LooseEnd)
    (t : Tidy (st.skipped ++ guarded) story) (s : Stands (st.skipped ++ guarded) st path rets story)
    (hf : st.footing ≠ .foreign) (h : Led (rets ++ kept) story) :
    Goes (guardsCourse gs st) (fun st' (_, rets', skips) after => st'.footing ≠ .foreign ∧
      Led (rets' ++ (skips ++ kept)) after ∧ (∀ l ∈ skips, Idle l.node after) ∧ Ages story after)
      (guards pos gs path rets) story := by
  induction gs generalizing st path rets kept story with
  | nil => exact Goes.pure ⟨hf, h, fun l hl => (by cases hl), .refl _⟩
  | cons guard rest ih =>
    have hheld : Led (Front.held ⟨path, rets, []⟩ ++ kept) story := by
      simpa [Front.held] using h
    have ha := arrive_led t ⟨path, rets, []⟩ (.jump guard.inverted none none) pos s hheld
    rw [overwrite_of_ne hf] at ha
    refine ha.last ?_
    rintro st1 id mid ⟨hst, a⟩
    have hs : Stands (st1.skipped ++ guarded) st1 path.next [nextEnd id] mid := by
      rw [hst]
      exact a.arrived.stands s.label s.written path.covers_next path.next_ne path.indices_next_ne _
    have hfree : guardsCourse rest st1 = .on st1 := by
      rw [hst]
      unfold guardsCourse Stance.write
      split <;> rfl
    have hled : Led ([nextEnd id] ++ (⟨id, .branch⟩ :: kept)) mid := by
      refine a.led.count fun _ => ?_
      simp only [openEnds, Body.links, nextEnd, List.map, owed_append, owed_cons, owed_nil]
      omega
    have t1 : Tidy (st1.skipped ++ guarded) mid := by
      rw [hst]
      exact a.arrived.tidy
    have hi := ih path.next [nextEnd id] t1 hs (by simp [hst]) hled
    rw [hfree] at hi
    refine Yields.bind hi ?_
    rintro ⟨path', rets', skips⟩ after ⟨hne, hl, hidle, hage⟩
    refine Yields.pure ?_
    have hbranch := a.idle.ages a.arrived.bound hage
    refine ⟨hne, hl.count fun _ => ?_, ?_, a.arrived.ran.ages.trans hage⟩
    · simp only [owed_append, owed_cons]
      omega
    · intro l hl
      rcases List.mem_cons.mp hl with rfl | hl
      · exact hbranch
      · exact hidle l hl

theorem chain_led (pos : Position) (assignments : List Assignment) (path : Path)
    (rets : List LooseEnd) (hf : st.footing = .free) (t : Tidy (st.skipped ++ guarded) story)
    (s : Stands (st.skipped ++ guarded) st path rets story) (h : Led (rets ++ kept) story) :
    Yields (fun e => ¬ IsNoLinkError e) (fun (_, rets') after => after.Distinct ∧
      Led (rets' ++ kept) after ∧ Ages story after) (chain pos assignments path rets) story := by
  induction assignments generalizing path rets story with
  | nil => exact Yields.pure ⟨t.distinct, h, .refl _⟩
  | cons assignment rest ih =>
    have hheld : Led (Front.held ⟨path, rets, []⟩ ++ kept) story := by
      simpa [Front.held] using h
    have hst : { st with footing := .free } = st := by rw [← hf]
    have ha := arrive_led t ⟨path, rets, []⟩
      (.content (.move assignment.target assignment.source) none) pos s hheld
    rw [overwrite_free hf] at ha
    refine Yields.bind ha fun id mid ⟨_, a⟩ => ?_
    have hs := a.arrived.stands s.label s.written path.covers_next path.next_ne
      path.indices_next_ne [nextEnd id]
    rw [hst] at hs
    exact Yields.mono (ih path.next [nextEnd id] a.arrived.tidy hs a.led)
      fun _ _ ⟨hd, hl, hage⟩ => ⟨hd, hl, a.arrived.ran.ages.trans hage⟩

theorem consequences_led (pos : Position) (assignments : List Assignment) (draft : Draft)
    (hf : st.footing = .free) (t : Tidy (st.skipped ++ guarded) story)
    (s : Stands (st.skipped ++ guarded) st draft.path [] story) (h : Led kept story) :
    Yields (fun e => ¬ IsNoLinkError e) (fun _ after => Led kept after ∧ Ages story after)
      (consequences pos assignments draft) story := by
  unfold consequences
  split
  · exact Yields.pure ⟨h, .refl _⟩
  · refine Yields.bind (chain_led pos assignments draft.path [] hf t s h) ?_
    rintro ⟨path', rets'⟩ mid ⟨hd, hl, hage⟩
    refine Yields.bind (yields_tied_led hd (hl.tying .ret)) fun _ after ⟨ht, hlast⟩ => ?_
    exact Yields.pure ⟨hlast, hage.trans ht.ages⟩

theorem conclude_led {draft : Draft} (pos : Position) (t : Tidy (st.skipped ++ guarded) story)
    (s : draft.advancing = false → Stands (st.skipped ++ guarded) st draft.path [] story)
    (h : Led (draft.escs ++ kept) story) (hn : Named names draft.escs story) :
    Goes (if draft.advancing then pure st else st.overwrite) (fun st' draft' after =>
      Tidy (st'.skipped ++ guarded) after ∧ Led (draft'.escs ++ kept) after ∧
      Named names draft'.escs after ∧ Ages story after) (conclude pos draft) story := by
  unfold conclude
  split
  · exact Goes.pure ⟨t, h, hn, .refl _⟩
  next ha =>
  have s := s (by simpa using ha)
  unfold Stance.overwrite
  split
  · trivial
  next hf =>
  unfold Stance.write
  split
  · next ht =>
    have hs := s.footing
    rw [ht] at hs
    exact Yields.bind (yields_clash t.distinct hs rfl rfl) fun _ _ h => h.elim
  next ht =>
  have wr := s.writable ht
  have hown (id : NodeId) (hw : story.status draft.path.name = .waiting id) :
      ∃ l ∈ ([] : List LooseEnd), l.node = id := s.waits_here hf hw
  have hheld : Led ([] ++ (draft.escs ++ kept)) story := h
  have hw := yields_create_led t wr (.goto none) pos hheld hown
  refine Yields.bind hw fun id after ⟨hid, hw, htie⟩ => Yields.pure ?_
  have hidle : ∀ l ∈ [nextEnd id], Idle l.node after := by
    intro l hl
    rw [List.mem_singleton.mp hl, nextEnd, hid]
    exact hw.idle
  refine ⟨hw.tidy wr t, htie.done.count fun _ => ?_, ?_, hw.ages⟩
  · simp only [openEnds, Body.links, nextEnd, List.map, owed_append, owed_cons, owed_nil]
    omega
  · exact (hn.ages h.within.of_append.1 hw.ages).append_idle hidle

/-- A part that wrote nothing gives up its placeholder, whose end is tied to the return; the ends of any
other part go there too, or wait for the next prompt. -/
theorem settle_led (role : Role) (last : Bool) {front : Front} {draft : Draft} {st' : Stance}
    {w : Waits} {before : Story} {entry : NodeId}
    (hw : Went guarded st draft.path [nextEnd entry] before st' front.path front.ends.rets
      front.held story)
    (hf : st.footing = .entry) (he : before.status draft.path.name = .waiting entry)
    (h : FrontLed (draft.escs ++ kept) w front story) (hn : Named names draft.escs story) :
    Yields (fun e => ¬ IsNoLinkError e) (fun draft' after => Led (draft'.escs ++ kept) after ∧
      Named (names ++ if last && role == .answer && st'.footing != .entry then w.escs ++ w.rets
        else w.escs) draft'.escs after ∧ Ages story after)
      (settle role last entry front draft) story := by
  refine Yields.bind (Q := fun found after => story = found ∧ story = after) ⟨rfl, rfl⟩ ?_
  rintro _ _ ⟨rfl, rfl⟩
  dsimp only
  rw [isEmpty_eq hw hf he]
  have hdraft : Within story draft.escs := h.within_kept.of_append.1
  have hrets : Within story front.ends.rets := h.within.of_append.1
  have hescs : Within story front.ends.escs := h.within.of_append.2
  have hheld : Led (front.ends.rets ++ (draft.escs ++ front.ends.escs ++ kept)) story := by
    refine h.led.count fun _ => ?_
    simp only [Front.held, owed_append]
    omega
  by_cases hk : st'.footing = .entry
  · obtain ⟨-, hpath, hsame⟩ := hw.stays hk
    rw [he] at hsame
    have hplace := isPlaceholder_of_waiting hsame
    have hown : ∃ l ∈ front.ends.rets, l.node = entry := by
      refine hw.stands.waits_here (by simp [hk]) ?_
      rw [hpath]
      exact hsame
    simp only [hk, decide_true, fileSegment, if_true, bne_self_eq_false, Bool.and_false,
      Bool.not_true, Bool.false_eq_true, if_false]
    refine Yields.bind (Yields.bind (Yields.and (yields_freed hw.tidy hsame)
      (tying_discard hheld hplace hown)) fun _ mid hd => Yields.pure (Q := fun filed s =>
        filed = draft ∧ Freed draft.path story s ∧ Tying .ret front.ends.rets
          (draft.escs ++ front.ends.escs ++ kept) s) ⟨rfl, hd⟩) ?_
    rintro filed mid ⟨rfl, hd, htie⟩
    refine Yields.bind (yields_tied_led hd.distinct htie) ?_
    rintro _ after ⟨ht, hl⟩
    have hage := hd.ages.trans ht.ages
    exact Yields.pure ⟨hl, (hn.ages hdraft hage).append (h.escs.ages hescs hage), hage⟩
  · have hkd : decide (st'.footing = .entry) = false := decide_eq_false hk
    have hne : (st'.footing != .entry) = true := by simpa using hk
    have hfile : Yields (fun e => ¬ IsNoLinkError e)
        (fun filed s => filed.escs = draft.escs ∧ story = s)
        (fileSegment role false entry draft) story := Yields.pure ⟨by cases role <;> rfl, rfl⟩
    rw [hkd, hne]
    simp only [Bool.not_false, Bool.and_true]
    refine Yields.bind hfile ?_
    rintro filed _ ⟨hfiled, rfl⟩
    cases hadv : last && role == Role.answer with
    | true =>
      simp only [if_true]
      refine Yields.pure ⟨hheld.count fun _ => ?_, ?_, .refl _⟩
      · simp only [hfiled, owed_append]
        omega
      · simp only [hfiled, List.append_assoc]
        exact hn.append (h.escs.append h.rets)
    | false =>
      simp only [Bool.false_eq_true, if_false]
      refine Yields.bind (yields_tied_led hw.tidy.distinct (hheld.tying .ret)) ?_
      rintro _ after ⟨ht, hl⟩
      refine Yields.pure ⟨?_, ?_, ht.ages⟩
      · simp only [hfiled]
        exact hl
      · simp only [hfiled]
        exact (hn.ages hdraft ht.ages).append (h.escs.ages hescs ht.ages)

theorem beginPart_led {draft : Draft} {held : List LooseEnd} (t : Tidy (st.skipped ++ guarded) story)
    (s : Stands (st.skipped ++ guarded) st draft.path [] story) (pos : Position)
    (h : Led held story) :
    Goes st.beginPart (fun inside entry mid => (inside = { st with footing := .entry } ∧
      Opened (st.skipped ++ guarded) inside draft.path [] story entry mid) ∧
      Led (nextEnd entry :: held) mid) (createPlaceholder draft.path pos) story := by
  refine (beginPart_goes t s pos).and (F := fun _ => True) fun inside hin => ?_
  have hne : st.footing ≠ .foreign := by
    intro hf
    rw [Stance.beginPart, hf] at hin
    cases hin
  have hheld : Led ([] ++ held) story := h
  exact Yields.mono (tying_createPlaceholder pos hheld fun id hw => s.waits_here hne hw)
    fun _ _ ⟨_, ht⟩ => ht.done

/-- What waits at a placeholder just opened is the label of the place, or none. -/
theorem Opened.named {avoid : List String} {inside : Stance} {held : List LooseEnd}
    {entry : NodeId} {after : Story} (o : Opened avoid inside path held story entry after)
    (hf : inside.footing = .label ∨ inside.footing = .entry) :
    Named inside.guards [nextEnd entry] after := by
  have hfoot := o.stands.footing
  rcases hf with hf | hf
  · rw [hf] at hfoot
    have hwaits := o.waits
    rw [path.name_of_indices hfoot.1] at hwaits
    have hguards : inside.guards = [inside.label] := by simp [Stance.guards, hf]
    rw [hguards]
    exact .of_label hwaits o.stands.written
  · rw [hf] at hfoot
    refine .of_idle fun l hl => ?_
    rw [List.mem_singleton.mp hl]
    exact idle_of_waiting o.stands.label hfoot.1 o.waits

theorem node_of_mem_caseEnds {id : NodeId} {index : Nat} {found : List Case} :
    ∀ l ∈ caseEnds id index found, l.node = id := by
  induction found generalizing index with
  | nil => exact fun l hl => by cases hl
  | cons case rest ih =>
    intro l hl
    rcases List.mem_cons.mp hl with rfl | hl
    · rfl
    · exact ih l hl

theorem node_of_mem_fallThrough {id : NodeId} {selection : Selection} :
    ∀ l ∈ selection.fallThrough id, l.node = id := by
  intro l hl
  cases selection <;> simp [Selection.fallThrough] at hl
  exact hl ▸ rfl

/-- A placeholder takes the place of what stands here unless that waits for another branch. -/
theorem reuse_led {front : Front} {w : Waits} (t : Tidy (st.skipped ++ guarded) story)
    (s : Stands (st.skipped ++ guarded) st front.path front.ends.rets story)
    (h : FrontLed kept w front story) (pos : Position) :
    Goes st.reuse (fun inside entry mid => (st.footing ≠ .taken ∧ entry = story.slots.size ∧
      Wrote front.path (.waiting entry) story mid ∧ ∃ footing, inside = { st with footing } ∧
        (footing = .label ∧ front.path.indices = [0] ∨
          footing = .entry ∧ front.path.indices ≠ [0])) ∧
      Tying (.node front.path.name) front.ends.rets
        (nextEnd entry :: (front.ends.escs ++ kept)) mid) (createPlaceholder front.path pos) story := by
  unfold Stance.reuse
  split
  · trivial
  next hf =>
  refine (beginLoop_goes t s pos).and (F := fun _ => True) fun _ _ => ?_
  exact Yields.mono (tying_createPlaceholder pos h.led.split fun id hw => s.waits_here hf hw)
    fun _ _ ⟨_, ht⟩ => ht

/-- Linking an item ties what it takes to where it was to go; `kept` are the ends held around it. -/
def ItemLed (i : Item) : Prop :=
  ∀ (guarded frame : List String) (st : Stance) (w : Waits) (front : Front) {story : Story}
    {kept : List LooseEnd}, Tidy (st.skipped ++ guarded) story →
    Stands (st.skipped ++ guarded) st front.path front.ends.rets story →
    FrontLed kept w front story → Named frame kept story →
    Goes (i.waits guarded frame st w) (FrontLed kept) (item i front) story

/-- Linking a thread does so, wherever it starts. -/
def ThreadLed (items : List Item) : Prop :=
  ∀ (guarded frame : List String) (st : Stance) (w : Waits) (front : Front) {story : Story}
    {kept : List LooseEnd}, Tidy (st.skipped ++ guarded) story →
    Stands (st.skipped ++ guarded) st front.path front.ends.rets story →
    FrontLed kept w front story → Named frame kept story →
    Goes (Script.waits guarded frame items st w) (fun (st', w') front' after =>
      FrontWent guarded st front story st' front' after ∧ FrontLed kept w' front' after)
      (thread items front) story

/-- Linking cases ties what they take, the ends of the node that leads to them among it. -/
def CasesLed (found : List Case) : Prop :=
  ∀ (guarded frame : List String) (st : Stance) (id : NodeId) (index : Nat) (path : Path)
    {story : Story} {kept : List LooseEnd}, Tidy (st.skipped ++ guarded) story →
    Stands (st.skipped ++ guarded) st path [] story → id < story.slots.size → Idle id story →
    Led (caseEnds id index found ++ kept) story → Named frame kept story →
    Goes (Script.caseWaits guarded frame found st) (fun w front after =>
      FrontLed kept w front after ∧ Ages story after) (cases id index found path) story

/-- Linking the parts of an option ties what they take. -/
def SegmentsLed (parts : List Segment) : Prop :=
  ∀ (guarded frame : List String) (st : Stance) (names : List String) (draft : Draft)
    {story : Story} {kept : List LooseEnd}, Tidy (st.skipped ++ guarded) story →
    (parts ≠ [] → Stands (st.skipped ++ guarded) st draft.path [] story) →
    Led (draft.escs ++ kept) story → Named names draft.escs story → Named frame kept story →
    Goes (Script.segmentWaits guarded frame parts st names) (fun names' draft' after =>
      Led (draft'.escs ++ kept) after ∧ Named names' draft'.escs after ∧ Ages story after)
      (segments parts draft) story

theorem loop_led (pos : Position) {body : List Item} (hbody : ThreadLed body) :
    ItemLed (.loop pos body) := by
  intro guarded frame st w front story kept t s h hk
  refine (reuse_led t s h pos).bind fun inside entry mid ⟨⟨hst, he, hw, f, hin, hf⟩, htie⟩ => ?_
  subst hin
  refine Goes.step (yields_tied_led hw.distinct htie) fun _ s1 ⟨ht, hl⟩ => ?_
  have o : Opened (st.skipped ++ guarded) { st with footing := f } front.path front.held story
      entry s1 := .of_wrote t s hst h.within.of_append.1 (List.subset_append_left _ _) hw he ht hf
  have hinside : FrontLed (front.ends.escs ++ kept) ⟨Stance.guards { st with footing := f }, []⟩
      (entering front.path (nextEnd entry)) s1 :=
    ⟨hl, o.named (hf.imp And.left And.left), .of_idle fun l hm => by cases hm⟩
  have hescs := h.escs.ages h.within.of_append.2 o.ran.ages
  have hk1 := hescs.append (hk.ages h.within_kept o.ran.ages)
  refine Goes.bind (hbody guarded (w.escs ++ frame) { st with footing := f } _
    (entering front.path (nextEnd entry)) o.tidy o.stands hinside hk1)
    fun ⟨_, w2⟩ front2 s2 ⟨h2, hl2⟩ => ?_
  have hall : Led (front2.ends.rets ++ (front.ends.escs ++ front2.ends.escs ++ kept)) s2 := by
    refine hl2.led.count fun _ => ?_
    simp only [Front.held, owed_append]
    omega
  refine Yields.bind (yields_tied_led h2.tidy.distinct (hall.tying _)) fun _ after ⟨ht2, hl3⟩ => ?_
  have hold := hescs.ages (h.within.of_append.2.grow o.ran.size) (h2.ran.ages.trans ht2.ages)
  have hnew := hl2.escs.ages hl2.within.of_append.2 ht2.ages
  exact Yields.pure ⟨hl3, .of_idle fun l hm => (by cases hm), hold.append hnew⟩

theorem define_led (pos : Position) (name : String) (params : List String) (seen : Position)
    {body : List Item} (hbody : ThreadLed body) :
    ItemLed (.define pos name params seen body) := by
  intro guarded frame st w front story kept t s h hk
  have hguards := subset_guards st guarded
  have hsub : st.skipped ++ (st.guards ++ guarded) ⊆
      (w.rets ++ w.escs ++ frame) ++ (st.skipped ++ (st.guards ++ guarded)) :=
    List.subset_append_right _ _
  have hclaim := (claim_goes (t.mono (List.Subset.trans hguards hsub)) name seen).and
    (R := fun _ _ s => Led (front.held ++ kept) s) fun _ _ => led_claim name seen h.led
  refine hclaim.bind fun _ label mid ⟨⟨hm, hl, hn, ho⟩, hled⟩ => ?_
  have t1 : Tidy (st.skipped ++ (st.guards ++ guarded)) mid := hm.tidy (t.mono hguards)
  have wr := t1.writable_root hl (ho.mono hsub)
  have hothers := (h.named_held.append hk).ages (h.within.append h.within_kept) hm.ages
  -- Nothing waits at the label: its end would be held by the front or around it.
  have hnone (id : NodeId) (hw : mid.status (Path.root label).name = .waiting id) :
      ∃ l ∈ ([] : List LooseEnd), l.node = id :=
    Led.own_of_openable hled hothers hl ho hw
  have hheld : Led ([] ++ (front.held ++ kept)) mid := hled
  refine Goes.step (yields_create_led t1 wr (.define params none) pos hheld hnone)
    fun id s1 ⟨hid, hw, htie⟩ => ?_
  have a : Arrived (st.skipped ++ (st.guards ++ guarded)) (.root label) [] mid id s1 :=
    .of_wrote t1 wr hw hid
  have hn : MayName (Stance.label ⟨.free, name, st.skipped⟩) (Path.root label).label := hn
  have hs1 : Stands (st.skipped ++ (st.guards ++ guarded)) ⟨.free, name, st.skipped⟩
      (Path.root label).next [nextEnd id] s1 :=
    a.stands hl hn (Path.covers_next _) (Path.next_ne _) (Path.indices_next_ne _) _
  have hinside : FrontLed (front.held ++ kept) ⟨[], []⟩
      (entering (Path.root label).next (nextEnd id)) s1 := by
    refine ⟨htie.done, .of_idle fun l hl => ?_, .of_idle fun l hl => by cases hl⟩
    rw [List.mem_singleton.mp hl, nextEnd, hid]
    exact hw.idle
  have hwithin : Within mid (front.held ++ kept) := hled.within
  refine Goes.bind (hbody (st.guards ++ guarded) (w.rets ++ w.escs ++ frame)
    ⟨.free, name, st.skipped⟩ _ (entering (Path.root label).next (nextEnd id)) a.tidy hs1 hinside
    (hothers.ages hwithin hw.ages)) fun ⟨st2, w2⟩ front2 s2 ⟨h2, hl2⟩ => ?_
  refine Goes.step (yields_tied_led h2.tidy.distinct (hl2.led.split.tying .ret)) fun _ s3 ⟨ht3, hl3⟩ => ?_
  refine Goes.step (yields_tied_led ht3.distinct (hl3.tying .esc)) fun _ after ⟨ht4, hl4⟩ => ?_
  have hage := (hm.ages.trans hw.ages).trans (h2.ran.ages.trans (ht3.ages.trans ht4.ages))
  exact Goes.pure (h.ages hl4 hage)

theorem jump_led (pos : Position) (condition : Expr) {yes no : List Item} (hyes : ThreadLed yes)
    (hno : ThreadLed no) :
    ItemLed (.jump pos condition yes no) := by
  intro guarded frame st w front story kept t s h hk
  refine (arrive_led t front _ pos s h.led).bind fun st1 id mid ⟨hst, a⟩ => ?_
  subst hst
  have hs1 := a.arrived.stands s.label s.written (front.path.covers_child 1)
    (front.path.child_ne 1) (front.path.indices_child_ne 1) [nextEnd id]
  have hfirst : FrontLed (⟨id, .branch⟩ :: (front.ends.escs ++ kept)) ⟨[], []⟩
      (entering front.path.firstChild (nextEnd id)) mid := by
    refine ⟨a.led.count fun _ => ?_, .of_idle (a.idle_of ?_), .of_idle fun l hl => by cases hl⟩
    · simp only [Front.held, entering, openEnds, Body.links, nextEnd, List.map, owed_append,
        owed_cons, owed_nil]
      omega
    · simp [entering, nextEnd]
  have hescs := a.named_escs h
  have hkept := a.named_kept h hk
  have hbranch : ∀ l ∈ [LooseEnd.mk id .branch], l.node = id := by simp
  have hk1 : Named (w.escs ++ frame) (⟨id, .branch⟩ :: (front.ends.escs ++ kept)) mid :=
    (hescs.append hkept).idle_append (a.idle_of hbranch)
  refine Goes.bind (hyes guarded (w.escs ++ frame) { st with footing := .free } _
    (entering front.path.firstChild (nextEnd id)) a.arrived.tidy hs1 hfirst hk1) ?_
  rintro ⟨st2, w2⟩ front2 s2 ⟨h2, hl2⟩
  have hne : st2.footing ≠ .entry := fun he => by cases (h2.stays he).1
  have hskip := skipped_nextBranch st2
  have hidle := a.idle.ages a.arrived.bound h2.ran.ages
  -- While the second branch is linked the ends of the first are held around it.
  have hsecond : FrontLed (front2.held ++ (front.ends.escs ++ kept)) ⟨[], []⟩
      (entering front2.path ⟨id, .branch⟩) s2 := by
    refine ⟨hl2.led.count fun _ => ?_, .of_idle fun l hl => ?_, .of_idle fun l hl => by cases hl⟩
    · simp only [Front.held, entering, owed_append, owed_cons, owed_nil]
      omega
    · rw [List.mem_singleton.mp hl]
      exact hidle
  have hwithin : Within mid (front.ends.escs ++ kept) := hfirst.within_kept.of_cons
  have hall := (hescs.append hkept).ages hwithin h2.ran.ages
  refine Goes.bind (hno guarded (w2.rets ++ w2.escs ++ (w.escs ++ frame)) st2.nextBranch _
    (entering front2.path ⟨id, .branch⟩) (hskip ▸ h2.tidy) (hskip ▸ h2.stands.nextBranch hne _)
    hsecond (hl2.named_held.append hall)) ?_
  rintro ⟨st3, w3⟩ front3 after ⟨h3, hl3⟩
  refine Goes.pure ?_
  have hold := (hescs.ages hwithin.of_append.1 h2.ran.ages).ages
    (hwithin.of_append.1.grow h2.ran.size) h3.ran.ages
  refine ⟨hl3.led.count fun _ => ?_, ?_, ?_⟩
  · simp only [Front.held, Ends.append, List.nil_append, owed_append]
    omega
  · exact (hl2.rets.ages hl2.within.of_append.1 h3.ran.ages).append hl3.rets
  · exact hold.append ((hl2.escs.ages hl2.within.of_append.2 h3.ran.ages).append hl3.escs)

theorem switch_led (pos : Position) (selection : Selection) {found : List Case}
    (hfound : CasesLed found) :
    ItemLed (.switch pos selection found) := by
  intro guarded frame st w front story kept t s h hk
  refine (arrive_led t front _ pos s h.led).bind fun st1 id mid ⟨hst, a⟩ => ?_
  subst hst
  have hs1 := a.arrived.stands s.label s.written (front.path.covers_child 1)
    (front.path.child_ne 1) (front.path.indices_child_ne 1) []
  have hescs := a.named_escs h
  have hkept := a.named_kept h hk
  have hfall : ∀ l ∈ selection.fallThrough id, Idle l.node mid :=
    a.idle_of node_of_mem_fallThrough
  have hled : Led (caseEnds id 0 found ++ (selection.fallThrough id ++ (front.ends.escs ++ kept)))
      mid := by
    refine a.led.count fun _ => ?_
    simp only [openEnds_switch, owed_append]
    omega
  refine Goes.bind (hfound guarded (w.escs ++ frame) { st with footing := .free } id 0
    front.path.firstChild a.arrived.tidy hs1 a.arrived.bound a.idle hled
    ((hescs.append hkept).idle_append hfall)) fun w2 front2 after ⟨hl2, hage⟩ => Goes.pure ?_
  have hwithin : Within mid (front.ends.escs ++ kept) := a.led.within.of_append.2
  refine ⟨hl2.led.count fun _ => ?_, hl2.rets.append_idle fun l hl => ?_, ?_⟩
  · simp only [Front.held, owed_append]
    omega
  · rw [node_of_mem_fallThrough l hl]
    exact a.idle.ages a.arrived.bound hage
  · exact (hescs.ages hwithin.of_append.1 hage).append hl2.escs

/-- Behind an option lie its own end and those of its guards; what its parts hold for the next prompt
goes with what the front held. -/
theorem led_behind_option {w : Waits} {front : Front} {path : Path} {id : NodeId} {skips escs : List LooseEnd}
    {after : Story} (h : FrontLed kept w front story) (hage : Ages story after)
    (hl : Led (escs ++ nextEnd id :: (skips ++ (front.ends.escs ++ kept))) after)
    (hi : ∀ l ∈ nextEnd id :: skips, Idle l.node after) (hn : Named names escs after) :
    FrontLed kept ⟨[], w.escs ++ names⟩
      ⟨path, skips ++ [nextEnd id], front.ends.escs ++ escs⟩ after := by
  refine ⟨hl.count fun _ => ?_, .of_idle fun l hm => hi l ?_, ?_⟩
  · simp only [Front.held, owed_append, owed_cons, owed_nil]
    omega
  · simpa [or_comm] using hm
  · exact (h.escs.ages h.within.of_append.2 hage).append hn

theorem option_led (pos : Position) (leader : Leader) (terms : Terms) {parts : List Segment}
    (hparts : SegmentsLed parts) :
    ItemLed (.option pos leader terms parts) := by
  intro guarded frame st w front story kept t s h hk
  by_cases hf : st.footing = .foreign
  · rw [Item.waits, Stance.overwrite, if_pos hf]
    trivial
  rw [Item.waits, overwrite_of_ne hf, guardsCourse_write (terms.ledBy leader front.path).guards]
  refine Goes.bind ((guards_goes pos _ front.path front.ends.rets t s h.within.of_append.1).and
    fun _ hc => (guards_led pos _ front.path front.ends.rets t s hf h.led.split).of_on hc)
    fun st1 ⟨path1, rets1, skips⟩ s1 ⟨⟨_, h1⟩, hne, hled1, hidle1, hage1⟩ => ?_
  rw [← overwrite_of_ne hne]
  have hfront : Led (Front.held ⟨path1, rets1, []⟩ ++ (skips ++ (front.ends.escs ++ kept))) s1 := by
    simpa [Front.held] using hled1
  refine (arrive_led h1.tidy ⟨path1, rets1, []⟩ _ pos h1.stands hfront).bind
    fun st2 id mid ⟨hst, a⟩ => ?_
  subst hst
  have hs2 := a.arrived.stands h1.stands.label h1.stands.written (path1.covers_child 1)
    (path1.child_ne 1) (path1.indices_child_ne 1) []
  have hfree : ({ st1 with footing := .free } : Stance).footing = .free := rfl
  have hown : Led (nextEnd id :: (skips ++ (front.ends.escs ++ kept))) mid := a.led
  refine Goes.step (Yields.and (consequences_goes pos _ ⟨path1.firstChild, [], [], [], false⟩ hfree
    a.arrived.tidy hs2) (consequences_led pos _ ⟨path1.firstChild, [], [], [], false⟩ hfree
    a.arrived.tidy hs2 hown)) fun draft2 s2 ⟨⟨hescs, hadv, h2⟩, hled2, hage2⟩ => ?_
  have hage := hage1.trans (a.arrived.ran.ages.trans hage2)
  have hlater := a.arrived.ran.ages.trans hage2
  have hskips : ∀ l ∈ nextEnd id :: skips, Idle l.node s2 := by
    intro l hl
    rcases List.mem_cons.mp hl with rfl | hl
    · exact a.idle.ages a.arrived.bound hage2
    · exact (hidle1 l hl).ages (hled1.within.of_append.2.of_append.1 l hl) hlater
  have hcarried := (h.escs.append hk).ages (h.within.of_append.2.append h.within_kept) hage
  have hkept2 : Named (w.escs ++ frame) (nextEnd id :: (skips ++ (front.ends.escs ++ kept))) s2 :=
    hcarried.idle_append hskips
  have hnil : draft2.escs = [] := hescs
  have hled3 : Led (draft2.escs ++ nextEnd id :: (skips ++ (front.ends.escs ++ kept))) s2 := by
    rw [hnil]
    exact hled2
  have hb : Within s2 draft2.escs := hled3.within.of_append.1
  have hsegs := Goes.segments parts guarded { st1 with footing := .free } draft2 h2.tidy
    h2.stands.label (fun _ => h2.stands) hb
  rw [hadv] at hsegs
  refine Goes.bind_both (hparts guarded (w.escs ++ frame)
    { st1 with footing := .free } [] draft2 h2.tidy (fun _ => h2.stands) hled3
    (.of_idle fun l hl => by rw [hnil] at hl; cases hl) hkept2) hsegs
    fun names ⟨st3, advancing⟩ draft3 s3 ⟨hled4, hn3, hage3⟩ ⟨hadv3, h3⟩ => ?_
  dsimp only
  rw [ite_bind]
  refine Goes.bind (hadv3 ▸ conclude_led pos h3.part.tidy h3.part.stands hled4 hn3)
    fun st4 draft4 s4 ⟨ht4, hled5, hn4, hage4⟩ => ?_
  refine Goes.step (Yields.and (yields_modified ht4 id _) (led_modifyBody id _ hled5))
    fun _ after ⟨ht, hled6⟩ => Goes.pure ?_
  have hend := hage3.trans (hage4.trans ht.ages)
  have hwithin : Within s2 (nextEnd id :: skips) := hled3.within.of_append.2.of_append.1
  exact led_behind_option h (hage.trans hend) hled6
    (fun l hl => (hskips l hl).ages (hwithin l hl) hend)
    (hn4.ages hled5.within.of_append.1 ht.ages)

mutual

theorem item_led (i : Item) : ItemLed i := by
  intro guarded frame st w front story kept t s h hk
  cases i with
  | report d =>
    refine Goes.step (Yields.and (yields_reported t.distinct d.pos d.mistake)
      (led_report d.pos d.mistake h.led)) fun _ after ⟨ht, hl⟩ => Goes.pure (h.ages hl ht.ages)
  | cut => exact fun _ => rfl
  | passed left => exact Goes.pure h
  | content pos c => exact append_led t s h (.content c none) pos fun _ => rfl
  | ask pos => exact prompt_led t s h pos
  | leave => exact divert_led t h .ret
  | goto label => exact divert_led t h (.node label)
  | call pos label args => exact call_led t s h label args pos
  | label pos name seen => exact enterLabel_led t h name seen pos hk
  | loop pos body => exact loop_led pos (thread_led body) guarded frame st w front t s h hk
  | define pos name params seen body =>
    exact define_led pos name params seen (thread_led body) guarded frame st w front t s h hk
  | jump pos condition yes no =>
    exact jump_led pos condition (thread_led yes) (thread_led no) guarded frame st w front t s h hk
  | switch pos selection found =>
    exact switch_led pos selection (cases_led found) guarded frame st w front t s h hk
  | option pos leader terms parts =>
    exact option_led pos leader terms (segments_led parts) guarded frame st w front t s h hk

theorem thread_led (items : List Item) : ThreadLed items := by
  intro guarded frame st w front story kept t s h hk
  cases items with
  | nil => exact Goes.pure ⟨Went.refl t s h.within, h⟩
  | cons i rest =>
    -- The course tells where the item leaves off, the walk beside it what may wait there.
    refine Goes.bind_both (Goes.item i guarded st front t s h.within)
      (item_led i guarded frame st w front t s h hk) fun st1 w1 front1 s1 h1 hl1 => ?_
    have hk1 := hk.ages h.within_kept h1.ran.ages
    exact Goes.mono (thread_led rest guarded frame st1 w1 front1 h1.tidy h1.stands hl1 hk1)
      fun _ _ _ ⟨h', hl'⟩ => ⟨h1.trans h', hl'⟩

theorem cases_led (found : List Case) : CasesLed found := by
  intro guarded frame st id index path story kept t s hid hidle h hk
  cases found with
  | nil => exact Goes.pure ⟨⟨h, .of_idle fun l hl => (by cases hl), .of_idle fun l hl => (by cases hl)⟩,
      .refl _⟩
  | cons case rest =>
    obtain ⟨weight, body⟩ := case
    have hone : ∀ l ∈ [LooseEnd.mk id (.case index)], Idle l.node story := by
      intro l hl
      rw [List.mem_singleton.mp hl]
      exact hidle
    have hfirst : FrontLed (caseEnds id (index + 1) rest ++ kept) ⟨[], []⟩
        (entering path ⟨id, .case index⟩) story :=
      ⟨h, .of_idle hone, .of_idle fun l hl => by cases hl⟩
    have hrest : ∀ l ∈ caseEnds id (index + 1) rest, Idle l.node story := by
      intro l hl
      rw [node_of_mem_caseEnds l hl]
      exact hidle
    refine Goes.bind (thread_led body guarded frame st _ (entering path ⟨id, .case index⟩) t
      (s.withEnds (List.nil_subset _)) hfirst (hk.idle_append hrest))
      fun ⟨st1, w1⟩ front1 s1 ⟨h1, hl1⟩ => ?_
    have hne : st1.footing ≠ .entry := fun he => s.not_entry (h1.stays he).1
    have hskip := skipped_nextBranch st1
    have hled : Led (caseEnds id (index + 1) rest ++ (front1.held ++ kept)) s1 := by
      refine hl1.led.count fun _ => ?_
      simp only [owed_append]
      omega
    have hkept : Within story kept := h.within.of_append.2
    refine Goes.bind (cases_led rest guarded (w1.rets ++ w1.escs ++ frame) st1.nextBranch id
      (index + 1) front1.path (hskip ▸ h1.tidy) (hskip ▸ h1.stands.nextBranch hne [])
      (Nat.lt_of_lt_of_le hid h1.ran.size) (hidle.ages hid h1.ran.ages) hled
      (hl1.named_held.append (hk.ages hkept h1.ran.ages))) fun w2 front2 after ⟨hl2, hage⟩ =>
      Goes.pure ⟨⟨hl2.led.count fun _ => ?_, ?_, ?_⟩, h1.ran.ages.trans hage⟩
    · simp only [Front.held, Ends.append, owed_append]
      omega
    · exact (hl1.rets.ages hl1.within.of_append.1 hage).append hl2.rets
    · exact (hl1.escs.ages hl1.within.of_append.2 hage).append hl2.escs

theorem segments_led (parts : List Segment) : SegmentsLed parts := by
  intro guarded frame st names draft story kept t s h hn hk
  cases parts with
  | nil => exact Goes.pure ⟨h, hn, .refl _⟩
  | cons part rest =>
    obtain ⟨pos, role, body⟩ := part
    refine (beginPart_led t (s (List.cons_ne_nil _ _)) pos h).bind
      fun inside entry mid ⟨⟨hin, o⟩, hled⟩ => ?_
    have hskip : inside.skipped = st.skipped := by rw [hin]
    have hinside : FrontLed (draft.escs ++ kept) ⟨[], []⟩ (entering draft.path (nextEnd entry)) mid := by
      have hguards : inside.guards = [] := by rw [hin]; rfl
      refine ⟨hled, ?_, .of_idle fun l hl => by cases hl⟩
      rw [← hguards]
      exact o.named (.inr (by rw [hin]))
    have hwithin : Within story (draft.escs ++ kept) := h.within
    have hnamed := hn.ages hwithin.of_append.1 o.ran.ages
    refine Goes.bind (thread_led body guarded (names ++ frame) inside _
      (entering draft.path (nextEnd entry)) (hskip ▸ o.tidy) (hskip ▸ o.stands) hinside
      ((hn.append hk).ages hwithin o.ran.ages)) fun ⟨st1, w1⟩ front1 s1 ⟨h1, hl1⟩ => ?_
    have hdraft := hnamed.ages (hwithin.of_append.1.grow o.ran.size) h1.ran.ages
    have hfoot : inside.footing = .entry := by rw [hin]
    have hsettled := (settle_goes role rest.isEmpty front1 draft h1 hfoot o.waits).and fun _ _ =>
      settle_led role rest.isEmpty h1 hfoot o.waits hl1 hdraft
    refine hsettled.bind fun st2 draft2 s2 ⟨⟨hadv, hpart, _, _⟩, hled2, hn2, hage⟩ => ?_
    have hall := o.ran.ages.trans (h1.ran.ages.trans hage)
    refine Goes.mono (segments_led rest guarded frame st2 _ draft2 hpart.tidy (fun hr => ?_) hled2
      hn2 (hk.ages hwithin.of_append.2 hall))
      fun _ _ _ ⟨hl3, hn3, hage3⟩ => ⟨hl3, hn3, hall.trans hage3⟩
    refine hpart.stands ?_
    rw [hadv]
    cases rest with
    | nil => exact absurd rfl hr
    | cons => rfl

end

end Storyline.Build
