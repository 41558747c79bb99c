import Storyline.Proofs.Flows.Waits
import Storyline.Proofs.Names.Apart

namespace Storyline

/-- Whether the flow stands at the placeholder of a label after the item, if it did before. -/
def Item.atLabel (before : Bool) : Item → Bool
  | .label .. => true
  | .report _ => before
  | .passed _ => before
  | .define .. => before
  | _ => false

def Script.atLabel (before : Bool) : List Item → Bool
  | [] => before
  | i :: rest => Script.atLabel (i.atLabel before) rest

theorem Item.atLabel_mono {before after : Bool} (h : before = true → after = true) (i : Item)
    (hi : i.atLabel before = true) : i.atLabel after = true := by
  cases i <;> simp_all [Item.atLabel]

theorem Script.atLabel_mono {before after : Bool} (h : before = true → after = true)
    (items : List Item) (hi : Script.atLabel before items = true) :
    Script.atLabel after items = true := by
  induction items generalizing before after with
  | nil => exact h hi
  | cons i rest ih => exact ih (i.atLabel_mono h) hi

mutual

/-- No branch with another one behind it ends at the placeholder of a label. -/
def Item.closed : Item → Bool
  | .loop _ body => Script.closed body
  | .define _ _ _ _ body => Script.closed body
  | .jump _ _ yes no => !Script.atLabel false yes && Script.closed yes && Script.closed no
  | .switch _ _ found => Script.caseClosed found
  | .option _ _ _ parts => Script.segmentClosed parts
  | _ => true

def Script.closed : List Item → Bool
  | [] => true
  | i :: rest => i.closed && Script.closed rest

def Script.caseClosed : List Case → Bool
  | [] => true
  | .mk _ body :: rest =>
    (rest.isEmpty || !Script.atLabel false body) && Script.closed body && Script.caseClosed rest

def Script.segmentClosed : List Segment → Bool
  | [] => true
  | .mk _ _ body :: rest => Script.closed body && Script.segmentClosed rest

end

namespace Course

variable {α β : Type} {c : Course α} {k : α → Course β} {P R : α → Prop} {b : β}

theorem bind_eq_on : (c >>= k) = .on b ↔ ∃ a, c = .on a ∧ k a = .on b := by
  cases c with
  | on a =>
    constructor
    · intro h
      exact ⟨a, rfl, h⟩
    · rintro ⟨_, ha, h⟩
      cases ha
      exact h
  | _ =>
    constructor
    · intro h
      cases h
    · rintro ⟨_, ha, -⟩
      cases ha

/-- What is sure of a walk may use where it came to. -/
theorem Sure.of_eq (h : c.Sure P) (hr : ∀ a, c = .on a → P a → R a) : c.Sure R := by
  cases c with
  | on a => exact hr a rfl h
  | _ => exact h

end Course

theorem Stance.footing_of_write {st st' : Stance} (h : st.write = .on st') :
    st'.footing = .free := by
  unfold Stance.write at h
  split at h
  · cases h
  · cases h
    rfl

theorem Stance.footing_of_endLoop {st st' : Stance} (h : st.endLoop = .on st') :
    st'.footing ≠ .label := by
  unfold Stance.endLoop at h
  cases hk : st.footing <;> rw [hk] at h <;> cases h <;> simp [hk]

/-- A part the flow does not go on from ends on ground of its own. -/
theorem Stance.footing_of_endPart {st st' : Stance} (h : st.endPart false = .on st') :
    st'.footing ≠ .foreign := by
  unfold Stance.endPart at h
  cases hk : st.footing <;> rw [hk] at h <;> cases h <;> simp [hk]

/-- The walk stands at a label only where the items say so. -/
theorem Item.atLabel_of_course {guarded : List String} {i : Item} {st st' : Stance}
    (h : i.course guarded st = .on st') (hl : st'.footing = .label) :
    i.atLabel (decide (st.footing = .label)) = true := by
  cases i with
  | report d =>
    cases h
    simpa [Item.atLabel] using hl
  | passed left =>
    cases h
    simpa [Item.atLabel] using hl
  | cut => cases h
  | content pos c => simp [Stance.footing_of_write h] at hl
  | ask pos => simp [Stance.footing_of_write h] at hl
  | call pos label args => simp [Stance.footing_of_write h] at hl
  | leave =>
    cases h
    cases hl
  | goto label =>
    cases h
    cases hl
  | label pos name seen => rfl
  | loop pos body =>
    obtain ⟨inside, -, h⟩ := Course.bind_eq_on.mp h
    obtain ⟨after, -, h⟩ := Course.bind_eq_on.mp h
    exact absurd hl (Stance.footing_of_endLoop h)
  | define pos name params seen body =>
    obtain ⟨-, -, h⟩ := Course.bind_eq_on.mp h
    obtain ⟨after, -, h⟩ := Course.bind_eq_on.mp h
    cases h
    simpa [Item.atLabel] using hl
  | jump pos condition yes no =>
    obtain ⟨front, hf, h⟩ := Course.bind_eq_on.mp h
    obtain ⟨after, -, h⟩ := Course.bind_eq_on.mp h
    obtain ⟨last, -, h⟩ := Course.bind_eq_on.mp h
    cases h
    simp [Stance.footing_of_write hf] at hl
  | switch pos selection found =>
    obtain ⟨front, hf, h⟩ := Course.bind_eq_on.mp h
    obtain ⟨after, -, h⟩ := Course.bind_eq_on.mp h
    cases h
    simp [Stance.footing_of_write hf] at hl
  | option pos leader terms parts =>
    obtain ⟨front, hf, h⟩ := Course.bind_eq_on.mp h
    obtain ⟨⟨after, advancing⟩, -, h⟩ := Course.bind_eq_on.mp h
    cases advancing with
    | true =>
      cases h
      simp [Stance.footing_of_write hf] at hl
    | false =>
      obtain ⟨last, -, h⟩ := Course.bind_eq_on.mp h
      cases h
      simp [Stance.footing_of_write hf] at hl

/-- Where the last part of an option does not go on, the step written behind it has ground of its
own. -/
theorem Script.footing_of_segmentCourse {guarded : List String} {parts : List Segment}
    {advancing advancing' : Bool} {st st' : Stance}
    (h : Script.segmentCourse guarded parts advancing st = .on (st', advancing'))
    (hf : advancing = false → st.footing ≠ .foreign) (ha : advancing' = false) :
    st'.footing ≠ .foreign := by
  induction parts generalizing advancing st with
  | nil =>
    cases h
    exact hf ha
  | cons part rest ih =>
    obtain ⟨pos, role, body⟩ := part
    obtain ⟨inside, -, h⟩ := Course.bind_eq_on.mp h
    obtain ⟨after, -, h⟩ := Course.bind_eq_on.mp h
    obtain ⟨last, hlast, h⟩ := Course.bind_eq_on.mp h
    refine ih h fun hno => ?_
    rw [hno] at hlast
    exact Stance.footing_of_endPart hlast

/-- The labels that wait were met. -/
structure Waits.Met (seen : List String) (w : Waits) : Prop where
  rets : w.rets ⊆ seen
  escs : w.escs ⊆ seen

namespace Waits

variable {seen more : List String} {w : Waits}

theorem Met.mono (h : w.Met seen) (hm : seen ⊆ more) : w.Met more :=
  ⟨List.Subset.trans h.rets hm, List.Subset.trans h.escs hm⟩

theorem Met.append (h : w.Met seen) : w.rets ++ w.escs ⊆ seen :=
  List.append_subset.mpr ⟨h.rets, h.escs⟩

theorem met_nil : Waits.Met seen ⟨[], []⟩ := ⟨List.nil_subset _, List.nil_subset _⟩

end Waits

theorem Stance.sure_overwrite {seen : List String} {st : Stance} (h : st.Met seen)
    (hf : st.footing ≠ .foreign) :
    st.overwrite.Sure fun st' => st'.Met seen ∧ st'.footing = .free := by
  rw [Stance.overwrite, if_neg hf]
  exact Stance.sure_write h

theorem Stance.nextBranch_eq {st : Stance} (h : st.footing ≠ .label) : st.nextBranch = st := by
  unfold Stance.nextBranch
  split
  · next hl => exact absurd hl h
  · rfl

/-- What a walk over a thread is sure of: the labels it met, and whether it stands at one. -/
structure Script.Walked (seen : List String) (before : Bool) (items : List Item)
    (p : Stance × Waits) : Prop where
  stance : p.1.Met seen
  own : p.1.footing ≠ .foreign
  label : p.1.footing = .label → Script.atLabel before items = true
  waits : p.2.Met seen

mutual

theorem Item.sure_waits (guarded frame : List String) (i : Item) {seen : List String} {st : Stance}
    {w : Waits} (h : st.Met seen) (hf : st.footing ≠ .foreign) (hw : w.Met seen)
    (hg : guarded ⊆ seen) (hr : frame ⊆ seen) (ha : Apart (seen ++ i.labels))
    (hc : i.closed = true) :
    (i.waits guarded frame st w).Sure (Waits.Met (seen ++ i.labels)) := by
  have more {l : List String} : seen ⊆ seen ++ l := List.subset_append_left _ _
  have havoid : st.skipped ++ guarded ⊆ seen := List.append_subset.mpr ⟨h.skipped, hg⟩
  have houter : w.escs ++ frame ⊆ seen := List.append_subset.mpr ⟨hw.escs, hr⟩
  have hnone : (⟨[], w.escs⟩ : Waits).Met seen := ⟨List.nil_subset _, hw.escs⟩
  cases i with
  | report d => exact hw.mono more
  | passed left => exact hw.mono more
  | cut => trivial
  | content pos c => exact (Stance.sure_overwrite h hf).bind fun _ _ => hnone.mono more
  | ask pos =>
    refine (Stance.sure_overwrite h hf).bind fun _ _ => ?_
    exact Waits.Met.mono ⟨hw.escs, List.nil_subset _⟩ more
  | call pos label args => exact (Stance.sure_overwrite h hf).bind fun _ _ => hnone.mono more
  | leave => exact hnone.mono more
  | goto label => exact hnone.mono more
  | label pos name seen' =>
    have hall : (w.escs ++ frame) ++ (st.skipped ++ guarded) ⊆ seen :=
      List.append_subset.mpr ⟨houter, havoid⟩
    refine (sure_claimable hall (Apart.fresh ha)).bind fun _ _ => ?_
    exact ⟨List.subset_append_right _ _, List.Subset.trans hw.escs more⟩
  | loop pos body =>
    have hbegin : st.reuse.Sure fun st' => st'.Met seen ∧ st'.footing ≠ .foreign := by
      rw [Stance.reuse, if_neg hf]
      exact Stance.sure_beginLoop h
    refine hbegin.bind fun inside ⟨hi, hif⟩ => ?_
    have hin : (⟨inside.guards, []⟩ : Waits).Met seen := ⟨hi.guards, List.nil_subset _⟩
    refine (Script.sure_waits guarded _ body hi hif hin hg houter ha hc).bind fun p hp => ?_
    exact ⟨List.nil_subset _, List.append_subset.mpr ⟨List.Subset.trans hw.escs more, hp.waits.escs⟩⟩
  | define pos name params seen' body =>
    have hg' : st.guards ++ guarded ⊆ seen := List.append_subset.mpr ⟨h.guards, hg⟩
    have hframe : w.rets ++ w.escs ++ frame ⊆ seen := List.append_subset.mpr ⟨hw.append, hr⟩
    have hall := List.append_subset.mpr ⟨hframe, List.append_subset.mpr ⟨h.skipped, hg'⟩⟩
    have hbody : Apart ((seen ++ [name]) ++ Script.labels body) := by
      rw [List.append_assoc]
      exact ha
    refine (sure_claimable hall (Apart.fresh ha)).bind fun _ _ => ?_
    have hin : Stance.Met (seen ++ [name]) ⟨.free, name, st.skipped⟩ :=
      ⟨List.mem_append_right _ (List.mem_singleton_self _), List.Subset.trans h.skipped more⟩
    refine (Script.sure_waits _ _ body hin (by simp) Waits.met_nil (List.Subset.trans hg' more)
      (List.Subset.trans hframe more) hbody hc).bind fun _ _ => ?_
    exact hw.mono more
  | jump pos condition yes no =>
    simp only [Item.closed, Bool.and_eq_true, Bool.not_eq_true'] at hc
    obtain ⟨⟨hopen, hyes⟩, hno⟩ := hc
    refine (Stance.sure_overwrite h hf).bind fun front ⟨hm, hfree⟩ => ?_
    refine (Script.sure_waits guarded _ yes hm (by simp [hfree]) Waits.met_nil hg houter ha.first
      hyes).bind fun ⟨after, left⟩ hp => ?_
    have hlabel : after.footing ≠ .label := by
      intro hl
      have := hp.label hl
      simp [hfree, hopen] at this
    have hframe : left.rets ++ left.escs ++ (w.escs ++ frame) ⊆ seen ++ Script.labels yes :=
      List.append_subset.mpr ⟨hp.waits.append, List.Subset.trans houter more⟩
    dsimp only
    rw [Stance.nextBranch_eq hlabel]
    refine (Script.sure_waits guarded _ no hp.stance hp.own Waits.met_nil
      (List.Subset.trans hg more) hframe ha.rest hno).bind fun ⟨_, right⟩ hq => ?_
    have hright := hq.waits
    rw [List.append_assoc] at hright
    have hleft : left.Met (seen ++ (Script.labels yes ++ Script.labels no)) := by
      rw [← List.append_assoc]
      exact hp.waits.mono (List.subset_append_left _ _)
    exact ⟨List.append_subset.mpr ⟨hleft.rets, hright.rets⟩, List.append_subset.mpr
      ⟨List.Subset.trans hw.escs more, List.append_subset.mpr ⟨hleft.escs, hright.escs⟩⟩⟩
  | switch pos selection found =>
    refine (Stance.sure_overwrite h hf).bind fun front ⟨hm, hfree⟩ => ?_
    refine (Script.sure_caseWaits guarded _ found hm (by simp [hfree]) (by simp [hfree]) hg houter ha
      hc).bind fun p hp => ?_
    exact ⟨hp.rets, List.append_subset.mpr ⟨List.Subset.trans hw.escs more, hp.escs⟩⟩
  | option pos leader terms parts =>
    refine (Stance.sure_overwrite h hf).bind fun front ⟨hm, hfree⟩ => ?_
    refine (Script.sure_segmentWaits guarded _ parts hm (List.nil_subset _) hg houter ha hc
      fun _ => .inl hfree).bind fun escs he => ?_
    have hcourse := Script.sure_segmentCourse guarded parts false hm hg ha fun _ => .inl hfree
    have hlast : Waits.Met (seen ++ Script.segmentLabels parts) ⟨[], w.escs ++ escs⟩ :=
      ⟨List.nil_subset _, List.append_subset.mpr ⟨List.Subset.trans hw.escs more, he⟩⟩
    refine (hcourse.of_eq fun p hp hmet => And.intro hp hmet).bind
      fun ⟨after, advancing⟩ ⟨hp, hmet⟩ => ?_
    cases advancing with
    | true => exact hlast
    | false =>
      have hown := Script.footing_of_segmentCourse hp (by simp [hfree]) rfl
      exact (Stance.sure_overwrite hmet hown).bind fun _ _ => hlast

theorem Script.sure_waits (guarded frame : List String) (items : List Item) {seen : List String}
    {st : Stance} {w : Waits} (h : st.Met seen) (hf : st.footing ≠ .foreign) (hw : w.Met seen)
    (hg : guarded ⊆ seen) (hr : frame ⊆ seen) (ha : Apart (seen ++ Script.labels items))
    (hc : Script.closed items = true) :
    (Script.waits guarded frame items st w).Sure
      (Script.Walked (seen ++ Script.labels items) (decide (st.footing = .label)) items) := by
  cases items with
  | nil =>
    refine ⟨h.mono (List.subset_append_left _ _), hf, fun hl => ?_,
      hw.mono (List.subset_append_left _ _)⟩
    simpa [Script.atLabel] using hl
  | cons i rest =>
    simp only [Script.closed, Bool.and_eq_true] at hc
    have more : seen ⊆ seen ++ i.labels := List.subset_append_left _ _
    have hi := (Item.sure_course guarded i h hg ha.first).of_eq (R := fun st1 =>
      (st1.Met (seen ++ i.labels) ∧ st1.footing ≠ .foreign) ∧
        (st1.footing = .label → i.atLabel (decide (st.footing = .label)) = true))
      fun st1 h1 ⟨hm, hown⟩ => ⟨⟨hm, hown hf⟩, fun hl => Item.atLabel_of_course h1 hl⟩
    refine hi.bind fun st1 ⟨⟨h1, hf1⟩, hl1⟩ => ?_
    refine (Item.sure_waits guarded frame i h hf hw hg hr ha.first hc.1).bind fun w1 hw1 => ?_
    refine (Script.sure_waits guarded frame rest h1 hf1 hw1 (List.Subset.trans hg more)
      (List.Subset.trans hr more) ha.rest hc.2).mono fun p hp => ?_
    have hmet := hp.stance
    have hwaits := hp.waits
    rw [List.append_assoc] at hmet hwaits
    refine ⟨hmet, hp.own, fun hl => ?_, hwaits⟩
    exact Script.atLabel_mono (fun hd => hl1 (of_decide_eq_true hd)) rest (hp.label hl)

theorem Script.sure_caseWaits (guarded frame : List String) (found : List Case)
    {seen : List String} {st : Stance} (h : st.Met seen) (hf : st.footing ≠ .foreign)
    (hl : st.footing ≠ .label) (hg : guarded ⊆ seen) (hr : frame ⊆ seen)
    (ha : Apart (seen ++ Script.caseLabels found)) (hc : Script.caseClosed found = true) :
    (Script.caseWaits guarded frame found st).Sure (Waits.Met (seen ++ Script.caseLabels found)) := by
  cases found with
  | nil => exact Waits.met_nil
  | cons case rest =>
    obtain ⟨weight, body⟩ := case
    simp only [Script.caseClosed, Bool.and_eq_true] at hc
    obtain ⟨⟨hopen, hbody⟩, hrest⟩ := hc
    have more : seen ⊆ seen ++ Script.labels body := List.subset_append_left _ _
    refine (Script.sure_waits guarded frame body h hf Waits.met_nil hg hr ha.first hbody).bind
      fun ⟨after, left⟩ hp => ?_
    have hleft : left.Met (seen ++ (Script.labels body ++ Script.caseLabels rest)) := by
      rw [← List.append_assoc]
      exact hp.waits.mono (List.subset_append_left _ _)
    cases rest with
    | nil =>
      refine ⟨?_, ?_⟩
      · simpa [Script.caseLabels] using hleft.rets
      · simpa [Script.caseLabels] using hleft.escs
    | cons next others =>
      have hlabel : after.footing ≠ .label := by
        intro hat
        have hno := hp.label hat
        simp only [hl, decide_false] at hno
        simp [hno] at hopen
      dsimp only
      rw [Stance.nextBranch_eq hlabel]
      refine (Script.sure_caseWaits guarded _ (next :: others) hp.stance hp.own hlabel
        (List.Subset.trans hg more) (List.append_subset.mpr ⟨hp.waits.append,
          List.Subset.trans hr more⟩) ha.rest hrest).bind fun right hq => ?_
      rw [List.append_assoc] at hq
      exact ⟨List.append_subset.mpr ⟨hleft.rets, hq.rets⟩,
        List.append_subset.mpr ⟨hleft.escs, hq.escs⟩⟩

theorem Script.sure_segmentWaits (guarded frame : List String) (parts : List Segment)
    {seen escs : List String} {st : Stance} (h : st.Met seen) (he : escs ⊆ seen)
    (hg : guarded ⊆ seen) (hr : frame ⊆ seen) (ha : Apart (seen ++ Script.segmentLabels parts))
    (hc : Script.segmentClosed parts = true)
    (hf : parts ≠ [] → st.footing = .free ∨ st.footing = .taken) :
    (Script.segmentWaits guarded frame parts st escs).Sure
      fun escs' => escs' ⊆ seen ++ Script.segmentLabels parts := by
  cases parts with
  | nil => exact List.Subset.trans he (List.subset_append_left _ _)
  | cons part rest =>
    obtain ⟨pos, role, body⟩ := part
    simp only [Script.segmentClosed, Bool.and_eq_true] at hc
    have more : seen ⊆ seen ++ Script.labels body := List.subset_append_left _ _
    refine (Stance.sure_beginPart h (hf (List.cons_ne_nil _ _))).bind fun inside ⟨hi, hif⟩ => ?_
    refine (Script.sure_waits guarded _ body hi hif Waits.met_nil hg
      (List.append_subset.mpr ⟨he, hr⟩) ha.first hc.1).bind fun ⟨after, left⟩ hp => ?_
    refine (Stance.sure_endPart hp.stance hp.own _).bind fun last ⟨hlast, hlf⟩ => ?_
    have hkept : (if rest.isEmpty && role == .answer && after.footing != .entry then
        left.escs ++ left.rets else left.escs) ⊆ seen ++ Script.labels body := by
      split
      · exact List.append_subset.mpr ⟨hp.waits.escs, hp.waits.rets⟩
      · exact hp.waits.escs
    refine (Script.sure_segmentWaits guarded frame rest hlast (List.append_subset.mpr
      ⟨List.Subset.trans he more, hkept⟩) (List.Subset.trans hg more) (List.Subset.trans hr more)
      ha.rest hc.2 fun hne => hlf ?_).mono fun escs' hp' => ?_
    · cases rest with
      | nil => exact absurd rfl hne
      | cons => rfl
    · rwa [List.append_assoc] at hp'

end

/-- A script whose labels are apart and whose branches do not end at a label before another branch
leaves the walk in no doubt. -/
theorem Script.wholeWaits_ne_doubtful {start : String} {items : Script}
    (ha : Apart (start :: Script.labels items)) (hc : Script.closed items = true) :
    Script.wholeWaits start items ≠ .doubtful := by
  have hs : Stance.Met [start] ⟨.label, start, []⟩ :=
    ⟨List.mem_singleton_self _, List.nil_subset _⟩
  have hw : Waits.Met [start] ⟨[start], []⟩ := ⟨List.Subset.refl _, List.nil_subset _⟩
  have hsure := Script.sure_waits [] [] items hs (by simp) hw (List.nil_subset _) (List.nil_subset _)
    ha hc
  intro hd
  rw [Script.wholeWaits] at hd
  rw [hd] at hsure
  exact hsure

end Storyline
