import Storyline.Proofs.Names.Course

namespace Storyline

namespace Course

variable {α β : Type} {P : α → Prop} {Q : β → Prop}

/-- The walk is not in doubt, and where it goes on it keeps `P`. -/
def Sure (P : α → Prop) : Course α → Prop
  | on a => P a
  | doubtful => False
  | _ => True

theorem Sure.bind {c : Course α} {k : α → Course β} (h : c.Sure P) (hk : ∀ a, P a → (k a).Sure Q) :
    (c >>= k).Sure Q := by
  cases c with
  | on a => exact hk a h
  | doubtful => exact h.elim
  | _ => trivial

theorem Sure.mono {c : Course α} {R : α → Prop} (h : c.Sure P) (hr : ∀ a, P a → R a) :
    c.Sure R := by
  cases c with
  | on a => exact hr a h
  | _ => exact h

end Course

mutual

/-- The labels written in an item, in the order of the tokens. -/
def Item.labels : Item → List String
  | .label _ name _ => [name]
  | .loop _ body => Script.labels body
  | .define _ name _ _ body => name :: Script.labels body
  | .jump _ _ yes no => Script.labels yes ++ Script.labels no
  | .switch _ _ found => Script.caseLabels found
  | .option _ _ _ parts => Script.segmentLabels parts
  | _ => []

def Script.labels : List Item → List String
  | [] => []
  | i :: rest => i.labels ++ Script.labels rest

def Script.caseLabels : List Case → List String
  | [] => []
  | .mk _ body :: rest => Script.labels body ++ Script.caseLabels rest

def Script.segmentLabels : List Segment → List String
  | [] => []
  | .mk _ _ body :: rest => Script.labels body ++ Script.segmentLabels rest

end

/-- No label is one that was written before it, nor a numbered copy of one. -/
def Apart (labels : List String) : Prop :=
  labels.Pairwise fun earlier later => reopens later earlier = false

instance (labels : List String) : Decidable (Apart labels) :=
  inferInstanceAs (Decidable (labels.Pairwise _))

/-- A walk has met these labels. -/
structure Stance.Met (seen : List String) (st : Stance) : Prop where
  label : st.label ∈ seen
  skipped : st.skipped ⊆ seen

namespace Stance

variable {seen more guarded : List String} {st : Stance}

theorem Met.mono (h : st.Met seen) (hm : seen ⊆ more) : st.Met more :=
  ⟨hm h.label, List.Subset.trans h.skipped hm⟩

theorem Met.turn (h : st.Met seen) : st.turn.Met seen := by
  refine ⟨h.label, fun name hn => ?_⟩
  unfold Stance.turn at hn
  split at hn
  · rcases List.mem_cons.mp hn with rfl | hn
    · exact h.label
    · exact h.skipped hn
  · exact h.skipped hn

theorem Met.guards (h : st.Met seen) : st.guards ⊆ seen := by
  intro name hn
  unfold Stance.guards at hn
  split at hn
  · exact List.mem_singleton.mp hn ▸ h.label
  · exact List.mem_singleton.mp hn ▸ h.label
  · cases hn

theorem Met.nextBranch (h : st.Met seen) : st.nextBranch.Met seen := by
  unfold Stance.nextBranch
  split
  · exact ⟨h.label, h.skipped⟩
  · exact h

theorem sure_write (h : st.Met seen) :
    st.write.Sure fun st' => st'.Met seen ∧ st'.footing = .free := by
  unfold Stance.write
  split
  · trivial
  · exact ⟨⟨h.label, h.skipped⟩, rfl⟩

theorem sure_beginLoop (h : st.Met seen) :
    st.beginLoop.Sure fun st' => st'.Met seen ∧ st'.footing ≠ .foreign := by
  unfold Stance.beginLoop
  cases st.footing with
  | taken => trivial
  | _ => exact ⟨⟨h.label, h.skipped⟩, by simp⟩

theorem sure_endLoop (h : st.Met seen) (hf : st.footing ≠ .foreign) :
    st.endLoop.Sure fun st' => st'.Met seen ∧ st'.footing ≠ .foreign := by
  unfold Stance.endLoop
  cases hk : st.footing with
  | foreign => exact absurd hk hf
  | free => exact ⟨h, hf⟩
  | taken => exact ⟨h, hf⟩
  | _ => exact ⟨⟨h.label, h.skipped⟩, by simp⟩

theorem sure_beginPart (h : st.Met seen) (hf : st.footing = .free ∨ st.footing = .taken) :
    st.beginPart.Sure fun st' => st'.Met seen ∧ st'.footing ≠ .foreign := by
  unfold Stance.beginPart
  rcases hf with hf | hf
  · rw [hf]
    exact ⟨⟨h.label, h.skipped⟩, by simp⟩
  · rw [hf]
    trivial

theorem sure_endPart (h : st.Met seen) (hf : st.footing ≠ .foreign) (advancing : Bool) :
    (st.endPart advancing).Sure fun st' => st'.Met seen ∧
      (advancing = false → st'.footing = .free ∨ st'.footing = .taken) := by
  unfold Stance.endPart
  cases hk : st.footing with
  | foreign => exact absurd hk hf
  | entry => exact ⟨⟨h.label, h.skipped⟩, fun _ => .inl rfl⟩
  | free => exact ⟨h, fun _ => .inl hk⟩
  | taken => exact ⟨h, fun _ => .inr hk⟩
  | label =>
    cases advancing with
    | true => exact ⟨h, fun ha => by cases ha⟩
    | false => exact ⟨⟨h.label, h.skipped⟩, fun _ => .inr rfl⟩

end Stance

theorem sure_claimable {seen avoid : List String} {name : String} (ha : avoid ⊆ seen)
    (h : ∀ earlier ∈ seen, reopens name earlier = false) :
    (claimable avoid name).Sure fun _ => True := by
  unfold claimable
  rw [if_neg]
  · trivial
  · intro hany
    obtain ⟨written, hw, hr⟩ := List.any_eq_true.mp hany
    rw [h written (ha hw)] at hr
    cases hr

namespace Apart

variable {a b c : List String}

theorem left (h : Apart (a ++ b)) : Apart a := (List.pairwise_append.mp h).1

theorem fresh {name : String} (h : Apart (a ++ name :: b)) :
    ∀ earlier ∈ a, reopens name earlier = false :=
  fun earlier he => (List.pairwise_append.mp h).2.2 earlier he name List.mem_cons_self

theorem first (h : Apart (a ++ (b ++ c))) : Apart (a ++ b) := by
  rw [← List.append_assoc] at h
  exact h.left

theorem rest (h : Apart (a ++ (b ++ c))) : Apart ((a ++ b) ++ c) := by
  rwa [List.append_assoc]

end Apart

/-- What a walk that met these labels keeps. -/
def Stance.Keeps (seen : List String) (st st' : Stance) : Prop :=
  st'.Met seen ∧ (st.footing ≠ .foreign → st'.footing ≠ .foreign)

mutual

theorem Item.sure_course (guarded : List String) (i : Item) {seen : List String} {st : Stance}
    (h : st.Met seen) (hg : guarded ⊆ seen) (ha : Apart (seen ++ i.labels)) :
    (i.course guarded st).Sure (st.Keeps (seen ++ i.labels)) := by
  have more {l : List String} : seen ⊆ seen ++ l := List.subset_append_left _ _
  have havoid : st.skipped ++ guarded ⊆ seen := List.append_subset.mpr ⟨h.skipped, hg⟩
  cases i with
  | report d => exact ⟨h.mono more, id⟩
  | passed left => exact ⟨h.mono more, id⟩
  | cut => trivial
  | content pos c => exact (Stance.sure_write h).mono fun _ ⟨h, hf⟩ => ⟨h.mono more, by simp [hf]⟩
  | ask pos => exact (Stance.sure_write h).mono fun _ ⟨h, hf⟩ => ⟨h.mono more, by simp [hf]⟩
  | call pos label args =>
    exact (Stance.sure_write h).mono fun _ ⟨h, hf⟩ => ⟨h.mono more, by simp [hf]⟩
  | leave => exact ⟨h.turn.mono more, fun _ => by simp [Stance.turn]⟩
  | goto label => exact ⟨h.turn.mono more, fun _ => by simp [Stance.turn]⟩
  | label pos name seen' =>
    refine (sure_claimable havoid (Apart.fresh ha)).bind fun _ _ => ?_
    exact ⟨⟨List.mem_append_right _ (List.mem_singleton_self _), List.Subset.trans h.skipped more⟩, by simp⟩
  | loop pos body =>
    refine (Stance.sure_beginLoop h).bind fun inside ⟨hi, hf⟩ => ?_
    refine (Script.sure_course guarded body hi hg ha).bind fun after ⟨hm, hk⟩ => ?_
    exact (Stance.sure_endLoop hm (hk hf)).mono fun _ ⟨h, hf⟩ => ⟨h, fun _ => hf⟩
  | define pos name params seen' body =>
    have hg' : st.guards ++ guarded ⊆ seen := List.append_subset.mpr ⟨h.guards, hg⟩
    have havoid' := List.append_subset.mpr ⟨h.skipped, hg'⟩
    have hall : Apart ((seen ++ [name]) ++ Script.labels body) := by
      rw [List.append_assoc]
      exact ha
    refine (sure_claimable havoid' (Apart.fresh ha)).bind fun _ _ => ?_
    have hin : Stance.Met (seen ++ [name]) ⟨.free, name, st.skipped⟩ :=
      ⟨List.mem_append_right _ (List.mem_singleton_self _), List.Subset.trans h.skipped more⟩
    refine (Script.sure_course _ body hin (List.Subset.trans hg' more) hall).bind fun after ⟨hm, _⟩ => ?_
    rw [List.append_assoc] at hm
    exact ⟨⟨more h.label, List.append_subset.mpr ⟨List.Subset.trans h.guards more, hm.skipped⟩⟩, id⟩
  | jump pos condition yes no =>
    refine (Stance.sure_write h).bind fun front ⟨hf, hfree⟩ => ?_
    refine (Script.sure_course guarded yes hf hg ha.first).bind fun after ⟨hy, _⟩ => ?_
    refine (Script.sure_course guarded no hy.nextBranch (List.Subset.trans hg more) ha.rest).bind
      fun last ⟨hn, _⟩ => ?_
    rw [List.append_assoc] at hn
    exact ⟨⟨more hf.label, hn.skipped⟩, fun _ => by simp [hfree]⟩
  | switch pos selection found =>
    refine (Stance.sure_write h).bind fun front ⟨hf, hfree⟩ => ?_
    refine (Script.sure_caseCourse guarded found hf hg ha).bind fun after hm => ?_
    exact ⟨⟨more hf.label, hm.skipped⟩, fun _ => by simp [hfree]⟩
  | option pos leader terms parts =>
    refine (Stance.sure_write h).bind fun front ⟨hf, hfree⟩ => ?_
    refine (Script.sure_segmentCourse guarded parts false hf hg ha fun _ => .inl hfree).bind
      fun (after, advancing) hm => ?_
    have hlast : Stance.Met (seen ++ Script.segmentLabels parts) { front with
        skipped := after.skipped } := ⟨more hf.label, hm.skipped⟩
    cases advancing with
    | true => exact ⟨hlast, fun _ => by simp [hfree]⟩
    | false =>
      refine (Stance.sure_write hm).bind fun last ⟨hl, _⟩ => ?_
      exact ⟨⟨more hf.label, hl.skipped⟩, fun _ => by simp [hfree]⟩

theorem Script.sure_course (guarded : List String) (items : List Item) {seen : List String}
    {st : Stance} (h : st.Met seen) (hg : guarded ⊆ seen)
    (ha : Apart (seen ++ Script.labels items)) :
    (Script.course guarded items st).Sure (st.Keeps (seen ++ Script.labels items)) := by
  cases items with
  | nil => exact ⟨h.mono (List.subset_append_left _ _), id⟩
  | cons i rest =>
    refine (Item.sure_course guarded i h hg ha.first).bind fun st1 ⟨h1, hf1⟩ => ?_
    refine (Script.sure_course guarded rest h1 (List.Subset.trans hg (List.subset_append_left _ _))
      ha.rest).mono fun st2 ⟨h2, hf2⟩ => ?_
    rw [List.append_assoc] at h2
    exact ⟨h2, fun hf => hf2 (hf1 hf)⟩

theorem Script.sure_caseCourse (guarded : List String) (found : List Case) {seen : List String}
    {st : Stance} (h : st.Met seen) (hg : guarded ⊆ seen)
    (ha : Apart (seen ++ Script.caseLabels found)) :
    (Script.caseCourse guarded found st).Sure (Stance.Met (seen ++ Script.caseLabels found)) := by
  cases found with
  | nil => exact h.mono (List.subset_append_left _ _)
  | cons case rest =>
    obtain ⟨weight, body⟩ := case
    refine (Script.sure_course guarded body h hg ha.first).bind fun st1 ⟨h1, _⟩ => ?_
    refine (Script.sure_caseCourse guarded rest h1.nextBranch
      (List.Subset.trans hg (List.subset_append_left _ _)) ha.rest).mono fun st2 h2 => ?_
    rwa [List.append_assoc] at h2

theorem Script.sure_segmentCourse (guarded : List String) (parts : List Segment) (advancing : Bool)
    {seen : List String} {st : Stance} (h : st.Met seen) (hg : guarded ⊆ seen)
    (ha : Apart (seen ++ Script.segmentLabels parts))
    (hf : parts ≠ [] → st.footing = .free ∨ st.footing = .taken) :
    (Script.segmentCourse guarded parts advancing st).Sure fun p =>
      p.1.Met (seen ++ Script.segmentLabels parts) := by
  cases parts with
  | nil => exact h.mono (List.subset_append_left _ _)
  | cons part rest =>
    obtain ⟨pos, role, body⟩ := part
    refine (Stance.sure_beginPart h (hf (List.cons_ne_nil _ _))).bind fun inside ⟨hi, hif⟩ => ?_
    refine (Script.sure_course guarded body hi hg ha.first).bind fun after ⟨h1, hf1⟩ => ?_
    refine (Stance.sure_endPart h1 (hf1 hif) _).bind fun last ⟨h2, hf2⟩ => ?_
    refine (Script.sure_segmentCourse guarded rest _ h2
      (List.Subset.trans hg (List.subset_append_left _ _)) ha.rest fun hr => hf2 ?_).mono fun p hp => ?_
    · cases rest with
      | nil => exact absurd rfl hr
      | cons => rfl
    · rwa [List.append_assoc] at hp

end

/-- A script whose labels are apart leaves the walk in no doubt. -/
theorem Script.wholeCourse_ne_doubtful {start : String} {items : Script}
    (h : Apart (start :: Script.labels items)) : Script.wholeCourse start items ≠ .doubtful := by
  have hs : Stance.Met [start] ⟨.label, start, []⟩ :=
    ⟨List.mem_singleton_self _, List.nil_subset _⟩
  have := Script.sure_course [] items hs (List.nil_subset _) h
  intro hd
  rw [Script.wholeCourse] at hd
  rw [hd] at this
  exact this

end Storyline
