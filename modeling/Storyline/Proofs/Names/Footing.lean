import Storyline.Proofs.Names.Course
import Storyline.Proofs.Names.Region
import Storyline.Proofs.Names.Status

namespace Storyline

/-- The label may be one that was written as one of these. -/
def Avoided (avoid : List String) (label : String) : Prop :=
  ∃ written ∈ avoid, MayName written label

/-- A rule may write at the root of the label: nothing stands there, or a placeholder that need not
be avoided. -/
def Openable (avoid : List String) (story : Story) (label : String) : Prop :=
  story.status label = .free ∨
    (∃ id, story.status label = .waiting id) ∧ ¬ Avoided avoid label

structure Tidy (avoid : List String) (story : Story) : Prop where
  distinct : story.Distinct
  /-- Nodes stand below live roots only. -/
  rooted : ∀ name, story.status name ≠ .free →
    ∃ p : Path, IsLabel p.label ∧ p.name = name ∧ story.status p.label ≠ .free
  /-- Nothing stands below a placeholder that need not be avoided. -/
  quiet : ∀ p : Path, IsLabel p.label → p.indices ≠ [0] →
    (∃ id, story.status p.label = .waiting id) → ¬ Avoided avoid p.label →
    story.status p.name = .free

/-- What the footing says, where the ends in `rets` lead to the path. -/
def Footing.Holds (path : Path) (rets : List LooseEnd) (story : Story) : Footing → Prop
  | .free => path.indices ≠ [0] ∧ story.status path.name = .free
  | .entry => path.indices ≠ [0] ∧ ∃ l ∈ rets, story.status path.name = .waiting l.node
  | .label => path.indices = [0] ∧ ∃ l ∈ rets, story.status path.name = .waiting l.node
  | .foreign => path.indices = [0] ∧ ∃ id, story.status path.name = .waiting id
  | .taken => story.status path.name = .settled

structure Stands (avoid : List String) (st : Stance) (path : Path) (rets : List LooseEnd)
    (story : Story) : Prop where
  label : IsLabel path.label
  written : MayName st.label path.label
  ahead : ∀ p, path.Covers p → p ≠ path → story.status p.name = .free
  closed : path.indices ≠ [0] → ¬ Openable avoid story path.label
  footing : st.footing.Holds path rets story

/-- A rule that began at `path` holding these ends led from one story to the other. -/
structure Ran (avoid : List String) (path : Path) (held : List LooseEnd) (story after : Story) :
    Prop where
  size : story.slots.size ≤ after.slots.size
  settled : ∀ name, story.status name = .settled → after.status name = .settled
  stale : ∀ name id, id < story.slots.size → story.status name ≠ .waiting id →
    after.status name ≠ .waiting id
  live : ∀ label, IsLabel label → story.status label ≠ .free → after.status label ≠ .free
  untouched : ∀ p : Path, IsLabel p.label → ¬ path.Covers p → ¬ Openable avoid story p.label →
    after.status p.name = story.status p.name ∨
      ∃ l ∈ held, story.status p.name = .waiting l.node ∧ after.status p.name = .settled

/-- A rule that began at the first path may write at the second. -/
def Reaches (avoid : List String) (path : Path) (story : Story) (other : Path) : Prop :=
  path.Covers other ∨ Openable avoid story other.label

/-- The ends held later come from those held first or are new. -/
def Comes (held : List LooseEnd) (story : Story) (later : List LooseEnd) : Prop :=
  ∀ l ∈ later, l ∈ held ∨ story.slots.size ≤ l.node

/-- The ends belong to slots of the story. -/
def Within (story : Story) (ends : List LooseEnd) : Prop :=
  ∀ l ∈ ends, l.node < story.slots.size

variable {avoid more : List String} {story mid after : Story} {path next : Path}
  {held later rets : List LooseEnd} {st : Stance} {label : String}

theorem Avoided.mono (hm : avoid ⊆ more) (h : Avoided avoid label) : Avoided more label := by
  obtain ⟨written, hw, hn⟩ := h
  exact ⟨written, hm hw, hn⟩

theorem Openable.mono (hm : avoid ⊆ more) (h : Openable more story label) :
    Openable avoid story label := by
  rcases h with h | ⟨hw, ha⟩
  · exact .inl h
  · exact .inr ⟨hw, fun hv => ha (hv.mono hm)⟩

theorem not_openable_of_settled (h : story.status label = .settled) :
    ¬ Openable avoid story label := by
  rintro (hf | ⟨⟨id, hw⟩, -⟩)
  · rw [h] at hf
    cases hf
  · rw [h] at hw
    cases hw

theorem live_of_not_openable (h : ¬ Openable avoid story label) : story.status label ≠ .free :=
  fun hf => h (.inl hf)

theorem Tidy.mono (hm : avoid ⊆ more) (h : Tidy avoid story) : Tidy more story :=
  ⟨h.distinct, h.rooted, fun p hl hp hw ha => h.quiet p hl hp hw fun hv => ha (hv.mono hm)⟩

theorem Stands.mono (hm : avoid ⊆ more) (h : Stands avoid st path rets story) :
    Stands more st path rets story :=
  ⟨h.label, h.written, h.ahead, fun hp ho => h.closed hp (ho.mono hm), h.footing⟩

/-- Below a label that may be opened nothing stands. -/
theorem Tidy.free_of_openable (h : Tidy avoid story) {p : Path} (hl : IsLabel p.label)
    (hp : p.indices ≠ [0]) (ho : Openable avoid story p.label) : story.status p.name = .free := by
  rcases ho with hf | ⟨hw, ha⟩
  · cases hs : story.status p.name with
    | free => rfl
    | _ =>
      obtain ⟨q, hq, hn, hr⟩ := h.rooted p.name (by simp [hs])
      obtain rfl := Path.name_injective hq hl hn
      exact absurd hf hr
  · exact h.quiet p hl hp hw ha

theorem Comes.refl (held : List LooseEnd) (story : Story) : Comes held story held :=
  fun _ h => .inl h

theorem Comes.of_subset (h : later ⊆ held) : Comes held story later := fun _ hl => .inl (h hl)

theorem Comes.trans {last : List LooseEnd} (h : Comes held story later)
    (hs : story.slots.size ≤ mid.slots.size) (hl : Comes later mid last) : Comes held story last := by
  intro l hm
  rcases hl l hm with hl | hl
  · exact h l hl
  · exact .inr (Nat.le_trans hs hl)

theorem Within.grow (h : Within story held) (hs : story.slots.size ≤ after.slots.size) :
    Within after held :=
  fun l hl => Nat.lt_of_lt_of_le (h l hl) hs

theorem Within.append (h : Within story held) (h' : Within story later) :
    Within story (held ++ later) :=
  fun l hl => (List.mem_append.mp hl).elim (h l) (h' l)

theorem Within.of_append (h : Within story (held ++ later)) :
    Within story held ∧ Within story later :=
  ⟨fun l hl => h l (List.mem_append_left _ hl), fun l hl => h l (List.mem_append_right _ hl)⟩

namespace Ran

theorem refl : Ran avoid path held story story :=
  ⟨Nat.le_refl _, fun _ h => h, fun _ _ _ h => h, fun _ _ h => h, fun _ _ _ _ => .inl rfl⟩

/-- What may be opened later could be opened before. -/
theorem openable (h : Ran avoid path held story after) (hl : IsLabel label)
    (ho : Openable avoid after label) : Openable avoid story label := by
  cases hs : story.status label with
  | free => exact .inl hs
  | settled => exact absurd ho (not_openable_of_settled (h.settled label hs))
  | waiting id =>
    refine .inr ⟨⟨id, hs⟩, fun hv => ?_⟩
    rcases ho with hf | ⟨-, ha⟩
    · exact h.live label hl (by simp [hs]) hf
    · exact ha hv

theorem not_openable (h : Ran avoid path held story after) (hl : IsLabel label)
    (ho : ¬ Openable avoid story label) : ¬ Openable avoid after label :=
  fun ha => ho (h.openable hl ha)

theorem mono (hm : avoid ⊆ more) (h : Ran more path held story after) :
    Ran avoid path held story after :=
  ⟨h.size, h.settled, h.stale, h.live, fun p hl hc ho =>
    h.untouched p hl hc fun hn => ho (hn.mono hm)⟩

/-- One rule after another. -/
theorem trans (h : Ran avoid path held story mid) (hr : Reaches avoid path story next)
    (hc : Comes held story later) (h' : Ran avoid next later mid after) :
    Ran avoid path held story after := by
  refine ⟨Nat.le_trans h.size h'.size, fun n hs => h'.settled n (h.settled n hs), ?_,
    fun l hl hs => h'.live l hl (h.live l hl hs), ?_⟩
  · intro n id hid hs
    exact h'.stale n id (Nat.lt_of_lt_of_le hid h.size) (h.stale n id hid hs)
  · intro p hl hp ho
    have hnext : ¬ next.Covers p := by
      intro hcov
      rcases hr with hr | hr
      · exact hp (hr.trans hcov)
      · exact ho (hcov.1 ▸ hr)
    rcases h'.untouched p hl hnext (h.not_openable hl ho) with h2 | ⟨l, hm, hw, hs⟩
    · rw [h2]
      exact h.untouched p hl hp ho
    · rcases h.untouched p hl hp ho with h1 | ⟨-, -, -, h1⟩
      · rw [h1] at hw
        rcases hc l hm with hm | hm
        · exact .inr ⟨l, hm, hw, hs⟩
        · exact absurd (Story.lt_size_of_waiting hw) (Nat.not_lt.mpr hm)
      · rw [h1] at hw
        cases hw

/-- One step after another of the same rule. -/
theorem onward (h : Ran avoid path held story mid) (h' : Ran avoid path held mid after) :
    Ran avoid path held story after :=
  h.trans (.inl path.covers_self) (.refl _ _) h'

theorem hold (hs : held ⊆ later) (h : Ran avoid path held story after) :
    Ran avoid path later story after := by
  refine ⟨h.size, h.settled, h.stale, h.live, fun p hl hc ho => ?_⟩
  exact (h.untouched p hl hc ho).imp id fun ⟨l, hm, hw⟩ => ⟨l, hs hm, hw⟩

/-- What was free and cannot be reached stays free. -/
theorem free (h : Ran avoid path held story after) {p : Path} (hl : IsLabel p.label)
    (hp : ¬ path.Covers p) (ho : ¬ Openable avoid story p.label)
    (hf : story.status p.name = .free) : after.status p.name = .free := by
  rcases h.untouched p hl hp ho with he | ⟨l, -, hw, -⟩
  · rw [he, hf]
  · rw [hf] at hw
    cases hw

end Ran

theorem Reaches.trans {last : Path} (h : Reaches avoid path story next)
    (hr : Ran avoid path held story mid) (hl : IsLabel last.label)
    (h' : Reaches avoid next mid last) : Reaches avoid path story last := by
  rcases h' with hc | ho
  · rcases h with h | h
    · exact .inl (h.trans hc)
    · exact .inr (hc.1 ▸ h)
  · exact .inr (hr.openable hl ho)

/-- A node or a placeholder may be written at the path. -/
structure Writable (avoid : List String) (path : Path) (story : Story) : Prop where
  label : IsLabel path.label
  ahead : ∀ p, path.Covers p → p ≠ path → story.status p.name = .free
  closed : path.indices ≠ [0] → ¬ Openable avoid story path.label
  unsettled : story.status path.name ≠ .settled

theorem Stands.writable (h : Stands avoid st path rets story) (hf : st.footing ≠ .taken) :
    Writable avoid path story := by
  refine ⟨h.label, h.ahead, h.closed, ?_⟩
  have hh := h.footing
  cases hk : st.footing with
  | taken => exact absurd hk hf
  | free =>
    rw [hk] at hh
    simp [hh.2]
  | entry =>
    rw [hk] at hh
    obtain ⟨-, l, -, hw⟩ := hh
    simp [hw]
  | label =>
    rw [hk] at hh
    obtain ⟨-, l, -, hw⟩ := hh
    simp [hw]
  | foreign =>
    rw [hk] at hh
    obtain ⟨-, l, hw⟩ := hh
    simp [hw]

theorem Tidy.writable_root (h : Tidy avoid story) (hl : IsLabel label)
    (ho : Openable avoid story label) : Writable avoid (.root label) story := by
  refine ⟨hl, fun p hc hne => ?_, fun hr => absurd Path.indices_root hr, ?_⟩
  · have hlabel : p.label = label := hc.1
    refine h.free_of_openable (hlabel ▸ hl) (fun hp => hne ?_) (hlabel ▸ ho)
    rw [Path.eq_root hp, hlabel]
  · rw [Path.name_root]
    exact fun hs => not_openable_of_settled hs ho

theorem Stands.withEnds (hs : rets ⊆ later) (h : Stands avoid st path rets story) :
    Stands avoid st path later story := by
  refine ⟨h.label, h.written, h.ahead, h.closed, ?_⟩
  have hf := h.footing
  cases hk : st.footing <;> rw [hk] at hf
  · exact hf
  · obtain ⟨hp, l, hl, hw⟩ := hf
    exact ⟨hp, l, hs hl, hw⟩
  · obtain ⟨hp, l, hl, hw⟩ := hf
    exact ⟨hp, l, hs hl, hw⟩
  · exact hf
  · exact hf

/-- The next branch begins where the one before it ended. -/
theorem Stands.nextBranch (h : Stands avoid st path rets story) (hf : st.footing ≠ .entry)
    (later : List LooseEnd) : Stands avoid st.nextBranch path later story := by
  have hlabel : st.nextBranch.label = st.label := by
    unfold Stance.nextBranch
    split <;> rfl
  refine ⟨h.label, hlabel ▸ h.written, h.ahead, h.closed, ?_⟩
  have hh := h.footing
  unfold Stance.nextBranch
  cases hk : st.footing <;> rw [hk] at hh
  · rw [hk]
    exact hh
  · exact absurd hk hf
  · obtain ⟨hp, l, -, hw⟩ := hh
    exact ⟨hp, l.node, hw⟩
  · rw [hk]
    exact hh
  · rw [hk]
    exact hh

theorem skipped_nextBranch (st : Stance) : st.nextBranch.skipped = st.skipped := by
  unfold Stance.nextBranch
  split <;> rfl

theorem Stands.not_entry (h : Stands avoid st path [] story) : st.footing ≠ .entry := by
  intro hk
  have hf := h.footing
  rw [hk] at hf
  obtain ⟨-, l, hl, -⟩ := hf
  cases hl

/-- A stance depends on what stands below the label of its path only. -/
theorem Stands.same (h : Stands avoid st path rets story)
    (hs : ∀ p : Path, p.label = path.label → after.status p.name = story.status p.name) :
    Stands avoid st path rets after := by
  have hroot : after.status path.label = story.status path.label := by
    have := hs (.root path.label) rfl
    rwa [Path.name_root] at this
  refine ⟨h.label, h.written, fun p hc hne => ?_, fun hp ho => h.closed hp ?_, ?_⟩
  · rw [hs p hc.1]
    exact h.ahead p hc hne
  · unfold Openable at ho ⊢
    rwa [hroot] at ho
  · have := h.footing
    unfold Footing.Holds at this ⊢
    rwa [hs path rfl]

/-- A story with one name changed to `new`, by a slot added to it. -/
structure Wrote (path : Path) (new : Status) (story after : Story) : Prop where
  distinct : after.Distinct
  size : after.slots.size = story.slots.size + 1
  fresh : new = .settled ∨ new = .waiting story.slots.size
  status : ∀ name, after.status name = if name = path.name then new else story.status name

namespace Wrote

variable {new : Status}

theorem ne_free (w : Wrote path new story after) : new ≠ .free := by
  rcases w.fresh with h | h <;> simp [h]

theorem here (w : Wrote path new story after) : after.status path.name = new := by
  rw [w.status, if_pos rfl]

theorem other (w : Wrote path new story after) (hw : Writable avoid path story) {p : Path}
    (hl : IsLabel p.label) (hne : p ≠ path) : after.status p.name = story.status p.name := by
  rw [w.status, if_neg]
  exact fun he => hne (Path.name_injective hl hw.label he)

theorem live (w : Wrote path new story after) {name : String} (h : story.status name ≠ .free) :
    after.status name ≠ .free := by
  rw [w.status]
  split
  · exact w.ne_free
  · exact h

theorem ahead (w : Wrote path new story after) (hw : Writable avoid path story) :
    ∀ p, path.Covers p → p ≠ path → after.status p.name = .free := by
  intro p hc hne
  rw [w.other hw (hc.1 ▸ hw.label) hne]
  exact hw.ahead p hc hne

theorem ran (w : Wrote path new story after) (hw : Writable avoid path story) {base : Path}
    (hr : Reaches avoid base story path) : Ran avoid base held story after := by
  refine ⟨by rw [w.size]; omega, ?_, ?_, fun label _ h => w.live h, ?_⟩
  · intro name hs
    rw [w.status, if_neg]
    · exact hs
    · exact fun he => hw.unsettled (he ▸ hs)
  · intro name id hid hs
    rw [w.status]
    split
    · rcases w.fresh with h | h
      · simp [h]
      · rw [h]
        intro he
        cases he
        omega
    · exact hs
  · intro p hl hp ho
    refine .inl (w.other hw hl ?_)
    rintro rfl
    rcases hr with hr | hr
    · exact hp hr
    · exact ho hr

/-- At the root of a label, or where the label is closed, nothing is spoilt by a node more. -/
theorem tidy (w : Wrote path new story after) (hw : Writable avoid path story)
    (t : Tidy avoid story) : Tidy avoid after := by
  have hlive : after.status path.label ≠ .free := by
    by_cases hp : path.indices = [0]
    · rw [← Path.name_of_indices hp, w.here]
      exact w.ne_free
    · exact w.live (live_of_not_openable (hw.closed hp))
  refine ⟨w.distinct, ?_, ?_⟩
  · intro name hs
    by_cases hn : name = path.name
    · exact ⟨path, hw.label, hn.symm, hlive⟩
    · rw [w.status, if_neg hn] at hs
      obtain ⟨p, hl, he, hr⟩ := t.rooted name hs
      exact ⟨p, hl, he, w.live hr⟩
  · rintro p hl hp ⟨id, hid⟩ ha
    by_cases hroot : path.label = p.label ∧ path.indices = [0]
    · refine w.ahead hw p (Path.root_covers hroot.1 hroot.2) ?_
      rintro rfl
      exact hp hroot.2
    · have hne : Path.root p.label ≠ path := by
        intro he
        exact hroot ⟨by rw [← he]; rfl, by rw [← he]; rfl⟩
      have hbefore : story.status p.label = .waiting id := by
        have := w.other hw (p := .root p.label) hl hne
        rw [Path.name_root] at this
        rw [← this, hid]
      by_cases hpath : p = path
      · subst hpath
        exact absurd (.inr ⟨⟨id, hbefore⟩, ha⟩) (hw.closed hp)
      · rw [w.other hw hl hpath]
        exact t.quiet p hl hp ⟨id, hbefore⟩ ha

/-- Where a node was written the label is closed. -/
theorem closed (w : Wrote path .settled story after) (hw : Writable avoid path story) :
    ¬ Openable avoid after path.label := by
  by_cases hp : path.indices = [0]
  · refine not_openable_of_settled ?_
    rw [← Path.name_of_indices hp, w.here]
  · have hr : Ran avoid path [] story after := w.ran hw (.inl path.covers_self)
    exact hr.not_openable hw.label (hw.closed hp)

end Wrote

/-- A story in which some placeholders were tied. -/
structure Tied (ends : List LooseEnd) (story after : Story) : Prop where
  distinct : after.Distinct
  size : after.slots.size = story.slots.size
  status : ∀ name, after.status name = (story.status name).tied (ends.map LooseEnd.node)

namespace Tied

variable {ends : List LooseEnd}

theorem waiting_of_not_mem (h : Tied ends story after) {name : String} {id : NodeId}
    (hid : ∀ l ∈ ends, l.node ≠ id) (hs : story.status name = .waiting id) :
    after.status name = .waiting id := by
  rw [h.status, hs]
  simp only [Status.tied]
  rw [if_neg]
  intro hm
  obtain ⟨l, hl, he⟩ := List.mem_map.mp hm
  exact hid l hl he

theorem same (h : Tied [] story after) (name : String) : after.status name = story.status name := by
  rw [h.status]
  cases story.status name <;> simp [Status.tied]

theorem eq_free_iff (h : Tied ends story after) {name : String} :
    after.status name = .free ↔ story.status name = .free := by
  rw [h.status]
  cases story.status name with
  | waiting id => simp only [Status.tied]; split <;> simp
  | _ => simp [Status.tied]

theorem settled (h : Tied ends story after) {name : String} (hs : story.status name = .settled) :
    after.status name = .settled := by
  rw [h.status, hs]
  rfl

theorem settled_of_mem (h : Tied ends story after) {name : String} {l : LooseEnd} (hl : l ∈ ends)
    (hs : story.status name = .waiting l.node) : after.status name = .settled := by
  rw [h.status, hs]
  simp only [Status.tied]
  rw [if_pos (List.mem_map_of_mem hl)]

theorem waiting (h : Tied ends story after) {name : String} {id : NodeId}
    (hs : after.status name = .waiting id) : story.status name = .waiting id := by
  rw [h.status] at hs
  cases hb : story.status name with
  | waiting other =>
    rw [hb] at hs
    simp only [Status.tied] at hs
    split at hs
    · cases hs
    · exact hs
  | _ =>
    rw [hb] at hs
    cases hs

theorem tidy (h : Tied ends story after) (t : Tidy avoid story) : Tidy avoid after := by
  refine ⟨h.distinct, ?_, ?_⟩
  · intro name hs
    obtain ⟨p, hl, he, hr⟩ := t.rooted name fun hf => hs (h.eq_free_iff.mpr hf)
    exact ⟨p, hl, he, fun hf => hr (h.eq_free_iff.mp hf)⟩
  · rintro p hl hp ⟨id, hw⟩ ha
    exact h.eq_free_iff.mpr (t.quiet p hl hp ⟨id, h.waiting hw⟩ ha)

theorem ran (h : Tied ends story after) (hs : ends ⊆ held) : Ran avoid path held story after := by
  refine ⟨Nat.le_of_eq h.size.symm, fun _ => h.settled, ?_, ?_, ?_⟩
  · intro name id _ hn hw
    exact hn (h.waiting hw)
  · intro label _ hn hf
    exact hn (h.eq_free_iff.mp hf)
  · intro p _ _ _
    rw [h.status]
    cases hb : story.status p.name with
    | waiting id =>
      simp only [Status.tied]
      split
      · next hm =>
        obtain ⟨l, hl, rfl⟩ := List.mem_map.mp hm
        exact .inr ⟨l, hs hl, rfl, rfl⟩
      · exact .inl rfl
    | _ => exact .inl rfl

end Tied

/-- A story in which the placeholder of a path was given up. -/
structure Freed (path : Path) (story after : Story) : Prop where
  distinct : after.Distinct
  size : after.slots.size = story.slots.size
  waited : ∃ id, story.status path.name = .waiting id
  status : ∀ name, after.status name = if name = path.name then .free else story.status name

namespace Freed

theorem other (h : Freed path story after) (hl : IsLabel path.label) {p : Path}
    (hp : IsLabel p.label) (hne : p ≠ path) : after.status p.name = story.status p.name := by
  rw [h.status, if_neg]
  exact fun he => hne (Path.name_injective hp hl he)

theorem root (h : Freed path story after) (hl : IsLabel path.label) (hp : path.indices ≠ [0])
    (ho : IsLabel label) : after.status label = story.status label := by
  have hne : Path.root label ≠ path := by
    rintro rfl
    exact hp Path.indices_root
  have := h.other hl (p := .root label) ho hne
  rwa [Path.name_root] at this

theorem ran (h : Freed path story after) (hl : IsLabel path.label) (hp : path.indices ≠ [0])
    {base : Path} (hb : base.Covers path) : Ran avoid base held story after := by
  refine ⟨Nat.le_of_eq h.size.symm, ?_, ?_, fun l ho hf => by rwa [h.root hl hp ho], ?_⟩
  · intro name hs
    rw [h.status, if_neg]
    · exact hs
    · rintro rfl
      obtain ⟨id, hw⟩ := h.waited
      rw [hw] at hs
      cases hs
  · intro name id _ hs
    rw [h.status]
    split
    · simp
    · exact hs
  · intro p ho hc _
    refine .inl (h.other hl ho ?_)
    rintro rfl
    exact hc hb

theorem tidy (h : Freed path story after) (hl : IsLabel path.label) (hp : path.indices ≠ [0])
    (t : Tidy avoid story) : Tidy avoid after := by
  refine ⟨h.distinct, ?_, ?_⟩
  · intro name hs
    rw [h.status] at hs
    split at hs
    · exact absurd rfl hs
    · obtain ⟨p, ho, he, hr⟩ := t.rooted name hs
      exact ⟨p, ho, he, by rwa [h.root hl hp ho]⟩
  · intro p ho hp' hw ha
    rw [h.root hl hp ho] at hw
    rw [h.status]
    split
    · rfl
    · exact t.quiet p ho hp' hw ha

end Freed

end Storyline
