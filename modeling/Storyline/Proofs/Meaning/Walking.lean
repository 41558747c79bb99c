import Storyline.Proofs.Meaning.Sections
import Storyline.Proofs.Names.Course

namespace Storyline

namespace Stance

variable {st st' st'' : Stance}

/-- Nothing stands at the next free path but perhaps the placeholder of a label. -/
def IsReady (st : Stance) : Prop := st.footing = .free ∨ st.footing = .label

/-- How a walk stands behind a thread without labels. -/
structure Moves (st st' : Stance) : Prop where
  skipped : st'.skipped = st.skipped
  footing : st'.footing = .free ∨ st'.footing = st.footing

theorem Moves.refl (st : Stance) : st.Moves st := ⟨rfl, .inr rfl⟩

theorem Moves.trans (h : st.Moves st') (h' : st'.Moves st'') : st.Moves st'' := by
  have hs : st''.skipped = st.skipped := h'.skipped.trans h.skipped
  refine ⟨hs, ?_⟩
  rcases h'.footing with hf | hf
  · exact .inl hf
  · exact h.footing.imp hf.trans hf.trans

theorem Moves.ready (h : st.Moves st') (hs : st.IsReady) : st'.IsReady := by
  rcases h.footing with hf | hf
  · exact .inl hf
  · exact hs.imp hf.trans hf.trans

theorem Moves.free (h : st.Moves st') (hs : st.footing = .free) : st'.footing = .free := by
  rcases h.footing with hf | hf
  · exact hf
  · exact hf.trans hs

theorem write_of_ready (hs : st.IsReady) : st.write = .on { st with footing := .free } := by
  have hne : st.footing ≠ .taken := by
    intro ht
    rcases hs with hf | hf <;> simp [hf] at ht
  rw [write, if_neg hne]

theorem turn_moves (hs : st.IsReady) : st.Moves st.turn := by
  have hne : st.footing ≠ .foreign := by
    intro ht
    rcases hs with hf | hf <;> simp [hf] at ht
  have hskip : st.turn.skipped = st.skipped := by rw [turn, if_neg hne]
  exact ⟨hskip, .inl rfl⟩

theorem nextBranch_of_free (hs : st.footing = .free) : st.nextBranch = st := by
  simp only [nextBranch, hs]

end Stance

variable {labels : List String}

mutual

theorem item_course (guarded : List String) (i : Item) (hi : i.Flows labels) (st : Stance)
    (hs : st.IsReady) : ∃ st', i.course guarded st = .on st' ∧ st.Moves st' := by
  cases i with
  | content pos c =>
    have hwrite := Stance.write_of_ready hs
    exact ⟨_, hwrite, rfl, .inl rfl⟩
  | leave => exact ⟨st.turn, rfl, Stance.turn_moves hs⟩
  | goto label => exact ⟨st.turn, rfl, Stance.turn_moves hs⟩
  | jump pos condition yes no =>
    have hwrite := Stance.write_of_ready hs
    let front : Stance := { st with footing := .free }
    obtain ⟨st1, h1, hm1⟩ := thread_course guarded yes hi.1 front (.inl rfl)
    have hf1 : st1.footing = .free := hm1.free rfl
    obtain ⟨st2, h2, hm2⟩ := thread_course guarded no hi.2 st1 (.inl hf1)
    refine ⟨{ front with skipped := st2.skipped }, ?_, hm2.skipped.trans hm1.skipped, .inl rfl⟩
    rw [Item.course, hwrite]
    show (Script.course guarded yes front).bind _ = _
    rw [h1]
    show (Script.course guarded no st1.nextBranch).bind _ = _
    rw [Stance.nextBranch_of_free hf1, h2]
    rfl
  | switch pos selection found =>
    have hwrite := Stance.write_of_ready hs
    let front : Stance := { st with footing := .free }
    obtain ⟨st1, h1, hk1⟩ := cases_course guarded found hi front rfl
    refine ⟨{ front with skipped := st1.skipped }, ?_, hk1, .inl rfl⟩
    rw [Item.course, hwrite]
    show (Script.caseCourse guarded found front).bind _ = _
    rw [h1]
    rfl
  | _ => exact hi.elim

theorem thread_course (guarded : List String) (items : List Item) (hi : Script.Flows labels items)
    (st : Stance) (hs : st.IsReady) :
    ∃ st', Script.course guarded items st = .on st' ∧ st.Moves st' := by
  cases items with
  | nil => exact ⟨st, rfl, .refl st⟩
  | cons i items =>
    obtain ⟨st1, h1, hm1⟩ := item_course guarded i hi.1 st hs
    obtain ⟨st2, h2, hm2⟩ := thread_course guarded items hi.2 st1 (hm1.ready hs)
    refine ⟨st2, ?_, hm1.trans hm2⟩
    rw [Script.course, h1]
    exact h2

theorem cases_course (guarded : List String) (found : List Case) (hi : Script.CasesFlow labels found)
    (st : Stance) (hs : st.footing = .free) :
    ∃ st', Script.caseCourse guarded found st = .on st' ∧ st'.skipped = st.skipped := by
  cases found with
  | nil => exact ⟨st, rfl, rfl⟩
  | cons first found =>
    obtain ⟨weight, body⟩ := first
    obtain ⟨st1, h1, hm1⟩ := thread_course guarded body hi.1 st (.inl hs)
    have hf1 : st1.footing = .free := hm1.free hs
    obtain ⟨st2, h2, hk2⟩ := cases_course guarded found hi.2 st1 hf1
    refine ⟨st2, ?_, hk2.trans hm1.skipped⟩
    rw [Script.caseCourse, h1]
    show Script.caseCourse guarded found st1.nextBranch = _
    rw [Stance.nextBranch_of_free hf1]
    exact h2

end

theorem course_append (guarded : List String) (a b : List Item) (st : Stance) :
    Script.course guarded (a ++ b) st =
      (Script.course guarded a st).bind (Script.course guarded b) := by
  induction a generalizing st with
  | nil => rfl
  | cons i a ih =>
    rw [List.cons_append, Script.course, Script.course]
    show (i.course guarded st).bind _ = ((i.course guarded st).bind _).bind _
    cases i.course guarded st with
    | on st1 => exact ih st1
    | _ => rfl

/-- Behind a thread and some sections. -/
theorem laid_course {opening : List Item} {sections : List Section}
    (ho : Script.Flows labels opening) (hf : ∀ s ∈ sections, Script.Flows labels s.body) (st : Stance)
    (hs : st.IsReady) (hk : st.skipped = []) :
    ∃ st', Script.course [] (opening ++ Section.laid sections) st = .on st' := by
  induction sections generalizing opening st with
  | nil =>
    obtain ⟨st1, h1, -⟩ := thread_course [] opening ho st hs
    exact ⟨st1, by rw [Section.laid, List.append_nil, h1]⟩
  | cons s rest ih =>
    obtain ⟨st1, h1, hm1⟩ := thread_course [] opening ho st hs
    have hk1 : st1.skipped = [] := hm1.skipped.trans hk
    have hbody := hf s List.mem_cons_self
    obtain ⟨st2, h2⟩ := ih hbody (fun t ht => hf t (List.mem_cons_of_mem s ht))
      ⟨.label, s.name, []⟩ (.inr rfl) rfl
    have hclaim : claimable ([] ++ []) s.name = .on () := rfl
    refine ⟨st2, ?_⟩
    rw [course_append, h1]
    show Script.course [] (Section.laid (s :: rest)) st1 = _
    rw [Section.laid, Script.course, Item.course, hk1, hclaim]
    exact h2

/-- The walk over a thread and some sections comes to its end. -/
theorem wholeCourse_laid (start : String) {opening : List Item} {sections : List Section}
    (ho : Script.Flows labels opening) (hf : ∀ s ∈ sections, Script.Flows labels s.body) :
    ∃ st, Script.wholeCourse start (opening ++ Section.laid sections) = .on st :=
  laid_course ho hf ⟨.label, start, []⟩ (.inr rfl) rfl

end Storyline
