import Storyline.Proofs.Store.Consistent
import Storyline.Proofs.Ends.Outlets

namespace Storyline

namespace Store

/-- A node that is no placeholder keeps its slot, its name and the targets of its links. -/
def Lasts (store after : Store) : Prop :=
  ∀ id node, store.node? id = some node → store.isPlaceholder id = false →
    after.isPlaceholder id = false ∧ ∃ later, after.node? id = some later ∧
      later.name = node.name ∧ ∀ outlet target,
        node.body.link? outlet = some (some target) → later.body.link? outlet = some (some target)

theorem Lasts.refl (store : Store) : Lasts store store :=
  fun _ node hn hp => ⟨hp, node, hn, rfl, fun _ _ h => h⟩

theorem Lasts.trans {store after last : Store} (h : Lasts store after) (h' : Lasts after last) :
    Lasts store last := by
  intro id node hn hp
  obtain ⟨hp, later, hn, hname, hlinks⟩ := h id node hn hp
  obtain ⟨hp, latest, hn, hname', hlinks'⟩ := h' id later hn hp
  exact ⟨hp, latest, hn, hname'.trans hname, fun outlet target hl =>
    hlinks' outlet target (hlinks outlet target hl)⟩

/-- A slot whose node and mark a change leaves alone. -/
theorem lasts_of_same {store after : Store}
    (h : ∀ id node, store.node? id = some node → store.isPlaceholder id = false →
      after.node? id = some node ∧ after.isPlaceholder id = false) : Lasts store after := by
  intro id node hn hp
  obtain ⟨hn, hp⟩ := h id node hn hp
  exact ⟨hp, node, hn, rfl, fun _ _ h => h⟩

variable {store after : Store}

/-- Only a placeholder makes room for a new node. -/
theorem lasts_push (node : Node) (room : store.isDefined node.name = false) :
    Lasts store ((store.vacate node.name).push node) := by
  refine lasts_of_same fun id found hn hp => ?_
  have hl : store.lookup node.name ≠ some id := by
    intro hl
    simp [isDefined, hl, hp] at room
  constructor
  · rw [node?_push, size_vacate, if_neg (Nat.ne_of_lt (lt_size_of_node? hn)), node?_vacate,
      if_neg hl, hn]
  · rw [isPlaceholder_push, isPlaceholder_vacate, hp, Bool.and_false]

theorem Step.lasts (h : Step False store after) : Lasts store after := by
  cases h with
  | wrote node room => exact lasts_push node room
  | kept name pos room =>
    intro id found hn hp
    obtain ⟨hp, hlater⟩ := lasts_push ⟨name, .goto none, pos⟩ room id found hn hp
    refine ⟨?_, hlater⟩
    rw [isPlaceholder_mark, hp, Bool.or_false, beq_eq_false_iff_ne]
    exact Nat.ne_of_lt (lt_size_of_node? hn)
  | discarded id node waits live =>
    refine lasts_of_same fun other found hn hp => ?_
    have hne : other ≠ id := by
      rintro rfl
      rw [waits] at hp
      cases hp
    constructor
    · rw [node?_release, node?_setSlot_none, if_neg hne]
      exact hn
    · rw [isPlaceholder_release, isPlaceholder_setSlot, isPlaceholder_unmark, hp, Bool.and_false]
  | forgot id gone =>
    refine lasts_of_same fun other found hn hp => ⟨hn, ?_⟩
    rw [isPlaceholder_unmark, hp, Bool.and_false]
  | tied target loose node live unresolved =>
    intro id found hn hp
    rw [isPlaceholder_unmark, isPlaceholder_setSlot, hp, Bool.and_false, node?_unmark,
      node?_setSlot (lt_size_of_node? live)]
    refine ⟨rfl, ?_⟩
    split
    · next he =>
      subst he
      rw [live] at hn
      cases hn
      refine ⟨_, rfl, rfl, fun outlet old hl => ?_⟩
      -- a link with a target is not the open one that is tied now
      have hne : outlet ≠ loose.outlet := by
        rintro rfl
        rw [unresolved] at hl
        cases hl
      exact (Body.link?_setLink_of_ne _ hne).trans hl
    · exact ⟨found, hn, rfl, fun _ _ h => h⟩
  | rewrote id node body allowed live => exact allowed.elim
  | noted diagnostics => exact .refl store

theorem lasts_of_steps (h : Relation.ReflTransGen (Step False) store after) :
    Lasts store after := by
  induction h with
  | refl => exact .refl store
  | tail _ h ih => exact ih.trans h.lasts

/-- A placeholder is a step whose link is open. -/
def Waits (store : Store) : Prop :=
  ∀ id, store.isPlaceholder id = true → ∃ name pos, store.node? id = some ⟨name, .goto none, pos⟩

/-- A new node at a name that was free or kept is no placeholder yet. -/
theorem Waits.push (w : Waits store) (node : Node) :
    Waits ((store.vacate node.name).push node) := by
  intro id hp
  rw [isPlaceholder_push, isPlaceholder_vacate, Bool.and_eq_true, bne_iff_ne] at hp
  obtain ⟨name, pos, hn⟩ := w id hp.2
  refine ⟨name, pos, ?_⟩
  rw [node?_push, size_vacate, if_neg (Nat.ne_of_lt (lt_size_of_node? hn)), node?_vacate,
    if_neg hp.1, hn]

theorem Waits.step (w : Waits store) (h : Step False store after) : Waits after := by
  cases h with
  | wrote node room => exact w.push node
  | kept name pos room =>
    intro id hp
    rw [isPlaceholder_mark, Bool.or_eq_true, beq_iff_eq] at hp
    rcases hp with rfl | hp
    · exact ⟨name, pos, by rw [node?_mark, node?_push, size_vacate, if_pos rfl]⟩
    · exact w.push ⟨name, .goto none, pos⟩ id hp
  | discarded id node waits live =>
    intro other hp
    simp only [isPlaceholder_release, isPlaceholder_setSlot, isPlaceholder_unmark,
      Bool.and_eq_true, bne_iff_ne] at hp
    rw [node?_release, node?_setSlot_none, if_neg hp.1]
    exact w other hp.2
  | forgot id gone =>
    intro other hp
    rw [isPlaceholder_unmark, Bool.and_eq_true] at hp
    exact w other hp.2
  | tied target loose node live unresolved =>
    intro other hp
    rw [isPlaceholder_unmark, isPlaceholder_setSlot, Bool.and_eq_true, bne_iff_ne] at hp
    rw [node?_unmark, node?_setSlot (lt_size_of_node? live), if_neg hp.1]
    exact w other hp.2
  | rewrote id node body allowed live => exact allowed.elim
  | noted diagnostics => exact w

theorem Waits.steps (w : Waits store) (h : Relation.ReflTransGen (Step False) store after) :
    Waits after := by
  induction h with
  | refl => exact w
  | tail _ h ih => exact ih.step h

/-- A node with a resolved link is no placeholder. -/
theorem Waits.not_isPlaceholder {id : NodeId} {node : Node} {outlet : Outlet} {target : Target}
    (w : Waits store) (hn : store.node? id = some node)
    (hl : node.body.link? outlet = some (some target)) : store.isPlaceholder id = false := by
  refine Bool.eq_false_iff.mpr fun hp => ?_
  obtain ⟨name, pos, hw⟩ := w id hp
  rw [hn] at hw
  cases hw
  cases outlet <;> cases hl

/-- The first end that cannot be tied because its link has a target: all before it were tied, and at
that moment its live node already had that link resolved. -/
def MetResolved (store : Store) (target : Target) (ends : List LooseEnd) (name : String)
    (outlet : Outlet) : Prop :=
  ∃ before loose later node old, ends = before ++ loose :: later ∧ loose.outlet = outlet ∧
    (store.apply (.tie target before)).1 = .ok .done ∧
    (store.apply (.tie target before)).2.node? loose.node = some node ∧ node.name = name ∧
    node.body.link? outlet = some (some old)

section Tying

variable {target : Target} {loose : LooseEnd} {rest : List LooseEnd} {name : String}
  {outlet : Outlet}

theorem metResolved_of_passed
    (passed : ∀ ends, store.apply (.tie target (loose :: ends)) = after.apply (.tie target ends))
    (unresolved : ∀ node old, store.node? loose.node = some node →
      node.body.link? loose.outlet ≠ some (some old)) :
    MetResolved store target (loose :: rest) name outlet ↔
      MetResolved after target rest name outlet := by
  constructor
  · rintro ⟨before, met, later, node, old, hends, rfl, hdone, hn, hname, hl⟩
    cases before with
    | nil =>
      obtain ⟨rfl, rfl⟩ := List.cons.inj hends
      exact absurd hl (unresolved node old hn)
    | cons first before =>
      obtain ⟨rfl, rfl⟩ := List.cons.inj hends
      rw [passed] at hdone hn
      exact ⟨before, met, later, node, old, rfl, rfl, hdone, hn, hname, hl⟩
  · rintro ⟨before, met, later, node, old, rfl, rfl, hdone, hn, hname, hl⟩
    refine ⟨loose :: before, met, later, node, old, rfl, rfl, ?_, ?_, hname, hl⟩
    · rw [passed]
      exact hdone
    · rw [passed]
      exact hn

theorem metResolved_of_stopped {e : BuildError}
    (stopped : ∀ ends, store.apply (.tie target (loose :: ends)) = (.error e, store)) :
    MetResolved store target (loose :: rest) name outlet ↔ loose.outlet = outlet ∧
      ∃ node old, store.node? loose.node = some node ∧ node.name = name ∧
        node.body.link? outlet = some (some old) := by
  constructor
  · rintro ⟨before, met, later, node, old, hends, rfl, hdone, hn, hname, hl⟩
    cases before with
    | nil =>
      obtain ⟨rfl, rfl⟩ := List.cons.inj hends
      exact ⟨rfl, node, old, hn, hname, hl⟩
    | cons first before =>
      obtain ⟨rfl, rfl⟩ := List.cons.inj hends
      rw [stopped] at hdone
      cases hdone
  · rintro ⟨rfl, node, old, hn, hname, hl⟩
    exact ⟨[], loose, rest, node, old, rfl, rfl, rfl, hn, hname, hl⟩

theorem tie_eq_retied_iff (store : Store) (target : Target) (ends : List LooseEnd)
    (name : String) (outlet : Outlet) :
    (store.apply (.tie target ends)).1 = .error (.retied name outlet) ↔
      MetResolved store target ends name outlet := by
  induction ends generalizing store with
  | nil =>
    constructor
    · intro h
      cases h
    · rintro ⟨before, loose, later, node, old, hends, -⟩
      simp at hends
  | cons loose rest ih =>
    cases hn : store.node? loose.node with
    | none =>
      rw [apply_tie_of_gone hn, ih store, metResolved_of_passed (fun _ => apply_tie_of_gone hn)]
      intro node old hnode
      rw [hn] at hnode
      cases hnode
    | some node =>
      cases hl : node.body.link? loose.outlet with
      | none =>
        rw [apply_tie_of_absent hn hl, metResolved_of_stopped fun _ => apply_tie_of_absent hn hl]
        constructor
        · intro h
          cases h
        · rintro ⟨rfl, found, old, hfound, -, hold⟩
          rw [hn] at hfound
          cases hfound
          rw [hl] at hold
          cases hold
      | some link =>
        cases link with
        | none =>
          rw [apply_tie_of_open hn hl, ih, metResolved_of_passed fun _ => apply_tie_of_open hn hl]
          intro found old hfound hold
          rw [hn] at hfound
          cases hfound
          rw [hl] at hold
          cases hold
        | some old =>
          rw [apply_tie_of_tied hn hl, metResolved_of_stopped fun _ => apply_tie_of_tied hn hl]
          constructor
          · intro h
            cases h
            exact ⟨rfl, node, old, hn, rfl, hl⟩
          · rintro ⟨rfl, found, _, hfound, rfl, -⟩
            rw [hn] at hfound
            cases hfound
            rfl

end Tying

theorem Waits.empty (start : String) : Waits (empty start) := by
  intro id hp
  cases hp

/-- Along a history that replaces no body, failed changes included, every placeholder is a step with
an open link; a node stays in its slot and under its name once a link of it has a target, and that
target stays; a node that is no placeholder stays in its slot and under its name; and ends are refused
as tied twice exactly if one is met, after all before it were tied, whose link has a target. -/
theorem applyAll_write_once (start : String) (earlier later : List Edit)
    (h : ∀ edit ∈ earlier ++ later, edit.rewrites = false) :
    let store := (empty start).applyAll earlier
    let after := store.applyAll later
    (∀ id, store.isPlaceholder id = true →
      ∃ name pos, store.node? id = some ⟨name, .goto none, pos⟩) ∧
    (∀ id node outlet target, store.node? id = some node →
      node.body.link? outlet = some (some target) →
      after.lookup node.name = some id ∧ ∃ last, after.node? id = some last ∧
        last.name = node.name ∧ last.body.link? outlet = some (some target)) ∧
    (∀ id node, store.node? id = some node → store.isPlaceholder id = false →
      after.lookup node.name = some id ∧
        ∃ last, after.node? id = some last ∧ last.name = node.name) ∧
    ∀ target ends name outlet,
      (store.apply (.tie target ends)).1 = .error (.retied name outlet) ↔
        store.MetResolved target ends name outlet := by
  intro store after
  have steps (edits : List Edit) (hm : ∀ edit ∈ edits, edit ∈ earlier ++ later) (from_ : Store) :
      Relation.ReflTransGen (Step False) from_ (from_.applyAll edits) := by
    refine applyAll_steps edits from_ fun edit he hr => ?_
    rw [h edit (hm edit he)] at hr
    cases hr
  have hearlier := steps earlier (fun _ hm => List.mem_append_left _ hm) (empty start)
  have hlater := steps later (fun _ hm => List.mem_append_right _ hm) store
  have waits : Waits store := (Waits.empty start).steps hearlier
  have c : Consistent after := (Consistent.applyAll start earlier).steps hlater
  have stays {id : NodeId} {node : Node} (hn : store.node? id = some node)
      (hp : store.isPlaceholder id = false) := lasts_of_steps hlater id node hn hp
  refine ⟨waits, ?_, ?_, tie_eq_retied_iff store⟩
  · intro id node outlet target hn hl
    obtain ⟨-, last, hlast, hname, hlinks⟩ := stays hn (waits.not_isPlaceholder hn hl)
    exact ⟨hname ▸ c.lookup_name hlast, last, hlast, hname, hlinks outlet target hl⟩
  · intro id node hn hp
    obtain ⟨-, last, hlast, hname, -⟩ := stays hn hp
    exact ⟨hname ▸ c.lookup_name hlast, last, hlast, hname⟩

/-- A placeholder whose link was tied is not given up, does not give way and is not tied again. -/
theorem applyAll_write_once_placeholder :
    let path := Path.root "a"
    let store := (empty "a").applyAll [.createPlaceholder path ⟨1, 1⟩, .tie .ret [⟨0, .next⟩]]
    let after := store.applyAll [.discard 0, .create path .ask ⟨2, 1⟩, .tie .esc [⟨0, .next⟩]]
    ∃ last, after.node? 0 = some last ∧ last.name = "a" ∧
      last.body.link? .next = some (some .ret) :=
  ((applyAll_write_once "a" _ _ (by decide)).2.1 0 ⟨"a", .goto (some .ret), ⟨1, 1⟩⟩ .next .ret
    rfl rfl).2

end Store

end Storyline
