import Storyline.Store.Basic
import Mathlib.Logic.Relation

namespace Storyline

namespace Store

variable {store : Store} {name : String} {id : NodeId} {node : Node}

theorem node?_push (other : NodeId) : (store.push node).node? other =
    if other = store.slots.size then some node else store.node? other := by
  simp only [push, node?, Array.getElem?_push]
  split <;> rfl

@[simp] theorem lookup_push (other : String) : (store.push node).lookup other =
    if other = node.name then some store.slots.size else store.lookup other :=
  Index.lookup_insert ..

@[simp] theorem isPlaceholder_push (other : NodeId) :
    (store.push node).isPlaceholder other = store.isPlaceholder other := rfl

theorem node?_setSlot {slot : Option Node} (h : id < store.slots.size) (other : NodeId) :
    (store.setSlot id slot).node? other = if other = id then slot else store.node? other := by
  simp only [setSlot, node?, Array.getElem?_setIfInBounds, h, if_true, eq_comm (a := id)]
  split <;> rfl

theorem node?_setSlot_none (other : NodeId) :
    (store.setSlot id none).node? other = if other = id then none else store.node? other := by
  by_cases h : id < store.slots.size
  · exact node?_setSlot h other
  · have hsame : store.setSlot id none = store := by
      rw [setSlot, Array.setIfInBounds_eq_of_size_le (Nat.le_of_not_lt h)]
    rw [hsame]
    split
    · next he => rw [he, node?, Array.getElem?_eq_none (Nat.le_of_not_lt h)]; rfl
    · rfl

@[simp] theorem lookup_setSlot (slot : Option Node) (other : String) :
    (store.setSlot id slot).lookup other = store.lookup other := rfl

@[simp] theorem isPlaceholder_setSlot (slot : Option Node) (other : NodeId) :
    (store.setSlot id slot).isPlaceholder other = store.isPlaceholder other := rfl

@[simp] theorem size_setSlot (slot : Option Node) :
    (store.setSlot id slot).slots.size = store.slots.size := Array.size_setIfInBounds ..

@[simp] theorem node?_mark (other : NodeId) : (store.mark id).node? other = store.node? other := rfl

@[simp] theorem isPlaceholder_mark (other : NodeId) :
    (store.mark id).isPlaceholder other = (other == id || store.isPlaceholder other) := by
  rw [Bool.eq_iff_iff]
  simp only [mark, isPlaceholder, List.contains_iff_mem, List.mem_insert_iff, Bool.or_eq_true,
    beq_iff_eq]

@[simp] theorem node?_unmark (other : NodeId) :
    (store.unmark id).node? other = store.node? other := rfl

@[simp] theorem lookup_unmark (other : String) :
    (store.unmark id).lookup other = store.lookup other := rfl

@[simp] theorem isPlaceholder_unmark (other : NodeId) :
    (store.unmark id).isPlaceholder other = (other != id && store.isPlaceholder other) := by
  rw [Bool.eq_iff_iff]
  simp only [unmark, isPlaceholder, List.contains_iff_mem, List.mem_filter, Bool.and_eq_true]
  exact and_comm

/-- There is no mark to take off a slot that bears none. -/
theorem unmark_of_not_isPlaceholder (h : store.isPlaceholder id = false) :
    store.unmark id = store := by
  have hne : ∀ other ∈ store.placeholders, (other != id) = true := by
    intro other hm
    rw [bne_iff_ne]
    rintro rfl
    rw [isPlaceholder, List.contains_iff_mem.mpr hm] at h
    cases h
  rw [unmark, List.filter_eq_self.mpr hne]

@[simp] theorem node?_release (other : NodeId) :
    (store.release name id).node? other = store.node? other := by
  unfold release
  split <;> rfl

@[simp] theorem isPlaceholder_release (other : NodeId) :
    (store.release name id).isPlaceholder other = store.isPlaceholder other := by
  unfold release
  split <;> rfl

theorem lookup_release (other : String) : (store.release name id).lookup other =
    if other = name ∧ store.lookup name = some id then none else store.lookup other := by
  unfold release
  split
  · next h =>
    rw [lookup, Index.lookup_remove]
    simp only [h, and_true]
    rfl
  · next h => simp only [h, and_false, if_false]

theorem lt_size_of_node? (h : store.node? id = some node) : id < store.slots.size := by
  rw [node?, Option.join_eq_some_iff] at h
  exact (Array.getElem?_eq_some_iff.mp h).1

theorem node?_size : store.node? store.slots.size = none := by
  rw [node?, Array.getElem?_eq_none (Nat.le_refl _)]
  rfl

/-- The slot the name leads to is empty from now on. -/
def vacate (store : Store) (name : String) : Store :=
  match store.lookup name with
  | none => store
  | some old => (store.unmark old).setSlot old none

@[simp] theorem lookup_vacate (other : String) :
    (store.vacate name).lookup other = store.lookup other := by
  unfold vacate
  split <;> rfl

@[simp] theorem size_vacate : (store.vacate name).slots.size = store.slots.size := by
  unfold vacate
  split
  · rfl
  · exact size_setSlot ..

theorem node?_vacate (other : NodeId) : (store.vacate name).node? other =
    if store.lookup name = some other then none else store.node? other := by
  unfold vacate
  split
  · next h => rw [h, if_neg (by simp)]
  · next old h => simp only [node?_setSlot_none, node?_unmark, h, Option.some.injEq, eq_comm]

theorem isPlaceholder_vacate (other : NodeId) : (store.vacate name).isPlaceholder other =
    (store.lookup name != some other && store.isPlaceholder other) := by
  unfold vacate
  split
  · next h => rw [h]; rfl
  · next old h =>
    rw [isPlaceholder_setSlot, isPlaceholder_unmark, h]
    congr 1
    rw [Bool.eq_iff_iff, bne_iff_ne, bne_iff_ne, ne_eq, ne_eq, Option.some.injEq, eq_comm]

section Runs

variable {α β : Type} {f : α → Change β} {m : Change α}

theorem get_bind (f : Store → Change β) : (get >>= f : Change β) store = f store store := rfl

theorem modify_bind (g : Store → Store) (f : PUnit → Change β) :
    (modify g >>= f : Change β) store = f ⟨⟩ (g store) := rfl

theorem set_bind (after : Store) (f : PUnit → Change β) :
    (set after >>= f : Change β) store = f ⟨⟩ after := rfl

theorem throw_bind (e : BuildError) : (throw e >>= f : Change β) store = .error e store := rfl

theorem pure_apply (a : α) : (pure a : Change α) store = .ok a store := rfl

theorem takeMark_bind (id : NodeId) (f : Bool → Change β) :
    (takeMark id >>= f) store = f (store.isPlaceholder id) (store.unmark id) := rfl

theorem bind_of_ok {a : α} {after : Store} (h : m store = .ok a after) :
    (m >>= f) store = f a after := by
  show EStateM.bind m f store = _
  simp only [EStateM.bind, h]

theorem bind_of_error {e : BuildError} {after : Store} (h : m store = .error e after) :
    (m >>= f) store = .error e after := by
  show EStateM.bind m f store = _
  simp only [EStateM.bind, h]

end Runs

theorem create_of_room {path : Path} (body : Body) (pos : Position)
    (h : store.isDefined path.name = false) : create path body pos store =
      .ok store.slots.size ((store.vacate path.name).push ⟨path.name, body, pos⟩) := by
  unfold isDefined at h
  unfold vacate
  cases hl : store.lookup path.name with
  | none => simp only [create, get_bind, hl, set_bind, pure_apply]
  | some old =>
    have hp : store.isPlaceholder old = true := by simpa [hl] using h
    simp only [create, get_bind, hl, takeMark_bind, hp, modify_bind, set_bind, pure_apply,
      Bool.not_true, Bool.false_eq_true, if_false, size_setSlot]
    rfl

/-- A name that a node bears for good is not written again, and the store is left as it was. -/
theorem create_of_taken {path : Path} (body : Body) (pos : Position)
    (h : store.isDefined path.name = true) :
    create path body pos store = .error (.duplicateNode path.name) store := by
  unfold isDefined at h
  obtain ⟨old, hl, hp⟩ := Option.any_eq_true _ _ |>.mp h
  have hp : store.isPlaceholder old = false := by simpa using hp
  simp only [create, get_bind, hl, takeMark_bind, hp, unmark_of_not_isPlaceholder hp, Bool.not_false,
    if_true, throw_bind]

theorem apply_create_of_room {path : Path} (body : Body) (pos : Position)
    (h : store.isDefined path.name = false) : store.apply (.create path body pos) =
      (.ok (.created store.slots.size), (store.vacate path.name).push ⟨path.name, body, pos⟩) := by
  simp only [apply, Edit.change, bind_of_ok (create_of_room body pos h), pure_apply]

theorem apply_create_of_taken {path : Path} (body : Body) (pos : Position)
    (h : store.isDefined path.name = true) : store.apply (.create path body pos) =
      (.error (.duplicateNode path.name), store) := by
  simp only [apply, Edit.change, bind_of_error (create_of_taken body pos h)]

theorem apply_createPlaceholder_of_room {path : Path} (pos : Position)
    (h : store.isDefined path.name = false) : store.apply (.createPlaceholder path pos) =
      (.ok (.created store.slots.size),
        ((store.vacate path.name).push ⟨path.name, .goto none, pos⟩).mark store.slots.size) := by
  have hrun : createPlaceholder path pos store = .ok store.slots.size
      (((store.vacate path.name).push ⟨path.name, .goto none, pos⟩).mark store.slots.size) := by
    simp only [createPlaceholder, bind_of_ok (create_of_room _ pos h), modify_bind, pure_apply]
  simp only [apply, Edit.change, bind_of_ok hrun, pure_apply]

theorem apply_createPlaceholder_of_taken {path : Path} (pos : Position)
    (h : store.isDefined path.name = true) : store.apply (.createPlaceholder path pos) =
      (.error (.duplicateNode path.name), store) := by
  have hrun : createPlaceholder path pos store = .error (.duplicateNode path.name) store :=
    bind_of_error (create_of_taken _ pos h)
  simp only [apply, Edit.change, bind_of_error hrun]

theorem apply_discard_of_not_isPlaceholder (h : store.isPlaceholder id = false) :
    store.apply (.discard id) = (.ok (.changed false), store) := by
  have hrun : discard id store = .ok false store := by
    simp only [discard, takeMark_bind, h, unmark_of_not_isPlaceholder h, Bool.not_false, if_true,
      pure_apply]
  simp only [apply, Edit.change, bind_of_ok hrun, pure_apply]

theorem apply_discard_of_live (h : store.isPlaceholder id = true) (hn : store.node? id = some node) :
    store.apply (.discard id) =
      (.ok (.changed true), ((store.unmark id).setSlot id none).release node.name id) := by
  have hrun : discard id store =
      .ok true (((store.unmark id).setSlot id none).release node.name id) := by
    simp only [discard, takeMark_bind, h, get_bind, node?_unmark, hn, modify_bind, pure_apply,
      Bool.not_true, Bool.false_eq_true, if_false]
  simp only [apply, Edit.change, bind_of_ok hrun, pure_apply]

theorem apply_discard_of_gone (h : store.isPlaceholder id = true) (hn : store.node? id = none) :
    store.apply (.discard id) = (.ok (.changed true), store.unmark id) := by
  have hrun : discard id store = .ok true (store.unmark id) := by
    simp only [discard, takeMark_bind, h, get_bind, node?_unmark, hn, pure_apply, Bool.not_true,
      Bool.false_eq_true, if_false]
  simp only [apply, Edit.change, bind_of_ok hrun, pure_apply]

theorem apply_setBody_of_live (body : Body) (hn : store.node? id = some node) :
    store.apply (.setBody id body) =
      (.ok (.changed true), store.setSlot id (some { node with body })) := by
  have hrun : setBody id body store = .ok true (store.setSlot id (some { node with body })) := by
    simp only [setBody, get_bind, hn, modify_bind, pure_apply]
  simp only [apply, Edit.change, bind_of_ok hrun, pure_apply]

theorem apply_setBody_of_gone (body : Body) (hn : store.node? id = none) :
    store.apply (.setBody id body) = (.ok (.changed false), store) := by
  have hrun : setBody id body store = .ok false store := by
    simp only [setBody, get_bind, hn, pure_apply]
  simp only [apply, Edit.change, bind_of_ok hrun, pure_apply]

variable {target : Target} {loose : LooseEnd} {rest : List LooseEnd}

theorem apply_tie_of_ok {after : Store} (h : tieEnd target loose store = .ok () after) :
    store.apply (.tie target (loose :: rest)) = after.apply (.tie target rest) := by
  have hrun : tie target (loose :: rest) store = tie target rest after := bind_of_ok h
  cases ht : tie target rest after with
  | ok _ last => simp only [apply, Edit.change, bind_of_ok (hrun.trans ht), bind_of_ok ht]
  | error e last => simp only [apply, Edit.change, bind_of_error (hrun.trans ht), bind_of_error ht]

theorem apply_tie_of_error {e : BuildError} (h : tieEnd target loose store = .error e store) :
    store.apply (.tie target (loose :: rest)) = (.error e, store) := by
  have hrun : tie target (loose :: rest) store = .error e store := bind_of_error h
  simp only [apply, Edit.change, bind_of_error hrun]

/-- The end of a node that is gone has nothing to be tied. -/
theorem apply_tie_of_gone (hn : store.node? loose.node = none) :
    store.apply (.tie target (loose :: rest)) = store.apply (.tie target rest) := by
  refine apply_tie_of_ok ?_
  simp only [tieEnd, get_bind, hn, pure_apply]

theorem apply_tie_of_absent (hn : store.node? loose.node = some node)
    (hl : node.body.link? loose.outlet = none) : store.apply (.tie target (loose :: rest)) =
      (.error (.noSuchLink node.name loose.outlet), store) := by
  refine apply_tie_of_error ?_
  simp only [tieEnd, get_bind, hn, hl]
  rfl

theorem apply_tie_of_tied {old : Target} (hn : store.node? loose.node = some node)
    (hl : node.body.link? loose.outlet = some (some old)) :
    store.apply (.tie target (loose :: rest)) = (.error (.retied node.name loose.outlet), store) := by
  refine apply_tie_of_error ?_
  simp only [tieEnd, get_bind, hn, hl]
  rfl

theorem apply_tie_of_open (hn : store.node? loose.node = some node)
    (hl : node.body.link? loose.outlet = some none) :
    store.apply (.tie target (loose :: rest)) =
      ((store.setSlot loose.node (some { node with
        body := node.body.setLink loose.outlet (some target) })).unmark loose.node).apply
        (.tie target rest) := by
  refine apply_tie_of_ok ?_
  simp only [tieEnd, get_bind, hn, hl]
  rfl

end Store

/-- The change replaces the body of a node. -/
def Edit.rewrites : Edit → Bool
  | setBody .. => true
  | _ => false

namespace Store

/-- One change of the slots, the index and the placeholders together. Bodies are replaced only where
`rewrites` holds. -/
inductive Step (rewrites : Prop) (store : Store) : Store → Prop
  | wrote (node : Node) (room : store.isDefined node.name = false) :
    Step rewrites store ((store.vacate node.name).push node)
  | kept (name : String) (pos : Position) (room : store.isDefined name = false) :
    Step rewrites store (((store.vacate name).push ⟨name, .goto none, pos⟩).mark store.slots.size)
  | discarded (id : NodeId) (node : Node) (waits : store.isPlaceholder id = true)
    (live : store.node? id = some node) :
    Step rewrites store (((store.unmark id).setSlot id none).release node.name id)
  | forgot (id : NodeId) (gone : store.node? id = none) : Step rewrites store (store.unmark id)
  | tied (target : Target) (loose : LooseEnd) (node : Node)
    (live : store.node? loose.node = some node)
    (unresolved : node.body.link? loose.outlet = some none) :
    Step rewrites store ((store.setSlot loose.node (some
      { node with body := node.body.setLink loose.outlet (some target) })).unmark loose.node)
  | rewrote (id : NodeId) (node : Node) (body : Body) (allowed : rewrites)
    (live : store.node? id = some node) :
    Step rewrites store (store.setSlot id (some { node with body }))
  | noted (diagnostics : Array Diagnostic) : Step rewrites store { store with diagnostics }

open Relation

variable {rewrites : Prop}

/-- Ends that were tied before one that cannot be stay tied. -/
theorem tie_steps (target : Target) (ends : List LooseEnd) (store : Store) :
    ReflTransGen (Step rewrites) store (store.apply (.tie target ends)).2 := by
  induction ends generalizing store with
  | nil => exact .refl
  | cons loose rest ih =>
    cases hn : store.node? loose.node with
    | none =>
      rw [apply_tie_of_gone hn]
      exact ih store
    | some node =>
      cases hl : node.body.link? loose.outlet with
      | none => rw [apply_tie_of_absent hn hl]
      | some link =>
        cases link with
        | none =>
          rw [apply_tie_of_open hn hl]
          exact .head (.tied target loose node hn hl) (ih _)
        | some old => rw [apply_tie_of_tied hn hl]

theorem apply_steps (store : Store) (edit : Edit) :
    ReflTransGen (Step (edit.rewrites = true)) store (store.apply edit).2 := by
  cases edit with
  | create path body pos =>
    cases h : store.isDefined path.name with
    | false =>
      rw [apply_create_of_room body pos h]
      exact .single (.wrote ⟨path.name, body, pos⟩ h)
    | true => rw [apply_create_of_taken body pos h]
  | createPlaceholder path pos =>
    cases h : store.isDefined path.name with
    | false =>
      rw [apply_createPlaceholder_of_room pos h]
      exact .single (.kept path.name pos h)
    | true => rw [apply_createPlaceholder_of_taken pos h]
  | discard id =>
    cases h : store.isPlaceholder id with
    | false => rw [apply_discard_of_not_isPlaceholder h]
    | true =>
      cases hn : store.node? id with
      | none =>
        rw [apply_discard_of_gone h hn]
        exact .single (.forgot id hn)
      | some node =>
        rw [apply_discard_of_live h hn]
        exact .single (.discarded id node h hn)
  | tie target ends => exact tie_steps target ends store
  | setBody id body =>
    cases hn : store.node? id with
    | none => rw [apply_setBody_of_gone body hn]
    | some node =>
      rw [apply_setBody_of_live body hn]
      exact .single (.rewrote id node body rfl hn)
  | report pos mistake => exact .single (.noted _)
  | check => exact .single (.noted _)

theorem Step.mono {other : Prop} {after : Store} (h : rewrites → other)
    (step : Step rewrites store after) : Step other store after := by
  cases step with
  | wrote node room => exact .wrote node room
  | kept name pos room => exact .kept name pos room
  | discarded id node waits live => exact .discarded id node waits live
  | forgot id gone => exact .forgot id gone
  | tied target loose node live unresolved => exact .tied target loose node live unresolved
  | rewrote id node body allowed live => exact .rewrote id node body (h allowed) live
  | noted diagnostics => exact .noted diagnostics

theorem applyAll_steps (edits : List Edit) (store : Store)
    (h : ∀ edit ∈ edits, edit.rewrites = true → rewrites) :
    ReflTransGen (Step rewrites) store (store.applyAll edits) := by
  induction edits generalizing store with
  | nil => exact .refl
  | cons edit rest ih =>
    have hedit := ReflTransGen.mono (fun _ _ => Step.mono (h edit List.mem_cons_self)) _ _
      (apply_steps store edit)
    exact hedit.trans (ih _ fun other hm => h other (List.mem_cons_of_mem _ hm))

end Store

end Storyline
