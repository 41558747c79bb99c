import Storyline.Proofs.Store.Steps

namespace Storyline

namespace Store

/-- The index and the placeholders fit the slots. -/
structure Consistent (store : Store) : Prop where
  lookup_iff : ∀ name id,
    store.lookup name = some id ↔ ∃ node, store.node? id = some node ∧ node.name = name
  live : ∀ id, store.isPlaceholder id = true → ∃ node, store.node? id = some node

namespace Consistent

variable {store : Store} {name : String} {id : NodeId} {node : Node}

theorem empty (start : String) : Consistent (empty start) where
  lookup_iff name id := by simp [Store.empty, lookup, node?]
  live id h := by cases h

theorem lookup_name (c : Consistent store) (h : store.node? id = some node) :
    store.lookup node.name = some id := (c.lookup_iff node.name id).mpr ⟨node, h, rfl⟩

theorem isPlaceholder_size (c : Consistent store) :
    store.isPlaceholder store.slots.size = false := by
  refine Bool.eq_false_iff.mpr fun hp => ?_
  obtain ⟨node, hn⟩ := c.live _ hp
  rw [node?_size] at hn
  cases hn

/-- A new node at a name that was free or kept. -/
theorem push (c : Consistent store) (node : Node) :
    Consistent ((store.vacate node.name).push node) := by
  have node_iff (other : NodeId) (found : Node) :
      ((store.vacate node.name).push node).node? other = some found ↔
        (other = store.slots.size ∧ found = node) ∨
          (store.node? other = some found ∧ found.name ≠ node.name) := by
    rw [node?_push, size_vacate, node?_vacate]
    by_cases hsize : other = store.slots.size
    · subst hsize
      simp [node?_size, eq_comm]
    · rw [if_neg hsize]
      by_cases hl : store.lookup node.name = some other
      · obtain ⟨old, ho, hname⟩ := (c.lookup_iff _ _).mp hl
        simp only [hl, if_true, hsize, false_and, false_or, ho, Option.some.injEq]
        constructor
        · intro h
          cases h
        · rintro ⟨rfl, hne⟩
          exact absurd hname hne
      · simp only [hl, if_false, hsize, false_and, false_or, iff_self_and]
        intro hf hname
        exact hl (hname ▸ c.lookup_name hf)
  constructor
  · intro name id
    rw [lookup_push, size_vacate, lookup_vacate]
    simp only [node_iff]
    by_cases hname : name = node.name
    · subst hname
      rw [if_pos rfl]
      constructor
      · rintro ⟨rfl⟩
        exact ⟨node, .inl ⟨rfl, rfl⟩, rfl⟩
      · rintro ⟨found, ⟨rfl, -⟩ | ⟨-, hne⟩, hf⟩
        · rfl
        · exact absurd hf hne
    · rw [if_neg hname, c.lookup_iff]
      constructor
      · rintro ⟨found, hf, rfl⟩
        exact ⟨found, .inr ⟨hf, hname⟩, rfl⟩
      · rintro ⟨found, ⟨-, rfl⟩ | ⟨hf, -⟩, hn⟩
        · exact absurd hn.symm hname
        · exact ⟨found, hf, hn⟩
  · intro other hp
    rw [isPlaceholder_push, isPlaceholder_vacate, Bool.and_eq_true, bne_iff_ne] at hp
    obtain ⟨found, hf⟩ := c.live other hp.2
    refine ⟨found, (node_iff other found).mpr (.inr ⟨hf, fun hname => hp.1 ?_⟩)⟩
    exact hname ▸ c.lookup_name hf

/-- A node that is live may be noted as a placeholder. -/
theorem mark (c : Consistent store) (node : Node) (h : store.node? id = some node) :
    Consistent (store.mark id) where
  lookup_iff := c.lookup_iff
  live other hp := by
    rw [isPlaceholder_mark, Bool.or_eq_true, beq_iff_eq] at hp
    rcases hp with rfl | hp
    · exact ⟨node, h⟩
    · exact c.live other hp

theorem unmark (c : Consistent store) (id : NodeId) : Consistent (store.unmark id) where
  lookup_iff := c.lookup_iff
  live other hp := by
    rw [isPlaceholder_unmark, Bool.and_eq_true] at hp
    exact c.live other hp.2

/-- A live node may give way to another of the same name in its slot. -/
theorem setSlot (c : Consistent store) {old : Node} (h : store.node? id = some old) (node : Node)
    (hname : node.name = old.name) : Consistent (store.setSlot id (some node)) where
  lookup_iff name other := by
    rw [lookup_setSlot, c.lookup_iff, node?_setSlot (lt_size_of_node? h)]
    split
    · next he =>
      subst he
      simp [h, hname]
    · rfl
  live other hp := by
    rw [node?_setSlot (lt_size_of_node? h)]
    split
    · exact ⟨node, rfl⟩
    · exact c.live other hp

/-- A node goes with its mark and its entry in the index. -/
theorem discard (c : Consistent store) (h : store.node? id = some node) :
    Consistent (((store.unmark id).setSlot id none).release node.name id) where
  lookup_iff name other := by
    have hl : ((store.unmark id).setSlot id none).lookup node.name = some id := c.lookup_name h
    rw [lookup_release, node?_release, node?_setSlot_none]
    simp only [hl, and_true, lookup_setSlot, lookup_unmark, node?_unmark]
    by_cases hname : name = node.name
    · subst hname
      rw [if_pos rfl]
      constructor
      · intro h
        cases h
      · rintro ⟨found, hf, hn⟩
        split at hf
        · cases hf
        · next hne =>
          have := (c.lookup_iff _ _).mpr ⟨found, hf, hn⟩
          rw [c.lookup_name h] at this
          exact absurd (Option.some.inj this).symm hne
    · rw [if_neg hname, c.lookup_iff]
      by_cases he : other = id
      · subst he
        simp [h, eq_comm, hname]
      · rw [if_neg he]
  live other hp := by
    simp only [isPlaceholder_release, isPlaceholder_setSlot, isPlaceholder_unmark,
      Bool.and_eq_true, bne_iff_ne] at hp
    rw [node?_release, node?_setSlot_none, if_neg hp.1]
    exact c.live other hp.2

theorem step {rewrites : Prop} {after : Store} (c : Consistent store)
    (h : Step rewrites store after) : Consistent after := by
  cases h with
  | wrote node room => exact c.push node
  | kept name pos room =>
    refine (c.push ⟨name, .goto none, pos⟩).mark ⟨name, .goto none, pos⟩ ?_
    rw [node?_push, size_vacate, if_pos rfl]
  | discarded id node waits live => exact c.discard live
  | forgot id gone => exact c.unmark id
  | tied target loose node live unresolved =>
    have hc := c.setSlot live
      { node with body := node.body.setLink loose.outlet (some target) } rfl
    exact hc.unmark loose.node
  | rewrote id node body allowed live => exact c.setSlot live { node with body } rfl
  | noted diagnostics => exact ⟨c.lookup_iff, c.live⟩

theorem steps {rewrites : Prop} {after : Store} (c : Consistent store)
    (h : Relation.ReflTransGen (Step rewrites) store after) : Consistent after := by
  induction h with
  | refl => exact c
  | tail _ h ih => exact ih.step h

theorem applyAll (start : String) (edits : List Edit) :
    Consistent ((Store.empty start).applyAll edits) := by
  have h : Relation.ReflTransGen (Step True) (Store.empty start)
      ((Store.empty start).applyAll edits) := applyAll_steps edits _ fun _ _ _ => trivial
  exact (empty start).steps h

/-- Two live nodes never share a name. -/
theorem nodup_names (c : Consistent store) : store.names.Nodup := by
  have hnames : store.names = store.slots.toList.filterMap fun slot => slot.map Node.name := by
    rw [names, nodes, List.map_filterMap]
    rfl
  rw [hnames, List.Nodup, List.pairwise_filterMap, List.pairwise_iff_getElem]
  intro i j hi hj hlt name hn name' hn'
  rintro rfl
  have lookup_at (k : Nat) (hk : k < store.slots.toList.length)
      (h : store.slots.toList[k].map Node.name = some name) : store.lookup name = some k := by
    obtain ⟨node, hslot, hname⟩ := Option.map_eq_some_iff.mp h
    refine (c.lookup_iff name k).mpr ⟨node, ?_, hname⟩
    have hk : k < store.slots.size := by simpa using hk
    rw [node?, Array.getElem?_eq_getElem hk]
    simpa using hslot
  have hi := lookup_at i hi hn
  have hj := lookup_at j hj hn'
  rw [hi] at hj
  exact Nat.ne_of_lt hlt (Option.some.inj hj)

theorem contains_iff (c : Consistent store) (name : String) :
    store.contains name = true ↔ ∃ node, store.get? name = some node ∧ node.name = name := by
  unfold contains get?
  cases hl : store.lookup name with
  | none => simp
  | some id => simpa using (c.lookup_iff name id).mp hl

end Consistent

/-- A name that no node of the list bears is no one else's place. -/
theorem insertNode_perm (node : Node) (found : List Node) (h : node.name ∉ found.map Node.name) :
    (insertNode node found).Perm (node :: found) := by
  induction found with
  | nil => exact .refl _
  | cons other rest ih =>
    rw [List.map_cons, List.mem_cons, not_or] at h
    unfold insertNode
    split
    · exact .refl _
    · rw [if_neg h.1]
      exact ((ih h.2).cons other).trans (.swap node other rest)

theorem foldl_insertNode_perm (nodes found : List Node)
    (h : (found.map Node.name ++ nodes.map Node.name).Nodup) :
    (nodes.foldl (fun found node => insertNode node found) found).Perm (found ++ nodes) := by
  induction nodes generalizing found with
  | nil => simp
  | cons node rest ih =>
    have hmiddle : (node :: found ++ rest).Perm (found ++ node :: rest) := List.perm_middle.symm
    have hnew : node.name ∉ found.map Node.name := by
      rw [List.map_cons, List.perm_middle.nodup_iff] at h
      exact fun hm => (List.nodup_cons.mp h).1 (List.mem_append_left _ hm)
    have hp := insertNode_perm node found hnew
    refine (ih (insertNode node found) ?_).trans ((hp.append_right rest).trans hmiddle)
    rw [((hp.map Node.name).append_right _).nodup_iff, ← List.map_append,
      (hmiddle.map Node.name).nodup_iff, List.map_append]
    exact h

theorem Consistent.sorted_perm {store : Store} (c : Consistent store) :
    store.sorted.Perm store.nodes := by
  refine foldl_insertNode_perm store.nodes [] ?_
  rw [List.map_nil, List.nil_append]
  exact c.nodup_names

theorem mem_insertNode {node later : Node} {found : List Node} (h : later ∈ insertNode node found) :
    later = node ∨ later ∈ found := by
  induction found with
  | nil => exact .inl (List.mem_singleton.mp h)
  | cons other rest ih =>
    unfold insertNode at h
    split at h
    · exact List.mem_cons.mp h
    · split at h
      · exact (List.mem_cons.mp h).imp_right (List.mem_cons_of_mem other)
      · rcases List.mem_cons.mp h with rfl | h
        · exact .inr List.mem_cons_self
        · exact (ih h).imp_right (List.mem_cons_of_mem other)

/-- The nodes stand in the order of their names, no name twice. -/
def Ordered (nodes : List Node) : Prop := nodes.Pairwise fun a b => a.name < b.name

theorem Ordered.insertNode (node : Node) {found : List Node} (h : Ordered found) :
    Ordered (insertNode node found) := by
  induction h with
  | nil => exact List.pairwise_singleton _ _
  | @cons other rest hother hrest ih =>
    unfold Store.insertNode
    split
    · next hlt =>
      refine .cons (fun later hm => ?_) (.cons hother hrest)
      rcases List.mem_cons.mp hm with rfl | hm
      · exact hlt
      · exact String.lt_trans hlt (hother later hm)
    · next hle =>
      split
      · next heq => exact .cons (fun later hm => heq ▸ hother later hm) hrest
      · next hne =>
        refine .cons (fun later hm => ?_) ih
        rcases mem_insertNode hm with rfl | hm
        · exact Std.lt_of_le_of_ne (String.not_lt.mp hle) (Ne.symm hne)
        · exact hother later hm

theorem ordered_sorted (store : Store) : Ordered store.sorted := by
  have along (nodes found : List Node) (h : Ordered found) :
      Ordered (nodes.foldl (fun found node => Store.insertNode node found) found) := by
    induction nodes generalizing found with
    | nil => exact h
    | cons node rest ih => exact ih _ (h.insertNode node)
  exact along store.nodes [] .nil

theorem tie_ne_duplicateNode {target : Target} {ends : List LooseEnd} {name : String}
    (store : Store) : (store.apply (.tie target ends)).1 ≠ .error (.duplicateNode name) := by
  induction ends generalizing store with
  | nil =>
    intro h
    cases h
  | cons loose rest ih =>
    cases hn : store.node? loose.node with
    | none =>
      rw [apply_tie_of_gone hn]
      exact ih store
    | some node =>
      cases hl : node.body.link? loose.outlet with
      | none => simp [apply_tie_of_absent hn hl]
      | some link =>
        cases link with
        | none =>
          rw [apply_tie_of_open hn hl]
          exact ih _
        | some old => simp [apply_tie_of_tied hn hl]

/-- A write that is refused for its name leaves all of the store as it was. -/
theorem apply_duplicateNode {store : Store} {edit : Edit} {name : String}
    (h : (store.apply edit).1 = .error (.duplicateNode name)) : (store.apply edit).2 = store := by
  cases edit with
  | create path body pos =>
    cases hd : store.isDefined path.name with
    | false =>
      rw [apply_create_of_room body pos hd] at h
      cases h
    | true => rw [apply_create_of_taken body pos hd]
  | createPlaceholder path pos =>
    cases hd : store.isDefined path.name with
    | false =>
      rw [apply_createPlaceholder_of_room pos hd] at h
      cases h
    | true => rw [apply_createPlaceholder_of_taken pos hd]
  | discard id =>
    cases hp : store.isPlaceholder id with
    | false => rw [apply_discard_of_not_isPlaceholder hp]
    | true =>
      cases hn : store.node? id with
      | none =>
        rw [apply_discard_of_gone hp hn] at h
        cases h
      | some node =>
        rw [apply_discard_of_live hp hn] at h
        cases h
  | tie target ends => exact absurd h (tie_ne_duplicateNode store)
  | setBody id body =>
    cases hn : store.node? id with
    | none => rw [apply_setBody_of_gone body hn]
    | some node =>
      rw [apply_setBody_of_live body hn] at h
      cases h
  | report pos mistake => cases h
  | check => cases h

/-- Whatever was done to a new story, its index and its live nodes fit one another: each name the
index has leads to the live node that bears it, and each live node is found so. Hence no two live
nodes share a name and a listing by name leaves none out. -/
theorem applyAll_consistent (start : String) (edits : List Edit) :
    let store := (empty start).applyAll edits
    (∀ name id,
      store.lookup name = some id ↔ ∃ node, store.node? id = some node ∧ node.name = name) ∧
    (∀ id, store.isPlaceholder id = true → ∃ node, store.node? id = some node) ∧
    store.names.Nodup ∧
    (∀ name,
      store.contains name = true ↔ ∃ node, store.get? name = some node ∧ node.name = name) ∧
    (store.sorted.Perm store.nodes ∧ store.sorted.length = store.size) ∧
    ∀ edit name, (store.apply edit).1 = .error (.duplicateNode name) →
      (store.apply edit).2 = store := by
  intro store
  have c : Consistent store := .applyAll start edits
  exact ⟨c.lookup_iff, c.live, c.nodup_names, c.contains_iff,
    ⟨c.sorted_perm, c.sorted_perm.length_eq⟩, fun _ _ => apply_duplicateNode⟩

end Store

end Storyline
