import Storyline.Proofs.Names.Text
import Storyline.Proofs.Store.Shows
import Mathlib.Data.List.Perm.Subperm

namespace Storyline

/-- So many copies of a name, by their numbers from `n` on. -/
def copies (base : String) (n count : Nat) : List String :=
  (List.range' n count).map fun m => base ++ "'" ++ toString m

theorem nodup_copies (base : String) (n count : Nat) : (copies base n count).Nodup :=
  List.Nodup.map (fun _ _ h => numbered_injective h) List.nodup_range'

/-- Copies that are all taken are no more than what is taken. -/
theorem le_add_length_of_taken {base : String} {taken : List String} {n m : Nat}
    (h : ∀ k, n ≤ k → k < m → base ++ "'" ++ toString k ∈ taken) : m ≤ n + taken.length := by
  have hsub : copies base n (m - n) ⊆ taken := by
    intro name hm
    obtain ⟨k, hk, rfl⟩ := List.mem_map.mp hm
    obtain ⟨hnk, hkm⟩ := List.mem_range'_1.mp hk
    exact h k hnk (by omega)
  have hle := (List.subperm_of_subset (nodup_copies base n (m - n)) hsub).length_le
  rw [copies, List.length_map, List.length_range'] at hle
  omega

/-- The first copy with a property is found if it is among those that are tried. -/
theorem find?_copies {base : String} {p : String → Bool} {n m count : Nat} (hn : n ≤ m)
    (hcount : m < n + count) (hp : p (base ++ "'" ++ toString m) = true)
    (hbefore : ∀ k, n ≤ k → k < m → p (base ++ "'" ++ toString k) = false) :
    (copies base n count).find? p = some (base ++ "'" ++ toString m) := by
  have hfirst : (List.range' n count).find? (p ∘ fun k => base ++ "'" ++ toString k) = some m := by
    refine List.find?_range'_eq_some.mpr ⟨hp, List.mem_range'_1.mpr ⟨hn, hcount⟩, fun k hk hlt => ?_⟩
    rw [Function.comp_apply, hbefore k hk hlt, Bool.not_false]
  rw [copies, List.find?_map, hfirst]
  rfl

/-- The search depends on which names are taken alone. -/
theorem Story.firstFree_congr {taken taken' : List String} (base : String) (n : Nat)
    (h : ∀ name, name ∈ taken ↔ name ∈ taken') :
    firstFree base taken n = firstFree base taken' n := by
  obtain ⟨m, hm, he, hfree, hbefore⟩ := firstFree_least base taken n
  obtain ⟨m', hm', he', hfree', hbefore'⟩ := firstFree_least base taken' n
  rcases Nat.lt_trichotomy m m' with hlt | rfl | hlt
  · exact absurd ((h _).mpr (hbefore' m hm hlt)) hfree
  · rw [he, he']
  · exact absurd ((h _).mp (hbefore m' hm' hlt)) hfree'

namespace Store

variable {store : Store} {name : String}

theorem mem_index_iff : name ∈ store.index.map Prod.fst ↔ store.contains name = true := by
  rw [contains, lookup, List.lookup_isSome_iff, List.mem_map]
  simp only [beq_iff_eq]
  exact exists_congr fun _ => and_congr_right' eq_comm

theorem mem_nodes_iff {node : Node} : node ∈ store.nodes ↔ ∃ id, store.node? id = some node := by
  simp only [nodes, node?, List.mem_filterMap, id, exists_eq_right, Option.join_eq_some_iff]
  rw [← Array.mem_def, Array.mem_iff_getElem?]

theorem Consistent.contains_iff_mem (c : Consistent store) (name : String) :
    store.contains name = true ↔ name ∈ store.names := by
  rw [contains, Option.isSome_iff_exists, names, List.mem_map]
  simp only [c.lookup_iff, mem_nodes_iff]
  constructor
  · rintro ⟨id, node, hn, hname⟩
    exact ⟨node, ⟨id, hn⟩, hname⟩
  · rintro ⟨node, ⟨id, hn⟩, hname⟩
    exact ⟨id, node, hn, hname⟩

/-- The number of the copy is the least one that no live node has in its name, and it is small. -/
theorem Consistent.freshLabel_least (c : Consistent store) (base : String) :
    ∃ n, 2 ≤ n ∧ n ≤ store.size + 2 ∧ store.freshLabel base = base ++ "'" ++ toString n ∧
      store.freshLabel base ∉ store.names ∧
      ∀ m, 2 ≤ m → m < n → base ++ "'" ++ toString m ∈ store.names := by
  obtain ⟨n, hn, he, hfree, hbefore⟩ :=
    Story.firstFree_least base (store.index.map Prod.fst) 2
  simp only [mem_index_iff, c.contains_iff_mem] at hfree hbefore
  have hsmall := le_add_length_of_taken hbefore
  rw [names, List.length_map, Nat.add_comm] at hsmall
  have he : store.freshLabel base = base ++ "'" ++ toString n := he
  exact ⟨n, hn, hsmall, he, he ▸ hfree, hbefore⟩

/-- The search for a copy that the index does not have, with a counter that stays below `limit`. -/
def searchBelow (store : Store) (limit : Nat) (base : String) : Option String :=
  (copies base 2 (limit - 2)).find? fun name => !store.contains name

theorem lookup_of_free (h : store.contains name = false) : store.lookup name = none := by
  simpa [contains] using h

/-- A name that no node bears has nothing to give way. -/
theorem vacate_of_free (h : store.contains name = false) : store.vacate name = store := by
  rw [vacate, lookup_of_free h]

theorem isDefined_of_free (h : store.contains name = false) : store.isDefined name = false := by
  rw [isDefined, lookup_of_free h]
  rfl

/-- Numbers are counted in 32 bits with a sign and stay below this. -/
def numberLimit : Nat := 0x80000000

/-- Whatever was done to a new story, as long as it has fewer live nodes than there are numbers from 2 on,
the search for a free copy of a name comes to an end: it finds the copy whose number is the least from 2
on that no live node has in its name, be it a placeholder or not. The story without an index gives the
same name, and a node or a placeholder can be written there at once. -/
theorem applyAll_freshLabel_least (start : String) (edits : List Edit) (base : String)
    (few : ((empty start).applyAll edits).size < numberLimit - 2) :
    let store := (empty start).applyAll edits
    let label := store.freshLabel base
    (∃ n, 2 ≤ n ∧ n < numberLimit ∧ n ≤ store.size + 2 ∧ label = base ++ "'" ++ toString n ∧
      label ∉ store.names ∧ ∀ m, 2 ≤ m → m < n → base ++ "'" ++ toString m ∈ store.names) ∧
    store.searchBelow numberLimit base = some label ∧
    (Edit.applyAll edits (.empty start)).freshLabel base = label ∧
    ∀ path pos, path.name = label →
      (∀ body, store.apply (.create path body pos) =
        (.ok (.created store.slots.size), store.push ⟨label, body, pos⟩)) ∧
      store.apply (.createPlaceholder path pos) =
        (.ok (.created store.slots.size),
          (store.push ⟨label, .goto none, pos⟩).mark store.slots.size) := by
  intro store label
  have c : Consistent store := .applyAll start edits
  have hshows : Shows store (Edit.applyAll edits (.empty start)) := .applyAll start edits
  obtain ⟨n, hn, hsmall, he, hfree, hbefore⟩ := c.freshLabel_least base
  have hlimit : n < numberLimit := by
    have few : store.size < numberLimit - 2 := few
    omega
  have hnew : store.contains label = false :=
    Bool.eq_false_iff.mpr fun h => hfree ((c.contains_iff_mem label).mp h)
  refine ⟨⟨n, hn, hlimit, hsmall, he, hfree, hbefore⟩, ?_, ?_, fun path pos hpath => ?_⟩
  · refine (find?_copies hn (by omega) ?_ fun m hm hlt => ?_).trans (congrArg some he.symm)
    · rw [← he, hnew, Bool.not_false]
    · rw [(c.contains_iff_mem _).mpr (hbefore m hm hlt), Bool.not_true]
  · refine Story.firstFree_congr base 2 fun name => ?_
    rw [mem_index_iff, c.contains_iff_mem, names, Story.names, hshows.nodes]
  · have hroom : store.isDefined path.name = false := hpath ▸ isDefined_of_free hnew
    have hvacate : store.vacate path.name = store := vacate_of_free (hpath ▸ hnew)
    constructor
    · intro body
      rw [apply_create_of_room body pos hroom, hvacate, hpath]
    · rw [apply_createPlaceholder_of_room pos hroom, hvacate, hpath]

/-- A placeholder takes its name and one that was given up does not. -/
theorem applyAll_freshLabel_least_kept :
    let store := (empty "start").applyAll [.create (.root "x'2") .ask ⟨1, 1⟩,
      .createPlaceholder (.root "x'3") ⟨2, 1⟩, .createPlaceholder (.root "x'4") ⟨3, 1⟩, .discard 2]
    store.size < numberLimit - 2 ∧ store.freshLabel "x" = "x'4" ∧
      (store.apply (.createPlaceholder (.root "x'4") ⟨4, 1⟩)).1 = .ok (.created 3) := by
  intro store
  have few : store.size < numberLimit - 2 := by decide +kernel
  have hlabel : store.freshLabel "x" = "x'4" := by decide +kernel
  obtain ⟨-, -, -, hroom⟩ := applyAll_freshLabel_least "start" _ "x" few
  have hkept := (hroom (.root "x'4") ⟨4, 1⟩ ((Path.name_root "x'4").trans hlabel.symm)).2
  exact ⟨few, hlabel, congrArg Prod.fst hkept⟩

end Store

end Storyline
