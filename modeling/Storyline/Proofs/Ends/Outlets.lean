import Storyline.Story.Basic
import Mathlib.Data.List.Nodup

namespace Storyline

namespace Body

theorem mem_caseLinks {start : Nat} {links : List Link} {outlet : Outlet} {link : Link} :
    (outlet, link) ∈ caseLinks start links ↔
      ∃ i, outlet = .case (start + i) ∧ links[i]? = some link := by
  induction links generalizing start with
  | nil => simp [caseLinks]
  | cons first rest ih =>
    simp only [caseLinks, List.mem_cons, Prod.mk.injEq, ih]
    constructor
    · rintro (⟨rfl, rfl⟩ | ⟨i, rfl, hi⟩)
      · exact ⟨0, rfl, rfl⟩
      · exact ⟨i + 1, by rw [show start + 1 + i = start + (i + 1) by omega], hi⟩
    · rintro ⟨i, rfl, hi⟩
      cases i with
      | zero => exact .inl ⟨rfl, by simpa using hi.symm⟩
      | succ i => exact .inr ⟨i, by rw [show start + 1 + i = start + (i + 1) by omega], hi⟩

theorem mem_links_iff {body : Body} {outlet : Outlet} {link : Link} :
    (outlet, link) ∈ body.links ↔ body.link? outlet = some link := by
  cases body with
  | switch mode counter value branches weights next =>
    cases mode <;> cases outlet <;>
      simp [links, link?, mem_caseLinks, List.mem_append, eq_comm]
  | _ => cases outlet <;> simp [links, link?, eq_comm]

theorem outlets_caseLinks (start : Nat) (links : List Link) :
    (caseLinks start links).map Prod.fst = (List.range' start links.length).map Outlet.case := by
  induction links generalizing start with
  | nil => rfl
  | cons first rest ih => simp only [caseLinks, List.map_cons, ih, List.length_cons, List.range'_succ]

theorem nodup_caseLinks (start : Nat) (links : List Link) :
    ((caseLinks start links).map Prod.fst).Nodup := by
  rw [outlets_caseLinks]
  refine List.Nodup.map (fun _ _ h => Outlet.case.inj h) ?_
  exact List.nodup_range'

theorem nodup_outlets (body : Body) : (body.links.map Prod.fst).Nodup := by
  cases body with
  | switch mode counter value branches weights next =>
    simp only [links, List.map_append]
    refine List.nodup_append.mpr ⟨nodup_caseLinks 0 branches, by split <;> simp, ?_⟩
    rintro outlet ho outlet' ho' rfl
    obtain ⟨⟨_, link⟩, hm, rfl⟩ := List.mem_map.mp ho
    obtain ⟨i, hi, -⟩ := mem_caseLinks.mp hm
    split at ho' <;> simp_all
  | _ => simp [links]

theorem link?_setLink_self {body : Body} {outlet : Outlet} {old : Link} (link : Link)
    (h : body.link? outlet = some old) : (body.setLink outlet link).link? outlet = some link := by
  cases body with
  | switch mode counter value branches weights next =>
    cases mode <;> cases outlet <;> simp_all [link?, setLink] <;>
      exact List.getElem?_set_self (List.getElem?_eq_some_iff.mp h).1
  | _ => cases outlet <;> simp_all [link?, setLink]

theorem link?_setLink_of_ne {body : Body} {outlet other : Outlet} (link : Link)
    (h : other ≠ outlet) : (body.setLink outlet link).link? other = body.link? other := by
  cases body with
  | switch mode counter value branches weights next =>
    cases mode <;> cases outlet <;> cases other <;> simp_all [link?, setLink] <;>
      exact List.getElem?_set_ne (fun hi => h hi.symm)
  | _ => cases outlet <;> cases other <;> simp_all [link?, setLink]

theorem link?_withThreads (question answer : List String) (body : Body) (outlet : Outlet) :
    (withThreads question answer body).link? outlet = body.link? outlet := by
  cases body <;> cases outlet <;> rfl

/-- None of the node's links has a target yet. -/
def IsOpen (body : Body) : Prop := ∀ outlet link, body.link? outlet = some link → link = none

end Body

/-- The loose ends of a node just written to a slot. -/
def openEnds (id : NodeId) (body : Body) : List LooseEnd :=
  body.links.map fun (outlet, _) => ⟨id, outlet⟩

theorem mem_openEnds_iff {id : NodeId} {body : Body} {outlet : Outlet} :
    ⟨id, outlet⟩ ∈ openEnds id body ↔ (body.link? outlet).isSome := by
  constructor
  · intro h
    obtain ⟨⟨_, link⟩, hl, he⟩ := List.mem_map.mp h
    obtain ⟨-, rfl⟩ := LooseEnd.mk.inj he
    rw [Body.mem_links_iff.mp hl]
    rfl
  · intro h
    obtain ⟨link, hl⟩ := Option.isSome_iff_exists.mp h
    exact List.mem_map.mpr ⟨_, Body.mem_links_iff.mpr hl, rfl⟩

theorem nodup_openEnds (id : NodeId) (body : Body) : (openEnds id body).Nodup := by
  have he : openEnds id body = (body.links.map Prod.fst).map (LooseEnd.mk id) := by
    simp [openEnds, Function.comp_def]
  rw [he]
  exact body.nodup_outlets.map fun a b h => (LooseEnd.mk.inj h).2

theorem count_openEnds_self (id : NodeId) (body : Body) (outlet : Outlet) :
    (openEnds id body).count ⟨id, outlet⟩ = if (body.link? outlet).isSome then 1 else 0 := by
  split
  · next h => exact List.count_eq_one_of_mem (nodup_openEnds id body) (mem_openEnds_iff.mpr h)
  · next h => exact List.count_eq_zero_of_not_mem fun hm => h (mem_openEnds_iff.mp hm)

theorem node_of_mem_openEnds {id : NodeId} {body : Body} {loose : LooseEnd}
    (h : loose ∈ openEnds id body) : loose.node = id := by
  obtain ⟨p, -, rfl⟩ := List.mem_map.mp h
  rfl

end Storyline
