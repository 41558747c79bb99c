import Storyline.Proofs.Meaning.Growth

namespace Storyline.Body

theorem setLink_link? {body : Body} {outlet : Outlet} {link : Link}
    (h : body.link? outlet = some link) : body.setLink outlet link = body := by
  cases body with
  | switch mode counter value branches weights next =>
    cases outlet with
    | next =>
      cases mode <;> simp only [link?, reduceCtorEq, Option.some.injEq] at h
      rw [setLink, h]
    | branch => simp [link?] at h
    | case index =>
      have hset : branches.set index link = branches := by
        obtain ⟨hlt, rfl⟩ := List.getElem?_eq_some_iff.mp h
        exact List.set_getElem_self hlt
      simp only [setLink, hset]
  | _ => cases outlet <;> simp_all [link?, setLink]

theorem setLink_setLink (body : Body) (outlet : Outlet) (first second : Link) :
    (body.setLink outlet first).setLink outlet second = body.setLink outlet second := by
  cases body with
  | switch mode counter value branches weights next =>
    cases mode <;> cases outlet <;> simp [setLink]
  | _ => cases outlet <;> rfl

theorem kind_setLink (body : Body) (outlet : Outlet) (link : Link) :
    (body.setLink outlet link).kind = body.kind := by
  cases body with
  | switch mode counter value branches weights next => cases mode <;> cases outlet <;> rfl
  | _ => cases outlet <;> rfl

theorem outlets_setLink (body : Body) (outlet : Outlet) (link : Link) :
    (body.setLink outlet link).links.map Prod.fst = body.links.map Prod.fst := by
  cases body with
  | switch mode counter value branches weights next =>
    cases mode <;> cases outlet <;>
      simp [setLink, links, outlets_caseLinks]
  | _ => cases outlet <;> rfl

/-- The links are listed by their outlets. -/
theorem links_eq_map (body : Body) :
    body.links = (body.links.map Prod.fst).map fun outlet => (outlet, (body.link? outlet).getD none) := by
  rw [List.map_map]
  refine (List.map_id' body.links).symm.trans (List.map_congr_left fun entry he => ?_)
  simp [mem_links_iff.mp he]

/-- Writing at an outlet changes the entry of that outlet in the list of links. -/
theorem links_setLink {body : Body} {outlet : Outlet} {old : Link} (link : Link)
    (h : body.link? outlet = some old) : (body.setLink outlet link).links =
      body.links.map fun entry => if entry.1 = outlet then (outlet, link) else entry := by
  rw [links_eq_map (body.setLink outlet link), outlets_setLink, List.map_map]
  refine List.map_congr_left fun entry he => ?_
  by_cases ho : entry.1 = outlet
  · simp [ho, link?_setLink_self link h]
  · simp [ho, link?_setLink_of_ne link ho, mem_links_iff.mp he]

/-- A node has a link at an outlet exactly if the outlet is one of those listed. It is listed once and
with that link, and another link written there changes this entry alone: the other links, the outlets,
the kind and the references stay as they are, and so does all else, since writing the old link again
gives the old node. -/
theorem links_describe_outlets (body : Body) (outlet : Outlet) :
    ((body.link? outlet).isSome = true ↔ outlet ∈ body.links.map Prod.fst) ∧
    ∀ old, body.link? outlet = some old →
      (body.links.map Prod.fst).count outlet = 1 ∧ (outlet, old) ∈ body.links ∧
      ∀ link, (body.setLink outlet link).link? outlet = some link ∧
        (body.setLink outlet link).links =
          (body.links.map fun entry => if entry.1 = outlet then (outlet, link) else entry) ∧
        (∀ other, other ≠ outlet → (body.setLink outlet link).link? other = body.link? other) ∧
        (body.setLink outlet link).links.map Prod.fst = body.links.map Prod.fst ∧
        (body.setLink outlet link).kind = body.kind ∧
        (body.setLink outlet link).references = body.references ∧
        (body.setLink outlet link).setLink outlet old = body := by
  have hlisted : (body.link? outlet).isSome = true ↔ outlet ∈ body.links.map Prod.fst := by
    rw [Option.isSome_iff_exists, List.mem_map]
    constructor
    · rintro ⟨link, hl⟩
      exact ⟨(outlet, link), mem_links_iff.mpr hl, rfl⟩
    · rintro ⟨⟨_, link⟩, hm, rfl⟩
      exact ⟨link, mem_links_iff.mp hm⟩
  refine ⟨hlisted, fun old h => ⟨?_, mem_links_iff.mpr h, fun link => ?_⟩⟩
  · exact List.count_eq_one_of_mem body.nodup_outlets (hlisted.mp (by rw [h]; rfl))
  · exact ⟨link?_setLink_self link h, links_setLink link h, fun other ho => link?_setLink_of_ne link ho,
      body.outlets_setLink outlet link, body.kind_setLink outlet link,
      body.references_setLink outlet link, by rw [setLink_setLink, setLink_link? h]⟩

/-- The middle case of a weighted switch. -/
theorem links_describe_outlets_case :
    let body : Body := .switch .pick none (.var "x") [none, some (.node "a"), some .esc]
      [none, none, none] none
    (body.links.map Prod.fst).count (.case 1) = 1 ∧ (.case 1, some (.node "a")) ∈ body.links ∧
    (body.setLink (.case 1) (some .ret)).links =
      [(.case 0, none), (.case 1, some .ret), (.case 2, some .esc), (.next, none)] ∧
    (body.setLink (.case 1) (some .ret)).setLink (.case 1) (some (.node "a")) = body := by
  intro body
  obtain ⟨hcount, hmem, hwrite⟩ := (links_describe_outlets body (.case 1)).2 (some (.node "a")) rfl
  obtain ⟨-, hlinks, -, -, -, -, hback⟩ := hwrite (some .ret)
  exact ⟨hcount, hmem, hlinks, hback⟩

end Storyline.Body
