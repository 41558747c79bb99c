import Storyline.Script.Expression

namespace Storyline

variable {α β : Type} {t : Token} {ts : List Token}

namespace Read

theorem past_eq_some {r : Read α ts} {s : Reading α (t :: ts)}
    (h : (past r : Read α (t :: ts)) = some s) :
    ∃ inner, r = some inner ∧ s = ⟨inner.toSpan.past, inner.reports⟩ := by
  cases r with
  | none => cases h
  | some inner => exact ⟨inner, rfl, (Option.some.inj h).symm⟩

theorem map_eq_some {r : Read α ts} {f : α → β} {s : Reading β ts} (h : r.map f = some s) :
    ∃ inner, r = some inner ∧ s = ⟨inner.toSpan.map f, inner.reports⟩ := by
  cases r with
  | none => cases h
  | some inner => exact ⟨inner, rfl, (Option.some.inj h).symm⟩

/-- Two rules one after the other are read as the first of them and then the second. -/
theorem andThen_eq_some {r : Read α ts}
    {k : (a : α) → (us : List Token) → us.length ≤ ts.length → Read β us} {s : Reading β ts}
    (h : r.andThen k = some s) : ∃ first, r = some first ∧
      ∃ second, k first.value first.rest first.suffix.length_le = some second ∧
        s = ⟨⟨second.value, second.rest, second.suffix.trans first.suffix⟩,
          first.reports ++ second.reports⟩ := by
  cases r with
  | none => cases h
  | some first =>
    cases hk : k first.value first.rest first.suffix.length_le with
    | none =>
      simp only [andThen, hk] at h
      cases h
    | some second =>
      simp only [andThen, hk] at h
      exact ⟨first, rfl, second, hk, (Option.some.inj h).symm⟩

end Read

namespace Script

variable {ops : List BinaryOp} {tiers tighter : List (List BinaryOp)}

/-- No operator of the tiers goes on with the tokens. -/
def EndsTiers (tiers : List (List BinaryOp)) (ts : List Token) : Prop :=
  ∀ v ∈ ts.head?, ∀ ops ∈ tiers, infixOp? ops v = none

theorem climbOn_ends (h : ∀ us s, climb tighter us = some s → EndsTiers tighter s.rest)
    {left : Expr} {s : Reading Expr ts} (hts : EndsTiers tighter ts)
    (hs : climbOn ops tighter left ts = some s) : s.rest ≠ [] ∧ EndsTiers (ops :: tighter) s.rest := by
  induction hn : ts.length using Nat.strongRecOn generalizing left ts with
  | ind n ih =>
    cases ts with
    | nil =>
      rw [climbOn] at hs
      cases hs
    | cons t us =>
      rw [climbOn] at hs
      cases ho : infixOp? ops t with
      | none =>
        simp only [ho] at hs
        obtain rfl := Option.some.inj hs
        refine ⟨List.cons_ne_nil t us, fun v hv ops' hm => ?_⟩
        obtain rfl := Option.some.inj hv
        rcases List.mem_cons.mp hm with rfl | hm
        · exact ho
        · exact hts t rfl ops' hm
      | some op =>
        simp only [ho] at hs
        obtain ⟨inner, hinner, rfl⟩ := Read.past_eq_some hs
        obtain ⟨right, hright, more, hmore, rfl⟩ := Read.andThen_eq_some hinner
        have hlt : right.rest.length < n := by
          have := right.suffix.length_le
          rw [List.length_cons] at hn
          omega
        have hends := ih right.rest.length hlt (h us right hright) hmore rfl
        exact hends

/-- A climb comes to an end where no operator of its tiers goes on. -/
theorem climb_ends {s : Reading Expr ts} (hs : climb tiers ts = some s) : EndsTiers tiers s.rest := by
  induction tiers generalizing ts with
  | nil => exact fun _ _ _ hm => by cases hm
  | cons ops tighter ih =>
    rw [climb] at hs
    obtain ⟨left, hleft, more, hmore, rfl⟩ := Read.andThen_eq_some hs
    exact (climbOn_ends (fun us s h => ih h) (ih hleft) hmore).2

theorem climb_rest_cons {s : Reading Expr ts} (hs : climb (ops :: tighter) ts = some s) :
    ∃ v vs, s.rest = v :: vs := by
  rw [climb] at hs
  obtain ⟨left, hleft, more, hmore, rfl⟩ := Read.andThen_eq_some hs
  have hne := (climbOn_ends (fun us s h => climb_ends h) (climb_ends hleft) hmore).1
  exact List.exists_cons_of_ne_nil hne

end Script

end Storyline
