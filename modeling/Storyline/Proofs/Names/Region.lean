import Storyline.Proofs.Names.Text

namespace Storyline.Path

variable {p q r : Path}

/-- `r` is `p`, a later sibling of it, or a path below one of these. -/
def Covers (p r : Path) : Prop :=
  r.label = p.label ∧ ∃ k, p.last ≤ k ∧ p.outer.reverse ++ [k] <+: r.indices

theorem covers_self (p : Path) : p.Covers p :=
  ⟨rfl, p.last, Nat.le_refl _, List.prefix_refl _⟩

theorem covers_next (p : Path) : p.Covers p.next :=
  ⟨rfl, p.last + 1, Nat.le_succ _, List.prefix_refl _⟩

theorem covers_child (p : Path) (index : Nat) : p.Covers (p.child index) := by
  refine ⟨rfl, p.last, Nat.le_refl _, ?_⟩
  rw [indices_child]
  exact List.prefix_append _ _

theorem Covers.trans (hq : p.Covers q) (hr : q.Covers r) : p.Covers r := by
  obtain ⟨hl, k, hk, hpre⟩ := hq
  obtain ⟨hl', k', hk', hpre'⟩ := hr
  refine ⟨hl'.trans hl, ?_⟩
  rw [indices, List.prefix_concat_iff] at hpre
  rcases hpre with heq | hpre
  · obtain ⟨ho, hlast⟩ := List.append_inj' heq rfl
    simp only [List.cons.injEq, and_true] at hlast
    exact ⟨k', by omega, by rw [ho]; exact hpre'⟩
  · exact ⟨k, hk, hpre.trans ((List.prefix_append _ _).trans hpre')⟩

theorem Covers.antisymm (hq : p.Covers q) (hp : q.Covers p) : p = q := by
  obtain ⟨hl, k, hk, hpre⟩ := hq
  obtain ⟨-, k', hk', hpre'⟩ := hp
  have hlen := hpre.length_le
  have hlen' := hpre'.length_le
  simp only [indices, List.length_append, List.length_reverse, List.length_singleton] at hlen hlen'
  have heq : p.outer.reverse ++ [k] = q.indices :=
    hpre.eq_of_length (by simp [indices]; omega)
  have heq' : q.outer.reverse ++ [k'] = p.indices :=
    hpre'.eq_of_length (by simp [indices]; omega)
  obtain ⟨ho, hlast⟩ := List.append_inj' heq rfl
  obtain ⟨-, hlast'⟩ := List.append_inj' heq' rfl
  simp only [List.cons.injEq, and_true] at hlast hlast'
  refine indices_injective hl.symm ?_
  rw [← heq', ← ho, show k' = k by omega, heq]

theorem next_ne (p : Path) : p.next ≠ p := by
  intro h
  have := congrArg Path.last h
  simp [next] at this

theorem child_ne (p : Path) (index : Nat) : p.child index ≠ p := by
  intro h
  have := congrArg (List.length ∘ Path.outer) h
  simp [child] at this

/-- What lies behind a path does not lie below it. -/
theorem not_covers_child_of_next {index : Nat} (h : p.next.Covers r) :
    ¬ (p.child index).Covers r := by
  rintro ⟨-, k, -, hpre⟩
  obtain ⟨-, k', hk', hpre'⟩ := h
  have hsame : p.outer.reverse ++ [p.last] <+: r.indices :=
    (List.prefix_append _ [k]).trans (by simpa [child] using hpre)
  have := List.prefix_of_prefix_length_le hsame hpre' (by simp [next])
  have heq := this.eq_of_length (by simp [next])
  obtain ⟨-, hlast⟩ := List.append_inj' heq rfl
  simp only [next, List.cons.injEq, and_true] at hlast hk'
  omega

theorem indices_next_ne (p : Path) : p.next.indices ≠ [0] := by
  intro h
  have := congrArg List.getLast? h
  simp [indices, next] at this

theorem indices_child_ne (p : Path) (index : Nat) : (p.child index).indices ≠ [0] := by
  intro h
  have := congrArg List.length h
  simp [indices, child] at this

/-- The root of a label comes before all paths of the label. -/
theorem root_covers (h : p.label = r.label) (hp : p.indices = [0]) : p.Covers r := by
  rw [eq_root hp]
  refine ⟨h.symm, ?_⟩
  cases hr : r.indices with
  | nil => exact absurd hr r.indices_ne_nil
  | cons k rest => exact ⟨k, Nat.zero_le _, List.prefix_append [k] rest⟩

theorem name_of_indices (h : p.indices = [0]) : p.name = p.label := by
  rw [name, if_pos h]

end Storyline.Path
