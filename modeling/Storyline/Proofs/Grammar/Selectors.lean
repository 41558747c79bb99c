import Storyline.Proofs.Grammar.Inversion

namespace Storyline

variable {α β : Type} {t : Token} {ts : List Token} {stop : Token → Bool}

namespace Read

/-- The second rule reads what the first one does, unless the first one stops at a token with the
property; then the second one goes past that token, if it comes to an end at all. -/
def Foreruns (stop : Token → Bool) (r r' : Read α ts) : Prop :=
  ∀ s, r = some s → r' = some s ∨ ∃ v vs, s.rest = v :: vs ∧ stop v = true ∧
    ∀ s', r' = some s' → s'.rest <:+ vs

namespace Foreruns

theorem refl (r : Read α ts) : r.Foreruns stop r := fun _ h => .inl h

theorem past {r r' : Read α ts} (h : r.Foreruns stop r') :
    Foreruns stop (Read.past r : Read α (t :: ts)) (Read.past r') := by
  intro s hs
  obtain ⟨inner, rfl, rfl⟩ := past_eq_some hs
  rcases h inner rfl with rfl | ⟨v, vs, hrest, hv, hmore⟩
  · exact .inl rfl
  · refine .inr ⟨v, vs, hrest, hv, fun s' hs' => ?_⟩
    obtain ⟨inner', hr', rfl⟩ := past_eq_some hs'
    exact hmore inner' hr'

/-- Where the first of two rules stops short, the one after it must leave the token alone. -/
theorem andThen {r r' : Read α ts}
    {k k' : (a : α) → (us : List Token) → us.length ≤ ts.length → Read β us}
    (h : r.Foreruns stop r') (hk : ∀ a us hus, (k a us hus).Foreruns stop (k' a us hus))
    (hstay : ∀ a v vs hus s, stop v = true → k a (v :: vs) hus = some s → s.rest = v :: vs) :
    (Read.andThen r k).Foreruns stop (Read.andThen r' k') := by
  intro s hs
  obtain ⟨first, rfl, second, hsecond, rfl⟩ := andThen_eq_some hs
  rcases h first rfl with rfl | ⟨v, vs, hrest, hv, hmore⟩
  · rcases hk first.value first.rest first.suffix.length_le second hsecond with hsame | hshort
    · refine .inl ?_
      simp only [Read.andThen, hsame]
    · obtain ⟨v, vs, hrest, hv, hmore⟩ := hshort
      refine .inr ⟨v, vs, hrest, hv, fun s' hs' => ?_⟩
      obtain ⟨first', hfirst', second', hsecond', rfl⟩ := andThen_eq_some hs'
      obtain rfl := Option.some.inj hfirst'
      exact hmore second' hsecond'
  · obtain ⟨⟨value, rest, suffix⟩, reports⟩ := first
    obtain rfl : rest = v :: vs := hrest
    refine .inr ⟨v, vs, hstay value v vs suffix.length_le second hv hsecond, hv, fun s' hs' => ?_⟩
    obtain ⟨first', hfirst', second', -, rfl⟩ := andThen_eq_some hs'
    exact second'.suffix.trans (hmore first' hfirst')

end Foreruns

end Read

namespace Script

variable {op : BinaryOp} {ops : List BinaryOp} {tighter tighter' : List (List BinaryOp)}

/-- The token can be read as the operator. -/
def spells (op : BinaryOp) (t : Token) : Bool := canSpell t && t.text == op.spelling

/-- The tiers with an operator taken out. -/
def without (op : BinaryOp) (tiers : List (List BinaryOp)) : List (List BinaryOp) :=
  tiers.map fun ops => ops.filter (· ≠ op)

theorem selectorTiers_eq : selectorTiers = without .random expressionTiers := rfl

theorem spelling_injective {a b : BinaryOp} (h : a.spelling = b.spelling) : a = b := by
  have := congrArg BinaryOp.ofSpelling? h
  rw [BinaryOp.ofSpelling?_spelling, BinaryOp.ofSpelling?_spelling] at this
  exact Option.some.inj this

/-- Without an operator a tier has the same operators but for that one. -/
theorem infixOp?_filter (op : BinaryOp) (ops : List BinaryOp) (t : Token) :
    infixOp? (ops.filter (· ≠ op)) t = if spells op t then none else infixOp? ops t := by
  unfold infixOp? spells
  cases canSpell t with
  | false => simp
  | true =>
    simp only [if_true, Bool.true_and, List.find?_filter]
    split
    · next ht =>
      refine List.find?_eq_none.mpr fun o _ ho => ?_
      simp only [decide_eq_true_eq, beq_iff_eq] at ho ht
      exact ho.1 (spelling_injective (ho.2.trans ht))
    · next ht =>
      have hother (o : BinaryOp) : decide (decide (o ≠ op) = true ∧ (o.spelling == t.text) = true) =
          (o.spelling == t.text) := by
        by_cases ho : o = op
        · have hne : (o.spelling == t.text) = false := by
            rw [BEq.comm, ho]
            exact Bool.eq_false_iff.mpr ht
          simp only [hne, Bool.false_eq_true, and_false, decide_false]
        · simp only [ne_eq, ho, not_false_eq_true, decide_true, true_and, Bool.decide_eq_true]
      simp only [hother]

/-- The operator that was taken out of a tier is left alone. -/
theorem climbOn_filter_rest {left : Expr} {v : Token} {vs : List Token} {s : Reading Expr (v :: vs)}
    (hv : spells op v = true)
    (hs : climbOn (ops.filter (· ≠ op)) tighter left (v :: vs) = some s) : s.rest = v :: vs := by
  rw [climbOn, infixOp?_filter, if_pos hv] at hs
  obtain rfl := Option.some.inj hs
  rfl

theorem climbOn_foreruns
    (h : ∀ us, (climb tighter' us).Foreruns (spells op) (climb tighter us)) (ops : List BinaryOp)
    (left : Expr) (ts : List Token) :
    (climbOn (ops.filter (· ≠ op)) tighter' left ts).Foreruns (spells op)
      (climbOn ops tighter left ts) := by
  induction hn : ts.length using Nat.strongRecOn generalizing left ts with
  | ind n ih =>
    cases ts with
    | nil =>
      rw [climbOn, climbOn]
      exact .refl _
    | cons t us =>
      cases ho : infixOp? ops t with
      | none =>
        have ho' : infixOp? (ops.filter (· ≠ op)) t = none := by
          rw [infixOp?_filter, ho, ite_self]
        rw [climbOn, climbOn, ho, ho']
        exact .refl _
      | some o =>
        cases hv : spells op t with
        | true =>
          -- the operator itself, which only the second climb takes
          intro s hs
          refine .inr ⟨t, us, climbOn_filter_rest hv hs, hv, fun s' hs' => ?_⟩
          rw [climbOn, ho] at hs'
          obtain ⟨inner, -, rfl⟩ := Read.past_eq_some hs'
          exact inner.suffix
        | false =>
          have ho' : infixOp? (ops.filter (· ≠ op)) t = some o := by
            rw [infixOp?_filter, hv, if_neg Bool.false_ne_true, ho]
          rw [climbOn, climbOn, ho, ho']
          refine .past ((h us).andThen (fun right vs hvs => ?_) fun right v vs hvs s hv hs => ?_)
          · rw [List.length_cons] at hn
            exact ih vs.length (by omega) (.binary o left right) vs rfl
          · exact climbOn_filter_rest hv hs

/-- A climb without an operator foreruns the climb with it. -/
theorem climb_foreruns (op : BinaryOp) (tiers : List (List BinaryOp)) (ts : List Token) :
    (climb (without op tiers) ts).Foreruns (spells op) (climb tiers ts) := by
  induction tiers generalizing ts with
  | nil => exact .refl _
  | cons ops tighter ih =>
    rw [without, List.map_cons, climb, climb]
    refine (ih ts).andThen (fun left us _ => climbOn_foreruns ih ops left us) ?_
    intro left v vs _ s hv hs
    exact climbOn_filter_rest hv hs

/-- A selector stops at a token. If that is no operator `~`, then an expression read from the same
tokens is the same, with the same rest and the same mistakes; if it is, then an expression goes on
past it, unless the tokens end first. -/
theorem selector_stops {s : Reading Expr ts} (h : selector ts = some s) :
    ∃ v vs, s.rest = v :: vs ∧ (spells .random v = false → expression ts = some s) ∧
      (spells .random v = true → ∀ s', expression ts = some s' →
        s'.rest <:+ vs ∧ s'.rest.length < s.rest.length) := by
  obtain ⟨v, vs, hrest⟩ := climb_rest_cons h
  refine ⟨v, vs, hrest, fun hv => ?_, fun hv s' hs' => ?_⟩
  · rcases climb_foreruns .random expressionTiers ts s h with hsame | ⟨v', vs', hrest', hv', -⟩
    · exact hsame
    · obtain ⟨rfl, -⟩ := List.cons.inj (hrest.symm.trans hrest')
      rw [hv] at hv'
      cases hv'
  · have hmore : s'.rest <:+ vs := by
      rcases climb_foreruns .random expressionTiers ts s h with hsame | ⟨v', vs', hrest', -, hmore⟩
      · -- an expression does not end at `~`
        obtain rfl := Option.some.inj (hs'.symm.trans hsame)
        have hend := climb_ends hs' v (by rw [hrest]; rfl)
          [.mul, .div, .mod, .rem, .random] (by decide)
        simp only [spells, Bool.and_eq_true, beq_iff_eq] at hv
        simp [infixOp?, hv.1, hv.2, BinaryOp.spelling] at hend
      · obtain ⟨rfl, rfl⟩ := List.cons.inj (hrest.symm.trans hrest')
        exact hmore s' hs'
    refine ⟨hmore, ?_⟩
    rw [hrest, List.length_cons]
    exact Nat.lt_succ_of_le hmore.length_le

/-- In parentheses the operator `~` belongs to a selector, and a missing operand changes nothing; outside
them it ends the selector, and the expression ends after the operand behind it. -/
theorem selector_stops_tilde :
    (∃ s, selector [⟨.mark, "", "(", ⟨1, 1⟩⟩, ⟨.word, "", "a", ⟨1, 2⟩⟩, ⟨.symbol, " ", "~", ⟨1, 4⟩⟩,
        ⟨.word, " ", "b", ⟨1, 6⟩⟩, ⟨.mark, "", ")", ⟨1, 7⟩⟩, ⟨.symbol, " ", "*", ⟨1, 9⟩⟩,
        ⟨.mark, " ", "|", ⟨1, 11⟩⟩, .stop ⟨2, 1⟩] = some s ∧
      s.rest = [⟨.mark, " ", "|", ⟨1, 11⟩⟩, .stop ⟨2, 1⟩] ∧ s.reports.length = 1 ∧
      expression [⟨.mark, "", "(", ⟨1, 1⟩⟩, ⟨.word, "", "a", ⟨1, 2⟩⟩, ⟨.symbol, " ", "~", ⟨1, 4⟩⟩,
        ⟨.word, " ", "b", ⟨1, 6⟩⟩, ⟨.mark, "", ")", ⟨1, 7⟩⟩, ⟨.symbol, " ", "*", ⟨1, 9⟩⟩,
        ⟨.mark, " ", "|", ⟨1, 11⟩⟩, .stop ⟨2, 1⟩] = some s) ∧
    ∃ s s', selector [⟨.word, "", "a", ⟨1, 1⟩⟩, ⟨.symbol, " ", "~", ⟨1, 3⟩⟩, ⟨.word, " ", "b", ⟨1, 5⟩⟩,
        .stop ⟨2, 1⟩] = some s ∧
      expression [⟨.word, "", "a", ⟨1, 1⟩⟩, ⟨.symbol, " ", "~", ⟨1, 3⟩⟩, ⟨.word, " ", "b", ⟨1, 5⟩⟩,
        .stop ⟨2, 1⟩] = some s' ∧
      s.rest = [⟨.symbol, " ", "~", ⟨1, 3⟩⟩, ⟨.word, " ", "b", ⟨1, 5⟩⟩, .stop ⟨2, 1⟩] ∧
      s'.rest.length < s.rest.length := by
  let inside : List Token := [⟨.mark, "", "(", ⟨1, 1⟩⟩, ⟨.word, "", "a", ⟨1, 2⟩⟩,
    ⟨.symbol, " ", "~", ⟨1, 4⟩⟩, ⟨.word, " ", "b", ⟨1, 6⟩⟩, ⟨.mark, "", ")", ⟨1, 7⟩⟩,
    ⟨.symbol, " ", "*", ⟨1, 9⟩⟩, ⟨.mark, " ", "|", ⟨1, 11⟩⟩, .stop ⟨2, 1⟩]
  let outside : List Token := [⟨.word, "", "a", ⟨1, 1⟩⟩, ⟨.symbol, " ", "~", ⟨1, 3⟩⟩,
    ⟨.word, " ", "b", ⟨1, 5⟩⟩, .stop ⟨2, 1⟩]
  have hinside : Option.map (fun s => (s.rest, s.reports.length)) (selector inside) =
      some ([⟨.mark, " ", "|", ⟨1, 11⟩⟩, .stop ⟨2, 1⟩], 1) := by
    decide +kernel
  have houtside : Option.map (fun s => s.rest) (selector outside) =
      some [⟨.symbol, " ", "~", ⟨1, 3⟩⟩, ⟨.word, " ", "b", ⟨1, 5⟩⟩, .stop ⟨2, 1⟩] := by
    decide +kernel
  have hends : Option.isSome (expression outside) = true := by
    decide +kernel
  obtain ⟨s, hs, hrest⟩ := Option.map_eq_some_iff.mp hinside
  obtain ⟨s₁, hs₁, hrest₁⟩ := Option.map_eq_some_iff.mp houtside
  obtain ⟨s₂, hs₂⟩ := Option.isSome_iff_exists.mp hends
  obtain ⟨hrest, hreports⟩ := Prod.mk.inj hrest
  obtain ⟨v, vs, hv, hsame, -⟩ := selector_stops hs
  obtain ⟨v₁, vs₁, hv₁, -, hmore⟩ := selector_stops hs₁
  obtain ⟨rfl, rfl⟩ := List.cons.inj (hrest.symm.trans hv)
  obtain ⟨rfl, rfl⟩ := List.cons.inj (hrest₁.symm.trans hv₁)
  exact ⟨⟨s, hs, hrest, hreports, hsame (by decide)⟩,
    s₁, s₂, hs₁, hs₂, hrest₁, (hmore (by decide) s₂ hs₂).2⟩

end Script

end Storyline
