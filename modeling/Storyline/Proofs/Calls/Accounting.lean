import Storyline.Proofs.Calls.Plans

namespace Storyline.Script

/-- The place of a rule in an order that calls go down, as long as no token is taken. Each tier of
operators has a rank of its own. -/
@[simp] def Rule.rank : Rule → Nat
  | .climb tiers _ => tiers.length + 2
  | .assignedTo _ => 11
  | .reference _ | .arguments | .braceTerm => 10
  | .firstPiece _ | .argumentsOn | .guardTerm | .echo _ | .brace _ => 9
  | .paramList | .block _ => 3
  | .params | .destination _ | .change _ _ | .put _ _ | .inside _ _ _ _ | .option _ _ | .switch _ _
  | .jump _ _ | .label _ => 2
  | .operand | .wantedName _ | .mutation | .closeTerm _ | .keywordTerm | .textRun _ | .cue _
  | .braced _ _ | .malformed | .endBlock | .closeBrace | .trailing | .segments | .cases _
  | .script => 1
  | .expect _ | .climbOn _ _ _ _ | .primary | .pieces | .nameTail | .name | .words _ _ | .skipBrace
  | .assignable | .amount | .program | .terms | .textTail | .skipBlock _ | .weight _ | .thread => 0

/-- What a call costs: one for itself, and what it calls before it takes a token of its own. -/
@[simp] def Rule.cost : Rule → Nat
  | .climb tiers _ => 2 * tiers.length + 3
  | .assignedTo _ => 20
  | .reference _ | .braceTerm => 19
  | .firstPiece _ | .arguments | .guardTerm | .echo _ => 18
  | .argumentsOn => 17
  | .brace _ => 16
  | .block _ => 7
  | .change _ _ | .switch _ _ => 6
  | .paramList => 5
  | .put _ _ | .inside _ _ _ _ | .option _ _ | .jump _ _ => 4
  | .params | .mutation | .destination _ | .cases _ | .label _ => 3
  | .operand | .wantedName _ | .closeTerm _ | .keywordTerm | .textRun _ | .cue _ | .braced _ _
  | .malformed | .endBlock | .closeBrace | .trailing | .segments | .script => 2
  | .expect _ | .climbOn _ _ _ _ | .primary | .pieces | .nameTail | .name | .words _ _ | .skipBrace
  | .assignable | .amount | .program | .terms | .textTail | .skipBlock _ | .weight _ | .thread => 1

/-- What each token that a call takes is worth. -/
@[simp] def tokenWorth : Nat := 21

namespace Plan

variable {α β : Type} {rank credit : Nat} {taken held : Bool}

/-- Up to the first token that the plan takes the rules that it calls are below `rank`, and `credit`,
which grows with each token taken, covers what they cost. A token is taken only where one was seen
(`held`). -/
def Pays (rank : Nat) (taken held : Bool) (credit : Nat) : Plan α → Prop
  | done _ => True
  | look k => (k none).Pays rank taken false credit ∧ ∀ t, (k (some t)).Pays rank taken true credit
  | count k => ∀ n, (k n).Pays rank taken held credit
  | take p => held = true ∧ p.Pays rank true false (credit + tokenWorth)
  | call rule k =>
    (taken = false → rule.rank < rank) ∧ rule.cost ≤ credit ∧
      ∀ found, (k found).Pays rank taken false (credit - rule.cost)

@[simp] theorem pays_done (a : α) : (done a).Pays rank taken held credit := trivial

@[simp] theorem pays_stay (a : α) : (stay a).Pays rank taken held credit := trivial

@[simp] theorem pays_miss (d : Diagnostic) (a : α) : (miss d a).Pays rank taken held credit := trivial

@[simp] theorem pays_ahead (ended : α) (k : Token → Plan α) :
    (ahead ended k).Pays rank taken held credit ↔ ∀ t, (k t).Pays rank taken true credit := by
  simp [ahead, Pays]

@[simp] theorem pays_take (p : Plan α) :
    (take p).Pays rank taken true credit ↔ p.Pays rank true false (credit + tokenWorth) := by
  simp [Pays]

@[simp] theorem pays_call (rule : Rule) (k : rule.Result → Plan α) :
    (call rule k).Pays rank taken held credit ↔
      (taken = false → rule.rank < rank) ∧ rule.cost ≤ credit ∧
        ∀ found, (k found).Pays rank taken false (credit - rule.cost) :=
  Iff.rfl

@[simp] theorem pays_ite (c : Prop) [Decidable c] (p q : Plan α) :
    (if c then p else q).Pays rank taken held credit ↔
      (c → p.Pays rank taken held credit) ∧ (¬c → q.Pays rank taken held credit) := by
  split <;> simp_all

theorem pays_here {k : Position → Plan α}
    (h : ∀ pos held, (k pos).Pays rank taken held credit) : (here k).Pays rank taken held credit :=
  ⟨h default false, fun t => h t.pos true⟩

@[simp] theorem pays_map (f : α → β) (p : Plan α) :
    (p.map f).Pays rank taken held credit ↔ p.Pays rank taken held credit := by
  induction p generalizing taken held credit with
  | done a => rfl
  | look k ih => simp only [map, Pays, ih]
  | count k ih => simp only [map, Pays, ih]
  | take p ih => simp only [map, Pays, ih]
  | call rule k ih => simp only [map, Pays, ih]

@[simp] theorem pays_follow (p : Plan (List Item)) (found : List Item) :
    (follow p found).Pays rank taken held credit ↔ p.Pays rank taken held credit :=
  pays_map (found ++ ·) p

@[simp] theorem pays_got (k : α → Plan (Got β)) :
    (∀ found, (got k found).Pays rank taken held credit) ↔
      ∀ a, (k a).Pays rank taken held credit := by
  simp [Option.forall, Prod.forall, got]

@[simp] theorem pays_items (k : α → Plan (List Item)) :
    (∀ found, (items k found).Pays rank taken held credit) ↔
      ∀ a, (k a).Pays rank taken held credit := by
  simp [Option.forall, Prod.forall, items]

end Plan

end Storyline.Script
