import Storyline.Proofs.Grammar.Expressions

namespace Storyline.Script

/-- How the tokens of an expression end. -/
inductive Ending where
  | closed
  | name
  /-- A name with splices takes no arguments. -/
  | spliced
deriving DecidableEq, Repr

/-- The token would still belong to an expression with this ending. -/
def Ending.goesOn : Ending → Token → Bool
  | closed, _ => false
  | name, t => joins t || (t.adjoins && t.is "\x7b") || opensArguments t
  | spliced, t => joins t || (t.adjoins && t.is "\x7b")

/-- What tokens render. -/
inductive Constituent where
  /-- An expression of the operators of some tiers. -/
  | tier (tiers : List (List BinaryOp)) (e : Expr)
  /-- What adjoins the first piece of a name. -/
  | pieces (p : Pieces)
  /-- Arguments behind their opening parenthesis, up to the closing one. -/
  | arguments (es : List Expr)

inductive Renders : Constituent → List Token → Ending → Prop where
  | number {t x} : t.kind = .number → Decimal.number? t.text = some x →
      Renders (.tier [] (.number x)) [t] .closed
  | group {t ts v e k} : t.is "(" = true → Renders (.tier expressionTiers e) ts k →
      v.is ")" = true → Renders (.tier [] e) (t :: (ts ++ [v])) .closed
  | prefixed {t ts op e k} : prefixOp? t = some op → Renders (.tier [] e) ts k →
      Renders (.tier [] (.unary op e)) (t :: ts) k
  | name {t ts p k} : t.kind = .word → prefixOp? t = none → Renders (.pieces p) ts k →
      p.splices = [] → Renders (.tier [] (.var (t.text ++ p.head))) (t :: ts) .name
  | call {t ts u us p es k k'} : t.kind = .word → prefixOp? t = none → Renders (.pieces p) ts k →
      p.splices = [] → opensArguments u = true → Renders (.arguments es) us k' →
      Renders (.tier [] (.call (t.text ++ p.head) es)) (t :: (ts ++ u :: us)) .closed
  | spliced {t ts p k} : t.kind = .word → prefixOp? t = none → Renders (.pieces p) ts k →
      p.splices ≠ [] → Renders (.tier [] (p.afterText t.text).spliced) (t :: ts) .spliced
  | splicedFirst {t ts v vs e p k k'} : t.is "\x7b" = true → Renders (.tier expressionTiers e) ts k →
      v.is "\x7d" = true → Renders (.pieces p) vs k' →
      Renders (.tier [] (p.afterSplice e).spliced) (t :: (ts ++ v :: vs)) .spliced
  | looser {ops tighter e ts k} : Renders (.tier tighter e) ts k →
      Renders (.tier (ops :: tighter) e) ts k
  /-- The right operand is of a tighter tier than the left one, so a tier groups to the left. -/
  | binary {ops tighter left right op ts t us k k'} : Renders (.tier (ops :: tighter) left) ts k →
      infixOp? ops t = some op → k.goesOn t = false → Renders (.tier tighter right) us k' →
      Renders (.tier (ops :: tighter) (.binary op left right)) (ts ++ t :: us) k'
  | noPiece : Renders (.pieces .none) [] .spliced
  | textPiece {t ts p k} : joins t = true → Renders (.pieces p) ts k →
      Renders (.pieces (p.afterText t.text)) (t :: ts) .spliced
  | splice {t ts v vs e p k k'} : t.adjoins = true → t.is "\x7b" = true →
      Renders (.tier expressionTiers e) ts k → v.is "\x7d" = true → Renders (.pieces p) vs k' →
      Renders (.pieces (p.afterSplice e)) (t :: (ts ++ v :: vs)) .spliced
  | noArgument {t} : t.is ")" = true → Renders (.arguments []) [t] .closed
  | lastArgument {ts v e k} : Renders (.tier expressionTiers e) ts k → v.is ")" = true →
      Renders (.arguments [e]) (ts ++ [v]) .closed
  | argument {ts v vs e es k k'} : Renders (.tier expressionTiers e) ts k → v.is "," = true →
      Renders (.arguments es) vs k' → es ≠ [] →
      Renders (.arguments (e :: es)) (ts ++ v :: vs) .closed

/-- No operator stands in two tiers. -/
def Layered (tiers : List (List BinaryOp)) : Prop :=
  tiers.Pairwise fun ops tighter => ∀ op ∈ ops, ∀ op' ∈ tighter, op.spelling ≠ op'.spelling

theorem layered_expressionTiers : Layered expressionTiers := by
  unfold Layered
  decide

variable {t : Token} {ts us rest : List Token} {tiers tighter : List (List BinaryOp)}
  {ops : List BinaryOp} {op : BinaryOp} {e : Expr}

theorem spelling_of_infixOp? (h : infixOp? ops t = some op) : op ∈ ops ∧ op.spelling = t.text := by
  unfold infixOp? at h
  split at h
  · have htext : op.spelling = t.text := by simpa using List.find?_some h
    exact ⟨List.mem_of_find?_eq_some h, htext⟩
  · cases h

/-- An operator of one tier is no operator of a tighter one. -/
theorem Layered.infixOp?_eq_none (h : Layered (ops :: tighter)) (ho : infixOp? ops t = some op) :
    ∀ ops' ∈ tighter, infixOp? ops' t = none := by
  intro ops' hm
  obtain ⟨hop, htext⟩ := spelling_of_infixOp? ho
  cases ho' : infixOp? ops' t with
  | none => rfl
  | some op' =>
    obtain ⟨hop', htext'⟩ := spelling_of_infixOp? ho'
    have hne := (List.pairwise_cons.mp h).1 ops' hm op hop op' hop'
    exact absurd (htext.trans htext'.symm) hne

/-- A bracket or comma goes on with no expression. -/
theorem Ending.goesOn_of_is {text : String} (k : Ending) (h : t.is text = true)
    (htext : text ∉ [".", "\x7b", "("]) : k.goesOn t = false := by
  simp only [List.mem_cons, List.not_mem_nil, or_false, not_or] at htext
  simp only [Token.is, Bool.and_eq_true, beq_iff_eq] at h
  cases k <;> simp [Ending.goesOn, joins, opensArguments, Token.isOp, Token.is, h, htext]

/-- The name in front of an argument list ends there. -/
theorem spliced_goesOn_of_is (h : t.is "(" = true) : Ending.spliced.goesOn t = false := by
  simp only [Token.is, Bool.and_eq_true, beq_iff_eq] at h
  simp [Ending.goesOn, joins, Token.isOp, Token.is, h]

theorem infixOp?_of_is {text : String} (h : t.is text = true)
    (htext : ∀ op : BinaryOp, op.spelling ≠ text) (ops : List BinaryOp) : infixOp? ops t = none := by
  cases ho : infixOp? ops t with
  | none => rfl
  | some op =>
    simp only [Token.is, Bool.and_eq_true, beq_iff_eq] at h
    exact absurd ((spelling_of_infixOp? ho).2.trans h.2) (htext op)

/-- What the tokens in front of `t` spell, whatever stands behind it. -/
def Constituent.Spelt : Constituent → List Token → Ending → Prop
  | tier [] e, used, k => ∀ t rest, k.goesOn t = false →
      Spells (.tier [] e) (used ++ t :: rest) (t :: rest)
  | tier (ops :: tighter) e, used, k => Layered (ops :: tighter) → ∀ t rest, k.goesOn t = false →
      (∀ ops' ∈ tighter, infixOp? ops' t = none) →
      Spells (.chain ops tighter e) (used ++ t :: rest) (t :: rest)
  | pieces p, used, _ => ∀ t rest, Ending.spliced.goesOn t = false →
      Spells (.pieces p) (used ++ t :: rest) (t :: rest)
  | arguments es, used, _ => ∀ rest, Spells (.arguments es) (used ++ rest) rest

/-- What is spelt in front of a token that no tier goes on with. -/
theorem Constituent.Spelt.spells {used : List Token} {k : Ending}
    (h : (Constituent.tier tiers e).Spelt used k) (rest : List Token) (hlayered : Layered tiers) (hk : k.goesOn t = false) (ho : ∀ ops ∈ tiers, infixOp? ops t = none) :
    Spells (.tier tiers e) (used ++ t :: rest) (t :: rest) := by
  cases tiers with
  | nil => exact h t rest hk
  | cons ops tighter =>
    have hchain := h hlayered t rest hk fun ops' hm => ho ops' (List.mem_cons_of_mem ops hm)
    exact hchain.last (ho ops List.mem_cons_self)

/-- An expression in front of a bracket or comma. -/
theorem Constituent.Spelt.enclosed {used : List Token} {k : Ending} {text : String}
    (h : (Constituent.tier expressionTiers e).Spelt used k) (ht : t.is text = true)
    (htext : text ∈ [")", "\x7d", ","]) :
    Spells (.tier expressionTiers e) (used ++ t :: rest) (t :: rest) := by
  have hgoes : text ∉ [".", "\x7b", "("] := by
    intro hm
    simp only [List.mem_cons, List.not_mem_nil, or_false] at htext hm
    rcases htext with rfl | rfl | rfl <;> simp at hm
  have hop : ∀ op : BinaryOp, op.spelling ≠ text := by
    intro op
    simp only [List.mem_cons, List.not_mem_nil, or_false] at htext
    rcases htext with rfl | rfl | rfl <;> cases op <;> decide
  exact h.spells rest layered_expressionTiers (k.goesOn_of_is ht hgoes)
    fun ops _ => infixOp?_of_is ht hop ops

theorem Renders.spelt {form : Constituent} {used : List Token} {k : Ending} (h : Renders form used k) :
    form.Spelt used k := by
  induction h with
  | number hk hx =>
    intro t rest _
    exact .number hk hx
  | @group t ts v e k ht _ hv ih =>
    intro u rest _
    rw [List.cons_append, List.append_assoc, List.singleton_append]
    exact .group ht (ih.enclosed hv (by simp)) hv
  | prefixed ho _ ih =>
    intro u rest hu
    exact .prefixed ho (ih u rest hu)
  | name hw hp _ hs ih =>
    intro u rest hu
    simp only [Ending.goesOn, Bool.or_eq_false_iff] at hu
    have hpieces := ih u rest (by simp [Ending.goesOn, hu])
    exact .operand hp (.name hw hpieces hs hu.2)
  | @call t ts u us p es k k' hw hp _ hs hu _ ih ih' =>
    intro v rest _
    rw [List.cons_append, List.append_assoc, List.cons_append]
    have hopen : u.is "(" = true := by
      simp only [opensArguments, Bool.and_eq_true] at hu
      exact hu.1
    have hpieces := ih u (us ++ v :: rest) (spliced_goesOn_of_is hopen)
    exact .operand hp (.call hw hpieces hs hu (ih' (v :: rest)))
  | spliced hw hp _ hs ih =>
    intro u rest hu
    exact .operand hp (.spliced hw (ih u rest hu) hs)
  | @splicedFirst t ts v vs e p k k' ht _ hv _ ih ih' =>
    intro u rest hu
    rw [List.cons_append, List.append_assoc, List.cons_append]
    have hp : prefixOp? t = none := prefixOp?_of_is ht fun op => by cases op <;> decide
    exact .operand hp (.splicedFirst ht (ih.enclosed hv (by simp)) hv (ih' u rest hu))
  | @looser ops tighter e ts k _ ih =>
    intro hlayered u rest hu ho
    exact .first (ih.spells rest (List.pairwise_cons.mp hlayered).2 hu ho)
  | @binary ops tighter left right op ts t us k k' _ ho hk _ ih ih' =>
    intro hlayered u rest hu hops
    rw [List.append_assoc, List.cons_append]
    have hleft := ih hlayered t (us ++ u :: rest) hk (hlayered.infixOp?_eq_none ho)
    have hright := ih'.spells rest (List.pairwise_cons.mp hlayered).2 hu hops
    exact .more hleft ho hright
  | noPiece =>
    intro u rest hu
    simp only [Ending.goesOn, Bool.or_eq_false_iff] at hu
    exact .noPiece hu.1 hu.2
  | textPiece hj _ ih =>
    intro u rest hu
    exact .textPiece hj (ih u rest hu)
  | @splice t ts v vs e p k k' ha ht _ hv _ ih ih' =>
    intro u rest hu
    rw [List.cons_append, List.append_assoc, List.cons_append]
    exact .splice ha ht (ih.enclosed hv (by simp)) hv (ih' u rest hu)
  | noArgument ht =>
    intro rest
    exact .noArgument ht
  | @lastArgument ts v e k _ hv ih =>
    intro rest
    rw [List.append_assoc, List.singleton_append]
    exact .lastArgument (ih.enclosed hv (by simp)) hv
  | @argument ts v vs e es k k' _ hv _ hes ih ih' =>
    intro rest
    rw [List.append_assoc, List.cons_append]
    exact .argument (ih.enclosed hv (by simp)) hv (ih' rest) hes

/-- An expression is rendered by tokens at the front, and what stands behind them ends it. -/
def ExpressionLeads (tiers : List (List BinaryOp)) (e : Expr) (ts rest : List Token) : Prop :=
  ∃ used k, ts = used ++ rest ∧ Renders (.tier tiers e) used k ∧
    ∀ t ∈ rest.head?, k.goesOn t = false ∧ ∀ ops ∈ tiers, infixOp? ops t = none

/-- The same for what belongs to a name. -/
def PiecesLead (p : Pieces) (ts rest : List Token) : Prop :=
  ∃ used k, ts = used ++ rest ∧ Renders (.pieces p) used k ∧
    ∀ t ∈ rest.head?, Ending.spliced.goesOn t = false

def ArgumentsLead (es : List Expr) (ts rest : List Token) : Prop :=
  ∃ used k, ts = used ++ rest ∧ Renders (.arguments es) used k

theorem ExpressionLeads.of_closed {used : List Token} (rest : List Token) (h : Renders (.tier [] e) used .closed) :
    ExpressionLeads [] e (used ++ rest) rest := by
  refine ⟨used, .closed, rfl, h, ?_⟩
  intro t _
  exact ⟨rfl, fun _ hm => by cases hm⟩

theorem kind_of_startsReference_of_is (hs : startsReference t = true) (hn : t.is "\x7b" = false) :
    t.kind = .word := by
  simpa [startsReference, hn] using hs

/-- Another operator is looked for behind an expression, so a token stands there. -/
theorem climb_rest_ne_nil (h : (climb (ops :: tighter) ts).Gives e rest) : rest ≠ [] := by
  obtain ⟨s, hs, -, rfl, -⟩ := h
  obtain ⟨v, vs, hrest⟩ := climb_rest_cons hs
  rw [hrest]
  exact List.cons_ne_nil v vs

mutual

theorem climb_leads {tiers : List (List BinaryOp)} {ts : List Token} {e : Expr} {rest : List Token}
    (h : (climb tiers ts).Gives e rest) : ExpressionLeads tiers e ts rest := by
  match tiers with
  | [] =>
    rw [climb] at h
    exact operand_leads h
  | ops :: tighter =>
    rw [climb] at h
    obtain ⟨left, us, hus, hleft, hon⟩ := Read.Gives.andThen_iff.mp h
    obtain ⟨used, k, rfl, hr, hk⟩ := climb_leads hleft
    obtain ⟨used', k', rfl, hr', hk'⟩ := climbOn_leads (.looser hr) hk hon
    exact ⟨used ++ used', k', (List.append_assoc used used' rest).symm, hr', hk'⟩
termination_by 16 * ts.length + tiers.length + 3

theorem climbOn_leads {ops : List BinaryOp} {tighter : List (List BinaryOp)} {left e : Expr}
    {used ts rest : List Token} {k : Ending} (hr : Renders (.tier (ops :: tighter) left) used k)
    (hk : ∀ t ∈ ts.head?, k.goesOn t = false ∧ ∀ ops ∈ tighter, infixOp? ops t = none)
    (h : (climbOn ops tighter left ts).Gives e rest) :
    ∃ used' k', ts = used' ++ rest ∧ Renders (.tier (ops :: tighter) e) (used ++ used') k' ∧
      ∀ t ∈ rest.head?, k'.goesOn t = false ∧ ∀ ops' ∈ ops :: tighter, infixOp? ops' t = none := by
  match ts with
  | [] =>
    rw [climbOn] at h
    exact absurd h Read.Gives.not_none
  | t :: us =>
    rw [climbOn] at h
    cases ho : infixOp? ops t with
    | none =>
      simp only [ho] at h
      obtain ⟨rfl, rfl⟩ := Read.Gives.stay_iff.mp h
      refine ⟨[], k, rfl, by rwa [List.append_nil], ?_⟩
      intro u hu
      obtain rfl := Option.some.inj hu
      obtain ⟨hgoes, htighter⟩ := hk t rfl
      refine ⟨hgoes, ?_⟩
      intro ops' hm
      rcases List.mem_cons.mp hm with rfl | hm
      · exact ho
      · exact htighter ops' hm
    | some op =>
      simp only [ho] at h
      obtain ⟨right, vs, hvs, hright, hon⟩ := Read.Gives.andThen_iff.mp (Read.Gives.past_iff.mp h)
      obtain ⟨used', k', rfl, hr', hk'⟩ := climb_leads hright
      obtain ⟨used'', k'', rfl, hr'', hk''⟩ :=
        climbOn_leads (.binary hr ho (hk t rfl).1 hr') hk' hon
      refine ⟨t :: (used' ++ used''), k'', ?_, ?_, hk''⟩
      · rw [List.cons_append, List.append_assoc]
      · rw [List.append_assoc, List.cons_append] at hr''
        exact hr''
termination_by 16 * ts.length + tighter.length + 3

theorem operand_leads {ts : List Token} {e : Expr} {rest : List Token}
    (h : (operand ts).Gives e rest) : ExpressionLeads [] e ts rest := by
  match ts with
  | [] =>
    rw [operand] at h
    exact absurd h Read.Gives.not_none
  | t :: us =>
    rw [operand] at h
    cases ho : prefixOp? t with
    | some op =>
      simp only [ho] at h
      obtain ⟨inner, hinner, rfl⟩ := Read.Gives.map_iff.mp (Read.Gives.past_iff.mp h)
      obtain ⟨used, k, rfl, hr, hk⟩ := operand_leads hinner
      exact ⟨t :: used, k, rfl, .prefixed ho hr, hk⟩
    | none =>
      simp only [ho] at h
      exact primary_leads ho h
termination_by 16 * ts.length + 2

theorem primary_leads {t : Token} {ts : List Token} {e : Expr} {rest : List Token}
    (hp : prefixOp? t = none) (h : (primary t ts).Gives e rest) : ExpressionLeads [] e (t :: ts) rest := by
  rw [primary] at h
  split at h
  · next hk =>
    obtain ⟨x, hx, rfl⟩ := Read.Gives.map_iff.mp (Read.Gives.past_iff.mp h)
    unfold number at hx
    split at hx
    · next x' hn =>
      obtain ⟨rfl, rfl⟩ := Read.Gives.stay_iff.mp hx
      exact ExpressionLeads.of_closed _ (.number hk hn)
    · exact absurd hx Read.Gives.not_miss
  split at h
  · next ht =>
    obtain ⟨inner, us, hus, hinner, hclose⟩ := Read.Gives.andThen_iff.mp (Read.Gives.past_iff.mp h)
    obtain ⟨_, hexpect, rfl⟩ := Read.Gives.map_iff.mp hclose
    obtain ⟨v, rfl, hv⟩ := Read.Gives.expect_iff.mp hexpect
    obtain ⟨used, k, rfl, hr, hk⟩ := climb_leads hinner
    have := ExpressionLeads.of_closed rest (.group ht hr hv)
    rwa [List.cons_append, List.append_assoc, List.singleton_append] at this
  split at h
  · next hs => exact reference_leads hs hp (Read.Gives.past_iff.mp h)
  · exact absurd h Read.Gives.not_miss
termination_by 16 * ts.length + 17
decreasing_by all_goals (simp only [List.length_cons, length_expressionTiers] at *; omega)

theorem reference_leads {t : Token} {ts : List Token} {e : Expr} {rest : List Token}
    (hs : startsReference t = true) (hp : prefixOp? t = none) (h : (reference t ts).Gives e rest) :
    ExpressionLeads [] e (t :: ts) rest := by
  rw [reference] at h
  obtain ⟨p, us, hus, hp', hrest⟩ := Read.Gives.andThen_iff.mp h
  have hcases := firstPiece_cases hp'
  split at hrest
  · next hsplices =>
    obtain ⟨rfl, rfl⟩ := Read.Gives.stay_iff.mp hrest
    rcases hcases with ⟨hn, q, rfl, used, k, rfl, hr, hk⟩ |
      ⟨ht, inner, used, k, v, vs, q, rfl, hr, hv, rfl, used', k', rfl, hr', hk'⟩
    · have hw := kind_of_startsReference_of_is hs hn
      refine ⟨t :: used, .spliced, rfl, .spliced hw hp hr hsplices, ?_⟩
      intro u hu
      exact ⟨hk u hu, fun _ hm => by cases hm⟩
    · refine ⟨t :: (used ++ v :: used'), .spliced, ?_, .splicedFirst ht hr hv hr', ?_⟩
      · rw [List.cons_append, List.append_assoc, List.cons_append]
      · intro u hu
        exact ⟨hk' u hu, fun _ hm => by cases hm⟩
  · next hsplices =>
    have hcase : t.is "\x7b" = false ∧ ∃ q, p = q.afterText t.text ∧ PiecesLead q ts us := by
      refine hcases.resolve_right ?_
      rintro ⟨-, inner, -, -, -, -, q, -, -, -, rfl, -⟩
      exact absurd (List.cons_ne_nil _ _) hsplices
    split at hrest
    · exact absurd hrest Read.Gives.not_none
    · next u vs hle =>
      split at hrest
      · next hu =>
        have hlt : vs.length < ts.length := hle
        obtain ⟨es, hes, rfl⟩ := Read.Gives.map_iff.mp (Read.Gives.past_iff.mp hrest)
        obtain ⟨used', k', rfl, hr'⟩ := arguments_lead hes
        obtain ⟨hn, q, rfl, used, k, rfl, hr, hk⟩ := hcase
        have hw := kind_of_startsReference_of_is hs hn
        have hsplices : q.splices = [] := by simpa [Pieces.afterText] using hsplices
        have := ExpressionLeads.of_closed rest (.call hw hp hr hsplices hu hr')
        rwa [List.cons_append, List.append_assoc, List.cons_append] at this
      · next hu =>
        obtain ⟨rfl, rfl⟩ := Read.Gives.stay_iff.mp hrest
        obtain ⟨hn, q, rfl, used, k, rfl, hr, hk⟩ := hcase
        have hw := kind_of_startsReference_of_is hs hn
        have hsplices : q.splices = [] := by simpa [Pieces.afterText] using hsplices
        refine ⟨t :: used, .name, rfl, .name hw hp hr hsplices, ?_⟩
        intro w hw
        obtain rfl := Option.some.inj hw
        have hgoes := hk u rfl
        refine ⟨?_, fun _ hm => by cases hm⟩
        simp only [Ending.goesOn, Bool.or_eq_false_iff] at hgoes ⊢
        exact ⟨hgoes, Bool.eq_false_iff.mpr hu⟩
termination_by 16 * ts.length + 16
decreasing_by all_goals omega

theorem firstPiece_cases {t : Token} {ts : List Token} {p : Pieces} {rest : List Token}
    (h : (firstPiece t ts).Gives p rest) :
    (t.is "\x7b" = false ∧ ∃ q, p = q.afterText t.text ∧ PiecesLead q ts rest) ∨
    (t.is "\x7b" = true ∧ ∃ e used k v vs q, ts = used ++ v :: vs ∧
      Renders (.tier expressionTiers e) used k ∧ v.is "\x7d" = true ∧ p = q.afterSplice e ∧
      PiecesLead q vs rest) := by
  rw [firstPiece] at h
  split at h
  · next ht =>
    right
    obtain ⟨e, us, hus, he, hclose⟩ := Read.Gives.andThen_iff.mp h
    obtain ⟨_, vs, hvs, hexpect, hp⟩ := Read.Gives.andThen_iff.mp hclose
    obtain ⟨v, rfl, hv⟩ := Read.Gives.expect_iff.mp hexpect
    obtain ⟨q, hq, rfl⟩ := Read.Gives.map_iff.mp hp
    obtain ⟨used, k, rfl, hr, -⟩ := climb_leads he
    exact ⟨ht, e, used, k, v, vs, q, rfl, hr, hv, rfl, pieces_lead hq⟩
  · next ht =>
    left
    obtain ⟨q, hq, rfl⟩ := Read.Gives.map_iff.mp h
    exact ⟨Bool.eq_false_iff.mpr ht, q, rfl, pieces_lead hq⟩
termination_by 16 * ts.length + 12
decreasing_by all_goals (simp only [List.length_cons, length_expressionTiers] at *; omega)

theorem pieces_lead {ts : List Token} {p : Pieces} {rest : List Token}
    (h : (pieces ts).Gives p rest) : PiecesLead p ts rest := by
  match ts with
  | [] =>
    rw [pieces] at h
    exact absurd h Read.Gives.not_none
  | t :: us =>
    rw [pieces] at h
    split at h
    · next hgoes =>
      have hcases := firstPiece_cases (Read.Gives.past_iff.mp h)
      rcases hcases with ⟨hn, q, rfl, used, k, rfl, hr, hk⟩ |
        ⟨ht, inner, used, k, v, vs, q, rfl, hr, hv, rfl, used', k', rfl, hr', hk'⟩
      · have hj : joins t = true := by simpa [hn] using hgoes
        exact ⟨t :: used, .spliced, rfl, .textPiece hj hr, hk⟩
      · have ha : t.adjoins = true := by
          simp only [joins, ht, Bool.and_true, Bool.or_eq_true, Bool.and_eq_true] at hgoes
          exact hgoes.elim And.left id
        refine ⟨t :: (used ++ v :: used'), .spliced, ?_, .splice ha ht hr hv hr', hk'⟩
        rw [List.cons_append, List.append_assoc, List.cons_append]
    · next hgoes =>
      obtain ⟨rfl, rfl⟩ := Read.Gives.stay_iff.mp h
      refine ⟨[], .spliced, rfl, .noPiece, ?_⟩
      intro u hu
      obtain rfl := Option.some.inj hu
      exact Bool.eq_false_iff.mpr hgoes
termination_by 16 * ts.length + 1

theorem arguments_lead {ts : List Token} {es : List Expr} {rest : List Token}
    (h : (arguments ts).Gives es rest) : ArgumentsLead es ts rest := by
  match ts with
  | [] =>
    rw [arguments] at h
    exact absurd h Read.Gives.not_none
  | t :: us =>
    rw [arguments] at h
    split at h
    · next ht =>
      obtain ⟨rfl, rfl⟩ := Read.Gives.stay_iff.mp (Read.Gives.past_iff.mp h)
      exact ⟨[t], .closed, rfl, .noArgument ht⟩
    · exact (argumentsOn_lead h).2
termination_by 16 * ts.length + 11

theorem argumentsOn_lead {ts : List Token} {es : List Expr} {rest : List Token}
    (h : (argumentsOn ts).Gives es rest) : es ≠ [] ∧ ArgumentsLead es ts rest := by
  rw [argumentsOn] at h
  obtain ⟨e, us, hus, he, hrest⟩ := Read.Gives.andThen_iff.mp h
  obtain ⟨used, k, hts, hr, -⟩ := climb_leads he
  split at hrest
  · exact absurd hrest Read.Gives.not_none
  · next v vs hle =>
    split at hrest
    · next hv =>
      have hlt : vs.length < ts.length := hle
      obtain ⟨more, hmore, rfl⟩ := Read.Gives.map_iff.mp (Read.Gives.past_iff.mp hrest)
      obtain ⟨hne, used', k', rfl, hr'⟩ := argumentsOn_lead hmore
      refine ⟨List.cons_ne_nil e more, used ++ v :: used', .closed, ?_, .argument hr hv hr' hne⟩
      rw [hts, List.append_assoc, List.cons_append]
    · obtain ⟨_, hexpect, rfl⟩ := Read.Gives.map_iff.mp hrest
      obtain ⟨_, hcons, hv⟩ := Read.Gives.expect_iff.mp hexpect
      obtain ⟨rfl, rfl⟩ := List.cons.inj hcons
      refine ⟨List.cons_ne_nil e [], used ++ [v], .closed, ?_, .lastArgument hr hv⟩
      rw [hts, List.append_assoc, List.singleton_append]
termination_by 16 * ts.length + 10
decreasing_by all_goals (simp only [List.length_cons, length_expressionTiers] at *; omega)

end

/-- An expression is read without a mistake from the tokens that render it and from no others: up to
a token that is no operator and that the last name does not go on with. -/
theorem expression_gives_iff {ts rest : List Token} {e : Expr} :
    (expression ts).Gives e rest ↔ ∃ used k t us, ts = used ++ rest ∧ rest = t :: us ∧
      Renders (.tier expressionTiers e) used k ∧ k.goesOn t = false ∧
      ∀ ops ∈ expressionTiers, infixOp? ops t = none := by
  constructor
  · intro h
    obtain ⟨used, k, hts, hr, hk⟩ := climb_leads h
    cases rest with
    | nil => exact absurd rfl (climb_rest_ne_nil h)
    | cons t us =>
      obtain ⟨hgoes, hops⟩ := hk t rfl
      exact ⟨used, k, t, us, hts, rfl, hr, hgoes, hops⟩
  · rintro ⟨used, k, t, us, rfl, rfl, hr, hgoes, hops⟩
    have hspells := hr.spelt.spells us layered_expressionTiers hgoes hops
    exact SpellsExpression.gives hspells

end Storyline.Script
