import Storyline.Proofs.Grammar.Gives
import Storyline.Script.Expression

namespace Storyline.Script

inductive Phrase where
  /-- An expression of the operators of some tiers. -/
  | tier (tiers : List (List BinaryOp)) (e : Expr)
  /-- The same, as far as an operator of the first tier may follow. -/
  | chain (ops : List BinaryOp) (tighter : List (List BinaryOp)) (e : Expr)
  /-- A variable or a call. -/
  | reference (e : Expr)
  /-- What adjoins the first piece of a name. -/
  | pieces (p : Pieces)
  /-- Arguments behind their opening parenthesis. -/
  | arguments (es : List Expr)

/-- A phrase spelled by the tokens up to some rest is determined by what stands there, the first
token of the rest included: an operator or an adjoining token there would belong to the phrase. -/
inductive Spells : Phrase → List Token → List Token → Prop where
  | prefixed {t us rest op e} : prefixOp? t = some op → Spells (.tier [] e) us rest →
      Spells (.tier [] (.unary op e)) (t :: us) rest
  | number {t us x} : t.kind = .number → Decimal.number? t.text = some x →
      Spells (.tier [] (.number x)) (t :: us) us
  | group {t us v rest e} : t.is "(" = true → Spells (.tier expressionTiers e) us (v :: rest) →
      v.is ")" = true → Spells (.tier [] e) (t :: us) rest
  | operand {t us rest e} : prefixOp? t = none → Spells (.reference e) (t :: us) rest →
      Spells (.tier [] e) (t :: us) rest
  | name {t us v rest p} : t.kind = .word → Spells (.pieces p) us (v :: rest) → p.splices = [] →
      opensArguments v = false → Spells (.reference (.var (t.text ++ p.head))) (t :: us) (v :: rest)
  | call {t us v vs rest p es} : t.kind = .word → Spells (.pieces p) us (v :: vs) →
      p.splices = [] → opensArguments v = true → Spells (.arguments es) vs rest →
      Spells (.reference (.call (t.text ++ p.head) es)) (t :: us) rest
  | spliced {t us rest p} : t.kind = .word → Spells (.pieces p) us rest → p.splices ≠ [] →
      Spells (.reference (p.afterText t.text).spliced) (t :: us) rest
  | splicedFirst {t us v vs rest e p} : t.is "\x7b" = true →
      Spells (.tier expressionTiers e) us (v :: vs) → v.is "\x7d" = true →
      Spells (.pieces p) vs rest → Spells (.reference (p.afterSplice e).spliced) (t :: us) rest
  | first {ops tighter e ts rest} : Spells (.tier tighter e) ts rest →
      Spells (.chain ops tighter e) ts rest
  | more {ops tighter left right op ts t us rest} : Spells (.chain ops tighter left) ts (t :: us) →
      infixOp? ops t = some op → Spells (.tier tighter right) us rest →
      Spells (.chain ops tighter (.binary op left right)) ts rest
  | last {ops tighter e ts t us} : Spells (.chain ops tighter e) ts (t :: us) →
      infixOp? ops t = none → Spells (.tier (ops :: tighter) e) ts (t :: us)
  | noPiece {t us} : joins t = false → (t.adjoins && t.is "\x7b") = false →
      Spells (.pieces .none) (t :: us) (t :: us)
  | textPiece {t us rest p} : joins t = true → Spells (.pieces p) us rest →
      Spells (.pieces (p.afterText t.text)) (t :: us) rest
  | splice {t us v vs rest e p} : t.adjoins = true → t.is "\x7b" = true →
      Spells (.tier expressionTiers e) us (v :: vs) → v.is "\x7d" = true →
      Spells (.pieces p) vs rest → Spells (.pieces (p.afterSplice e)) (t :: us) rest
  | noArgument {t us} : t.is ")" = true → Spells (.arguments []) (t :: us) us
  | lastArgument {ts v rest e} : Spells (.tier expressionTiers e) ts (v :: rest) →
      v.is ")" = true → Spells (.arguments [e]) ts rest
  | argument {ts v vs rest e es} : Spells (.tier expressionTiers e) ts (v :: vs) →
      v.is "," = true → Spells (.arguments es) vs rest → es ≠ [] →
      Spells (.arguments (e :: es)) ts rest

/-- A token stands here that does not close arguments. -/
def GoesOn (ts : List Token) : Prop := ∃ t us, ts = t :: us ∧ t.is ")" = false

/-- What the rules for a phrase read. -/
def Phrase.Reads : Phrase → List Token → List Token → Prop
  | tier tiers e, ts, rest => (climb tiers ts).Gives e rest ∧ GoesOn ts
  | chain ops tighter e, ts, rest => (∀ b us, (climbOn ops tighter e rest).Gives b us →
      (climb (ops :: tighter) ts).Gives b us) ∧ GoesOn ts
  | reference e, ts, rest => ∃ t us, ts = t :: us ∧ startsReference t = true ∧
      (Script.reference t us).Gives e rest
  | pieces p, ts, rest => (Script.pieces ts).Gives p rest
  | arguments es, ts, rest => (Script.arguments ts).Gives es rest ∧
      (es ≠ [] → (argumentsOn ts).Gives es rest)

variable {t : Token} {ts us vs rest : List Token} {e : Expr}

theorem is_eq_false_of_kind {text : String} (h : t.kind ≠ .mark) : t.is text = false := by
  simp [Token.is, h]

theorem is_eq_false {text other : String} (h : t.is other = true) (hne : other ≠ text) :
    t.is text = false := by
  simp only [Token.is, Bool.and_eq_true, beq_iff_eq] at h
  simp [Token.is, h.2, hne]

theorem ofSpelling?_eq_none {text : String} (h : ∀ op : UnaryOp, op.spelling ≠ text) :
    UnaryOp.ofSpelling? text = none := by
  refine List.find?_eq_none.mpr fun op _ => ?_
  simpa using h op

theorem prefixOp?_of_is {text : String} (h : t.is text = true)
    (hne : ∀ op : UnaryOp, op.spelling ≠ text) : prefixOp? t = none := by
  simp only [Token.is, Bool.and_eq_true, beq_iff_eq] at h
  unfold prefixOp?
  rw [h.2, ofSpelling?_eq_none hne, ite_self]

theorem prefixOp?_of_number (h : t.kind = .number) : prefixOp? t = none := by
  simp [prefixOp?, canSpell, h]

theorem is_of_prefixOp? {op : UnaryOp} (h : prefixOp? t = some op) : t.is ")" = false := by
  unfold prefixOp? at h
  split at h
  · have hs : op.spelling = t.text := by simpa using List.find?_some h
    have hne : t.text ≠ ")" := by
      rw [← hs]
      cases op <;> decide
    simp [Token.is, hne]
  · cases h

theorem operand_gives (hp : prefixOp? t = none) (h : (primary t us).Gives e rest) :
    (climb [] (t :: us)).Gives e rest := by
  rw [climb, operand, hp]
  exact h

theorem startsReference_of_word (hw : t.kind = .word) : startsReference t = true := by
  simp [startsReference, hw]

theorem startsReference_of_is (ht : t.is "\x7b" = true) : startsReference t = true := by
  simp [startsReference, ht]

theorem is_eq_false_of_startsReference {text : String} (h : startsReference t = true)
    (hne : "\x7b" ≠ text) : t.is text = false := by
  simp only [startsReference, Bool.or_eq_true, beq_iff_eq] at h
  rcases h with hw | ht
  · exact is_eq_false_of_kind (by rw [hw]; simp)
  · exact is_eq_false ht hne

theorem kind_of_startsReference (h : startsReference t = true) : t.kind ≠ .number := by
  simp only [startsReference, Token.is, Bool.or_eq_true, Bool.and_eq_true, beq_iff_eq] at h
  rcases h with hw | ⟨hm, -⟩
  · rw [hw]
    simp
  · rw [hm]
    simp

/-- What goes on with a name opens no splice. -/
theorem is_eq_false_of_joins (h : joins t = true) : t.is "\x7b" = false := by
  simp only [joins, Bool.and_eq_true, Bool.or_eq_true, beq_iff_eq, Token.isOp] at h
  rcases h.2 with (hk | hk) | ⟨-, ht⟩
  · exact is_eq_false_of_kind (by rw [hk]; simp)
  · exact is_eq_false_of_kind (by rw [hk]; simp)
  · simp [Token.is, ht]

theorem firstPiece_gives {p : Pieces} (hw : t.kind = .word) (h : (pieces us).Gives p rest) :
    (firstPiece t us).Gives (p.afterText t.text) rest := by
  have hn : t.kind ≠ .mark := by rw [hw]; simp
  rw [firstPiece, is_eq_false_of_kind hn, if_neg (by simp)]
  exact h.map _

theorem splice_gives {v : Token} {p : Pieces} (ht : t.is "\x7b" = true)
    (he : (climb expressionTiers us).Gives e (v :: vs)) (hv : v.is "\x7d" = true)
    (hp : (pieces vs).Gives p rest) : (firstPiece t us).Gives (p.afterSplice e) rest := by
  rw [firstPiece, if_pos ht]
  exact he.andThen fun _ => (Read.Gives.expect hv).andThen fun _ => hp.map _

/-- What the grammar spells is read without a mistake. -/
theorem Spells.reads {phrase : Phrase} (h : Spells phrase ts rest) : phrase.Reads ts rest := by
  induction h with
  | @prefixed t us rest op e ho _ ih =>
    have := ih.1
    rw [climb] at this
    refine ⟨?_, t, us, rfl, is_of_prefixOp? ho⟩
    rw [climb, Script.operand, ho]
    exact (this.map _).past
  | @number t us x hk hx =>
    have hn : t.is ")" = false := is_eq_false_of_kind (by rw [hk]; simp)
    refine ⟨operand_gives (prefixOp?_of_number hk) ?_, t, us, rfl, hn⟩
    rw [primary, if_pos hk, Script.number, hx]
    exact ((Read.Gives.stay x us).map _).past
  | @group t us v rest e ht _ hv ih =>
    have hk : t.kind ≠ .number := by
      simp only [Token.is, Bool.and_eq_true, beq_iff_eq] at ht
      rw [ht.1]
      simp
    refine ⟨operand_gives (prefixOp?_of_is ht fun op => by cases op <;> decide) ?_, t, us, rfl,
      is_eq_false ht (by simp)⟩
    rw [primary, if_neg hk, if_pos ht]
    exact (ih.1.andThen fun _ => (Read.Gives.expect hv).map _).past
  | @operand t us rest e hp _ ih =>
    obtain ⟨_, _, he, hs, hr⟩ := ih
    obtain ⟨rfl, rfl⟩ := List.cons.inj he
    refine ⟨operand_gives hp ?_, t, us, rfl, is_eq_false_of_startsReference hs (by simp)⟩
    rw [primary, if_neg (kind_of_startsReference hs),
      is_eq_false_of_startsReference hs (show "\x7b" ≠ "(" by decide), if_neg (by simp), if_pos hs]
    exact hr.past
  | @name t us v rest p hw _ hs hv ih =>
    refine ⟨t, us, rfl, startsReference_of_word hw, ?_⟩
    rw [Script.reference]
    refine (firstPiece_gives hw ih).andThen fun _ => ?_
    rw [if_neg (by simp [Pieces.afterText, hs])]
    simp only [hv, Bool.false_eq_true, if_false]
    exact .stay _ _
  | @call t us v vs rest p es hw _ hs hv _ ih ih' =>
    refine ⟨t, us, rfl, startsReference_of_word hw, ?_⟩
    rw [Script.reference]
    refine (firstPiece_gives hw ih).andThen fun _ => ?_
    rw [if_neg (by simp [Pieces.afterText, hs])]
    simp only [hv, if_true]
    exact (ih'.1.map _).past
  | @spliced t us rest p hw _ hs ih =>
    refine ⟨t, us, rfl, startsReference_of_word hw, ?_⟩
    rw [Script.reference]
    refine (firstPiece_gives hw ih).andThen fun _ => ?_
    rw [if_pos (by simpa [Pieces.afterText] using hs)]
    exact .stay _ _
  | @splicedFirst t us v vs rest e p ht _ hv _ ih ih' =>
    refine ⟨t, us, rfl, startsReference_of_is ht, ?_⟩
    rw [Script.reference]
    refine (splice_gives ht ih.1 hv ih').andThen fun _ => ?_
    rw [if_pos (by simp [Pieces.afterSplice])]
    exact .stay _ _
  | @first ops tighter e ts rest _ ih =>
    refine ⟨fun b us hb => ?_, ih.2⟩
    rw [climb]
    exact ih.1.andThen fun _ => hb
  | @more ops tighter left right op ts t us rest _ ho _ ih ih' =>
    refine ⟨fun b vs hb => ih.1 b vs ?_, ih.2⟩
    rw [climbOn, ho]
    exact (ih'.1.andThen fun _ => hb).past
  | @last ops tighter e ts t us _ ho ih =>
    refine ⟨ih.1 e (t :: us) ?_, ih.2⟩
    rw [climbOn, ho]
    exact .stay _ _
  | @noPiece t us hj hb =>
    show (Script.pieces (t :: us)).Gives .none (t :: us)
    rw [pieces, hj, hb]
    exact .stay _ _
  | @textPiece t us rest p hj _ ih =>
    show (Script.pieces (t :: us)).Gives (p.afterText t.text) rest
    rw [pieces, hj, Bool.true_or, if_pos rfl, firstPiece, is_eq_false_of_joins hj, if_neg (by simp)]
    exact (ih.map _).past
  | @splice t us v vs rest e p ha ht _ hv _ ih ih' =>
    show (Script.pieces (t :: us)).Gives (p.afterSplice e) rest
    rw [pieces, ha, ht, Bool.and_self, Bool.or_true, if_pos rfl]
    exact (splice_gives ht ih.1 hv ih').past
  | @noArgument t us ht =>
    refine ⟨?_, fun h => absurd rfl h⟩
    rw [Script.arguments, if_pos ht]
    exact (Read.Gives.stay _ _).past
  | @lastArgument ts v rest e _ hv ih =>
    have hlast : (argumentsOn ts).Gives [e] rest := by
      rw [argumentsOn]
      refine ih.1.andThen fun _ => ?_
      simp only [is_eq_false hv (show ")" ≠ "," by decide), Bool.false_eq_true, if_false]
      exact (Read.Gives.expect hv).map _
    obtain ⟨t, us, rfl, ht⟩ := ih.2
    refine ⟨?_, fun _ => hlast⟩
    rw [Script.arguments, if_neg (by simp [ht])]
    exact hlast
  | @argument ts v vs rest e es _ hv _ hes ih ih' =>
    have hmore : (argumentsOn ts).Gives (e :: es) rest := by
      rw [argumentsOn]
      refine ih.1.andThen fun _ => ?_
      simp only [hv, if_true]
      exact ((ih'.2 hes).map _).past
    obtain ⟨t, us, rfl, ht⟩ := ih.2
    refine ⟨?_, fun _ => hmore⟩
    rw [Script.arguments, if_neg (by simp [ht])]
    exact hmore

/-- The value expression that the tokens up to `rest` spell. -/
def SpellsExpression (ts : List Token) (e : Expr) (rest : List Token) : Prop :=
  Spells (.tier expressionTiers e) ts rest

/-- A selector has no operator `~` outside parentheses. -/
def SpellsSelector (ts : List Token) (e : Expr) (rest : List Token) : Prop :=
  Spells (.tier selectorTiers e) ts rest

theorem SpellsExpression.gives (h : SpellsExpression ts e rest) : (expression ts).Gives e rest :=
  (Spells.reads h).1

theorem SpellsSelector.gives (h : SpellsSelector ts e rest) : (selector ts).Gives e rest :=
  (Spells.reads h).1

/-- An operand is an expression where no operator follows. -/
theorem Spells.tier_of_operand {tiers : List (List BinaryOp)} {v : Token}
    (h : Spells (.tier [] e) ts (v :: vs)) (ho : ∀ ops ∈ tiers, infixOp? ops v = none) :
    Spells (.tier tiers e) ts (v :: vs) := by
  induction tiers with
  | nil => exact h
  | cons ops tighter ih =>
    have htighter := ih fun o hm => ho o (List.mem_cons_of_mem ops hm)
    exact .last (.first htighter) (ho ops List.mem_cons_self)

/-- A word that nothing adjoins is a variable. -/
theorem Spells.word {v : Token} (hk : t.kind = .word) (hj : joins v = false)
    (hs : (v.adjoins && v.is "\x7b") = false) (ha : opensArguments v = false) :
    Spells (.reference (.var t.text)) (t :: v :: vs) (v :: vs) := by
  have hname : Spells (.reference (.var (t.text ++ Pieces.none.head))) (t :: v :: vs) (v :: vs) :=
    .name hk (.noPiece hj hs) rfl ha
  have hhead : t.text ++ Pieces.none.head = t.text := String.append_empty
  rwa [hhead] at hname

/-- A word that nothing adjoins is a selector. -/
theorem SpellsSelector.word {v : Token} (hk : t.kind = .word)
    (hp : prefixOp? t = none) (hj : joins v = false) (hs : (v.adjoins && v.is "\x7b") = false)
    (ha : opensArguments v = false) (ho : ∀ ops ∈ selectorTiers, infixOp? ops v = none) :
    SpellsSelector (t :: v :: vs) (.var t.text) (v :: vs) :=
  Spells.tier_of_operand (.operand hp (.word hk hj hs ha)) ho

end Storyline.Script
