import Storyline.Proofs.Grammar.Expressions
import Storyline.Script.Assignment

namespace Storyline.Script

/-- A dotted name: a word and what adjoins it. -/
structure SpellsName (ts : List Token) (name : String) (rest : List Token) : Prop where
  spelled : ∃ t run v vs, ts = t :: run ++ v :: vs ∧ rest = v :: vs ∧ t.kind = .word ∧
    (∀ u ∈ run, joins u = true) ∧ joins v = false ∧
    name = t.text ++ run.foldr (fun u tail => u.text ++ tail) ""

/-- The words of a cue with the space between them, after those in `before`. -/
def joined (before : String) : List Token → String
  | [] => before
  | t :: ts => joined (before ++ (if before = "" then "" else t.space) ++ t.text) ts

/-- A token that is a word of a cue. -/
def IsCueWord (t : Token) : Prop :=
  t.is ">" = false ∧ ¬ (t.kind = .stop ∨ t.kind = .start ∨ t.kind = .blank)

/-- The amount of a change, which is one if none stands here. -/
inductive SpellsAmount : List Token → Float → List Token → Prop where
  | one {t us} : t.kind ≠ .number → SpellsAmount (t :: us) 1 (t :: us)
  | number {t us x} : t.kind = .number → Decimal.number? t.text = some x →
      SpellsAmount (t :: us) x us

/-- A variable that can be assigned to. -/
def SpellsVariable (ts : List Token) (target : Expr) (rest : List Token) : Prop :=
  Spells (.reference target) ts rest ∧ target.isVariable = true

/-- The assignments of a program block, between commas and blank lines. -/
inductive SpellsProgram : List Token → List Item → List Token → Prop where
  | done {v vs} : v.kind = .stop → SpellsProgram (v :: vs) [] (v :: vs)
  | separator {t us items rest} : t.is "," = true ∨ t.kind = .blank →
      SpellsProgram us items rest → SpellsProgram (t :: us) items rest
  | assign {t us v vs xs rest target op value items} : SpellsVariable (t :: us) target (v :: vs) →
      assignmentOp? v = some op → SpellsExpression vs value xs → SpellsProgram xs items rest →
      SpellsProgram (t :: us) (.content t.pos (Script.assign target op value) :: items) rest

/-- The weight of a case, where cases can have one. -/
inductive SpellsWeight : Bool → List Token → Option Expr → List Token → Prop where
  | none {weighted t us} : (weighted && t.is "(") = false →
      SpellsWeight weighted (t :: us) none (t :: us)
  | some {t us v vs e} : t.is "(" = true → SpellsExpression us e (v :: vs) → v.is ")" = true →
      SpellsWeight true (t :: us) (some e) vs

/-- The first token of a selector does not make the brace something else. -/
structure IsUnsigned (t : Token) : Prop where
  form : braceForm t = .other
  echo : t.isOp "$" = false
  sigil : sigil? t = none

inductive Passage where
  | thread (items : List Item)
  | cases (weighted : Bool) (found : List Case)

inductive Writes : Passage → List Token → List Token → Prop where
  | close {u us} : u.sign = .close → Writes (.thread []) (u :: us) (u :: us)
  | blank {t us rest items} : t.sign = .blank → Writes (.thread items) us rest →
      Writes (.thread items) (t :: us) rest
  | content {t us rest c items} : t.sign = .content c → Writes (.thread items) us rest →
      Writes (.thread (.content t.pos c :: items)) (t :: us) rest
  | text {t run v vs rest items} : t.isText = true → (∀ u ∈ run, u.isText = true) →
      v.isText = false → Writes (.thread items) (v :: vs) rest →
      Writes (.thread (.content t.pos (.text (t.printed ++
        run.foldr (fun u tail => u.space ++ u.printed ++ tail) "") t.space v.space) :: items))
        (t :: run ++ v :: vs) rest
  | cue {t run v vs rest items} : t.sign = .cue → (∀ u ∈ run, IsCueWord u) → v.is ">" = true →
      joined "" run ≠ "" → Writes (.thread items) vs rest →
      Writes (.thread (.content t.pos (.cue (joined "" run)) :: items)) (t :: run ++ v :: vs) rest
  | leave {t us rest items} : t.sign = .leave → Writes (.thread items) us rest →
      Writes (.thread (.leave :: items)) (t :: us) rest
  | goto {t us v vs rest label items} : t.sign = .goto → SpellsName us label (v :: vs) →
      opensArguments v = false → Writes (.thread items) (v :: vs) rest →
      Writes (.thread (.goto label :: items)) (t :: us) rest
  | label {t us v vs rest name items} : t.sign = .label → SpellsName us name (v :: vs) →
      opensArguments v = false → Writes (.thread items) (v :: vs) rest →
      Writes (.thread (.label t.pos name v.pos :: items)) (t :: us) rest
  | block {t us v vs rest body items} : t.sign = .start → t.text = "-" →
      Writes (.thread body) us (v :: vs) → v.kind = .stop → Writes (.thread items) vs rest →
      Writes (.thread (body ++ items)) (t :: us) rest
  | program {t us v vs rest body items} : t.sign = .start → t.text = "!" →
      SpellsProgram us body (v :: vs) → v.kind = .stop → Writes (.thread items) vs rest →
      Writes (.thread (body ++ items)) (t :: us) rest
  | change {t b us vs w ws rest op n target items} : t.sign = .brace → braceForm b = .change op →
      SpellsAmount us n vs → SpellsVariable vs target (w :: ws) → w.is "\x7d" = true →
      Writes (.thread items) ws rest →
      Writes (.thread (.content t.pos (.move target (.binary op target (.number n))) :: items))
        (t :: b :: us) rest
  | put {t b us w ws rest x target items} : t.sign = .brace → braceForm b = .put x →
      SpellsVariable us target (w :: ws) → w.is "\x7d" = true → Writes (.thread items) ws rest →
      Writes (.thread (.content t.pos (.move target (.number x)) :: items)) (t :: b :: us) rest
  | echo {t b us w ws rest e items} : t.sign = .brace → b.isOp "$" = true →
      SpellsExpression us e (w :: ws) → w.is "\x7d" = true → Writes (.thread items) ws rest →
      Writes (.thread (.content t.pos (.echo e) :: items)) (t :: b :: us) rest
  | value {t b us w ws rest e items} : t.sign = .brace → IsUnsigned b →
      SpellsSelector (b :: us) e (w :: ws) → w.is "\x7d" = true → Writes (.thread items) ws rest →
      Writes (.thread (.content t.pos (.echo e) :: items)) (t :: b :: us) rest
  | condition {t b us v vs w ws rest e yes items} : t.sign = .brace → IsUnsigned b →
      SpellsSelector (b :: us) e (v :: vs) → v.isOp "?" = true →
      Writes (.thread yes) vs (w :: ws) → w.is "\x7d" = true → Writes (.thread items) ws rest →
      Writes (.thread (.jump t.pos e yes [] :: items)) (t :: b :: us) rest
  | choice {t b us v vs w ws x xs rest e yes no items} : t.sign = .brace → IsUnsigned b →
      SpellsSelector (b :: us) e (v :: vs) → v.isOp "?" = true →
      Writes (.thread yes) vs (w :: ws) → w.is "|" = true → Writes (.thread no) ws (x :: xs) →
      x.is "\x7d" = true → Writes (.thread items) xs rest →
      Writes (.thread (.jump t.pos e yes no :: items)) (t :: b :: us) rest
  | switch {t b us w ws rest selection found items} : t.sign = .brace → braceForm b = .other →
      b.isOp "$" = false → sigil? b = some selection →
      Writes (.cases selection.isWeighted found) us (w :: ws) → w.is "\x7d" = true →
      Writes (.thread items) ws rest →
      Writes (.thread (.switch t.pos selection (Selection.padded selection found) :: items))
        (t :: b :: us) rest
  | index {t b us v vs w ws rest e found items} : t.sign = .brace → IsUnsigned b →
      SpellsSelector (b :: us) e (v :: vs) → v.is "|" = true →
      Writes (.cases false found) vs (w :: ws) → w.is "\x7d" = true → Writes (.thread items) ws rest →
      Writes (.thread (.switch t.pos (.index e) (padded found) :: items)) (t :: b :: us) rest
  | pick {t b us v vs w ws rest e found items} : t.sign = .brace → IsUnsigned b →
      SpellsSelector (b :: us) e (v :: vs) → v.isOp "~" = true →
      Writes (.cases true found) vs (w :: ws) → w.is "\x7d" = true → Writes (.thread items) ws rest →
      Writes (.thread (.switch t.pos (.pick e) found :: items)) (t :: b :: us) rest
  | lastCase {weighted ts us v vs w body} : SpellsWeight weighted ts w us →
      Writes (.thread body) us (v :: vs) → v.is "|" = false →
      Writes (.cases weighted [.mk w body]) ts (v :: vs)
  | case {weighted ts us v vs rest w body found} : SpellsWeight weighted ts w us →
      Writes (.thread body) us (v :: vs) → v.is "|" = true → Writes (.cases weighted found) vs rest →
      Writes (.cases weighted (.mk w body :: found)) ts rest

section Flat

variable {t v : Token} {ts us vs rest : List Token}

theorem nameTail_gives {run : List Token} (hr : ∀ u ∈ run, joins u = true) (hv : joins v = false) :
    (nameTail (run ++ v :: vs)).Gives (run.foldr (fun u tail => u.text ++ tail) "") (v :: vs) := by
  induction run with
  | nil =>
    rw [List.nil_append, nameTail, if_neg (by simp [hv])]
    exact .stay _ _
  | cons u run ih =>
    have hu := hr u List.mem_cons_self
    rw [List.cons_append, nameTail, if_pos hu]
    exact ((ih fun w hw => hr w (List.mem_cons_of_mem _ hw)).map _).past

theorem SpellsName.gives {name : String} (h : SpellsName ts name rest) (wanted : Wanted) :
    (wantedName wanted ts).Gives (some name) rest := by
  obtain ⟨t, run, v, vs, rfl, rfl, hk, hr, hv, rfl⟩ := h.spelled
  rw [List.cons_append, wantedName, if_pos hk, Script.name, if_pos hk]
  exact ((nameTail_gives hr hv).map _).past

theorem words_gives {run : List Token} (before : String) (hr : ∀ u ∈ run, IsCueWord u)
    (hv : v.is ">" = true) :
    (words ">" before (run ++ v :: vs)).Gives (joined before run) vs := by
  induction run generalizing before with
  | nil =>
    rw [List.nil_append, words, if_pos hv]
    exact (Read.Gives.stay _ _).past
  | cons u run ih =>
    have hu := hr u List.mem_cons_self
    rw [List.cons_append, words, if_neg (by simp [hu.1]), if_neg hu.2]
    exact (ih _ fun w hw => hr w (List.mem_cons_of_mem _ hw)).past

theorem textTail_gives {run : List Token} (hr : ∀ u ∈ run, u.isText = true)
    (hv : v.isText = false) : (textTail (run ++ v :: vs)).Gives
      (run.foldr (fun u tail => u.space ++ u.printed ++ tail) "", v.space) (v :: vs) := by
  induction run with
  | nil =>
    rw [List.nil_append, textTail, if_neg (by simp [hv])]
    exact .stay _ _
  | cons u run ih =>
    have hu := hr u List.mem_cons_self
    rw [List.cons_append, textTail, if_pos hu]
    exact ((ih fun w hw => hr w (List.mem_cons_of_mem _ hw)).map _).past

theorem SpellsAmount.gives {x : Float} (h : SpellsAmount ts x rest) :
    (amount ts).Gives x rest := by
  cases h with
  | one hk =>
    rw [amount, if_neg hk]
    exact .stay _ _
  | number hk hx =>
    rw [amount, if_pos hk, Script.number, hx]
    exact (Read.Gives.stay _ _).past

theorem SpellsVariable.gives {target : Expr} (h : SpellsVariable ts target rest) :
    ∃ t us, ts = t :: us ∧ startsReference t = true ∧ (assignedTo t us).Gives (some target) rest := by
  obtain ⟨hr, hv⟩ := h
  obtain ⟨t, us, rfl, hs, hg⟩ := hr.reads
  refine ⟨t, us, rfl, hs, ?_⟩
  rw [assignedTo]
  refine hg.andThen fun _ => ?_
  rw [if_pos hv]
  exact .stay _ _

theorem SpellsVariable.assignable {target : Expr} (h : SpellsVariable ts target rest) :
    (assignable ts).Gives (some target) rest := by
  obtain ⟨t, us, rfl, hs, hg⟩ := h.gives
  rw [Script.assignable, if_pos hs]
  exact hg.past

theorem SpellsProgram.gives {items : List Item} (h : SpellsProgram ts items rest) :
    (program ts).Gives items rest := by
  induction h with
  | done hv =>
    rw [program, if_pos (.inl hv)]
    exact .stay _ _
  | @separator t us items rest ht _ ih =>
    have hk : ¬ (t.kind = .stop ∨ t.kind = .start) := by
      simp only [Token.is, Bool.and_eq_true, beq_iff_eq] at ht
      rcases ht with ⟨hk, -⟩ | hk <;> rw [hk] <;> simp
    rw [program, if_neg hk, if_pos ht]
    exact ih.past
  | @assign t us v vs xs rest target op value items hv ho he _ ih =>
    obtain ⟨t', us', htu, hs, hg⟩ := hv.gives
    obtain ⟨rfl, rfl⟩ := List.cons.inj htu
    have hk : ¬ (t.kind = .stop ∨ t.kind = .start) := by
      simp only [startsReference, Token.is, Bool.or_eq_true, Bool.and_eq_true, beq_iff_eq] at hs
      rcases hs with hk | ⟨hk, -⟩ <;> rw [hk] <;> simp
    have hsep : ¬ (t.is "," = true ∨ t.kind = .blank) := by
      rw [is_eq_false_of_startsReference hs (by decide)]
      simp only [startsReference, Token.is, Bool.or_eq_true, Bool.and_eq_true, beq_iff_eq] at hs
      rcases hs with hk | ⟨hk, -⟩ <;> rw [hk] <;> simp
    rw [program, if_neg hk, if_neg hsep, if_pos hs]
    refine Span.Gives.past (hg.items fun _ => ?_)
    simp only [ho]
    exact Span.Gives.past (he.gives.items fun _ => ih.after _)

theorem SpellsWeight.gives {weighted : Bool} {w : Option Expr} (h : SpellsWeight weighted ts w rest) :
    (weight weighted ts).Gives (w, []) rest := by
  cases h with
  | none hw =>
    rw [weight, if_neg (by simp [hw])]
    exact .stay _ _
  | some ht he hv =>
    rw [weight, if_pos (by simp [ht])]
    refine Span.Gives.past (Read.Gives.lead ?_)
    exact he.gives.andThen fun _ => (Read.Gives.expect hv).map _

theorem textRun_gives {run : List Token} (hr : ∀ u ∈ run, u.isText = true)
    (hv : v.isText = false) : (textRun t (run ++ v :: vs)).Gives
      [.content t.pos (.text (t.printed ++
        run.foldr (fun u tail => u.space ++ u.printed ++ tail) "") t.space v.space)] (v :: vs) :=
  (textTail_gives hr hv).items fun _ => .stay _ _

theorem cue_gives {run : List Token} (pos : Position) (hr : ∀ u ∈ run, IsCueWord u)
    (hv : v.is ">" = true) (hne : joined "" run ≠ "") :
    (cue pos (run ++ v :: vs)).Gives [.content pos (.cue (joined "" run))] vs := by
  refine (words_gives "" hr hv).items fun _ => ?_
  rw [if_neg hne]
  exact .stay _ _

theorem destination_gives {label : String} (pos : Position) (hn : SpellsName us label (v :: vs))
    (hv : opensArguments v = false) : (destination pos us).Gives [.goto label] (v :: vs) := by
  refine (hn.gives _).items fun _ => ?_
  simp only [hv, Bool.false_eq_true, if_false]
  exact .stay _ _

theorem braced_gives (pos : Position) (c : Content) (hv : v.is "\x7d" = true) :
    (braced pos c (v :: vs)).Gives [.content pos c] vs :=
  (Read.Gives.expect hv).items fun _ => .stay _ _

theorem change_gives {x : Float} {target : Expr} (pos : Position) (op : BinaryOp)
    (hn : SpellsAmount ts x us) (ht : SpellsVariable us target (v :: vs)) (hv : v.is "\x7d" = true) :
    (change pos op ts).Gives [.content pos (.move target (.binary op target (.number x)))] vs := by
  have hm : (mutation ts).Gives (some (target, x)) (v :: vs) :=
    hn.gives.andThen fun _ => ht.assignable.map _
  exact hm.items fun _ => braced_gives pos _ hv

theorem put_gives {target : Expr} (pos : Position) (x : Float)
    (ht : SpellsVariable us target (v :: vs)) (hv : v.is "\x7d" = true) :
    (put pos x us).Gives [.content pos (.move target (.number x))] vs :=
  ht.assignable.items fun _ => braced_gives pos _ hv

theorem echo_gives {e : Expr} (pos : Position) (he : SpellsExpression us e (v :: vs))
    (hv : v.is "\x7d" = true) : (echo pos us).Gives [.content pos (.echo e)] vs :=
  he.gives.items fun _ => braced_gives pos _ hv

theorem closeBrace_gives (hv : v.is "\x7d" = true) : (closeBrace (v :: vs)).Gives [] vs :=
  (Read.Gives.expect hv).items fun _ => .stay _ _

theorem endBlock_gives (hv : v.kind = .stop) : (endBlock (v :: vs)).Gives [] vs := by
  rw [endBlock, if_pos hv]
  exact .stay _ _

end Flat

/-- What the rules for a passage read. -/
def Passage.Reads : Passage → List Token → List Token → Prop
  | thread items, ts, rest => (Script.thread ts).Gives items rest
  | cases weighted found, ts, rest => (Script.cases weighted ts).Gives found rest

section Braces

variable {b t v w : Token} {us vs ws rest : List Token} {e : Expr} {items : List Item}

theorem thread_gives {inner : List Item} {mid : List Token} {s : Span (List Item) us}
    (hs : Script.thread (t :: us) = Span.past (s.andThen fun vs _ => Script.thread vs))
    (h : s.Gives inner mid) (hr : (Script.thread mid).Gives items rest) :
    (Script.thread (t :: us)).Gives (inner ++ items) rest := by
  rw [hs]
  exact Span.Gives.past (h.andThen fun _ => hr)

theorem thread_brace {i : Item} {mid : List Token} (ht : t.sign = .brace)
    (h : (brace t.pos us).Gives [i] mid) (hr : (Script.thread mid).Gives items rest) :
    (Script.thread (t :: us)).Gives (i :: items) rest := by
  refine thread_gives ?_ h hr
  rw [Script.thread, ht]

theorem thread_start (ht : t.sign = .start) : Script.thread (t :: us) =
    Span.past ((Script.block t us).andThen fun vs _ => Script.thread vs) := by
  rw [Script.thread, ht]

/-- A brace with a selector goes by the token after the selector. -/
theorem brace_gives {pos : Position} {found : List Item} (hb : IsUnsigned b)
    (he : SpellsSelector (b :: us) e (v :: vs))
    (hv : Span.Gives (if v.is "\x7d" then Span.past <| .stay [.content pos (.echo e)] vs
      else if v.isOp "?" then (jump pos e vs).past
      else if v.is "|" then (switch pos (.index e) vs).past
      else if v.isOp "~" then (switch pos (.pick e) vs).past
      else .stay [.report ⟨v.pos, .unclosed "\x7d" v⟩, .content pos (.echo e)] (v :: vs) :
        Span (List Item) (v :: vs)) found rest) : (brace pos (b :: us)).Gives found rest := by
  rw [brace]
  simp only [hb.form, hb.echo, hb.sigil, Bool.false_eq_true, if_false]
  exact he.gives.items fun _ => hv

theorem isOp_iff {text : String} :
    t.isOp text = true ↔ (t.kind = .mark ∨ t.kind = .symbol) ∧ t.text = text := by
  simp [Token.isOp]

theorem is_eq_false_of_isOp {text other : String} (h : t.isOp other = true) (hne : other ≠ text) :
    t.is text = false := by
  have := (isOp_iff.mp h).2
  simp [Token.is, this, hne]

theorem isOp_eq_false {text : String} (h : t.text ≠ text) : t.isOp text = false := by
  simp [Token.isOp, h]

theorem switch_gives {selection : Selection} {found : List Case} (pos : Position)
    (hc : (Script.cases selection.isWeighted us).Gives found (w :: ws)) (hw : w.is "\x7d" = true) :
    (switch pos selection us).Gives [.switch pos selection (Selection.padded selection found)] ws := by
  rw [switch]
  exact hc.bind fun _ => (closeBrace_gives hw).after _

end Braces

/-- What the grammar writes is read as it stands, without a mistake. -/
theorem Writes.reads {passage : Passage} {ts rest : List Token} (h : Writes passage ts rest) :
    passage.Reads ts rest := by
  induction h with
  | @close u us hu =>
    show (Script.thread (u :: us)).Gives [] (u :: us)
    rw [thread, hu]
    exact .stay _ _
  | @blank t us rest items ht _ ih =>
    show (Script.thread (t :: us)).Gives items rest
    rw [thread, ht]
    exact Span.Gives.past ih
  | @content t us rest c items ht _ ih =>
    show (Script.thread (t :: us)).Gives _ rest
    rw [thread, ht]
    exact Span.Gives.past (ih.after _)
  | @text t run v vs rest items ht hr hv _ ih =>
    have hs : t.sign = .text := by
      unfold Token.isText at ht
      split at ht
      · next h => exact h
      · cases ht
    refine thread_gives ?_ (textRun_gives hr hv) ih
    rw [thread, hs]
  | @cue t run v vs rest items ht hr hv hne _ ih =>
    refine thread_gives ?_ (cue_gives t.pos hr hv hne) ih
    rw [thread, ht]
  | @leave t us rest items ht _ ih =>
    show (Script.thread (t :: us)).Gives _ rest
    rw [thread, ht]
    exact Span.Gives.past (ih.after _)
  | @goto t us v vs rest label items ht hn hv _ ih =>
    refine thread_gives ?_ (destination_gives t.pos hn hv) ih
    rw [thread, ht]
  | @label t us v vs rest name items ht hn hv _ ih =>
    have hl : (Script.label t.pos us).Gives [.label t.pos name v.pos] (v :: vs) := by
      obtain ⟨u, run, v', vs', rfl, he, hk, -⟩ := hn.spelled
      have hd : u.is "..." = false := is_eq_false_of_kind (by rw [hk]; simp)
      rw [List.cons_append, Script.label, if_neg (by simp [hd])]
      refine (hn.gives _).items fun _ => ?_
      simp only [hv, Bool.false_eq_true, if_false]
      exact .stay _ _
    refine thread_gives ?_ hl ih
    rw [thread, ht]
  | @block t us v vs rest body items ht hb _ hv _ ih ih' =>
    have hblock : (Script.block t us).Gives (body ++ []) vs := by
      rw [Script.block]
      simp only [hb]
      exact Span.Gives.andThen (k := fun us _ => endBlock us) ih fun _ => endBlock_gives hv
    rw [List.append_nil] at hblock
    exact thread_gives (thread_start ht) hblock ih'
  | @program t us v vs rest body items ht hb hp hv _ ih =>
    have hblock : (Script.block t us).Gives (body ++ []) vs := by
      rw [Script.block]
      simp only [hb]
      exact Span.Gives.andThen (k := fun us _ => endBlock us) hp.gives fun _ => endBlock_gives hv
    rw [List.append_nil] at hblock
    exact thread_gives (thread_start ht) hblock ih
  | @change t b us vs w ws rest op n target items ht hb hn hv hw _ ih =>
    have hbrace : (brace t.pos (b :: us)).Gives
        [.content t.pos (.move target (.binary op target (.number n)))] ws := by
      rw [brace, hb]
      exact Span.Gives.past (change_gives t.pos op hn hv hw)
    exact thread_brace ht hbrace ih
  | @put t b us w ws rest x target items ht hb hv hw _ ih =>
    have hbrace : (brace t.pos (b :: us)).Gives [.content t.pos (.move target (.number x))] ws := by
      rw [brace, hb]
      exact Span.Gives.past (put_gives t.pos x hv hw)
    exact thread_brace ht hbrace ih
  | @echo t b us w ws rest e items ht hb he hw _ ih =>
    have hform : braceForm b = .other := by
      have := (isOp_iff.mp hb).2
      unfold braceForm
      simp [isOp_eq_false, this]
    have hbrace : (brace t.pos (b :: us)).Gives [.content t.pos (.echo e)] ws := by
      rw [brace, hform]
      simp only [hb, if_true]
      exact Span.Gives.past (echo_gives t.pos he hw)
    exact thread_brace ht hbrace ih
  | @value t b us w ws rest e items ht hb he hw _ ih =>
    have hbrace : (brace t.pos (b :: us)).Gives [.content t.pos (.echo e)] ws := by
      refine brace_gives hb he ?_
      rw [if_pos hw]
      exact .stay _ _
    exact thread_brace ht hbrace ih
  | @condition t b us v vs w ws rest e yes items ht hb he hv _ hw _ ih ih' =>
    have hn : v.is "\x7d" = false := is_eq_false_of_isOp hv (by decide)
    have hbar : w.is "|" = false := is_eq_false hw (by decide)
    have hbrace : (brace t.pos (b :: us)).Gives [.jump t.pos e yes []] ws := by
      refine brace_gives hb he ?_
      rw [if_neg (by simp [hn]), if_pos hv, jump]
      refine Span.Gives.past (Span.Gives.bind ih fun _ => ?_)
      simp only [hbar, Bool.false_eq_true, if_false]
      exact (closeBrace_gives hw).after _
    exact thread_brace ht hbrace ih'
  | @choice t b us v vs w ws x xs rest e yes no items ht hb he hv _ hw _ hx _ ih ih' ih'' =>
    have hn : v.is "\x7d" = false := is_eq_false_of_isOp hv (by decide)
    have hbrace : (brace t.pos (b :: us)).Gives [.jump t.pos e yes no] xs := by
      refine brace_gives hb he ?_
      rw [if_neg (by simp [hn]), if_pos hv, jump]
      refine Span.Gives.past (Span.Gives.bind ih fun _ => ?_)
      simp only [hw, if_true]
      exact Span.Gives.past (Span.Gives.bind ih' fun _ => (closeBrace_gives hx).after _)
    exact thread_brace ht hbrace ih''
  | @switch t b us w ws rest selection found items ht hform he hb _ hw _ ih ih' =>
    have hbrace : (brace t.pos (b :: us)).Gives
        [.switch t.pos selection (Selection.padded selection found)] ws := by
      rw [brace, hform]
      simp only [he, hb, Bool.false_eq_true, if_false]
      exact Span.Gives.past (switch_gives t.pos ih hw)
    exact thread_brace ht hbrace ih'
  | @index t b us v vs w ws rest e found items ht hb he hv _ hw _ ih ih' =>
    have hn : v.is "\x7d" = false := is_eq_false hv (by decide)
    have hq : v.isOp "?" = false := by
      simp only [Token.is, Bool.and_eq_true, beq_iff_eq] at hv
      exact isOp_eq_false (by rw [hv.2]; decide)
    have hbrace : (brace t.pos (b :: us)).Gives [.switch t.pos (.index e) (padded found)] ws := by
      refine brace_gives hb he ?_
      rw [if_neg (by simp [hn]), if_neg (by simp [hq]), if_pos hv]
      exact Span.Gives.past (switch_gives t.pos ih hw)
    exact thread_brace ht hbrace ih'
  | @pick t b us v vs w ws rest e found items ht hb he hv _ hw _ ih ih' =>
    have hn : v.is "\x7d" = false := is_eq_false_of_isOp hv (by decide)
    have hq : v.isOp "?" = false := isOp_eq_false (by rw [(isOp_iff.mp hv).2]; decide)
    have hbar : v.is "|" = false := is_eq_false_of_isOp hv (by decide)
    have hbrace : (brace t.pos (b :: us)).Gives [.switch t.pos (.pick e) found] ws := by
      refine brace_gives hb he ?_
      rw [if_neg (by simp [hn]), if_neg (by simp [hq]), if_neg (by simp [hbar]), if_pos hv]
      exact Span.Gives.past (switch_gives t.pos ih hw)
    exact thread_brace ht hbrace ih'
  | @lastCase weighted ts us v vs w body hw _ hv ih =>
    show (Script.cases weighted ts).Gives _ _
    rw [cases]
    refine hw.gives.bind fun _ => Span.Gives.bind ih fun _ => ?_
    simp only [hv, Bool.false_eq_true, if_false, List.nil_append]
    exact .stay _ _
  | @case weighted ts us v vs rest w body found hw _ hv _ ih ih' =>
    show (Script.cases weighted ts).Gives _ _
    rw [cases]
    refine hw.gives.bind fun _ => Span.Gives.bind ih fun _ => ?_
    simp only [hv, if_true, List.nil_append]
    exact Span.Gives.past (Span.Gives.map _ ih')

/-- A word alone is a text. -/
theorem Writes.word {t v : Token} {vs rest : List Token} {items : List Item}
    (hk : t.kind = .word) (hv : v.isText = false) (hw : Writes (.thread items) (v :: vs) rest) :
    Writes (.thread (.content t.pos (.text t.text t.space v.space) :: items)) (t :: v :: vs) rest := by
  have ht : t.isText = true := by simp [Token.isText, Token.sign, hk]
  have hprinted : t.printed ++ "" = t.text := by simp [Token.printed, hk]
  have hrun : ∀ u ∈ ([] : List Token), u.isText = true := fun u hu => absurd hu List.not_mem_nil
  have htext := Writes.text ht hrun hv hw
  rw [List.foldr_nil, hprinted] at htext
  exact htext

/-- A word alone is a name. -/
theorem SpellsName.word {t v : Token} {vs : List Token} (hk : t.kind = .word)
    (hv : joins v = false) : SpellsName (t :: v :: vs) t.text (v :: vs) := by
  have hrun : ∀ u ∈ ([] : List Token), joins u = true := fun u hu => absurd hu List.not_mem_nil
  have hname : t.text = t.text ++ "" := String.append_empty.symm
  exact ⟨t, [], v, vs, rfl, rfl, hk, hrun, hv, hname⟩

end Storyline.Script
