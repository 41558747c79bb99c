import Storyline.Script.Flat
import Storyline.Script.Thread
import Mathlib.Data.List.Forall2

namespace Storyline

/-- The text of such a token says nothing about structure. -/
def Kind.isFree : Kind → Bool
  | text | literal => true
  | _ => false

/-- The tokens agree, but for a text that is free and not empty. -/
structure Token.Alike (t u : Token) : Prop where
  kind : t.kind = u.kind
  space : t.space = u.space
  pos : t.pos = u.pos
  text : t.text = u.text ∨ t.kind.isFree = true ∧ t.text ≠ "" ∧ u.text ≠ ""

namespace Token.Alike

variable {t u : Token}

theorem text_eq (h : t.Alike u) (hk : t.kind.isFree = false) : t.text = u.text := by
  rcases h.text with ht | ⟨hf, -⟩
  · exact ht
  · rw [hk] at hf
    cases hf

theorem text_eq_of_kind {kind : Kind} (h : t.Alike u) (hk : t.kind = kind)
    (hf : kind.isFree = false) : t.text = u.text := h.text_eq (hk ▸ hf)

theorem isEmpty_iff (h : t.Alike u) : t.text = "" ↔ u.text = "" := by
  rcases h.text with ht | ⟨-, ht, hu⟩
  · rw [ht]
  · exact ⟨fun he => absurd he ht, fun he => absurd he hu⟩

theorem is (h : t.Alike u) (text : String) : t.is text = u.is text := by
  unfold Token.is
  rw [← h.kind]
  by_cases hk : t.kind = .mark
  · rw [h.text_eq_of_kind hk rfl]
  · rw [beq_eq_false_iff_ne.mpr hk, Bool.false_and, Bool.false_and]

theorem text_eq_of_is {text : String} (h : t.Alike u) (hi : t.is text = true) :
    t.text = u.text := by
  rw [Token.is, Bool.and_eq_true, beq_iff_eq] at hi
  exact h.text_eq_of_kind hi.1 rfl

theorem isOp (h : t.Alike u) (text : String) : t.isOp text = u.isOp text := by
  unfold Token.isOp
  rw [← h.kind]
  by_cases hm : t.kind = .mark
  · rw [h.text_eq_of_kind hm rfl]
  by_cases hs : t.kind = .symbol
  · rw [h.text_eq_of_kind hs rfl]
  · rw [beq_eq_false_iff_ne.mpr hm, beq_eq_false_iff_ne.mpr hs, Bool.or_false, Bool.false_and,
      Bool.false_and]

theorem adjoins (h : t.Alike u) : t.adjoins = u.adjoins := by
  unfold Token.adjoins
  rw [h.space]

theorem sign (h : t.Alike u) : t.sign = u.sign := by
  unfold Token.sign
  rw [← h.kind]
  by_cases hm : t.kind = .mark
  · rw [h.text_eq_of_kind hm rfl]
  · cases hk : t.kind <;> first | rfl | exact absurd hk hm

/-- Whatever a token opens, its text is the same; only text itself may be worded differently. -/
theorem text_eq_of_sign (h : t.Alike u) (hs : t.sign ≠ .text) : t.text = u.text := by
  refine h.text_eq (Bool.eq_false_iff.mpr fun hf => hs ?_)
  unfold Token.sign
  cases hk : t.kind <;> first | rfl | (rw [hk] at hf; cases hf)

theorem isText (h : t.Alike u) : t.isText = u.isText := by
  unfold Token.isText
  rw [h.sign]

end Token.Alike

namespace Script

variable {t u : Token}

theorem canSpell_alike (h : t.Alike u) : canSpell t = canSpell u := by
  unfold canSpell
  rw [h.kind]

theorem text_eq_of_canSpell (h : t.Alike u) (hs : canSpell t = true) : t.text = u.text := by
  simp only [canSpell, Bool.or_eq_true, beq_iff_eq] at hs
  rcases hs with (hk | hk) | hk <;> exact h.text_eq_of_kind hk rfl

theorem infixOp?_alike (h : t.Alike u) (ops : List BinaryOp) :
    infixOp? ops t = infixOp? ops u := by
  unfold infixOp?
  rw [← canSpell_alike h]
  split
  · next hs => rw [text_eq_of_canSpell h hs]
  · rfl

theorem prefixOp?_alike (h : t.Alike u) : prefixOp? t = prefixOp? u := by
  unfold prefixOp?
  rw [← canSpell_alike h]
  split
  · next hs => rw [text_eq_of_canSpell h hs]
  · rfl

theorem startsReference_alike (h : t.Alike u) : startsReference t = startsReference u := by
  unfold startsReference
  rw [h.kind, h.is]

theorem text_eq_of_startsReference (h : t.Alike u) (hs : startsReference t = true) :
    t.text = u.text := by
  simp only [startsReference, Token.is, Bool.or_eq_true, Bool.and_eq_true, beq_iff_eq] at hs
  rcases hs with hk | ⟨hk, -⟩ <;> exact h.text_eq_of_kind hk rfl

theorem joins_alike (h : t.Alike u) : joins t = joins u := by
  unfold joins
  rw [h.adjoins, h.kind, h.isOp]

theorem text_eq_of_joins (h : t.Alike u) (hj : joins t = true) : t.text = u.text := by
  simp only [joins, Token.isOp, Bool.or_eq_true, Bool.and_eq_true, beq_iff_eq] at hj
  rcases hj.2 with (hk | hk) | ⟨hk | hk, -⟩ <;> exact h.text_eq_of_kind hk rfl

theorem opensArguments_alike (h : t.Alike u) : opensArguments t = opensArguments u := by
  unfold opensArguments
  rw [h.is, h.adjoins]

theorem braceForm_alike (h : t.Alike u) : braceForm t = braceForm u := by
  unfold braceForm
  simp only [h.isOp]

theorem assignmentOp?_alike (h : t.Alike u) : assignmentOp? t = assignmentOp? u := by
  unfold assignmentOp?
  simp only [h.isOp]

theorem sigil?_alike (h : t.Alike u) : sigil? t = sigil? u := by
  unfold sigil?
  simp only [h.isOp]

end Script

end Storyline
