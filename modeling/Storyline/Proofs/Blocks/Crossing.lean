import Storyline.Proofs.Blocks.Flat
import Storyline.Script.Thread

namespace Storyline

mutual

/-- What reading the item noted: `none` where the tokens ended, and how many tokens were left after
each token passed over. -/
def Item.gaps : Item → List (Option Nat)
  | .cut => [none]
  | .passed left => [some left]
  | .loop _ body => Script.gaps body
  | .define _ _ _ _ body => Script.gaps body
  | .jump _ _ yes no => Script.gaps yes ++ Script.gaps no
  | .switch _ _ found => Script.caseGaps found
  | .option _ _ _ parts => Script.segmentGaps parts
  | _ => []

def Script.gaps : List Item → List (Option Nat)
  | [] => []
  | i :: rest => i.gaps ++ Script.gaps rest

def Script.caseGaps : List Case → List (Option Nat)
  | [] => []
  | .mk _ body :: rest => Script.gaps body ++ Script.caseGaps rest

def Script.segmentGaps : List Segment → List (Option Nat)
  | [] => []
  | .mk _ _ body :: rest => Script.gaps body ++ Script.segmentGaps rest

end

namespace Script

/-- The tokens that were passed over, each by the number of tokens after it. -/
def passed (items : List Item) : List Nat := (gaps items).filterMap id

/-- The tokens after the stop that closes no block, where `depth` blocks are open. Tokens passed
over open and close none. -/
def finalStop (passed : List Nat) (depth : Nat) : List Token → Option (List Token)
  | [] => none
  | t :: us =>
    if us.length ∈ passed then finalStop passed depth us
    else if t.kind = .start then finalStop passed (depth + 1) us
    else if t.kind = .stop then
      match depth with
      | 0 => some us
      | depth + 1 => finalStop passed depth us
    else finalStop passed depth us

theorem gaps_append (a b : List Item) : gaps (a ++ b) = gaps a ++ gaps b := by
  induction a with
  | nil => rfl
  | cons i rest ih => simp [gaps, ih]

theorem gaps_reports (reports : List Diagnostic) : gaps (reports.map .report) = [] := by
  induction reports with
  | nil => rfl
  | cons d rest ih => simp [gaps, Item.gaps, ih]

variable {passed : List Nat} {t : Token} {us : List Token}

theorem finalStop_passed (h : us.length ∈ passed) (depth : Nat) :
    finalStop passed depth (t :: us) = finalStop passed depth us := by
  simp [finalStop, h]

theorem finalStop_plain (h : t.IsPlain) (depth : Nat) :
    finalStop passed depth (t :: us) = finalStop passed depth us := by
  simp [finalStop, h.1, h.2]

theorem finalStop_start (hp : us.length ∉ passed) (h : t.kind = .start) (depth : Nat) :
    finalStop passed depth (t :: us) = finalStop passed (depth + 1) us := by
  simp [finalStop, hp, h]

theorem finalStop_stop_zero (hp : us.length ∉ passed) (h : t.kind = .stop) :
    finalStop passed 0 (t :: us) = some us := by
  simp [finalStop, hp, h]

theorem finalStop_stop_succ (hp : us.length ∉ passed) (h : t.kind = .stop) (depth : Nat) :
    finalStop passed (depth + 1) (t :: us) = finalStop passed depth us := by
  simp [finalStop, hp, h]

/-- Where no final stop follows, none follows with one more block open. -/
theorem finalStop_succ_eq_none {depth : Nat} {ts : List Token}
    (h : finalStop passed depth ts = none) : finalStop passed (depth + 1) ts = none := by
  induction ts generalizing depth with
  | nil => rfl
  | cons t us ih =>
    by_cases hp : us.length ∈ passed
    · rw [finalStop_passed hp] at h ⊢
      exact ih h
    by_cases hs : t.kind = .start
    · rw [finalStop_start hp hs] at h ⊢
      exact ih h
    by_cases ht : t.kind = .stop
    · cases depth with
      | zero =>
        rw [finalStop_stop_zero hp ht] at h
        cases h
      | succ depth =>
        rw [finalStop_stop_succ hp ht] at h ⊢
        exact ih h
    · rw [finalStop_plain ⟨hs, ht⟩] at h ⊢
      exact ih h

theorem finalStop_eq_none_of_plain {ts : List Token} (h : ∀ t ∈ ts, t.IsPlain) (depth : Nat) :
    finalStop passed depth ts = none := by
  induction ts with
  | nil => rfl
  | cons t us ih =>
    rw [finalStop_plain (h t (List.mem_cons_self ..))]
    exact ih fun u hu => h u (List.mem_cons_of_mem _ hu)

theorem finalStop_plain_append {used : List Token} (h : ∀ t ∈ used, t.IsPlain) (rest : List Token)
    (depth : Nat) : finalStop passed depth (used ++ rest) = finalStop passed depth rest := by
  induction used with
  | nil => rfl
  | cons t us ih =>
    rw [List.cons_append, finalStop_plain (h t (List.mem_cons_self ..))]
    exact ih fun u hu => h u (List.mem_cons_of_mem _ hu)

/-- Of the tokens from the first of `ts` up to `rest`, those passed over are the ones noted. -/
def Agrees (passed : List Nat) (gaps : List (Option Nat)) (ts rest : List Token) : Prop :=
  ∀ n, rest.length ≤ n → n < ts.length → (n ∈ passed ↔ some n ∈ gaps)

/-- A rule that began at `ts` and left `rest` opened and closed its own blocks only. -/
structure Crosses (gaps : List (Option Nat)) (ts rest : List Token) : Prop where
  length_le : rest.length ≤ ts.length
  range : ∀ n, some n ∈ gaps → rest.length ≤ n ∧ n < ts.length
  whole : none ∉ gaps → ∀ passed, Agrees passed gaps ts rest →
    ∀ depth, finalStop passed depth ts = finalStop passed depth rest
  cut : none ∈ gaps → ∀ passed, Agrees passed gaps ts rest → finalStop passed 0 ts = none

/-- A rule that began at `ts` inside a block and left `rest` closed that block and no other. -/
structure Closes (gaps : List (Option Nat)) (ts rest : List Token) : Prop where
  length_le : rest.length ≤ ts.length
  range : ∀ n, some n ∈ gaps → rest.length ≤ n ∧ n < ts.length
  whole : none ∉ gaps → ∀ passed, Agrees passed gaps ts rest →
    ∀ depth, finalStop passed (depth + 1) ts = finalStop passed depth rest
  cut : none ∈ gaps → ∀ passed, Agrees passed gaps ts rest → finalStop passed 0 ts = none

variable {a b : List (Option Nat)} {ts vs rest : List Token}

theorem Agrees.left {n : List Nat} (hb : ∀ n, some n ∈ b → n < us.length)
    (hv : vs.length ≤ us.length) (h : Agrees n (a ++ b) ts vs) : Agrees n a ts us := by
  intro k hk hlt
  rw [h k (by omega) hlt, List.mem_append]
  exact ⟨fun hm => hm.resolve_right fun hm => absurd (hb k hm) (by omega), .inl⟩

theorem Agrees.right {n : List Nat} (ha : ∀ n, some n ∈ a → us.length ≤ n)
    (hu : us.length ≤ ts.length) (h : Agrees n (a ++ b) ts vs) : Agrees n b us vs := by
  intro k hk hlt
  rw [h k hk (by omega), List.mem_append]
  exact ⟨fun hm => hm.resolve_left fun hm => absurd (ha k hm) (by omega), .inr⟩

namespace Crosses

theorem stay (ts : List Token) : Crosses [] ts ts where
  length_le := Nat.le_refl _
  range n hn := by cases hn
  whole _ passed _ depth := rfl
  cut h := by cases h

theorem append (ha : Crosses a ts us) (hb : Crosses b us vs) : Crosses (a ++ b) ts vs where
  length_le := Nat.le_trans hb.length_le ha.length_le
  range n hn := by
    have h1 := ha.length_le
    have h2 := hb.length_le
    rcases List.mem_append.mp hn with hn | hn
    · have := ha.range n hn
      omega
    · have := hb.range n hn
      omega
  whole hnone passed h depth := by
    simp only [List.mem_append, not_or] at hnone
    rw [ha.whole hnone.1 passed (h.left (fun n hn => (hb.range n hn).2) hb.length_le),
      hb.whole hnone.2 passed (h.right (fun n hn => (ha.range n hn).1) ha.length_le)]
  cut hnone passed h := by
    have hl := h.left (fun n hn => (hb.range n hn).2) hb.length_le
    have hr := h.right (fun n hn => (ha.range n hn).1) ha.length_le
    by_cases hn : none ∈ a
    · exact ha.cut hn passed hl
    · rw [ha.whole hn passed hl]
      exact hb.cut ((List.mem_append.mp hnone).resolve_left hn) passed hr

/-- Plain tokens do not matter. -/
theorem plain_append {used : List Token} (hp : ∀ t ∈ used, t.IsPlain) (h : Crosses a us vs) :
    Crosses a (used ++ us) vs where
  length_le := by
    have := h.length_le
    simp only [List.length_append]
    omega
  range n hn := by
    have := h.range n hn
    simp only [List.length_append]
    omega
  whole hnone passed ha depth := by
    rw [finalStop_plain_append hp]
    refine h.whole hnone passed (fun n hn hlt => ha n hn ?_) depth
    simp only [List.length_append]
    omega
  cut hnone passed ha := by
    rw [finalStop_plain_append hp]
    refine h.cut hnone passed fun n hn hlt => ha n hn ?_
    simp only [List.length_append]
    omega

theorem past (ht : t.IsPlain) (h : Crosses a us vs) : Crosses a (t :: us) vs := by
  have hp : ∀ u ∈ [t], u.IsPlain := by
    intro u hu
    rw [List.mem_singleton.mp hu]
    exact ht
  exact plain_append hp h

/-- Plain tokens that end leave no final stop. -/
theorem finish_plain (h : ∀ t ∈ ts, t.IsPlain) : Crosses [none] ts [] where
  length_le := Nat.zero_le _
  range n hn := by simp at hn
  whole hnone := absurd (List.mem_singleton_self _) hnone
  cut _ passed _ := finalStop_eq_none_of_plain h 0

theorem finish_nil : Crosses [none] [] [] := finish_plain fun t ht => by cases ht

/-- A token passed over does not count. -/
theorem pass (t : Token) (us : List Token) : Crosses [some us.length] (t :: us) us where
  length_le := by simp
  range n hn := by
    have : n = us.length := by simpa using hn
    simp [this]
  whole _ passed ha depth :=
    finalStop_passed ((ha us.length (Nat.le_refl _) (by simp)).mpr (List.mem_singleton_self _)) depth
  cut h := by simp at h

/-- The start of a block, what is inside, and what closes it. -/
theorem block (ht : t.kind = .start) (ha : Crosses a us vs) (hb : Closes b vs rest) :
    Crosses (a ++ b) (t :: us) rest := by
  have h1 := ha.length_le
  have h2 := hb.length_le
  have hstart {passed : List Nat} (h : Agrees passed (a ++ b) (t :: us) rest) :
      us.length ∉ passed := by
    rw [h us.length (by omega) (by simp), List.mem_append]
    rintro (hm | hm)
    · exact absurd (ha.range _ hm).2 (Nat.lt_irrefl _)
    · have := (hb.range _ hm).2
      omega
  have hinside {passed : List Nat} (h : Agrees passed (a ++ b) (t :: us) rest) :
      Agrees passed a us vs ∧ Agrees passed b vs rest := by
    have hus : Agrees passed (a ++ b) us rest := fun n hn hlt => h n hn (by simp; omega)
    exact ⟨hus.left (fun n hn => (hb.range n hn).2) h2, hus.right (fun n hn => (ha.range n hn).1) h1⟩
  refine ⟨by simp; omega, ?_, ?_, ?_⟩
  · intro n hn
    simp only [List.length_cons]
    rcases List.mem_append.mp hn with hn | hn
    · have := ha.range n hn
      omega
    · have := hb.range n hn
      omega
  · intro hnone passed h depth
    simp only [List.mem_append, not_or] at hnone
    rw [finalStop_start (hstart h) ht, ha.whole hnone.1 passed (hinside h).1,
      hb.whole hnone.2 passed (hinside h).2]
  · intro hnone passed h
    rw [finalStop_start (hstart h) ht]
    by_cases hn : none ∈ a
    · exact finalStop_succ_eq_none (ha.cut hn passed (hinside h).1)
    · rw [ha.whole hn passed (hinside h).1]
      have := hb.cut ((List.mem_append.mp hnone).resolve_left hn) passed (hinside h).2
      exact finalStop_succ_eq_none this

end Crosses

end Script

end Storyline
