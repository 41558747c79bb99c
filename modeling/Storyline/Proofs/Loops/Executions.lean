import Storyline.Proofs.Meaning.Sections
import Storyline.Proofs.Payloads.Threads

namespace Storyline

/-- The flow goes into the item and out behind it, and nowhere else. -/
def Item.FallsThrough : Item → Prop
  | .content .. => True
  | .jump .. => True
  | .switch .. => True
  | _ => False

/-- The oracle finds a case for every switch that has one, or chooses none where a switch may. -/
def Oracle.Decides (oracle : Oracle) : Prop :=
  ∀ past mode weights, weights ≠ [] → match oracle.picks past mode weights with
    | some index => index < weights.length
    | none => mode = .pick

namespace Script

variable {script other : Script} {oracle : Oracle} {i : Item} {items rest body : List Item}
  {past past' : List Event} {tokens : List Token} {pos : Position} {name label : String}

mutual

theorem item_flows (labels : List String) (i : Item) (h : i.Each Item.FallsThrough) :
    i.Flows labels := by
  cases i with
  | content pos c => trivial
  | jump pos condition yes no => exact ⟨thread_flows labels yes h.2.1, thread_flows labels no h.2.2⟩
  | switch pos selection found => exact cases_flow labels found h.2
  | loop => exact h.1.elim
  | define => exact h.1.elim
  | option => exact h.1.elim
  | _ => exact h.elim

theorem thread_flows (labels : List String) (items : List Item) (h : Each Item.FallsThrough items) :
    Flows labels items := by
  cases items with
  | nil => trivial
  | cons i items => exact ⟨item_flows labels i h.1, thread_flows labels items h.2⟩

theorem cases_flow (labels : List String) (found : List Case) (h : EachCase Item.FallsThrough found) :
    CasesFlow labels found := by
  cases found with
  | nil => trivial
  | cons first found =>
    obtain ⟨weight, body⟩ := first
    exact ⟨thread_flows labels body h.1, cases_flow labels found h.2⟩

end

theorem chosen_each {P : Item → Prop} {selection : Selection} {found : List Case}
    (h : EachCase P found) {choice : Option Nat} (hc : chosen selection found choice = some body) :
    Each P body := by
  cases choice with
  | none =>
    rw [chosen] at hc
    split at hc
    · obtain rfl := Option.some.inj hc
      trivial
    · cases hc
  | some index =>
    induction found generalizing index with
    | nil => cases hc
    | cons first found ih =>
      obtain ⟨weight, first⟩ := first
      cases index with
      | zero =>
        obtain rfl := Option.some.inj hc
        exact h.1
      | succ index => exact ih h.2 index hc

/-- One step of an item that falls through: something happens, and what it holds comes in front of what
follows, in every script. -/
theorem step_cases (h : i.Each Item.FallsThrough)
    (hs : script.step oracle (past, i :: rest) = some (past', items)) :
    ∃ event inner, past' = event :: past ∧ items = inner ++ rest ∧
      (∀ P, i.Each P → Each P inner) ∧ ∀ (other : Script) tail,
        other.step oracle (past, i :: tail) = some (event :: past, inner ++ tail) := by
  cases i with
  | content pos c =>
    obtain ⟨rfl, rfl⟩ := Prod.mk.inj (Option.some.inj hs)
    exact ⟨.shown c, [], rfl, rfl, fun _ _ => trivial, fun _ _ => rfl⟩
  | jump pos condition yes no =>
    obtain ⟨rfl, rfl⟩ := Prod.mk.inj (Option.some.inj hs)
    refine ⟨.tested, if oracle.holds past condition then yes else no, rfl, rfl, fun P hP => ?_,
      fun _ _ => rfl⟩
    split
    · exact hP.2.1
    · exact hP.2.2
  | switch pos selection found =>
    obtain ⟨inner, hinner, he⟩ := Option.map_eq_some_iff.mp hs
    obtain ⟨rfl, rfl⟩ := Prod.mk.inj he
    refine ⟨.chosen, inner, rfl, rfl, fun P hP => chosen_each hP.2 hinner, fun _ _ => ?_⟩
    rw [step, hinner, Option.map_some]
  | loop => exact h.1.elim
  | define => exact h.1.elim
  | option => exact h.1.elim
  | _ => exact h.elim

/-- What falls through runs the same way whatever follows it and in every script, something happens
with each step, and what is left falls through. -/
theorem runs_append (other : Script) (rest : List Item) {s s' : List Event × List Item}
    (h : Each Item.FallsThrough s.2) (hr : Runs (script.step oracle) s s') :
    Runs (other.step oracle) (s.1, s.2 ++ rest) (s'.1, s'.2 ++ rest) ∧
      Each Item.FallsThrough s'.2 ∧ (s' = s ∨ s.1.length < s'.1.length) := by
  induction hr with
  | refl => exact ⟨.refl, h, .inl rfl⟩
  | @tail mid last _ hs ih =>
    obtain ⟨hr, hmid, hlong⟩ := ih
    obtain ⟨past, items⟩ := mid
    obtain ⟨past', left⟩ := last
    cases items with
    | nil => cases hs
    | cons i items =>
      obtain ⟨event, inner, rfl, rfl, hinner, hstep⟩ := step_cases hmid.1 hs
      refine ⟨hr.tail ?_, each_append.mpr ⟨hinner _ hmid.1, hmid.2⟩, .inr ?_⟩
      · rw [List.cons_append, hstep, List.append_assoc]
      · rcases hlong with he | hl
        · have he : past = s.1 := congrArg Prod.fst he
          rw [← he]
          exact Nat.lt_succ_self past.length
        · exact Nat.lt_succ_of_lt hl

section Ends

mutual

/-- Where a case is found for every switch, an item that falls through is run to its end. -/
theorem item_ends (hd : oracle.Decides) (i : Item) (h : i.Each Item.FallsThrough)
    (hv : i.Each (IsValid tokens)) (past : List Event) :
    ∃ past', Runs (script.step oracle) (past, [i]) (past', []) := by
  cases i with
  | content pos c => exact ⟨_, .single rfl⟩
  | jump pos condition yes no =>
    have hrest : ∃ past', Runs (script.step oracle)
        (.tested :: past, if oracle.holds past condition then yes else no) (past', []) := by
      split
      · exact thread_ends hd yes h.2.1 hv.2.1 _
      · exact thread_ends hd no h.2.2 hv.2.2 _
    obtain ⟨past', hr⟩ := hrest
    refine ⟨past', .head ?_ hr⟩
    rw [step, List.append_nil]
  | switch pos selection found =>
    have hsome : found.map Case.weight ≠ [] := by
      have hswitch : IsSwitch tokens pos selection found := hv.1
      simpa using hswitch.some
    have hpick := hd past selection.mode (found.map Case.weight) hsome
    have hchosen : ∃ body, Script.chosen selection found
        (oracle.picks past selection.mode (found.map Case.weight)) = some body ∧
        ∃ past', Runs (script.step oracle) (.chosen :: past, body) (past', []) := by
      cases hp : oracle.picks past selection.mode (found.map Case.weight) with
      | none =>
        rw [hp] at hpick
        refine ⟨[], ?_, _, .refl⟩
        rw [Script.chosen, if_pos hpick]
      | some index =>
        rw [hp] at hpick
        have hlt : index < found.length := by simpa using hpick
        have hm : found[index] ∈ found := List.getElem_mem hlt
        refine ⟨found[index].body, ?_, cases_end hd found h.2 hv.2 _ hm _⟩
        rw [Script.chosen, List.getElem?_eq_getElem hlt, Option.map_some]
    obtain ⟨body, hbody, past', hr⟩ := hchosen
    refine ⟨past', .head ?_ hr⟩
    rw [step, hbody, Option.map_some, List.append_nil]
  | loop => exact h.1.elim
  | define => exact h.1.elim
  | option => exact h.1.elim
  | _ => exact h.elim

theorem thread_ends (hd : oracle.Decides) (items : List Item) (h : Each Item.FallsThrough items)
    (hv : Each (IsValid tokens) items) (past : List Event) :
    ∃ past', Runs (script.step oracle) (past, items) (past', []) := by
  cases items with
  | nil => exact ⟨past, .refl⟩
  | cons i items =>
    obtain ⟨mid, hfirst⟩ := item_ends hd i h.1 hv.1 past
    obtain ⟨past', hrest⟩ := thread_ends hd items h.2 hv.2 mid
    have hone : Each Item.FallsThrough [i] := ⟨h.1, trivial⟩
    exact ⟨past', (runs_append script items hone hfirst).1.trans hrest⟩

theorem cases_end (hd : oracle.Decides) (found : List Case) (h : EachCase Item.FallsThrough found)
    (hv : EachCase (IsValid tokens) found) (c : Case) (hc : c ∈ found) (past : List Event) :
    ∃ past', Runs (script.step oracle) (past, c.body) (past', []) := by
  cases found with
  | nil => cases hc
  | cons first found =>
    obtain ⟨weight, body⟩ := first
    rcases List.mem_cons.mp hc with rfl | hc
    · exact thread_ends hd body h.1 hv.1 past
    · exact cases_end hd found h.2 hv.2 c hc past

end

end Ends

section Looped

/-- A body behind a label with the way back to the label at its end. -/
def looped (pos : Position) (name : String) (body : List Item) : Script :=
  .label pos name pos :: (body ++ [.goto name])

theorem behind_looped (hb : Each Item.FallsThrough body) :
    behind label (looped pos name body) =
      if name = label then some (body ++ [.goto name]) else none := by
  rw [looped, behind, Section.behind_append (thread_flows [] body hb)]
  rfl

/-- However far a loop has come, what is left is a rest of its body and the way back. -/
theorem looped_left {P : Item → Prop} (hb : Each Item.FallsThrough body) (hP : Each P body)
    {past past' : List Event}
    (hr : Runs ((looped pos name body).step oracle) (past, body ++ [.goto name]) (past', items)) :
    ∃ left, items = left ++ [.goto name] ∧ Each Item.FallsThrough left ∧ Each P left := by
  generalize hs : (past', items) = s at hr
  induction hr generalizing past' items with
  | refl =>
    obtain ⟨-, rfl⟩ := Prod.mk.inj hs
    exact ⟨body, rfl, hb, hP⟩
  | @tail mid last _ hstep ih =>
    subst hs
    obtain ⟨past, items⟩ := mid
    obtain ⟨left, rfl, hfalls, hleft⟩ := ih rfl
    cases left with
    | nil =>
      simp only [List.nil_append, step, behind_looped hb, if_pos, Option.map_some,
        Option.some.injEq, Prod.mk.injEq] at hstep
      exact ⟨body, hstep.2.symm, hb, hP⟩
    | cons i left =>
      obtain ⟨event, inner, -, rfl, hinner, -⟩ := step_cases hfalls.1 hstep
      refine ⟨inner ++ left, (List.append_assoc inner left [.goto name]).symm, ?_, ?_⟩
      · exact each_append.mpr ⟨hinner _ hfalls.1, hfalls.2⟩
      · exact each_append.mpr ⟨hinner _ hleft.1, hleft.2⟩

end Looped

end Script

end Storyline
