import Storyline.Proofs.Grammar.Inversion
import Storyline.Script.Thread

namespace Storyline

variable {α β : Type} {t : Token} {ts us vs : List Token} {a : α} {b : β}

/-- The rule reads `a`, leaves `us` and notices no mistake. -/
def Read.Gives (r : Read α ts) (a : α) (us : List Token) : Prop :=
  ∃ s, r = some s ∧ s.value = a ∧ s.rest = us ∧ s.reports = []

/-- The rule reads `a` and leaves `us`. -/
def Span.Gives (s : Span α ts) (a : α) (us : List Token) : Prop := s.value = a ∧ s.rest = us

namespace Read.Gives

theorem stay (a : α) (ts : List Token) : (Read.stay a ts).Gives a ts := ⟨_, rfl, rfl, rfl, rfl⟩

theorem past {r : Read α ts} (h : r.Gives a us) : Gives (r.past : Read α (t :: ts)) a us := by
  obtain ⟨s, rfl, hv, hr, hn⟩ := h
  exact ⟨_, rfl, hv, hr, hn⟩

theorem map {r : Read α ts} (f : α → β) (h : r.Gives a us) : (r.map f).Gives (f a) us := by
  obtain ⟨s, rfl, rfl, hr, hn⟩ := h
  exact ⟨_, rfl, rfl, hr, hn⟩

theorem andThen {r : Read α ts} {k : (a : α) → (us : List Token) → us.length ≤ ts.length → Read β us}
    (h : r.Gives a us) (hk : ∀ hus, (k a us hus).Gives b vs) : (r.andThen k).Gives b vs := by
  obtain ⟨s, rfl, rfl, rfl, hn⟩ := h
  obtain ⟨s', hs, hv, hr, hn'⟩ := hk s.suffix.length_le
  refine ⟨⟨⟨s'.value, s'.rest, s'.suffix.trans s.suffix⟩, s.reports ++ s'.reports⟩, ?_, hv, hr, ?_⟩
  · simp only [Read.andThen, hs]
  · simp only [hn, hn', List.append_nil]

theorem items {r : Read α ts}
    {k : (a : α) → (us : List Token) → us.length ≤ ts.length → Span (List Item) us}
    {found : List Item} (h : r.Gives a us) (hk : ∀ hus, (k a us hus).Gives found vs) :
    (r.items k).Gives found vs := by
  obtain ⟨s, rfl, rfl, rfl, hn⟩ := h
  obtain ⟨hv, hr⟩ := hk s.suffix.length_le
  refine ⟨?_, hr⟩
  show s.reports.map Item.report ++ (k s.value s.rest _).value = found
  rw [hn, hv, List.map_nil, List.nil_append]

theorem lead {r : Read α ts} {otherwise : α} (h : r.Gives a us) :
    (r.lead otherwise).Gives (a, []) us := by
  obtain ⟨s, rfl, rfl, hr, hn⟩ := h
  refine ⟨?_, hr⟩
  show (s.value, s.reports.map Item.report) = _
  rw [hn, List.map_nil]

theorem expect {delimiter : String} (h : t.is delimiter = true) :
    (expect delimiter (t :: ts)).Gives () ts := by
  rw [Storyline.expect, if_pos h]
  exact (stay () ts).past

theorem not_none : ¬ Gives (none : Read α ts) a us := by
  rintro ⟨s, h, -⟩
  cases h

theorem not_miss {d : Diagnostic} {a' : α} : ¬ (Read.miss d a' ts).Gives a us := by
  rintro ⟨s, h, -, -, hn⟩
  obtain rfl := Option.some.inj h
  cases hn

theorem stay_iff {a' : α} : (Read.stay a' ts).Gives a us ↔ a' = a ∧ ts = us := by
  constructor
  · rintro ⟨s, h, hv, hr, -⟩
    obtain rfl := Option.some.inj h
    exact ⟨hv, hr⟩
  · rintro ⟨rfl, rfl⟩
    exact stay a' ts

theorem past_iff {r : Read α ts} : Gives (r.past : Read α (t :: ts)) a us ↔ r.Gives a us := by
  refine ⟨?_, past⟩
  rintro ⟨s, h, hv, hr, hn⟩
  obtain ⟨inner, rfl, rfl⟩ := Read.past_eq_some h
  exact ⟨inner, rfl, hv, hr, hn⟩

theorem map_iff {r : Read α ts} {f : α → β} :
    (r.map f).Gives b us ↔ ∃ a, r.Gives a us ∧ f a = b := by
  constructor
  · rintro ⟨s, h, hv, hr, hn⟩
    obtain ⟨inner, rfl, rfl⟩ := Read.map_eq_some h
    exact ⟨inner.value, ⟨inner, rfl, rfl, hr, hn⟩, hv⟩
  · rintro ⟨a, h, rfl⟩
    exact h.map f

/-- What two rules read one after the other is split at the place where the first of them ends. -/
theorem andThen_iff {r : Read α ts}
    {k : (a : α) → (us : List Token) → us.length ≤ ts.length → Read β us} :
    (r.andThen k).Gives b vs ↔ ∃ a us hus, r.Gives a us ∧ (k a us hus).Gives b vs := by
  constructor
  · rintro ⟨s, h, hv, hr, hn⟩
    obtain ⟨first, rfl, second, hk, rfl⟩ := Read.andThen_eq_some h
    obtain ⟨hfirst, hsecond⟩ := List.append_eq_nil_iff.mp hn
    exact ⟨first.value, first.rest, first.suffix.length_le, ⟨first, rfl, rfl, rfl, hfirst⟩,
      second, hk, hv, hr, hsecond⟩
  · rintro ⟨a, us, hus, h, hk⟩
    exact h.andThen fun _ => hk

theorem expect_iff {delimiter : String} :
    (Storyline.expect delimiter ts).Gives () us ↔ ∃ t, ts = t :: us ∧ t.is delimiter = true := by
  constructor
  · intro h
    cases ts with
    | nil => exact absurd h not_none
    | cons t vs =>
      unfold Storyline.expect at h
      dsimp only at h
      split at h
      · next ht =>
        obtain ⟨-, rfl⟩ := stay_iff.mp (past_iff.mp h)
        exact ⟨t, rfl, ht⟩
      · exact absurd h not_miss
  · rintro ⟨t, rfl, ht⟩
    exact expect ht

end Read.Gives

namespace Span.Gives

theorem stay (a : α) (ts : List Token) : (Span.stay a ts).Gives a ts := ⟨rfl, rfl⟩

theorem past {s : Span α ts} (h : s.Gives a us) : Gives (s.past : Span α (t :: ts)) a us := h

theorem map {s : Span α ts} (f : α → β) (h : s.Gives a us) : (s.map f).Gives (f a) us :=
  ⟨congrArg f h.1, h.2⟩

theorem bind {s : Span α ts} {k : (a : α) → (us : List Token) → us.length ≤ ts.length → Span β us}
    (h : s.Gives a us) (hk : ∀ hus, (k a us hus).Gives b vs) : (s.bind k).Gives b vs := by
  obtain ⟨rfl, rfl⟩ := h
  exact hk s.suffix.length_le

theorem andThen {s : Span (List Item) ts} {first second : List Item}
    {k : (us : List Token) → us.length ≤ ts.length → Span (List Item) us}
    (h : s.Gives first us) (hk : ∀ hus, (k us hus).Gives second vs) :
    (s.andThen k).Gives (first ++ second) vs := by
  obtain ⟨rfl, rfl⟩ := h
  obtain ⟨hv, hr⟩ := hk s.suffix.length_le
  refine ⟨?_, hr⟩
  show s.value ++ (k s.rest _).value = _
  rw [hv]

theorem after {s : Span (List Item) ts} {found : List Item} (items : List Item)
    (h : s.Gives found us) : (Span.after items s).Gives (items ++ found) us := h.map _

end Span.Gives

end Storyline
