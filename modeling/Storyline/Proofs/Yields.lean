import Storyline.Script.Linking

namespace Storyline.Build

variable {α β : Type} {E : BuildError → Prop} {m : Build α} {story : Story}

/-- The run of `m` from `story` ends in a result and a story that satisfy `Q`, or fails in one of
the ways `E` allows. -/
def Yields (E : BuildError → Prop) (Q : α → Story → Prop) (m : Build α) (story : Story) : Prop :=
  match m story with
  | .ok a after => Q a after
  | .error e _ => E e

theorem Yields.pure {Q : α → Story → Prop} {a : α} (h : Q a story) :
    Yields E Q (pure a : Build α) story := h

theorem Yields.bind {Q : α → Story → Prop} {R : β → Story → Prop} {f : α → Build β}
    (hm : Yields E Q m story) (hf : ∀ a after, Q a after → Yields E R (f a) after) :
    Yields E R (m >>= f) story := by
  unfold Yields at hm ⊢
  change match EStateM.bind m f story with | .ok a after => R a after | .error e _ => E e
  unfold EStateM.bind
  cases h : m story with
  | ok a after =>
    rw [h] at hm
    exact hf a after hm
  | error e after =>
    rw [h] at hm
    exact hm

theorem Yields.mono {Q R : α → Story → Prop} (hm : Yields E Q m story)
    (h : ∀ a after, Q a after → R a after) : Yields E R m story := by
  unfold Yields at hm ⊢
  split at hm
  · exact h _ _ hm
  · exact hm

/-- What a run yields in two ways it yields together. -/
theorem Yields.and {F : BuildError → Prop} {Q R : α → Story → Prop} (hm : Yields E Q m story)
    (h : Yields F R m story) : Yields E (fun a after => Q a after ∧ R a after) m story := by
  unfold Yields at hm h ⊢
  split
  · next hr =>
    rw [hr] at hm h
    exact ⟨hm, h⟩
  · next hr =>
    rw [hr] at hm
    exact hm

/-- A run that ends in a result satisfies what it yields. -/
theorem Yields.of_ok {Q : α → Story → Prop} {a : α} {after : Story} (hm : Yields E Q m story)
    (h : m story = .ok a after) : Q a after := by
  unfold Yields at hm
  rwa [h] at hm

/-- A run that fails does so in a way allowed. -/
theorem Yields.of_error {Q : α → Story → Prop} {e : BuildError} {after : Story}
    (hm : Yields E Q m story) (h : m story = .error e after) : E e := by
  unfold Yields at hm
  rwa [h] at hm

section Runs

variable {f : α → Build β} {a : α} {b : β} {mid after : Story}

theorem run_bind (h : m story = .ok a mid) : (m >>= f) story = f a mid := by
  show EStateM.bind m f story = _
  simp only [EStateM.bind, h]

/-- A run that comes to an end did so through its first part. -/
theorem of_run_bind (h : (m >>= f) story = .ok b after) :
    ∃ a mid, m story = .ok a mid ∧ f a mid = .ok b after := by
  change EStateM.bind m f story = .ok b after at h
  unfold EStateM.bind at h
  split at h
  · next a mid hm => exact ⟨a, mid, hm, h⟩
  · cases h

end Runs

end Storyline.Build
