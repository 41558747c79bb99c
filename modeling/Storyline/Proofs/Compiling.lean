import Storyline.Compile

namespace Storyline

variable {start : String} {tokens : List Token} {front : Front} {story after : Story}
  {e : BuildError}

theorem compile_of_unfinished
    (h : Build.whole start (here tokens) (Script.script tokens).value (.empty start) =
      .error .unfinished story) :
    compile start tokens = .error (.missingStop (lastPosition tokens)) := by
  simp only [compile, h]

theorem compile_of_error (he : e ≠ .unfinished)
    (h : Build.whole start (here tokens) (Script.script tokens).value (.empty start) =
      .error e story) :
    compile start tokens = .error (.build e) := by
  cases e with
  | unfinished => exact absurd rfl he
  | _ => simp only [compile, h]

theorem compile_of_rest {t : Token} {rest : List Token}
    (h : Build.whole start (here tokens) (Script.script tokens).value (.empty start) =
      .ok front story) (hrest : (Script.script tokens).rest = t :: rest) :
    compile start tokens = .error (.tokenAfterStop t) := by
  simp only [compile, h, hrest]

theorem compile_of_close_error
    (h : Build.whole start (here tokens) (Script.script tokens).value (.empty start) =
      .ok front story) (hrest : (Script.script tokens).rest = [])
    (hclose : Build.close front story = .error e after) :
    compile start tokens = .error (.build e) := by
  simp only [compile, h, hrest, hclose]

theorem compile_of_close
    (h : Build.whole start (here tokens) (Script.script tokens).value (.empty start) =
      .ok front story) (hrest : (Script.script tokens).rest = [])
    (hclose : Build.close front story = .ok () after) :
    compile start tokens = complete after := by
  simp only [compile, h, hrest, hclose]

/-- A story compiled is one that was linked and closed. -/
theorem compile_eq_ok (h : compile start tokens = .ok story) : ∃ front mid,
      Build.whole start (here tokens) (Script.script tokens).value (.empty start) = .ok front mid ∧
      Build.close front mid = .ok () story := by
  cases hrun : Build.whole start (here tokens) (Script.script tokens).value (.empty start) with
  | error e after =>
    by_cases he : e = .unfinished
    · rw [compile_of_unfinished (he ▸ hrun)] at h
      cases h
    · rw [compile_of_error he hrun] at h
      cases h
  | ok front mid =>
    cases hrest : (Script.script tokens).rest with
    | cons t rest =>
      rw [compile_of_rest hrun hrest] at h
      cases h
    | nil =>
      cases hclose : Build.close front mid with
      | error e after =>
        rw [compile_of_close_error hrun hrest hclose] at h
        cases h
      | ok u after =>
        rw [compile_of_close hrun hrest hclose, complete] at h
        split at h <;> cases h
        exact ⟨front, mid, rfl, hclose⟩

end Storyline
