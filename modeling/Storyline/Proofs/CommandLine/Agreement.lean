import Storyline.CommandLine.Run
import Storyline.Proofs.Json.Spelling

namespace Storyline.CommandLine

section Reading

variable {draft after : Draft} {which : Command} {config : Option String} {args : List String}
  {request : Request}

/-- The request with a check turned into a compilation. -/
def Request.compiling (request : Request) : Request := { request with command := .compile false }

theorem Draft.command_request (h : draft.request which config = .run request) :
    request.command = which := by
  unfold Draft.request at h
  split at h <;> cases h
  rfl

theorem Draft.request_check (h : draft.request .check config = .run request) :
    draft.request (.compile false) config = .run request.compiling := by
  unfold Draft.request at h ⊢
  split at h <;> cases h
  rfl

theorem shortFlags_ne_run {letters : List Char} : shortFlags letters ≠ some (.run request) := by
  fun_induction shortFlags letters with
  | case2 rest ih => exact ih
  | _ => simp

theorem command_ne_check (hwhich : which ≠ .check)
    (h : command which config draft args = .run request) : request.command ≠ .check := by
  fun_induction command which config draft args with
  | case1 => exact Draft.command_request h ▸ hwhich
  | case2 => exact Draft.command_request h ▸ hwhich
  | case7 _ _ _ _ _ _ answer hanswer => exact absurd (h ▸ hanswer) shortFlags_ne_run
  | _ => first | exact absurd h (by simp) | (next ih => exact ih (by simp_all) h)

/-- What `check` accepts, `compile` accepts too. -/
theorem command_check (hwhich : which = .check)
    (h : command which config draft args = .run request) :
    command (.compile false) config draft args = .run request.compiling := by
  fun_induction command which config draft args with
  | case1 which draft => exact Draft.request_check (hwhich ▸ h)
  | case2 which draft s rest hs after hafter =>
    simpa only [command, hs, hafter] using Draft.request_check (hwhich ▸ h)
  | case4 which draft s rest text hs after hput ih =>
    simpa only [command, hs, hput] using ih hwhich h
  | case6 which draft s rest letters hs hflags ih =>
    simpa only [command, hs, hflags] using ih hwhich h
  | case7 _ _ _ _ _ _ answer hanswer => exact absurd (h ▸ hanswer) shortFlags_ne_run
  | case8 which draft s rest hs ih => simpa only [command, hs] using ih hwhich h
  | case10 draft s rest hs => cases hwhich
  | case12 which draft s rest name value hs after hput ih =>
    simpa only [command, hs, hput] using ih hwhich h
  | case15 which draft s name _ _ _ hs v rest after hput ih =>
    simpa only [command, hs, hput] using ih hwhich h
  | _ => exact absurd h (by simp)

theorem Argument.eq_of_ofString {s text : String} (h : Argument.ofString s = .plain text) :
    s = text := by
  unfold Argument.ofString at h
  split at h <;> first | (cases h; rfl) | (split at h <;> cases h) | cases h

theorem leadingShortFlags_ne_run {letters : List Char} :
    leadingShortFlags letters ≠ some (.run request) := by
  fun_induction leadingShortFlags letters with
  | case2 rest ih => exact ih
  | _ => simp

theorem helpOn_ne_run : helpOn args ≠ .run request := by
  unfold helpOn
  split
  · simp
  · split <;> simp
  · simp

/-- With the word for the check changed, the arguments ask for the story of the same file. -/
def Rewords (draft : Draft) (args : List String) (request : Request) : Prop :=
  ∃ front back, args = front ++ "check" :: back ∧
    leading draft (front ++ "compile" :: back) = .run request.compiling

theorem Rewords.behind (taken : List String)
    (htaken : ∀ rest, leading draft (taken ++ rest) = leading after rest)
    (h : Rewords after args request) : Rewords draft (taken ++ args) request := by
  obtain ⟨front, back, rfl, hcompile⟩ := h
  refine ⟨taken ++ front, back, (List.append_assoc ..).symm, ?_⟩
  rw [List.append_assoc, htaken, hcompile]

/-- The words of a check are those of a compilation but for one. -/
theorem leading_check (h : leading draft args = .run request) (hcheck : request.command = .check) :
    Rewords draft args request := by
  fun_induction leading draft args with
  | case3 draft s rest hs => exact absurd hcheck (command_ne_check (by simp) h)
  | case4 draft s rest hs =>
    refine ⟨[], rest, ?_, command_check rfl h⟩
    rw [Argument.eq_of_ofString hs, List.nil_append]
  | case5 draft s rest hs => exact absurd h helpOn_ne_run
  | case7 draft s rest letters hs hflags ih =>
    have htaken (rest : List String) : leading draft ([s] ++ rest) = leading draft rest := by
      simp [leading.eq_def draft (s :: _), hs, hflags]
    exact .behind [s] htaken (ih h)
  | case8 _ _ _ _ _ answer hanswer => exact absurd (h ▸ hanswer) leadingShortFlags_ne_run
  | case9 draft s rest hs ih =>
    have htaken (rest : List String) : leading draft ([s] ++ rest) = leading draft rest := by
      simp [leading.eq_def draft (s :: _), hs]
    exact .behind [s] htaken (ih h)
  | case12 draft s rest value hs after hput ih =>
    have htaken (rest : List String) : leading draft ([s] ++ rest) = leading after rest := by
      simp [leading.eq_def draft (s :: _), hs, hput]
    exact .behind [s] htaken (ih h)
  | case15 draft s hs v rest after hput ih =>
    have htaken (rest : List String) : leading draft ([s, v] ++ rest) = leading after rest := by
      simp [leading, hs, hput]
    exact .behind [s, v] htaken (ih h)
  | _ => exact absurd h (by simp)

end Reading

section Running

variable {libraries : Libraries} {files : Files} {sources : Settings.Sources} {file : String}
  {causes : List String} {settings : Settings} {story : Story}

/-- A run on a file is given up, for these causes. -/
inductive Stops (libraries : Libraries) (files : Files) (sources : Settings.Sources) (file : String) :
    List String → Prop where
  | settings {reasons : List String} : libraries.settings sources = .error reasons →
      Stops libraries files sources file ("failed to load settings" :: reasons)
  | reading {settings reason} : libraries.settings sources = .ok settings →
      files file = .error reason →
      Stops libraries files sources file ["failed to read " ++ file, reason]
  | listing {settings text e} : libraries.settings sources = .ok settings →
      files file = .ok text → Dump.read text = .error e →
      Stops libraries files sources file ["malformed token dump " ++ file, e.message]
  | compiling {settings text tokens e} : libraries.settings sources = .ok settings →
      files file = .ok text → Dump.read text = .ok tokens →
      compile settings.start tokens = .error e →
      Stops libraries files sources file ["failed to compile " ++ file, e.message]

/-- A run on a file comes to a story, under these settings. -/
inductive Finishes (libraries : Libraries) (files : Files) (sources : Settings.Sources)
    (file : String) (settings : Settings) (story : Story) : Prop where
  | compiled {text tokens} : libraries.settings sources = .ok settings →
      files file = .ok text → Dump.read text = .ok tokens →
      compile settings.start tokens = .ok story →
      Finishes libraries files sources file settings story

theorem Stops.execute (request : Request)
    (h : Stops libraries files request.sources request.file causes) :
    execute libraries files request = .failed causes := by
  cases h with
  | settings hload => simp only [CommandLine.execute, hload]
  | reading hload hfile => simp only [CommandLine.execute, hload, compileFile, hfile]
  | listing hload hfile hread => simp only [CommandLine.execute, hload, compileFile, hfile, hread]
  | compiling hload hfile hread hcompile =>
    simp only [CommandLine.execute, hload, compileFile, hfile, hread, hcompile]

theorem Finishes.execute (request : Request)
    (h : Finishes libraries files request.sources request.file settings story) :
    execute libraries files request = present request settings story := by
  obtain ⟨hload, hfile, hread, hcompile⟩ := h
  simp only [CommandLine.execute, hload, compileFile, hfile, hread, hcompile]

theorem Finishes.unique {settings' : Settings} {story' : Story}
    (h : Finishes libraries files sources file settings story)
    (h' : Finishes libraries files sources file settings' story') :
    settings = settings' ∧ story = story' := by
  obtain ⟨hload, hfile, hread, hcompile⟩ := h
  obtain ⟨hload', hfile', hread', hcompile'⟩ := h'
  cases hload.symm.trans hload'
  cases hfile.symm.trans hfile'
  cases hread.symm.trans hread'
  cases hcompile.symm.trans hcompile'
  exact ⟨rfl, rfl⟩

theorem Finishes.not_stops (h : Finishes libraries files sources file settings story) :
    ¬Stops libraries files sources file causes := by
  obtain ⟨hload, hfile, hread, hcompile⟩ := h
  intro hs
  cases hs with
  | settings hload' => cases hload.symm.trans hload'
  | reading hload' hfile' => cases hfile.symm.trans hfile'
  | listing hload' hfile' hread' =>
    cases hfile.symm.trans hfile'
    cases hread.symm.trans hread'
  | compiling hload' hfile' hread' hcompile' =>
    cases hload.symm.trans hload'
    cases hfile.symm.trans hfile'
    cases hread.symm.trans hread'
    cases hcompile.symm.trans hcompile'

theorem stops_or_finishes (libraries : Libraries) (files : Files) (sources : Settings.Sources)
    (file : String) :
    (∃ causes, Stops libraries files sources file causes) ∨
      ∃ settings story, Finishes libraries files sources file settings story := by
  cases hload : libraries.settings sources with
  | error causes => exact .inl ⟨_, .settings hload⟩
  | ok settings =>
    cases hfile : files file with
    | error reason => exact .inl ⟨_, .reading hload hfile⟩
    | ok text =>
      cases hread : Dump.read text with
      | error e => exact .inl ⟨_, .listing hload hfile hread⟩
      | ok tokens =>
        cases hcompile : compile settings.start tokens with
        | error e => exact .inl ⟨_, .compiling hload hfile hread hcompile⟩
        | ok story => exact .inr ⟨settings, story, .compiled hload hfile hread hcompile⟩

/-- A run fails if it is given up or if mistakes in its script are not allowed. -/
def Fails (libraries : Libraries) (files : Files) (sources : Settings.Sources) (file : String) :
    Prop :=
  (∃ causes, Stops libraries files sources file causes) ∨
    ∃ settings story, Finishes libraries files sources file settings story ∧
      settings.denyDiagnostics = true ∧ story.diagnostics.size ≠ 0

theorem exit_execute (libraries : Libraries) (files : Files) (request : Request) :
    ((execute libraries files request).exit = 1 ↔
        Fails libraries files request.sources request.file) ∧
      ((execute libraries files request).exit = 0 ↔
        ¬Fails libraries files request.sources request.file) := by
  obtain ⟨causes, hs⟩ | ⟨settings, story, hf⟩ :=
    stops_or_finishes libraries files request.sources request.file
  · have hfails : Fails libraries files request.sources request.file := .inl ⟨causes, hs⟩
    rw [hs.execute]
    exact ⟨iff_of_true rfl hfails, iff_of_false Nat.one_ne_zero (not_not_intro hfails)⟩
  · have hfails : Fails libraries files request.sources request.file ↔
        settings.denyDiagnostics = true ∧ story.diagnostics.size ≠ 0 := by
      refine ⟨fun h => ?_, fun h => .inr ⟨settings, story, hf, h⟩⟩
      obtain ⟨causes, hs⟩ | ⟨settings', story', hf', hdenied⟩ := h
      · exact absurd hs hf.not_stops
      · obtain ⟨rfl, rfl⟩ := hf.unique hf'
        exact hdenied
    rw [hf.execute, hfails]
    unfold present
    split <;> simp_all

theorem Request.sources_compiling {request : Request} (hcheck : request.command = .check) :
    request.compiling.sources = request.sources := by
  simp only [Request.sources, Request.compiling, hcheck]

/-- What a check tells, the compilation of the same file tells too. -/
theorem execute_compiling (libraries : Libraries) (files : Files) {request : Request}
    (hcheck : request.command = .check) :
    let checked := execute libraries files request
    let compiled := execute libraries files request.compiling
    compiled.exit = checked.exit ∧ compiled.diagnostics = checked.diagnostics ∧
      compiled.causes = checked.causes := by
  have hsources := Request.sources_compiling hcheck
  obtain ⟨causes, hs⟩ | ⟨settings, story, hf⟩ :=
    stops_or_finishes libraries files request.sources request.file
  · have hcompiled := Stops.execute request.compiling (hsources ▸ hs)
    rw [hs.execute, hcompiled]
    exact ⟨rfl, rfl, rfl⟩
  · have hcompiled := Finishes.execute request.compiling (hsources ▸ hf)
    rw [hf.execute, hcompiled]
    exact ⟨rfl, rfl, rfl⟩

theorem stdout_check {request : Request} (hcheck : request.command = .check) :
    (execute libraries files request).stdout = "" := by
  obtain ⟨causes, hs⟩ | ⟨settings, story, hf⟩ :=
    stops_or_finishes libraries files request.sources request.file
  · rw [hs.execute]
    rfl
  · rw [hf.execute, present, hcheck]

/-- What is written for a story spells it. -/
theorem spells_storyText (settings : Settings) (story : Story) :
    Json.Spells (storyText settings story).toList story.json := by
  unfold storyText
  split
  · exact Json.spells_pretty 0 story.json
  · exact Json.spells_compact story.json

end Running

/-- The word for the check can be changed into that for compiling, and what the run tells stays the
same. -/
theorem respond_reworded (files : Files) (env : List (String × String)) {args : List String}
    {request : Request} (h : Invocation.ofArguments args = .run request)
    (hcheck : request.command = .check) :
    ∃ front back, args = front ++ "check" :: back ∧
      let checked := respond files env (.ofArguments args)
      let compiled := respond files env (.ofArguments (front ++ "compile" :: back))
      compiled.exit = checked.exit ∧ compiled.diagnostics = checked.diagnostics ∧
        compiled.causes = checked.causes := by
  obtain ⟨front, back, hargs, hcompile⟩ := leading_check h hcheck
  refine ⟨front, back, hargs, ?_⟩
  rw [h, Invocation.ofArguments, hcompile]
  exact execute_compiling (.documented files env) files hcheck

/-- A check and a compilation of one file agree, however their arguments are read and wherever their
settings come from. Only the story is left out by the check. -/
theorem check_agrees_with_compile (libraries : Libraries) (files : Files) {args args' : List String}
    {file : String} {start config : Option String}
    (hcheck : libraries.arguments args = .run ⟨.check, file, start, config⟩)
    (hcompile : libraries.arguments args' = .run ⟨.compile false, file, start, config⟩) :
    let sources := Settings.sources config start false
    let checked := run libraries files args
    let compiled := run libraries files args'
    compiled.exit = checked.exit ∧ compiled.diagnostics = checked.diagnostics ∧
    compiled.causes = checked.causes ∧ checked.stdout = "" ∧
    (∀ causes, Stops libraries files sources file causes →
      compiled.stdout = "" ∧ compiled.diagnostics = [] ∧ compiled.causes = causes) ∧
    (∀ settings story, Finishes libraries files sources file settings story →
      let text := if settings.pretty then story.json.pretty 0 else story.json.compact
      Json.Spells text.toList story.json ∧ compiled.stdout = text ++ "\n" ∧
      compiled.diagnostics = story.diagnostics.toList.map (fun d => file ++ ":" ++ d.text) ∧
      compiled.causes = []) ∧
    ((∃ settings story, Finishes libraries files sources file settings story) ↔
      ¬∃ causes, Stops libraries files sources file causes) ∧
    (checked.exit = 1 ↔ Fails libraries files sources file) ∧
    (checked.exit = 0 ↔ ¬Fails libraries files sources file) := by
  intro sources checked compiled
  let request : Request := ⟨.check, file, start, config⟩
  have hchecked : checked = execute libraries files request := congrArg (answer libraries files) hcheck
  have hcompiled : compiled = execute libraries files request.compiling :=
    congrArg (answer libraries files) hcompile
  obtain ⟨hexit, hdiagnostics, hcauses⟩ :=
    execute_compiling libraries files (rfl : request.command = .check)
  rw [hchecked, hcompiled]
  refine ⟨hexit, hdiagnostics, hcauses, stdout_check rfl, ?_, ?_, ?_,
    exit_execute libraries files request⟩
  · intro causes hs
    rw [Stops.execute request.compiling hs]
    exact ⟨rfl, rfl, rfl⟩
  · intro settings story hf
    rw [Finishes.execute request.compiling hf]
    exact ⟨spells_storyText settings story, rfl, rfl, rfl⟩
  · constructor
    · intro ⟨settings, story, hf⟩ ⟨causes, hs⟩
      exact hf.not_stops hs
    · exact (stops_or_finishes libraries files sources file).resolve_left

/-- The story of a script with a mistake is written even where such a mistake is not allowed. -/
theorem check_agrees_with_compile_denied :
    let files : Files := fun name =>
      if name = "a" then .ok "1:1 alphanum \"\" \"b\"\n1:2 token \"\" \"]\"\n2:1 stop \"\" \"\""
      else .error ""
    let libraries := Libraries.documented files [("SKEIN_DENY_DIAGNOSTICS", "true")]
    let checked := run libraries files ["check", "a", "-v"]
    let compiled := run libraries files ["-v", "compile", "a"]
    compiled.stdout = "\x7b\"start\":\x7b\"name\":\"start\",\"type\":\"text\",\"text\":\"b\"," ++
      "\"lift\":\"\",\"drop\":\"\",\"next\":\"RET\"\x7d\x7d\n" ∧
    compiled.exit = 1 ∧ checked.exit = 1 ∧ checked.stdout = "" ∧
    checked.diagnostics = ["a:1:2: unexpected token \"]\""] ∧ checked.causes = [] := by
  intro files libraries checked compiled
  have hcheck : libraries.arguments ["check", "a", "-v"] = .run ⟨.check, "a", none, none⟩ := by
    decide +kernel
  have hcompile : libraries.arguments ["-v", "compile", "a"] =
      .run ⟨.compile false, "a", none, none⟩ := by decide +kernel
  have hcompiled : compiled = ⟨1, "\x7b\"start\":\x7b\"name\":\"start\",\"type\":\"text\"," ++
      "\"text\":\"b\"," ++ "\"lift\":\"\",\"drop\":\"\",\"next\":\"RET\"\x7d\x7d\n",
      ["a:1:2: unexpected token \"]\""], []⟩ := by decide +kernel
  obtain ⟨hexit, hdiagnostics, hcauses, hstdout, -⟩ :=
    check_agrees_with_compile libraries files hcheck hcompile
  change compiled.exit = checked.exit at hexit
  change compiled.diagnostics = checked.diagnostics at hdiagnostics
  change compiled.causes = checked.causes at hcauses
  rw [hcompiled] at hexit hdiagnostics hcauses ⊢
  exact ⟨by decide +kernel, rfl, hexit.symm, hstdout, hdiagnostics.symm, hcauses.symm⟩

end Storyline.CommandLine
