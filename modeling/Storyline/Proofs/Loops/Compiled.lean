import Storyline.Proofs.Loops.Cycling
import Storyline.Proofs.Loops.Linking
import Storyline.Proofs.Meaning.Compiled
import Storyline.Proofs.Options.Plain

namespace Storyline

namespace Script

variable {ts rest : List Token} {pos : Position} {body : List Item} {u : Token}

/-- A loop label with a body behind it, after any blank lines. -/
inductive SpellsLoop (body : List Item) : List Token → Position → List Token → Prop where
  | blank {t us pos rest} : t.sign = .blank → SpellsLoop body us pos rest →
      SpellsLoop body (t :: us) pos rest
  | loop {t d us rest} : t.sign = .label → d.is "..." = true → Writes (.thread body) us rest →
      SpellsLoop body (t :: d :: us) t.pos rest

theorem SpellsLoop.gives (h : SpellsLoop body ts pos [u]) (hu : u.kind = .stop) :
    (script ts).Gives [.loop pos body] [] := by
  refine script_gives ?_ hu
  generalize hr : [u] = rest at h
  induction h with
  | blank ht _ ih =>
    rw [thread, ht]
    exact (ih hr).past
  | @loop t d us rest ht hd hw =>
    subst hr
    have hlabel : (label t.pos (d :: us)).Gives [.loop t.pos body] [u] := by
      rw [label, if_pos hd]
      exact Span.Gives.past (hw.reads.map _)
    have hend : (thread [u]).Gives [] [u] := by
      have hclose : u.sign = .close := by simp [Token.sign, hu]
      exact (Writes.close hclose).reads
    have hthread : thread (t :: d :: us) =
        Span.past ((label t.pos (d :: us)).andThen fun vs _ => thread vs) := by
      rw [thread, ht]
    exact thread_gives hthread hlabel hend

end Script

namespace Build

open Story Script

variable {body : List Item} {start : String}

/-- A loop is linked whatever the start label is. -/
theorem loop_runs (start : String) (pos seen : Position) (hb : Each Item.FallsThrough body)
    (hne : body ≠ []) : ∃ front story, whole start seen [.loop pos body] (.empty start) =
      .ok front story ∧ story.Distinct := by
  obtain ⟨entry, s1, hentry, hrec, hroom⟩ := begin_room start seen
  let root : Front := entering (.root start) (nextEnd entry)
  have hlt : ∀ l ∈ root.ends.rets, l.node < s1.slots.size :=
    fun l hl => hrec.lt_size l (List.mem_append_left _ hl)
  have hheld : Recorded start ([] ++ root.held) s1 := hrec
  obtain ⟨front, story, hloop, hroomy, -⟩ := Yields.total (loop_fits pos hb hne root hroom hlt)
    ((kept_recorded start).item (.loop pos body) root hheld)
  refine ⟨front, story, ?_, hroomy.clear.distinct⟩
  rw [whole, run_bind hentry, thread, run_bind hloop]
  rfl

/-- A script that is one loop was linked: the start label does the body, and then itself again. -/
structure LoopLinked (start : String) (pos : Position) (body : List Item) (front : Front)
    (story : Story) : Prop where
  neat : Neat [start] [] story
  diagnostics : story.diagnostics = #[]
  begins : story.start = start
  rets : front.ends.rets = []
  escs : front.ends.escs = []
  leads : ∀ final : Story, final.Distinct → story.Grows final →
    Leads (looped pos start body) final true (.node start) (body ++ [.goto start])

theorem loop_whole_links (start : String) (pos seen : Position) (hb : Each Item.FallsThrough body)
    (hne : body ≠ []) : Yields (fun _ => True) (LoopLinked start pos body)
      (whole start seen [.loop pos body]) (.empty start) := by
  have hempty := (Neat.empty [] start).mono (List.nil_subset [start])
  refine Yields.bind (yields_added hempty.distinct rfl rfl) fun entry s1 h1 => ?_
  have n1 : Neat [start] [] s1 := hempty.added h1 List.mem_cons_self rfl rfl isOpen_goto rfl
  have hentry : s1.Enters entry (Path.root start).name := ⟨seen, h1.stored⟩
  have hbehind : behind (Path.root start).name (looped pos start body) =
      some (body ++ [.goto (Path.root start).name]) := by
    rw [Path.name_root, behind_looped hb, if_pos rfl]
  refine Yields.bind (loop_links pos hb hne hbehind n1 List.mem_cons_self (hentry.waits n1.distinct))
    fun front s2 h2 => Yields.pure ?_
  have hlater := h1.later.trans h2.later
  have hleads := h2.leads
  rw [show (entering (.root start) (nextEnd entry)).path.name = start from Path.name_root start]
    at hleads
  exact ⟨h2.neat, hlater.diagnostics, hlater.start, h2.rets, h2.escs, hleads⟩

end Build

open Build Story

/-- A script that is one loop, whose body writes something and only holds what the flow goes through,
becomes a story without diagnostics. Whatever decides its conditions and the cases of its switches, the
walk from the start node goes round the body. -/
theorem compile_loop_cycles (start : String) (tokens : List Token) (pos : Position)
    (body : List Item) (u : Token) (hs : Script.SpellsLoop body tokens pos [u]) (hu : u.kind = .stop)
    (hb : Script.Each Item.FallsThrough body) (hne : body ≠ []) :
    ∃ story, compile start tokens = .ok story ∧ story.diagnostics = #[] ∧
      ∀ oracle, story.Cycles body oracle := by
  obtain ⟨hvalue, hrest⟩ := hs.gives hu
  obtain ⟨front, story, hrun, hd⟩ := loop_runs start pos (here tokens) hb hne
  have hlinked := (loop_whole_links start pos (here tokens) hb hne).of_ok hrun
  have hwhole : whole start (here tokens) (Script.script tokens).value (.empty start) =
      .ok front story := by
    rw [hvalue]
    exact hrun
  obtain ⟨after, hclose, hcompile⟩ := linked_compiles hwhole hd hrest
  have hwaits : ∀ l ∈ front.ends.rets, story.Waits front.path l := by
    rw [hlinked.rets]
    exact List.forall_mem_nil _
  have hclosed := (close_links hlinked.neat (List.forall_mem_nil _) hwaits hlinked.escs).of_ok hclose
  have hvalid := Script.script_valid tokens (List.suffix_refl tokens)
  rw [hvalue] at hvalid
  have hstart : after.start = start := hclosed.later.start.trans hlinked.begins
  have hleads := hlinked.leads after hclosed.distinct hclosed.later.grows
  rw [← hstart] at hleads
  exact ⟨after, hcompile, hclosed.later.diagnostics.trans hlinked.diagnostics,
    fun oracle => cycles_of_leads hb hne hvalid.1.2 hleads⟩

/-- A loop that always ticks and sometimes tocks, as often as one likes. -/
theorem compile_loop_cycles_clock : ∃ story,
    compile "start" [⟨.mark, "", "@", ⟨1, 1⟩⟩, ⟨.mark, "", "...", ⟨1, 2⟩⟩, ⟨.word, " ", "Tick", ⟨1, 6⟩⟩,
      ⟨.mark, " ", "\x7b", ⟨1, 11⟩⟩, ⟨.word, "", "x", ⟨1, 12⟩⟩, ⟨.mark, "", "?", ⟨1, 13⟩⟩,
      ⟨.word, " ", "tock", ⟨1, 15⟩⟩, ⟨.mark, "", "\x7d", ⟨1, 19⟩⟩, .stop ⟨2, 1⟩] = .ok story ∧
    story.diagnostics = #[] ∧ ∀ yes count, ∃ past,
      story.Rounds [.content ⟨1, 6⟩ (.text "Tick" " " " "),
        .jump ⟨1, 11⟩ (.var "x") [.content ⟨1, 15⟩ (.text "tock" " " "")] []]
        (Oracle.deciding yes fun _ _ _ => some 0) count [] past := by
  let t1 : Token := ⟨.mark, "", "@", ⟨1, 1⟩⟩
  let t2 : Token := ⟨.mark, "", "...", ⟨1, 2⟩⟩
  let t3 : Token := ⟨.word, " ", "Tick", ⟨1, 6⟩⟩
  let t4 : Token := ⟨.mark, " ", "\x7b", ⟨1, 11⟩⟩
  let t5 : Token := ⟨.word, "", "x", ⟨1, 12⟩⟩
  let t6 : Token := ⟨.mark, "", "?", ⟨1, 13⟩⟩
  let t7 : Token := ⟨.word, " ", "tock", ⟨1, 15⟩⟩
  let t8 : Token := ⟨.mark, "", "\x7d", ⟨1, 19⟩⟩
  let t9 : Token := .stop ⟨2, 1⟩
  let tock : Item := .content t7.pos (.text t7.text t7.space t8.space)
  let body : List Item := [.content t3.pos (.text t3.text t3.space t4.space),
    .jump t4.pos (.var t5.text) [tock] []]
  have hx : Script.SpellsSelector [t5, t6, t7, t8, t9] (.var t5.text) [t6, t7, t8, t9] := by
    refine .word rfl rfl rfl rfl rfl ?_
    show ∀ ops ∈ Script.selectorTiers, Script.infixOp? ops ⟨.mark, "", "?", ⟨1, 13⟩⟩ = none
    decide +kernel
  have htock : Script.Writes (.thread [tock]) [t7, t8, t9] [t8, t9] := .word rfl rfl (.close rfl)
  have hw : Script.Writes (.thread body) [t3, t4, t5, t6, t7, t8, t9] [t9] :=
    .word rfl rfl (.condition rfl ⟨rfl, rfl, rfl⟩ hx rfl htock rfl (.close rfl))
  have hs : Script.SpellsLoop body [t1, t2, t3, t4, t5, t6, t7, t8, t9] t1.pos [t9] :=
    .loop rfl rfl hw
  have hb : Script.Each Item.FallsThrough body :=
    ⟨trivial, ⟨trivial, ⟨trivial, trivial⟩, trivial⟩, trivial⟩
  obtain ⟨story, hcompile, hd, hcycles⟩ := compile_loop_cycles "start"
    [t1, t2, t3, t4, t5, t6, t7, t8, t9] t1.pos body t9 hs rfl hb (List.cons_ne_nil _ _)
  refine ⟨story, hcompile, hd, fun yes => (hcycles _).repeats ?_⟩
  exact fun _ _ weights hne => List.length_pos_iff.mpr hne

end Storyline
