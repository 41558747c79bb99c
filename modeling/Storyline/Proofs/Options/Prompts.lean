import Storyline.Proofs.Names.Duplicate
import Storyline.Proofs.Options.Choices
import Storyline.Proofs.Options.Plain
import Storyline.Proofs.Targets.Compiled

namespace Storyline

namespace Story

variable {story after : Story} {target goal : Target} {l : LooseEnd} {name : String}

/-- The link leads to the target. -/
def Aims (story : Story) (target : Target) (l : LooseEnd) : Prop :=
  ∃ node, story.node? l.node = some node ∧ node.body.link? l.outlet = some (some target)

/-- The ends that wait for the next node later lead there. -/
def Joined (story : Story) (front : Front) (later : Story) : Prop :=
  ∀ l ∈ front.ends.rets, story.Settled l → later.Gone (.node front.path.name) l

/-- Choices from the path on, with a prompt and a text behind them. Whatever guards hold, one way leads
past the choices to the prompt, which it meets there alone; every answer goes on at the text. -/
structure Prompts (story : Story) (choices : List Choice) (path : Path) (text : Content) : Prop where
  offers : story.Offers choices path (.node (Choice.last choices path).next.name)
  asks : (story.get? (Choice.last choices path).name).map Node.body = some .ask
  goes : ∃ next, (story.get? (Choice.last choices path).next.name).map Node.body =
    some (.content text next)
  meets : ∀ v, story.Walks v (.node path.name) (Choice.visits v choices path)
    (.node (Choice.last choices path).name) ∧
      (Choice.last choices path).name ∉ Choice.visits v choices path

theorem Offers.prompts {choices : List Choice} {path : Path} {text : Content}
    (h : story.Offers choices path (.node (Choice.last choices path).next.name))
    (ha : (story.get? (Choice.last choices path).name).map Node.body = some .ask)
    (ht : ∃ next, (story.get? (Choice.last choices path).next.name).map Node.body =
      some (.content text next)) : story.Prompts choices path text :=
  ⟨h, ha, ht, fun v => ⟨h.walks v, fun hm => (h.walks v).ne_ask hm ha⟩⟩

/-- The end of an answer of one of these names. -/
def Answers (story : Story) (names : List String) (l : LooseEnd) : Prop :=
  ∃ name ∈ names, ∃ id content, l = Build.nextEnd id ∧ story.Holds id name (.content content none)

theorem Answers.mono {names names' : List String} (h : story.Answers names l)
    (hm : names ⊆ names') : story.Answers names' l := by
  obtain ⟨name, hn, hh⟩ := h
  exact ⟨name, hm hn, hh⟩

theorem Answers.retained {names : List String} {noted : List Diagnostic} (h : story.Answers names l)
    (r : story.Retains EverySlot noted after) : after.Answers names l := by
  obtain ⟨name, hn, id, content, rfl, hh⟩ := h
  exact ⟨name, hn, id, content, rfl, hh.retained r trivial⟩

theorem Answers.settled {names : List String} (h : story.Answers names l) : story.Settled l := by
  obtain ⟨name, -, id, content, rfl, hh⟩ := h
  exact hh.settled .next

/-- In a sound story no link leads to a name that nothing bears and nothing asks for. -/
theorem Sound.not_aims {asked : String → Prop} (s : story.Sound asked fun _ => False)
    (hf : story.status name = .free) (ha : ¬ asked name) (l : LooseEnd) :
    ¬ story.Aims (.node name) l := by
  rintro ⟨node, hn, hl⟩
  rcases (s.known l.node node hn).links l.outlet name hl with (hc | hno) | hasked
  · obtain ⟨id, found, hlive, hname⟩ := contains_iff.mp hc
    exact status_eq_free_iff.mp hf id found hlive hname
  · exact hno
  · exact ha hasked

theorem Aims.of_setSlot {id : NodeId} {slot : Slot} (hlt : id < story.slots.size)
    (h : (story.setSlot id slot).Aims goal l) :
    story.Aims goal l ∨ l.node = id ∧ ∃ node, slot.node? = some node ∧
      node.body.link? l.outlet = some (some goal) := by
  obtain ⟨node, hn, hl⟩ := h
  rw [node?_setSlot slot hlt] at hn
  split at hn
  · next hid => exact .inr ⟨hid, node, hn, hl⟩
  · exact .inl ⟨node, hn, hl⟩

end Story

namespace Build

open Story Script

variable {story : Story} {front : Front} {start : String} {frame : List LooseEnd} {goal : Target}

section Aims

/-- Tying an end changes where that one end leads and nothing else. -/
theorem tieEnd_aims (target goal : Target) (loose : LooseEnd) :
    Yields Anything (fun _ after => ∀ l, after.Aims goal l →
      story.Aims goal l ∨ goal = target ∧ l = loose) (tieEnd target loose) story := by
  have dead {old new : Slot} (hs : story.slots[loose.node]? = some old) (hn : new.node? = none) :
      ∀ l, (story.setSlot loose.node new).Aims goal l →
        story.Aims goal l ∨ goal = target ∧ l = loose := by
    intro l h
    rcases h.of_setSlot (Array.getElem?_eq_some_iff.mp hs).1 with h | ⟨-, node, hnode, -⟩
    · exact .inl h
    · rw [hn] at hnode
      cases hnode
  refine yields_tieEnd (fun _ l h => .inl h) (fun _ _ hs => dead hs rfl) (fun _ _ hs => dead hs rfl)
    ?_ (fun _ _ _ _ => trivial) fun _ _ _ => trivial
  intro node hn hl l h
  rcases h.of_setSlot (lt_size_of_node? hn) with h | ⟨hid, found, hfound, hlink⟩
  · exact .inl h
  · obtain rfl := Option.some.inj hfound
    obtain ⟨id, outlet⟩ := l
    obtain rfl : id = loose.node := hid
    by_cases he : outlet = loose.outlet
    · subst he
      rw [Body.link?_setLink_self _ hl] at hlink
      exact .inr ⟨(Option.some.inj (Option.some.inj hlink)).symm, rfl⟩
    · rw [Body.link?_setLink_of_ne _ he] at hlink
      exact .inl ⟨node, hn, hlink⟩

theorem tie_aims (target goal : Target) (ends : List LooseEnd) :
    Yields Anything (fun _ after => ∀ l, after.Aims goal l →
      story.Aims goal l ∨ goal = target ∧ l ∈ ends) (tie target ends) story := by
  induction ends generalizing story with
  | nil => exact Yields.pure fun l h => .inl h
  | cons loose rest ih =>
    refine Yields.bind (tieEnd_aims target goal loose) fun _ mid h => ih.mono fun _ after h' l ha => ?_
    rcases h' l ha with ha | ⟨ht, hl⟩
    · rcases h l ha with ha | ⟨ht, rfl⟩
      · exact .inl ha
      · exact .inr ⟨ht, List.mem_cons_self⟩
    · exact .inr ⟨ht, List.mem_cons_of_mem loose hl⟩

/-- A new node to which nothing leads yet is reached by the ends tied to it alone. -/
theorem arrive_aims (front : Front) {body : Body} (ho : body.IsOpen) (pos : Position)
    (hd : story.Distinct) (hn : ∀ l, ¬ story.Aims (.node front.path.name) l) :
    Yields Anything (fun _ after => ∀ l, after.Aims (.node front.path.name) l →
      l ∈ front.ends.rets) (arrive front body pos) story := by
  have hslot : (Slot.settled ⟨front.path.name, body, pos⟩).node? =
      some ⟨front.path.name, body, pos⟩ := rfl
  refine Yields.bind (yields_added hd hslot rfl) fun id mid ha => ?_
  refine Yields.bind (tie_aims _ (.node front.path.name) front.ends.rets) fun _ after h =>
    Yields.pure fun l hl => ?_
  rcases h l hl with ⟨node, hnode, hlink⟩ | ⟨-, hm⟩
  · rcases ha.nodes l.node node hnode with hnew | hold
    · obtain rfl := Option.some.inj hnew
      cases ho l.outlet _ hlink
    · exact absurd ⟨node, hold, hlink⟩ (hn l)
  · exact hm

end Aims

section Choices

variable {c : Choice} {choices : List Choice} {i : Item} {items : List Item} {outs : List LooseEnd}
  {front' : Front} {mid after : Story}

/-- What linking choices comes to: `outs` are the ends of their answers. Once the ends left open are
tied to what follows, the choices stand. -/
structure Chains (choices : List Choice) (front : Front) (story : Story) (outs : List LooseEnd)
    (front' : Front) (after : Story) : Prop where
  retains : story.Retains EverySlot [] after
  path : front'.path = Choice.last choices front.path
  escs : front'.ends.escs = front.ends.escs ++ outs
  answered : ∀ l ∈ outs, after.Answers (Choice.answers choices front.path) l
  joined : ∀ later noted, after.Retains EverySlot noted later → after.Joined front' later →
    story.Joined front later
  offers : ∀ later noted goal, after.Retains EverySlot noted later → later.Distinct →
    after.Joined front' later → (∀ l ∈ outs, later.Gone goal l) →
    later.Offers choices front.path goal

theorem choice_parts {parts : List Segment} (h : parts.map Segment.outline = c.outlines) :
    ∃ p1 p2 p3, parts = [.mk p1 .answer [], .mk p2 .question [.content c.asked c.question],
      .mk p3 .answer [.content c.answered c.answer]] := by
  obtain ⟨⟨p1, r1, b1⟩, parts, rfl, h1, h⟩ := List.map_eq_cons_iff.mp h
  obtain ⟨⟨p2, r2, b2⟩, parts, rfl, h2, h⟩ := List.map_eq_cons_iff.mp h
  obtain ⟨⟨p3, r3, b3⟩, parts, rfl, h3, h⟩ := List.map_eq_cons_iff.mp h
  obtain rfl := List.map_eq_nil_iff.mp h
  obtain ⟨rfl, rfl⟩ := Prod.mk.inj h1
  obtain ⟨rfl, rfl⟩ := Prod.mk.inj h2
  obtain ⟨rfl, rfl⟩ := Prod.mk.inj h3
  exact ⟨p1, p2, p3, rfl⟩

/-- A choice that was linked stands once its ends are tied. -/
theorem Standing.chains {parts : List Segment} (hp : parts.map Segment.outline = c.outlines)
    {ids : List NodeId} {id : NodeId} {out : LooseEnd}
    (h : Standing ((Clause.terms c.clauses).ledBy c.leader front.path) parts front story ids id out
      front' after) : Chains [c] front story [out] front' after := by
  obtain ⟨p1, p2, p3, rfl⟩ := choice_parts hp
  have hkeywords : ((Clause.terms c.clauses).ledBy c.leader front.path).keywords = c.keywords := by
    cases hl : c.leader <;> rfl
  have hplace : ((Clause.terms c.clauses).ledBy c.leader front.path).place front.path =
      c.place front.path := by
    rw [Terms.place, Clause.guards_ledBy]
    rfl
  have hbehind : ((Clause.terms c.clauses).ledBy c.leader front.path).behind front.path =
      c.asking front.path := by
    rw [Terms.behind, hplace, Clause.consequences_ledBy]
    rfl
  have hguarded := h.guarded
  have hconsequences := h.consequences
  have hoption := h.option
  have hlaid := h.laid
  have honward := h.onward
  rw [Clause.guards_ledBy] at hguarded
  rw [Clause.consequences_ledBy, hplace] at hconsequences
  rw [hbehind] at hlaid
  rw [hplace] at honward
  rw [hplace, hbehind, hkeywords, Terms.entry, hplace, Clause.consequences_ledBy] at hoption
  obtain ⟨-, hquestion, hanswer, -⟩ := hlaid
  obtain ⟨asked, ⟨q, hq, rfl⟩, hreturns⟩ := hquestion (List.cons_ne_nil _ _)
  obtain ⟨answered, ⟨a, ha, rfl⟩, rfl⟩ := hanswer (List.cons_ne_nil _ _)
  subst honward
  refine ⟨h.retains, rfl, rfl, fun l hl => ?_, fun later noted r _ l hl hs => ?_,
    fun later noted goal r hd hj ho => ⟨⟨?_, ?_, ?_⟩, trivial⟩⟩
  · obtain rfl := List.mem_singleton.mp hl
    exact ⟨_, List.mem_cons_self, a, _, rfl, ha⟩
  · exact (h.entered l hl hs).retained r trivial
  · refine (hguarded.retained r fun _ _ _ _ _ _ => trivial).leads hd (hoption.retained r trivial)
      (fun hne => ?_) fun l hl => hj l hl ?_
    · obtain ⟨last, hgone, hstr⟩ := hconsequences hne
      exact ⟨last, hgone.retained r trivial, hstr.every r⟩
    · rcases List.mem_append.mp hl with hl | hl
      · obtain ⟨other, hm, rfl⟩ := List.mem_map.mp hl
        obtain ⟨name, condition, next, hh⟩ := hguarded.holds hm
        exact hh.settled .branch
      · obtain rfl := List.mem_singleton.mp hl
        exact hoption.settled .next
  · exact Holds.content_eq ((hq.retained r trivial).tied (hreturns.retained r trivial) rfl) hd
  · exact Holds.content_eq ((ha.retained r trivial).tied (ho _ List.mem_cons_self) rfl) hd

theorem Chains.nil (front : Front) (story : Story) : Chains [] front story [] front story where
  retains := .refl story
  path := rfl
  escs := (List.append_nil _).symm
  answered _ hl := absurd hl List.not_mem_nil
  joined _ _ _ hj := hj
  offers _ _ _ _ _ _ _ := trivial

theorem Chains.cons {outs' : List LooseEnd} {front'' : Front}
    (h : Chains [c] front story outs front' mid)
    (h' : Chains choices front' mid outs' front'' after) :
    Chains (c :: choices) front story (outs ++ outs') front'' after := by
  have hpath : front'.path = c.behind front.path := h.path
  refine ⟨h.retains.quiet h'.retains, ?_, ?_, fun l hl => ?_, fun later noted r hj => ?_,
    fun later noted goal r hd hj ho => ?_⟩
  · rw [h'.path, hpath]
    rfl
  · rw [h'.escs, h.escs, List.append_assoc]
  · rcases List.mem_append.mp hl with hl | hl
    · refine ((h.answered l hl).retained h'.retains).mono ?_
      exact List.subset_append_left _ (Choice.answers choices (c.behind front.path))
    · refine (h'.answered l hl).mono ?_
      rw [hpath]
      exact List.subset_cons_self _ _
  · exact h.joined later _ (h'.retains.trans r) (h'.joined later noted r hj)
  · have hfirst := h.offers later _ goal (h'.retains.trans r) hd (h'.joined later noted r hj)
      fun l hl => ho l (List.mem_append_left _ hl)
    have hrest := h'.offers later noted goal r hd hj fun l hl => ho l (List.mem_append_right _ hl)
    rw [hpath] at hrest
    exact ⟨hfirst.1, hrest⟩

theorem choice_plain {parts : List Segment} (h : parts.map Segment.outline = c.outlines) :
    ∀ part ∈ parts, part.IsPlain := by
  obtain ⟨p1, p2, p3, rfl⟩ := choice_parts h
  simp [Segment.IsPlain, Item.IsPlain]

/-- Choices that were linked stand one behind the other. -/
theorem choices_link (hi : List.Forall₂ Choice.IsRead choices items) (front : Front) {story : Story} :
    Yields Anything (fun front' after => ∃ outs, Chains choices front story outs front' after)
      (thread items front) story := by
  induction hi generalizing front story with
  | nil => exact Yields.pure ⟨[], .nil front story⟩
  | @cons c i choices items hc _ ih =>
    obtain ⟨parts, rfl, hp⟩ := hc
    refine Yields.bind (option_standing c.pos c.leader _ parts (choice_plain hp) front) ?_
    rintro front1 mid ⟨ids, id, out, hs⟩
    refine (ih front1).mono fun front' after ⟨outs, hchain⟩ => ?_
    exact ⟨[out] ++ outs, (hs.chains hp).cons hchain⟩

/-- Where there is room for choices they fail on no name, and there is room behind them. -/
theorem choices_room (hi : List.Forall₂ Choice.IsRead choices items) (front : Front) {story : Story}
    (h : story.Room front.path) :
    Yields Unlinked (fun front' after => after.Room front'.path) (thread items front) story := by
  induction hi generalizing front story with
  | nil => exact Yields.pure h
  | @cons c i choices items hc _ ih =>
    obtain ⟨parts, rfl, hp⟩ := hc
    exact Yields.bind (option_room c.pos c.leader _ parts (choice_plain hp) front h)
      fun front1 _ hroomy => ih front1 hroomy.clear.room

/-- Choices ask for nothing. -/
theorem choices_written (hi : List.Forall₂ Choice.IsRead choices items) (tokens : List Token) :
    Each (IsWritten tokens) items := by
  induction hi with
  | nil => trivial
  | cons hc _ ih =>
    obtain ⟨parts, rfl, hp⟩ := hc
    obtain ⟨p1, p2, p3, rfl⟩ := choice_parts hp
    exact ⟨⟨trivial, trivial, ⟨trivial, trivial⟩, ⟨trivial, trivial⟩, trivial⟩, ih⟩

end Choices

section Prompt

variable {choices : List Choice} {items : List Item} {tokens : List Token} {outs : List LooseEnd}
  {front' : Front} {after : Story}

/-- What linking choices and a prompt comes to: `outs` are the ends of the answers. -/
structure Asking (choices : List Choice) (front : Front) (story : Story) (outs : List LooseEnd)
    (front' : Front) (after : Story) : Prop where
  retains : story.Retains EverySlot [] after
  onward : front' = ⟨(Choice.last choices front.path).next, front.ends.escs ++ outs, []⟩
  answered : ∀ l ∈ outs, after.Answers (Choice.answers choices front.path) l
  stands : ∀ later noted goal, after.Retains EverySlot noted later → later.Distinct →
    (∀ l ∈ outs, later.Gone goal l) → later.Offers choices front.path goal ∧
      (later.get? (Choice.last choices front.path).name).map Node.body = some .ask

theorem ask_links (pos : Position) (hi : List.Forall₂ Choice.IsRead choices items) (front : Front)
    {story : Story} :
    Yields Anything (fun front' after => ∃ outs, Asking choices front story outs front' after)
      (thread (items ++ [.ask pos]) front) story := by
  rw [thread_snoc]
  refine Yields.bind (choices_link hi front) ?_
  rintro front1 mid ⟨outs, hchain⟩
  refine Yields.bind (arrive_retains front1 .ask pos) ?_
  rintro id after ⟨r, -, hholds, hjoin⟩
  have honward : (⟨front1.path.next, front1.ends.escs, []⟩ : Front) =
      ⟨(Choice.last choices front.path).next, front.ends.escs ++ outs, []⟩ := by
    rw [hchain.path, hchain.escs]
  rw [hchain.path] at hholds
  refine Yields.pure ⟨outs, hchain.retains.quiet r, honward,
    fun l hl => (hchain.answered l hl).retained r, fun later noted goal r' hd ho => ⟨?_, ?_⟩⟩
  · exact hchain.offers later _ goal (r.trans r') hd
      (fun l hl hset => (hjoin l hl hset).retained r' trivial) ho
  · exact (hholds.retained r' trivial).body_eq hd
      (fun outlet => by cases outlet <;> simp [Body.link?]) (by simp [Body.kind])

theorem ask_room (pos : Position) (hi : List.Forall₂ Choice.IsRead choices items) (front : Front)
    {story : Story} (h : story.Room front.path) :
    Yields Unlinked (fun front' after => after.Clear front'.path)
      (thread (items ++ [.ask pos]) front) story := by
  rw [thread_snoc]
  refine Yields.bind (choices_room hi front h) fun front1 mid hroom => ?_
  exact Yields.bind (arrive_room front1 hroom .ask pos) fun _ _ hpast =>
    Yields.pure (Roomy.of_past hpast).clear

/-- What linking choices, a prompt and a text comes to, whatever comes later. -/
structure Prompting (choices : List Choice) (text : Content) (front : Front) (story : Story)
    (after : Story) : Prop where
  retains : story.Retains EverySlot [] after
  stands : ∀ later noted, after.Retains EverySlot noted later → later.Distinct →
    later.Prompts choices front.path text

theorem thread_prompt (items : List Item) (pos seen : Position) (text : Content) (front : Front) :
    thread (items ++ [.ask pos, .content seen text]) front =
      thread (items ++ [.ask pos]) front >>= item (.content seen text) := by
  rw [← thread_snoc, List.append_assoc]
  rfl

/-- Choices, a prompt and a text that were linked stand one behind the other. -/
theorem prompt_links (pos seen : Position) (text : Content)
    (hi : List.Forall₂ Choice.IsRead choices items) (front : Front) {story : Story} :
    Yields Anything (fun _ after => Prompting choices text front story after)
      (thread (items ++ [.ask pos, .content seen text]) front) story := by
  rw [thread_prompt]
  refine Yields.bind (ask_links pos hi front) ?_
  rintro front' mid ⟨outs, hask⟩
  obtain rfl := hask.onward
  refine Yields.bind (arrive_retains _ (.content text none) seen) ?_
  rintro id after ⟨r, -, hholds, hjoin⟩
  refine Yields.pure ⟨hask.retains.quiet r, fun later noted r' hd => ?_⟩
  have hgone : ∀ l ∈ outs, later.Gone (.node (Choice.last choices front.path).next.name) l :=
    fun l hl => (hjoin l (List.mem_append_right _ hl) (hask.answered l hl).settled).retained r' trivial
  obtain ⟨hoffers, hasks⟩ := hask.stands later _ _ (r.trans r') hd hgone
  obtain ⟨body, hget, hgrown⟩ := (hholds.retained r' trivial).grown hd
  obtain ⟨next, rfl⟩ := hgrown.content
  exact hoffers.prompts hasks ⟨next, hget⟩

/-- Wherever there is room choices, a prompt and a text are linked. -/
theorem prompt_total (pos seen : Position) (text : Content)
    (hi : List.Forall₂ Choice.IsRead choices items)
    (hr : Recorded start (frame ++ front.held) story) (h : story.Room front.path) :
    ∃ front' after, thread (items ++ [.ask pos, .content seen text]) front story =
      .ok front' after := by
  have hroom : Yields Unlinked (fun front' after => after.Clear front'.path)
      (thread (items ++ [.ask pos, .content seen text]) front) story := by
    rw [thread_prompt]
    refine Yields.bind (ask_room pos hi front h) fun front1 mid hclear => ?_
    exact Yields.bind (arrive_room front1 hclear.room (.content text none) seen) fun _ _ hpast =>
      Yields.pure (Roomy.of_past hpast).clear
  obtain ⟨front', after, hrun, -⟩ := Yields.total hroom ((kept_recorded start).thread _ front hr)
  exact ⟨front', after, hrun⟩

/-- Where there is room, and nothing asks for the name of the text, it is reached by the answers and by
what waited for a prompt before. -/
theorem prompt_reached (pos seen : Position) (text : Content)
    (hi : List.Forall₂ Choice.IsRead choices items) (h : story.Room front.path)
    (hs : story.Sound (Written tokens) fun _ => False)
    (hn : ¬ Written tokens (Choice.last choices front.path).next.name) :
    Yields Anything (fun _ after => ∀ l,
        after.Aims (.node (Choice.last choices front.path).next.name) l →
        after.Answers (Choice.answers choices front.path) l ∨ l ∈ front.ends.escs)
      (thread (items ++ [.ask pos, .content seen text]) front) story := by
  have heach : Each (IsWritten tokens) (items ++ [.ask pos]) :=
    each_append.mpr ⟨choices_written hi tokens, trivial, trivial⟩
  rw [thread_prompt]
  refine Yields.bind (((ask_links pos hi front).and (ask_room pos hi front h)).and
    (thread_keeps _ front heach hs)) ?_
  rintro front' mid ⟨⟨⟨outs, hask⟩, hclear⟩, hsound, -⟩
  obtain rfl := hask.onward
  -- Nothing leads to the place of the text before it is written: the name is free.
  have hnone := hsound.not_aims (hclear.free _ (Path.covers_self _)) hn
  refine Yields.bind ((arrive_retains _ _ seen).and
    (arrive_aims _ (isOpen_content text) seen hclear.distinct hnone)) ?_
  rintro id after ⟨⟨r, -⟩, haims⟩
  refine Yields.pure fun l hl => ?_
  rcases List.mem_append.mp (haims l hl) with hm | hm
  · exact .inr hm
  · exact .inl ((hask.answered l hm).retained r)

end Prompt

section Close

variable {asked : String → Prop} {after : Story}

theorem missingLabels_eq_nil (s : story.Sound asked fun _ => False) (ha : ∀ name, ¬ asked name) :
    story.missingLabels = [] := by
  refine List.eq_nil_iff_forall_not_mem.mpr fun d hd => ?_
  obtain ⟨node, hn, name, hm, hc, -⟩ := mem_missingLabels.mp hd
  exact ha name (s.asked_of_missing hn hm hc)

/-- Where ends are sent to no node, nothing more leads to one. -/
theorem tie_elsewhere {target : Target} (name : String) (ends : List LooseEnd)
    (ht : ∀ other, target ≠ .node other) (s : story.Sound asked fun _ => False) :
    Yields Anything (fun _ after => story.Retains EverySlot [] after ∧
      after.Sound asked (fun _ => False) ∧
      ∀ l, after.Aims (.node name) l → story.Aims (.node name) l) (tie target ends) story := by
  have hknown : KnownTarget asked story target := fun other he => absurd he (ht other)
  refine (Yields.and (Yields.and (tie_retains target ends) (sound_tie ends hknown s))
    (tie_aims target (.node name) ends)).mono fun _ after h => ?_
  obtain ⟨⟨⟨hr, -⟩, hs, -⟩, ha⟩ := h
  exact ⟨hr, hs, fun l hl => (ha l hl).resolve_right fun he => ht name he.1.symm⟩

/-- The end of a script in which nothing is asked for ties what is held and reports nothing. -/
theorem close_quiet (name : String) (front : Front) (s : story.Sound asked fun _ => False)
    (ha : ∀ name, ¬ asked name) :
    Yields Anything (fun _ after => story.Retains EverySlot [] after ∧
      ∀ l, after.Aims (.node name) l → story.Aims (.node name) l) (close front) story := by
  refine Yields.bind (tie_elsewhere name front.ends.rets (by simp) s) fun _ s1 ⟨r1, h1, a1⟩ => ?_
  refine Yields.bind (tie_elsewhere name front.ends.escs (by simp) h1) fun _ s2 ⟨r2, h2, a2⟩ => ?_
  have hcheck : check s2 = .ok () s2 := by
    simp [check, missingLabels_eq_nil h2 ha]
  unfold Yields
  rw [hcheck]
  exact ⟨r1.quiet r2, fun l hl => a1 l (a2 l hl)⟩

end Close

end Build

open Build Story Script

theorem not_written_nil (name : String) : ¬ Written [] name := by
  rintro ⟨before, arrow, ts, rest, h, -⟩
  simp at h

/-- A script of choices, a prompt and a text compiles without a mistake. -/
theorem prompt_compiles {ts : List Token} {choices : List Choice} {items : List Item}
    {pos seen : Position} {text : Content} (hi : List.Forall₂ Choice.IsRead choices items)
    (hread : (script ts).Gives (items ++ [.ask pos, .content seen text]) []) (start : String) :
    ∃ story, compile start ts = .ok story ∧ story.diagnostics = #[] ∧
      story.Prompts choices (.root start) text ∧
      ∀ node ∈ story.nodes, ∀ outlet,
        (outlet, some (.node (Choice.last choices (.root start)).next.name)) ∈ node.body.links →
        node.name ∈ Choice.answers choices (.root start) ∧ outlet = .next := by
  obtain ⟨entry, before, hentry, hrec, hroom⟩ := begin_room start (here ts)
  have hempty := sound_empty (Written []) start
  have hbefore := ((placeholder_keeps (.root start) (here ts) hempty).of_ok hentry).1
  have hheld : Recorded start ([] ++ (entering (.root start) (nextEnd entry)).held) before := hrec
  obtain ⟨front, after, hrun⟩ := prompt_total pos seen text hi hheld hroom
  have hp := (prompt_links pos seen text hi _).of_ok hrun
  have hreached := (prompt_reached pos seen text hi hroom hbefore (not_written_nil _)).of_ok hrun
  have hwhole : whole start (here ts) (script ts).value (.empty start) = .ok front after := by
    rw [hread.1]
    exact (run_bind hentry).trans hrun
  have hd := (whole_distinct start (here ts) _).of_ok hwhole
  have hsound : after.Sound (Written []) fun _ => False := by
    have heach : Each (IsWritten []) (items ++ [.ask pos, .content seen text]) :=
      each_append.mpr ⟨choices_written hi [], trivial, trivial, trivial⟩
    exact ((thread_keeps _ _ heach hbefore).of_ok hrun).1
  obtain ⟨story, hclose, hcompile⟩ := linked_compiles hwhole hd hread.2
  obtain ⟨r, haims⟩ := (close_quiet _ front hsound not_written_nil).of_ok hclose
  refine ⟨story, hcompile, ?_, hp.stands story [] r ((close_distinct hd front).of_ok hclose),
    fun node hn outlet hl => ?_⟩
  · have hfirst := ((addSlot_retains _ _).of_ok hentry).1
    exact Array.toList_inj.mp ((hfirst.quiet hp.retains).quiet r).diagnostics
  · obtain ⟨id, hlive⟩ := exists_node?_of_mem hn
    have hm := hreached ⟨id, outlet⟩ (haims _ ⟨node, hlive, Body.mem_links_iff.mp hl⟩)
    obtain ⟨name, hname, other, content, he, hh⟩ := (hm.resolve_right List.not_mem_nil).retained r
    obtain ⟨rfl, rfl⟩ := LooseEnd.mk.inj he
    obtain ⟨found, hfound, rfl, -⟩ := hh
    rw [node?_eq_some_iff.mpr (.inl hfound)] at hlive
    exact ⟨Option.some.inj hlive ▸ hname, rfl⟩

/-- Choices, an empty prompt behind them and a text are read one after the other. Once they are linked,
whatever was linked before and comes later, each choice leads past itself to the next one, the last of
them to the prompt, and all answers to the text. Where there is room linking them succeeds, and if
nothing asks for the name of the text, only what waited for a prompt before leads there as well. A
script of nothing else compiles without a mistake, and nothing but the answers leads to the text. -/
theorem choices_prompt {ts run zs : List Token} {choices : List Choice} {t u z : Token}
    {seen : Position} {text : Content}
    (hc : SpellsChoices ts choices (t :: u :: (run ++ z :: zs)))
    (ht : t.sign = .start) (hb : t.text = ">") (hu : u.kind = .stop) (hr : IsRun run)
    (hrun : runItems run z = [.content seen text]) (hz : z.isText = false) :
    ∃ items,
      (∀ more rest, (Script.thread (z :: zs)).Gives more rest →
        (Script.thread ts).Gives (items ++ more) rest) ∧
      (∀ front front' story after, Build.thread items front story = .ok front' after →
        Prompting choices text front story after) ∧
      (∀ front story, story.Room front.path →
        (∀ start frame, Recorded start (frame ++ front.held) story →
          ∃ front' after, Build.thread items front story = .ok front' after) ∧
        ∀ tokens, story.Sound (Written tokens) (fun _ => False) →
          ¬ Written tokens (Choice.last choices front.path).next.name →
          ∀ front' after, Build.thread items front story = .ok front' after →
            ∀ l, after.Aims (.node (Choice.last choices front.path).next.name) l →
              after.Answers (Choice.answers choices front.path) l ∨ l ∈ front.ends.escs) ∧
      (z.kind = .stop → zs = [] → ∀ start, ∃ story, compile start ts = .ok story ∧
        story.diagnostics = #[] ∧ story.Prompts choices (.root start) text ∧
        ∀ node ∈ story.nodes, ∀ outlet,
          (outlet, some (.node (Choice.last choices (.root start)).next.name)) ∈ node.body.links →
          node.name ∈ Choice.answers choices (.root start) ∧ outlet = .next) := by
  obtain ⟨items, hitems, hread⟩ := hc.gives
  have hne : run ≠ [] := by
    rintro rfl
    cases hrun
  have hall : ∀ more rest, (Script.thread (z :: zs)).Gives more rest →
      (Script.thread ts).Gives (items ++ [.ask t.pos, .content seen text] ++ more) rest := by
    intro more rest h
    have htext := text_gives hr hne hz h
    rw [hrun] at htext
    have hprompt := hread _ _ (prompt_gives ht hb hu htext)
    rwa [List.append_assoc]
  refine ⟨_, hall, fun front front' story after hrun =>
    (prompt_links t.pos seen text hitems front).of_ok hrun, fun front story hroom => ⟨?_, ?_⟩,
    fun hstop hnil start => ?_⟩
  · exact fun start frame hrec => prompt_total t.pos seen text hitems hrec hroom
  · exact fun tokens hs hn front' after hrun =>
      (prompt_reached t.pos seen text hitems hroom hs hn).of_ok hrun
  subst hnil
  have hend := hall [] [z] (thread_run [] isRun_nil (endsBody_of_stop hstop).closes)
  rw [List.append_nil] at hend
  exact prompt_compiles hitems (script_gives hend hstop) start

/-- Two choices, the second of which is offered once. -/
theorem choices_prompt_twice : ∃ story choices,
    compile "start" [⟨.start, "", "+", ⟨1, 1⟩⟩, ⟨.mark, " ", "[", ⟨1, 3⟩⟩, ⟨.word, "", "Stay", ⟨1, 4⟩⟩,
      ⟨.mark, "", "]", ⟨1, 8⟩⟩, ⟨.word, " ", "still", ⟨1, 10⟩⟩, .stop ⟨2, 1⟩,
      ⟨.start, "", "*", ⟨2, 1⟩⟩, ⟨.mark, " ", "[", ⟨2, 3⟩⟩, ⟨.word, "", "Go", ⟨2, 4⟩⟩,
      ⟨.mark, "", "]", ⟨2, 6⟩⟩, ⟨.word, " ", "home", ⟨2, 8⟩⟩, .stop ⟨3, 1⟩,
      ⟨.start, "", ">", ⟨3, 1⟩⟩, .stop ⟨4, 1⟩, ⟨.word, "", "Night", ⟨4, 1⟩⟩, .stop ⟨5, 1⟩] = .ok story ∧
    story.diagnostics = #[] ∧ story.Prompts choices (.root "start") (.text "Night" "" "") ∧
    choices.length = 2 ∧ ∀ node ∈ story.nodes, ∀ outlet,
      (outlet, some (.node "start.4")) ∈ node.body.links →
      node.name ∈ ["start.0.2", "start.2.3"] ∧ outlet = .next := by
  let text (space word : String) (pos : Position) : Token := ⟨.word, space, word, pos⟩
  let stay : Choice := ⟨⟨1, 1⟩, .repeated, [], ⟨1, 4⟩, .text "Stay" "" "", ⟨1, 10⟩,
    .text "still" " " ""⟩
  let go : Choice := ⟨⟨2, 1⟩, .once, [], ⟨2, 4⟩, .text "Go" "" "", ⟨2, 8⟩, .text "home" " " ""⟩
  have hchoices : SpellsChoices [⟨.start, "", "+", ⟨1, 1⟩⟩, ⟨.mark, " ", "[", ⟨1, 3⟩⟩,
      text "" "Stay" ⟨1, 4⟩, ⟨.mark, "", "]", ⟨1, 8⟩⟩, text " " "still" ⟨1, 10⟩, .stop ⟨2, 1⟩,
      ⟨.start, "", "*", ⟨2, 1⟩⟩, ⟨.mark, " ", "[", ⟨2, 3⟩⟩, text "" "Go" ⟨2, 4⟩,
      ⟨.mark, "", "]", ⟨2, 6⟩⟩, text " " "home" ⟨2, 8⟩, .stop ⟨3, 1⟩, ⟨.start, "", ">", ⟨3, 1⟩⟩,
      .stop ⟨4, 1⟩, text "" "Night" ⟨4, 1⟩, .stop ⟨5, 1⟩] [stay, go]
      (⟨.start, "", ">", ⟨3, 1⟩⟩ :: .stop ⟨4, 1⟩ :: ([text "" "Night" ⟨4, 1⟩] ++ [.stop ⟨5, 1⟩])) := by
    refine .choice (q := [text "" "Stay" ⟨1, 4⟩]) (a := [text " " "still" ⟨1, 10⟩]) rfl rfl rfl
      (.done rfl rfl) rfl (isRun_singleton rfl) rfl rfl (isRun_singleton rfl) rfl rfl ?_
    exact .choice (q := [text "" "Go" ⟨2, 4⟩]) (a := [text " " "home" ⟨2, 8⟩]) rfl rfl rfl
      (.done rfl rfl) rfl (isRun_singleton rfl) rfl rfl (isRun_singleton rfl) rfl rfl .done
  obtain ⟨items, -, -, -, hcompiles⟩ :=
    choices_prompt hchoices rfl rfl rfl (isRun_singleton rfl) rfl rfl
  obtain ⟨story, hstory, hd, hp, hreached⟩ := hcompiles rfl rfl "start"
  have hnames : (Choice.last [stay, go] (.root "start")).next.name = "start.4" ∧
      Choice.answers [stay, go] (.root "start") = ["start.0.2", "start.2.3"] := by decide +kernel
  rw [hnames.1, hnames.2] at hreached
  exact ⟨story, [stay, go], hstory, hd, hp, rfl, hreached⟩

end Storyline
