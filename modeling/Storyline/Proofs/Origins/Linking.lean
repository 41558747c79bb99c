import Storyline.Proofs.Options.Within
import Storyline.Proofs.Origins.Adding

namespace Storyline

/-- Linking the item may write a node at this path that begins as this body. -/
inductive Item.Makes : Item → Path → Position → Body → Prop where
  | content {path pos c} : Makes (.content pos c) path pos (.content c none)
  | ask {path pos} : Makes (.ask pos) path pos .ask
  | call {path pos label args} : Makes (.call pos label args) path pos (.call label args none none)
  | label {pos name seen label} : Makes (.label pos name seen) (.root label) pos (.goto none)
  | loop {path pos body} : Makes (.loop pos body) path pos (.goto none)
  | define {pos name params seen body label} :
      Makes (.define pos name params seen body) (.root label) pos (.define params none)
  | jump {path pos condition yes no} :
      Makes (.jump pos condition yes no) path pos (.jump condition.inverted none none)
  | switch {path pos selection found} :
      Makes (.switch pos selection found) path pos (selection.body path found)
  | guard {entry path pos leader terms parts guard} (h : guard ∈ (terms.ledBy leader entry).guards) :
      Makes (.option pos leader terms parts) path pos (.jump guard.inverted none none)
  | option {path pos leader terms parts question answer} (h : answer ≠ []) :
      Makes (.option pos leader terms parts) path pos
        (.option question answer (Body.wordSet terms.keywords) none)
  | consequence {entry path pos leader terms parts assignment}
      (h : assignment ∈ (terms.ledBy leader entry).consequences) :
      Makes (.option pos leader terms parts) path pos
        (.content (.move assignment.target assignment.source) none)
  | part {path pos leader terms parts at' role body} (h : .mk at' role body ∈ parts) :
      Makes (.option pos leader terms parts) path at' (.goto none)
  | conclude {path pos leader terms parts} :
      Makes (.option pos leader terms parts) path pos (.goto none)

open Build in
theorem Item.Makes.isOpen {i : Item} {path : Path} {pos : Position} {body : Body}
    (h : i.Makes path pos body) : body.IsOpen := by
  cases h with
  | content => exact isOpen_content _
  | ask => exact isOpen_ask
  | call => exact isOpen_call _ _
  | label => exact isOpen_goto
  | loop => exact isOpen_goto
  | define => exact isOpen_define _
  | jump => exact isOpen_jump _
  | switch => exact isOpen_switch _ _ _
  | guard => exact isOpen_jump _
  | option =>
    intro outlet link hl
    cases outlet <;> simp_all [Body.link?]
  | consequence => exact isOpen_content _
  | part => exact isOpen_goto
  | conclude => exact isOpen_goto

namespace Script

variable {made : String → Position → Body → Prop} {asked : String → Prop} {i : Item}
  {rest body : List Item}

/-- What the items make may be written, and the labels they go to are asked for. -/
structure Covers (made : String → Position → Body → Prop) (asked : String → Prop)
    (items : List Item) : Prop where
  makes : ∀ i : Item, i.Within items → ∀ (path : Path) (pos : Position) (body : Body),
    i.Makes path pos body → made path.name pos body
  gotos : ∀ label, (Item.goto label).Within items → asked label

theorem Covers.mono {items : List Item} (h : Covers made asked items)
    (hs : ∀ j : Item, j.Within body → j.Within items) : Covers made asked body :=
  ⟨fun j hj => h.makes j (hs j hj), fun label hj => h.gotos label (hs _ hj)⟩

theorem Covers.tail (h : Covers made asked (i :: rest)) : Covers made asked rest :=
  h.mono fun _ => .later

theorem Covers.inside (h : Covers made asked (i :: rest)) (hb : body ∈ i.bodies) :
    Covers made asked body :=
  h.mono fun _ => .inside hb

theorem Covers.head (h : Covers made asked (i :: rest)) {path : Path} {pos : Position} {body : Body}
    (hm : i.Makes path pos body) : made path.name pos body :=
  h.makes i .here path pos body hm

end Script

/-- A draft that its last part goes on from has that part among its answers. -/
def Draft.IsAnswered (draft : Draft) : Prop := draft.advancing = true → draft.answer ≠ []

theorem Draft.answer_file_ne_nil (name : String) (draft : Draft) :
    (draft.file .answer name).answer ≠ [] :=
  List.append_ne_nil_of_right_ne_nil _ (List.cons_ne_nil name [])

namespace Build

open Story Script

variable {base : Nat} {made : String → Position → Body → Prop} {asked : String → Prop}
  {story : Story}

theorem claim_adding (name : String) (seen : Position) :
    Adding base made asked (fun _ _ => True) (claim name seen) story := by
  have hstory : Adding base made asked (fun _ _ => True) Build.story story :=
    fun _ => show Yields _ _ _ _ from ⟨.refl story, trivial⟩
  refine hstory.bind fun _ mid _ _ => ?_
  split
  · exact (report_adding _ _).bind fun _ _ _ _ => .pure trivial
  split
  · exact (report_adding _ _).bind fun _ _ _ _ => .pure trivial
  · exact .pure trivial

theorem guards_adding {pos : Position} (gs : List Expr) (path : Path) (rets : List LooseEnd)
    (hm : ∀ guard ∈ gs, ∀ path : Path, made path.name pos (.jump guard.inverted none none)) :
    Adding base made asked (fun _ _ => True) (guards pos gs path rets) story := by
  induction gs generalizing path rets story with
  | nil => exact .pure trivial
  | cons guard rest ih =>
    obtain ⟨hhead, htail⟩ := List.forall_mem_cons.mp hm
    refine (arrive_adding ⟨path, rets, []⟩ (hhead path)).bind fun id mid _ _ => ?_
    exact (ih path.next [nextEnd id] htail).bind fun _ _ _ _ => .pure trivial

theorem chain_adding {pos : Position} (assignments : List Assignment) (path : Path)
    (rets : List LooseEnd) (hm : ∀ a ∈ assignments, ∀ path : Path,
      made path.name pos (.content (.move a.target a.source) none)) :
    Adding base made asked (fun _ _ => True) (chain pos assignments path rets) story := by
  induction assignments generalizing path rets story with
  | nil => exact .pure trivial
  | cons a rest ih =>
    obtain ⟨hhead, htail⟩ := List.forall_mem_cons.mp hm
    refine (arrive_adding ⟨path, rets, []⟩ (hhead path)).bind fun id mid _ _ => ?_
    exact ih path.next [nextEnd id] htail

theorem consequences_adding {pos : Position} (assignments : List Assignment) (draft : Draft)
    (hm : ∀ a ∈ assignments, ∀ path : Path,
      made path.name pos (.content (.move a.target a.source) none)) :
    Adding base made asked (fun after _ => after.advancing = draft.advancing)
      (consequences pos assignments draft) story := by
  unfold consequences
  split
  · exact .pure rfl
  · refine (chain_adding assignments draft.path [] hm).bind fun ends mid _ _ => ?_
    exact (tie_adding ends.2 .ret).bind fun _ _ _ _ => .pure rfl

theorem fileSegment_adding (role : Role) (isEmpty : Bool) (entry : NodeId) (draft : Draft) :
    Adding base made asked
      (fun filed _ => isEmpty = false → role = .answer → filed.answer ≠ [])
      (fileSegment role isEmpty entry draft) story := by
  unfold fileSegment
  cases isEmpty with
  | true => exact (discard_adding entry).bind fun _ _ _ _ => .pure fun h => by cases h
  | false =>
    refine .pure fun _ hrole => ?_
    subst hrole
    exact draft.answer_file_ne_nil _

theorem settle_adding (role : Role) (last : Bool) (entry : NodeId) (front : Front) (draft : Draft) :
    Adding base made asked (fun after _ => after.IsAnswered) (settle role last entry front draft)
      story := by
  have hstory : Adding base made asked (fun _ _ => True) Build.story story :=
    fun _ => show Yields _ _ _ _ from ⟨.refl story, trivial⟩
  refine hstory.bind fun found mid _ _ => ?_
  dsimp only
  refine (fileSegment_adding role _ entry draft).bind fun filed mid _ hfiled => ?_
  split
  · next hadvancing =>
    simp only [Bool.and_eq_true, beq_iff_eq, Bool.not_eq_true'] at hadvancing
    exact .pure fun _ => hfiled hadvancing.2 hadvancing.1.2
  · next hstays =>
    exact (tie_adding front.ends.rets .ret).bind fun _ _ _ _ => .pure fun h => absurd h hstays

theorem conclude_adding {pos : Position} (draft : Draft) (hd : draft.IsAnswered)
    (hm : ∀ path : Path, made path.name pos (.goto none)) :
    Adding base made asked (fun after _ => after.answer ≠ []) (conclude pos draft) story := by
  unfold conclude
  split
  · next h => exact .pure (hd h)
  · refine (create_adding draft.path (hm draft.path)).bind fun id _ _ _ => .pure ?_
    exact draft.answer_file_ne_nil _

mutual

theorem item_adding (i : Item) {rest : List Item} (front : Front) {story : Story}
    (h : Covers made asked (i :: rest)) :
    Adding base made asked (fun _ _ => True) (item i front) story := by
  cases i with
  | report d => exact (report_adding d.pos d.mistake).bind fun _ _ _ _ => .pure trivial
  | cut => exact fun _ => trivial
  | passed left => exact .pure trivial
  | content pos c =>
    exact (arrive_adding front (h.head .content)).bind fun _ _ _ _ => .pure trivial
  | ask pos => exact (arrive_adding front (h.head .ask)).bind fun _ _ _ _ => .pure trivial
  | leave => exact (tie_adding front.ends.rets .ret).bind fun _ _ _ _ => .pure trivial
  | goto label =>
    have hasked : asked label := h.gotos label .here
    exact (tie_adding front.ends.rets (.asked hasked)).bind fun _ _ _ _ => .pure trivial
  | call pos label args =>
    exact (arrive_adding front (h.head .call)).bind fun _ _ _ _ => .pure trivial
  | label pos name seen =>
    refine (claim_adding name seen).bind fun label mid _ _ => ?_
    refine (placeholder_adding (.root label) (h.head .label)).bind fun entry mid _ hb => ?_
    exact (tie_adding front.ends.rets (.born hb)).bind fun _ _ _ _ => .pure trivial
  | loop pos body =>
    refine (placeholder_adding front.path (h.head .loop)).bind fun entry mid _ hb => ?_
    refine (tie_adding front.ends.rets (.born hb)).bind fun _ mid hl _ => ?_
    have hbody : Covers made asked body := h.inside (List.mem_singleton_self body)
    refine (thread_adding body _ hbody).bind fun after mid' hl' _ => ?_
    -- the entry still bears its name once the body is linked
    have hb' := (hb.later hl).later hl'
    exact (tie_adding after.ends.rets (.born hb')).bind fun _ _ _ _ => .pure trivial
  | define pos name params seen body =>
    refine (claim_adding name seen).bind fun label mid _ _ => ?_
    refine (create_adding (.root label) (h.head .define)).bind fun id mid _ _ => ?_
    have hbody : Covers made asked body := h.inside (List.mem_singleton_self body)
    refine (thread_adding body _ hbody).bind fun after mid _ _ => ?_
    refine (tie_adding after.ends.rets .ret).bind fun _ mid _ _ => ?_
    exact (tie_adding after.ends.escs .esc).bind fun _ _ _ _ => .pure trivial
  | jump pos condition yes no =>
    refine (arrive_adding front (h.head .jump)).bind fun id mid _ _ => ?_
    have hyes : Covers made asked yes := h.inside (List.mem_cons_self ..)
    have hno : Covers made asked no := h.inside (List.mem_cons_of_mem _ (List.mem_singleton_self no))
    refine (thread_adding yes _ hyes).bind fun yes mid _ _ => ?_
    exact (thread_adding no _ hno).bind fun no mid _ _ => .pure trivial
  | switch pos selection found =>
    refine (arrive_adding front (h.head .switch)).bind fun id mid _ _ => ?_
    have hcases : ∀ c ∈ found, Covers made asked c.body := fun c hc =>
      h.inside (List.mem_map_of_mem hc)
    exact (cases_adding id 0 found _ hcases).bind fun _ _ _ _ => .pure trivial
  | option pos leader terms parts =>
    let led := terms.ledBy leader front.path
    have hguards : ∀ guard ∈ led.guards, ∀ path : Path,
        made path.name pos (.jump guard.inverted none none) :=
      fun guard hg path => h.head (.guard hg)
    refine (guards_adding led.guards front.path front.ends.rets hguards).bind
      fun found mid _ _ => ?_
    obtain ⟨path, rets, skips⟩ := found
    intro hbase
    -- the option itself is written without threads and given them when its parts are there
    have hempty : Adding base (fun name' pos' body' => name' = path.name ∧ pos' = pos ∧
          body' = .option [] [] (Body.wordSet led.keywords) none) asked
        (fun _ after => after.Bears base path.name)
        (arrive ⟨path, rets, []⟩ (.option [] [] (Body.wordSet led.keywords) none) pos) mid :=
      arrive_adding ⟨path, rets, []⟩ ⟨rfl, rfl, rfl⟩
    refine Yields.bind ((hempty hbase).and (arrive_size _ _ _)) fun id mid₁ hmid₁ => ?_
    obtain ⟨⟨hfirst, -⟩, rfl, hsize⟩ := hmid₁
    have hbase₁ : base ≤ mid₁.slots.size := by omega
    have hconsequences : ∀ a ∈ led.consequences, ∀ path : Path,
        made path.name pos (.content (.move a.target a.source) none) :=
      fun a ha path => h.head (.consequence ha)
    have hparts : ∀ part ∈ parts, Covers made asked part.body := fun part hp =>
      h.inside (List.mem_map_of_mem hp)
    have hentries : ∀ at' role body, .mk at' role body ∈ parts → ∀ path : Path,
        made path.name at' (.goto none) := fun at' role body hp path => h.head (.part hp)
    have hbegin : Adding base made asked (fun draft _ => draft.advancing = false)
        (consequences pos led.consequences ⟨path.firstChild, [], [], [], false⟩) mid₁ :=
      consequences_adding led.consequences _ hconsequences
    refine Yields.bind (hbegin hbase₁) fun draft mid₂ ⟨hadds₂, hdraft⟩ => ?_
    have hbase₂ := Nat.le_trans hbase₁ hadds₂.names.size_le
    have hanswered : draft.IsAnswered := fun ha => by simp [hdraft] at ha
    refine Yields.bind (segments_adding parts draft hanswered hparts hentries hbase₂)
      fun draft mid₃ ⟨hadds₃, hdraft⟩ => ?_
    have hbase₃ := Nat.le_trans hbase₂ hadds₃.names.size_le
    have hlast : Adding base made asked (fun after _ => after.answer ≠ []) (conclude pos draft) mid₃ :=
      conclude_adding draft hdraft fun path => h.head .conclude
    refine Yields.bind (hlast hbase₃) fun draft mid₄ ⟨hadds₄, hanswer⟩ => ?_
    refine Yields.bind (modifyBody_changes _ _) fun _ after hchanges => Yields.pure ⟨?_, trivial⟩
    have hkeywords : led.keywords = terms.keywords := by
      cases leader <;> rfl
    have hoption : made path.name pos
        (.option draft.question draft.answer (Body.wordSet led.keywords) none) := by
      rw [hkeywords]
      exact h.head (.option hanswer)
    exact .offer hsize hfirst ((hadds₂.trans hadds₃).trans hadds₄) hchanges hoption

theorem thread_adding (items : List Item) (front : Front) {story : Story}
    (h : Covers made asked items) :
    Adding base made asked (fun _ _ => True) (thread items front) story := by
  cases items with
  | nil => exact .pure trivial
  | cons i rest =>
    exact (item_adding i front h).bind fun after _ _ _ => thread_adding rest after h.tail

theorem cases_adding (id : NodeId) (index : Nat) (found : List Case) (path : Path) {story : Story}
    (h : ∀ c ∈ found, Covers made asked c.body) :
    Adding base made asked (fun _ _ => True) (cases id index found path) story := by
  cases found with
  | nil => exact .pure trivial
  | cons c rest =>
    obtain ⟨weight, body⟩ := c
    obtain ⟨hbody, hrest⟩ := List.forall_mem_cons.mp h
    refine (thread_adding body _ hbody).bind fun front _ _ _ => ?_
    exact (cases_adding id (index + 1) rest front.path hrest).bind fun _ _ _ _ => .pure trivial

theorem segments_adding (parts : List Segment) (draft : Draft) {story : Story}
    (hd : draft.IsAnswered) (h : ∀ part ∈ parts, Covers made asked part.body)
    (hm : ∀ at' role body, .mk at' role body ∈ parts → ∀ path : Path,
      made path.name at' (.goto none)) :
    Adding base made asked (fun after _ => after.IsAnswered) (segments parts draft) story := by
  cases parts with
  | nil => exact .pure hd
  | cons part rest =>
    obtain ⟨pos, role, body⟩ := part
    obtain ⟨hbody, hrest⟩ := List.forall_mem_cons.mp h
    have hentry := hm pos role body (List.mem_cons_self ..) draft.path
    refine (placeholder_adding draft.path hentry).bind fun entry _ _ _ => ?_
    refine (thread_adding body _ hbody).bind fun front _ _ _ => ?_
    refine (settle_adding role rest.isEmpty entry front draft).bind fun draft _ _ hd => ?_
    exact segments_adding rest draft hd hrest fun at' role body hp =>
      hm at' role body (List.mem_cons_of_mem _ hp)

end

end Build

end Storyline
