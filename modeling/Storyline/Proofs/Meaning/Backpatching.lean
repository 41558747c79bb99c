import Storyline.Proofs.Linking
import Storyline.Proofs.Meaning.Growth
import Storyline.Proofs.Meaning.Leading

namespace Storyline

namespace Story

variable {script : Script} {story after : Story} {id : NodeId} {node : Node} {name : String}
  {items : List Item} {loose : LooseEnd} {body : Body}

theorem get?_of_settled (hd : story.Distinct) (hs : story.slots[id]? = some (.settled node)) :
    story.get? node.name = some node := by
  have hn : story.node? id = some node := node?_eq_some_iff.mpr (.inl hs)
  rw [get?, find?_of_node hd hn, Option.bind_some, hn]

/-- The loose end belongs to a node that stays. -/
def Settled (story : Story) (loose : LooseEnd) : Prop :=
  ∃ node, story.slots[loose.node]? = some (.settled node)

theorem Settled.later (h : story.Settled loose) (hg : story.Grows after) : after.Settled loose := by
  obtain ⟨node, hs⟩ := h
  obtain ⟨slot, hs', hb⟩ := hg _ _ hs
  cases hb with
  | settled => exact ⟨_, hs'⟩

/-- The loose end belongs to a node that stays or to the placeholder of the path. -/
def Waits (story : Story) (path : Path) (loose : LooseEnd) : Prop :=
  story.Settled loose ∨ story.status path.name = .waiting loose.node

theorem Waits.live {path : Path} (h : story.Waits path loose) :
    (story.node? loose.node).isSome := by
  rcases h with ⟨node, hs⟩ | hw
  · rw [node?_eq_some_iff.mpr (.inl hs)]
    rfl
  · obtain ⟨node, hs, -⟩ := slot_of_waiting hw
    rw [node?_eq_some_iff.mpr (.inr hs)]
    rfl

/-- What waits is not in a slot that was not there. -/
theorem Waits.not_mem {path : Path} {ends : List LooseEnd} (hw : ∀ l ∈ ends, story.Waits path l)
    (hf : story.slots[id]? = none) : id ∉ ends.map LooseEnd.node := by
  intro hm
  obtain ⟨l, hl, rfl⟩ := List.mem_map.mp hm
  have hlive := (hw l hl).live
  simp [node?, hf] at hlive

/-- The loose end leads to the node of this name, or the node has taken its place. -/
def Brought (story : Story) (name : String) (loose : LooseEnd) : Prop :=
  story.Gone (.node name) loose ∨ ∃ flows, story.slots[loose.node]? = some (.replaced name flows)

theorem Brought.later (h : story.Brought name loose) (hg : story.Grows after) :
    after.Brought name loose := by
  rcases h with h | ⟨flows, hs⟩
  · exact .inl (h.later hg)
  · obtain ⟨slot, hs', hb⟩ := hg _ _ hs
    cases hb with
    | replaced => exact .inr ⟨_, hs'⟩

/-- A node that was written as `body` stays in the slot. -/
def Holds (story : Story) (id : NodeId) (name : String) (body : Body) : Prop :=
  ∃ node, story.slots[id]? = some (.settled node) ∧ node.name = name ∧ body.Grows node.body

theorem Holds.later (h : story.Holds id name body) (hg : story.Grows after) :
    after.Holds id name body := by
  obtain ⟨node, hs, hn, hb⟩ := h
  obtain ⟨slot, hs', hb'⟩ := hg _ _ hs
  cases hb' with
  | settled hn' hb' => exact ⟨_, hs', hn'.symm.trans hn, hb.trans hb'⟩

theorem Holds.settled (h : story.Holds id name body) (outlet : Outlet) :
    story.Settled ⟨id, outlet⟩ := by
  obtain ⟨node, hs, -⟩ := h
  exact ⟨node, hs⟩

/-- The loose end does what is left of the script. -/
def Does (script : Script) (story : Story) (loose : LooseEnd) (items : List Item) : Prop :=
  (∃ target, story.Gone target loose ∧ Leads script story false target items) ∨
    ∃ name flows, story.slots[loose.node]? = some (.replaced name flows) ∧
      Leads script story true (.node name) items

theorem Does.of_gone {target : Target} (h : story.Gone target loose) (hg : story.Grows after)
    (hl : Leads script after false target items) : Does script after loose items :=
  .inl ⟨target, h.later hg, hl⟩

theorem Does.of_brought (h : story.Brought name loose) (hg : story.Grows after)
    (hl : Leads script after true (.node name) items) : Does script after loose items := by
  rcases h.later hg with h | ⟨flows, hs⟩
  · exact .of_gone h (.refl after) (.node hl)
  · exact .inr ⟨name, flows, hs, hl⟩

/-- What became of a node that stays. -/
theorem Holds.grown (h : story.Holds id name body) (hd : story.Distinct) :
    ∃ after, (story.get? name).map Node.body = some after ∧ body.Grows after := by
  obtain ⟨node, hs, rfl, hb⟩ := h
  have hget := get?_of_settled hd hs
  exact ⟨node.body, by rw [hget, Option.map_some], hb⟩

/-- What a link of a node that stays does. -/
theorem Holds.does (h : story.Holds id name body) (hd : story.Distinct) {now : Body}
    (hnow : (story.get? name).map Node.body = some now) {outlet : Outlet}
    (hl : Does script story ⟨id, outlet⟩ items) :
    ∃ target, now.link? outlet = some (some target) ∧ Leads script story false target items := by
  obtain ⟨node, hs, rfl, -⟩ := h
  rw [get?_of_settled hd hs, Option.map_some] at hnow
  obtain rfl := Option.some.inj hnow
  rcases hl with ⟨target, ⟨other, hs', hlink⟩, hl⟩ | ⟨name, flows, hs', -⟩
  · rw [hs] at hs'
    cases hs'
    exact ⟨target, hlink, hl⟩
  · rw [hs] at hs'
    cases hs'

end Story

/-- The names and the links of a story are in order while labels are entered: every node stands
under a label entered, and every link leads to a node or to a label of the script. -/
structure Neat (entered labels : List String) (story : Story) : Prop where
  distinct : story.Distinct
  under : ∀ id node, story.node? id = some node → ∃ p : Path, p.label ∈ entered ∧ p.name = node.name
  plain : ∀ id node, story.node? id = some node → node.body.references = []
  aims : ∀ id node, story.node? id = some node → ∀ outlet name,
    node.body.link? outlet = some (some (.node name)) → story.contains name = true ∨ name ∈ labels

namespace Neat

open Build Story

variable {entered labels more : List String} {story after : Story}

theorem mono (hm : entered ⊆ more) (n : Neat entered labels story) : Neat more labels story := by
  refine ⟨n.distinct, fun id node hn => ?_, n.plain, n.aims⟩
  obtain ⟨p, hp, he⟩ := n.under id node hn
  exact ⟨p, hm hp, he⟩

theorem added (n : Neat entered labels story) {path : Path} {slot : Slot} {node : Node} {id : NodeId}
    (a : Added path.name slot story id after) (hp : path.label ∈ entered)
    (hn : slot.node? = some node) (hname : node.name = path.name) (ho : node.body.IsOpen)
    (hr : node.body.references = []) : Neat entered labels after := by
  have split (other : NodeId) (found : Node) (hf : after.node? other = some found) :
      found = node ∨ story.node? other = some found := by
    refine (a.nodes other found hf).imp_left fun h => ?_
    rw [hn] at h
    exact (Option.some.inj h).symm
  refine ⟨a.distinct, fun other found hf => ?_, fun other found hf => ?_,
    fun other found hf outlet name hl => ?_⟩
  · rcases split other found hf with rfl | hf
    · exact ⟨path, hp, hname.symm⟩
    · exact n.under other found hf
  · rcases split other found hf with rfl | hf
    · exact hr
    · exact n.plain other found hf
  · rcases split other found hf with rfl | hf
    · cases ho outlet _ hl
    · exact (n.aims other found hf outlet name hl).imp_left (a.later.contains name)

theorem sent (n : Neat entered labels story) {target : Target} {ends : List LooseEnd}
    (h : Sent target ends story after)
    (ht : ∀ name, target = .node name → story.contains name = true ∨ name ∈ labels) :
    Neat entered labels after := by
  refine ⟨h.distinct, fun id node hn => ?_, fun id node hn => ?_, fun id node hn outlet name hl => ?_⟩
  · obtain ⟨was, hw, hname, -, -⟩ := h.nodes id node hn
    exact hname ▸ n.under id was hw
  · obtain ⟨was, hw, -, href, -⟩ := h.nodes id node hn
    exact href.trans (n.plain id was hw)
  · obtain ⟨was, hw, -, -, hlink⟩ := h.nodes id node hn
    rcases hlink outlet _ hl with hl | hl
    · exact (n.aims id was hw outlet name hl).imp_left (h.later.contains name)
    · exact (ht name hl.symm).imp_left (h.later.contains name)

end Neat

namespace Build

open Story

variable {script : Script} {entered labels : List String} {story : Story} {front : Front}

/-- What waited for a node is brought to it once it is written and the ends are tied. -/
theorem Added.brought {path : Path} {slot : Slot} {id : NodeId} {ends : List LooseEnd}
    {mid after : Story} (ha : Added path.name slot story id mid)
    (hs : Sent (.node path.name) ends mid after) (hw : ∀ l ∈ ends, story.Waits path l) :
    ∀ l ∈ ends, after.Brought path.name l := by
  intro l hl
  rcases hw l hl with h | h
  · obtain ⟨node, hn⟩ := h.later ha.later.grows
    refine .inl (hs.gone l hl ?_)
    rw [node?_eq_some_iff.mpr (.inl hn)]
    rfl
  · obtain ⟨flows, hn⟩ := ha.gaveWay l.node h
    obtain ⟨slot, hn', hb⟩ := hs.later.grows _ _ hn
    cases hb with
    | replaced => exact .inr ⟨_, hn'⟩

/-- A node was written at the path of a front and what waited for it was tied. -/
structure Arrives (entered labels : List String) (front : Front) (body : Body) (story : Story)
    (id : NodeId) (after : Story) : Prop where
  later : story.Later after
  neat : Neat entered labels after
  holds : after.Holds id front.path.name body
  brought : ∀ l ∈ front.ends.rets, after.Brought front.path.name l

theorem arrive_links (n : Neat entered labels story) (hp : front.path.label ∈ entered)
    (hw : ∀ l ∈ front.ends.rets, story.Waits front.path l) {body : Body} (ho : body.IsOpen)
    (hr : body.references = []) (pos : Position) :
    Yields (fun _ => True) (Arrives entered labels front body story) (arrive front body pos) story := by
  refine Yields.bind (yields_added n.distinct rfl rfl) fun id mid ha => ?_
  refine Yields.bind (yields_sent ha.distinct _ _) fun _ after hs => Yields.pure ?_
  have hmid : Neat entered labels mid := n.added ha hp rfl rfl ho hr
  refine ⟨ha.later.trans hs.later, hmid.sent hs fun name hn => ?_, ?_, ha.brought hs hw⟩
  · cases hn
    exact .inl ha.here
  · exact Holds.later ⟨_, ha.stored, rfl, .refl _⟩ hs.later.grows

/-- What linking some items comes to. -/
structure Linked (script : Script) (entered labels : List String) (items : List Item) (front : Front)
    (story : Story) (front' : Front) (after : Story) : Prop where
  later : story.Later after
  neat : Neat entered labels after
  label : front'.path.label = front.path.label
  escs : front'.ends.escs = front.ends.escs
  moved : (items = [] ∧ front' = front ∧ after = story) ∨
    ∀ l ∈ front'.ends.rets, after.Settled l
  does : ∀ final : Story, final.Distinct → after.Grows final → ∀ rest,
    (∀ l ∈ front'.ends.rets, final.Does script l rest) →
    ∀ l ∈ front.ends.rets, final.Does script l (items ++ rest)

namespace Linked

variable {i : Item} {items : List Item} {front' front'' : Front} {mid after : Story}

theorem nil (n : Neat entered labels story) :
    Linked script entered labels [] front story front story :=
  ⟨.refl story, n, rfl, rfl, .inl ⟨rfl, rfl, rfl⟩, fun _ _ _ _ h => h⟩

theorem waits (h : Linked script entered labels items front story front' after)
    (hw : ∀ l ∈ front.ends.rets, story.Waits front.path l) :
    ∀ l ∈ front'.ends.rets, after.Waits front'.path l := by
  rcases h.moved with ⟨-, rfl, rfl⟩ | hm
  · exact hw
  · exact fun l hl => .inl (hm l hl)

theorem settled (h : Linked script entered labels items front story front' after)
    (hs : ∀ l ∈ front.ends.rets, story.Settled l) : ∀ l ∈ front'.ends.rets, after.Settled l := by
  rcases h.moved with ⟨-, rfl, rfl⟩ | hm
  · exact hs
  · exact hm

theorem cons (h : Linked script entered labels [i] front story front' mid)
    (h' : Linked script entered labels items front' mid front'' after) :
    Linked script entered labels (i :: items) front story front'' after := by
  refine ⟨h.later.trans h'.later, h'.neat, h'.label.trans h.label, h'.escs.trans h.escs,
    .inr (h'.settled ?_), fun final hd hg rest hr => ?_⟩
  · rcases h.moved with ⟨hnil, -⟩ | hm
    · cases hnil
    · exact hm
  · have hmid := h.does final hd (h'.later.grows.trans hg) (items ++ rest) (h'.does final hd hg rest hr)
    exact hmid

end Linked

end Build

mutual

/-- The item lets the flow of a script be followed: it has no label, loop, subroutine, option,
prompt, call or mistake in it, and goes to these labels only. -/
def Item.Flows (labels : List String) : Item → Prop
  | .content .. => True
  | .leave => True
  | .goto label => label ∈ labels
  | .jump _ _ yes no => Script.Flows labels yes ∧ Script.Flows labels no
  | .switch _ _ found => Script.CasesFlow labels found
  | _ => False

def Script.Flows (labels : List String) : List Item → Prop
  | [] => True
  | i :: rest => i.Flows labels ∧ Script.Flows labels rest

def Script.CasesFlow (labels : List String) : List Case → Prop
  | [] => True
  | .mk _ body :: rest => Script.Flows labels body ∧ Script.CasesFlow labels rest

end

namespace Build

open Story

variable {script : Script} {entered labels : List String} {story : Story} {front : Front}

theorem append_links (n : Neat entered labels story) (hp : front.path.label ∈ entered)
    (hw : ∀ l ∈ front.ends.rets, story.Waits front.path l) (c : Content) (pos : Position) :
    Yields (fun _ => True) (Linked script entered labels [.content pos c] front story)
      (append front (.content c none) pos) story := by
  refine Yields.bind (arrive_links n hp hw (isOpen_content c) rfl pos) fun id after h => Yields.pure ?_
  have hend : ∀ l ∈ [nextEnd id], l = ⟨id, .next⟩ := by simp [nextEnd]
  refine ⟨h.later, h.neat, rfl, rfl, .inr fun l hl => ?_, fun final hd hg rest hr l hl => ?_⟩
  · rw [hend l hl]
    exact h.holds.settled .next
  · have hnext := hr (nextEnd id) (List.mem_singleton_self _)
    have held := h.holds.later hg
    obtain ⟨body, hget, hb⟩ := held.grown hd
    obtain ⟨target, hlink, hl'⟩ := held.does hd hget hnext
    obtain ⟨next, rfl⟩ := hb.content
    cases hlink
    exact .of_brought (h.brought l hl) hg (.content hget hl')

/-- The flow is sent elsewhere. -/
theorem divert_links (n : Neat entered labels story)
    (hw : ∀ l ∈ front.ends.rets, story.Waits front.path l) {target : Target} {i : Item}
    (ht : ∀ name, target = .node name → name ∈ labels)
    (hl : ∀ final rest, Leads script final false target (i :: rest)) :
    Yields (fun _ => True) (Linked script entered labels [i] front story) (divert front target)
      story := by
  refine Yields.bind (yields_sent n.distinct target _) fun _ after hs => Yields.pure ?_
  refine ⟨hs.later, n.sent hs fun name he => .inr (ht name he), rfl, rfl, .inr fun l hl => ?_,
    fun final hd hg rest _ l hm => ?_⟩
  · cases hl
  · exact .of_gone (hs.gone l hm (hw l hm).live) hg (hl final rest)

/-- What linking a thread behind one link of a node comes to. -/
structure Branched (script : Script) (entered labels : List String) (body : List Item) (path : Path)
    (loose : LooseEnd) (story : Story) (front : Front) (after : Story) : Prop where
  later : story.Later after
  neat : Neat entered labels after
  label : front.path.label = path.label
  escs : front.ends.escs = []
  settled : ∀ l ∈ front.ends.rets, after.Settled l
  does : ∀ final : Story, final.Distinct → after.Grows final → ∀ rest,
    (∀ l ∈ front.ends.rets, final.Does script l rest) → final.Does script loose (body ++ rest)

theorem Linked.branched {body : List Item} {path : Path} {loose : LooseEnd} {after : Story}
    (h : Linked script entered labels body (entering path loose) story front after)
    (hs : story.Settled loose) :
    Branched script entered labels body path loose story front after := by
  have hends : ∀ l ∈ (entering path loose).ends.rets, story.Settled l := by
    intro l hl
    rw [List.mem_singleton.mp hl]
    exact hs
  have hdoes (final : Story) (hd : final.Distinct) (hg : after.Grows final) (rest : List Item)
      (hr : ∀ l ∈ front.ends.rets, final.Does script l rest) :
      final.Does script loose (body ++ rest) :=
    h.does final hd hg rest hr loose (List.mem_singleton_self loose)
  exact ⟨h.later, h.neat, h.label, h.escs, h.settled hends, hdoes⟩

/-- What linking the cases of a switch from one on comes to. -/
structure CasesLinked (script : Script) (entered labels : List String) (found : List Case)
    (id : NodeId) (index : Nat) (path : Path) (story : Story) (front : Front) (after : Story) :
    Prop where
  later : story.Later after
  neat : Neat entered labels after
  escs : front.ends.escs = []
  settled : ∀ l ∈ front.ends.rets, after.Settled l
  does : ∀ final : Story, final.Distinct → after.Grows final → ∀ rest,
    (∀ l ∈ front.ends.rets, final.Does script l rest) →
    ∀ i case, found[i]? = some case →
      final.Does script ⟨id, .case (index + i)⟩ (case.body ++ rest)

/-- One case and those after it. -/
theorem Branched.cons {weight : Option Expr} {body : List Item} {found : List Case} {id : NodeId}
    {index : Nat} {path : Path} {front' : Front} {mid after : Story}
    (h : Branched script entered labels body path ⟨id, .case index⟩ story front mid)
    (h' : CasesLinked script entered labels found id (index + 1) front.path mid front' after) :
    CasesLinked script entered labels (.mk weight body :: found) id index path story
      ⟨front'.path, front.ends.append front'.ends⟩ after := by
  refine ⟨h.later.trans h'.later, h'.neat, ?_, fun l hl => ?_, fun final hd hg rest hr i case hc => ?_⟩
  · rw [Ends.append, h.escs, h'.escs, List.append_nil]
  · rcases List.mem_append.mp hl with hl | hl
    · exact (h.settled l hl).later h'.later.grows
    · exact h'.settled l hl
  · cases i with
    | zero =>
      obtain rfl := Option.some.inj hc
      have hrets : ∀ l ∈ front.ends.rets, final.Does script l rest :=
        fun l hl => hr l (List.mem_append_left _ hl)
      exact h.does final hd (h'.later.grows.trans hg) rest hrets
    | succ i =>
      have hrets : ∀ l ∈ front'.ends.rets, final.Does script l rest :=
        fun l hl => hr l (List.mem_append_right _ hl)
      have hcase := h'.does final hd hg rest hrets i case hc
      rwa [show index + 1 + i = index + (i + 1) by omega] at hcase

/-- Both sides of a jump lead on as the script says. -/
theorem jump_does {final : Story} (hd : final.Distinct) {id : NodeId} {pos : Position}
    {condition : Expr} {yes no rest : List Item} {name : String}
    (h : final.Holds id name (.jump condition.inverted none none))
    (hy : final.Does script (nextEnd id) (yes ++ rest))
    (hn : final.Does script ⟨id, .branch⟩ (no ++ rest)) :
    Leads script final true (.node name) (.jump pos condition yes no :: rest) := by
  obtain ⟨body, hget, hb⟩ := h.grown hd
  obtain ⟨first, hfirst, hl⟩ := h.does hd hget hy
  obtain ⟨second, hsecond, hl'⟩ := h.does hd hget hn
  obtain ⟨branch, next, rfl⟩ := hb.jump
  cases hfirst
  cases hsecond
  exact .jump hget hl hl'

/-- Whatever is chosen, the links of a switch and the cases of the script agree on it. -/
theorem chosen_leads {final : Story} {selection : Selection} {found : List Case} {rest : List Item}
    {links : List Link} {next : Link} (hlen : links.length = found.length)
    (hcase : ∀ (i : Nat) (case : Case), found[i]? = some case → ∃ target, links[i]? = some (some target) ∧
      Leads script final false target (case.body ++ rest))
    (hnext : selection.mode = .pick →
      ∃ target, next = some target ∧ Leads script final false target rest) (choice : Option Nat) :
    (Script.chosen selection found choice = none ∧
      Story.chosen selection.mode links next choice = none) ∨
    ∃ body target, Script.chosen selection found choice = some body ∧
      Story.chosen selection.mode links next choice = some target ∧
      Leads script final false target (body ++ rest) := by
  cases choice with
  | none =>
    by_cases hm : selection.mode = .pick
    · obtain ⟨target, hn, hl⟩ := hnext hm
      refine .inr ⟨[], target, ?_, ?_, hl⟩
      · rw [Script.chosen, if_pos hm]
      · rw [Story.chosen, if_pos hm, hn]
    · refine .inl ⟨?_, ?_⟩
      · rw [Script.chosen, if_neg hm]
      · rw [Story.chosen, if_neg hm]
  | some i =>
    cases hi : found[i]? with
    | none =>
      have hlinks : links[i]? = none := by
        rw [List.getElem?_eq_none_iff] at hi ⊢
        omega
      refine .inl ⟨?_, ?_⟩
      · rw [Script.chosen, hi, Option.map_none]
      · rw [Story.chosen, hlinks, Option.join_none]
    | some case =>
      obtain ⟨target, ht, hl⟩ := hcase i case hi
      refine .inr ⟨case.body, target, ?_, ?_, hl⟩
      · rw [Script.chosen, hi, Option.map_some]
      · rw [Story.chosen, ht, Option.join_some]

/-- The cases of a switch lead on as the script says. -/
theorem switch_does {final : Story} (hd : final.Distinct) {id : NodeId} {pos : Position}
    {selection : Selection} {found : List Case} {rest : List Item} {path : Path} {name : String}
    (h : final.Holds id name (selection.body path found))
    (hc : ∀ i case, found[i]? = some case →
      final.Does script ⟨id, .case i⟩ (case.body ++ rest))
    (hf : ∀ l ∈ selection.fallThrough id, final.Does script l rest) :
    Leads script final true (.node name) (.switch pos selection found :: rest) := by
  obtain ⟨body, hget, hb⟩ := h.grown hd
  obtain ⟨links, next, hlen, rfl⟩ := Body.Grows.switch hb
  rw [List.length_map] at hlen
  have hcase (i : Nat) (case : Case) (hi : found[i]? = some case) :
      ∃ target, links[i]? = some (some target) ∧
        Leads script final false target (case.body ++ rest) := by
    obtain ⟨target, hlink, hl⟩ := h.does hd hget (hc i case hi)
    exact ⟨target, by simpa [Body.link?] using hlink, hl⟩
  have hnext (hm : selection.mode = .pick) :
      ∃ target, next = some target ∧ Leads script final false target rest := by
    have hmem : nextEnd id ∈ selection.fallThrough id := by
      cases selection <;> simp_all [Selection.mode, Selection.fallThrough, nextEnd]
    obtain ⟨target, hlink, hl⟩ := h.does hd hget (hf _ hmem)
    rw [hm] at hlink
    exact ⟨target, by simpa [Body.link?] using hlink, hl⟩
  have hchosen := chosen_leads hlen hcase hnext
  refine .switch (fun choice => (Story.chosen selection.mode links next choice).getD .ret) hget
    (fun choice => ?_) fun choice body hbody => ?_
  · rcases hchosen choice with ⟨hs, ht⟩ | ⟨body, target, hs, ht, -⟩
    · rw [hs, ht, Option.map_none]
    · rw [hs, ht, Option.map_some, Option.getD_some]
  · rcases hchosen choice with ⟨hs, -⟩ | ⟨found, target, hs, ht, hl⟩
    · rw [hs] at hbody
      cases hbody
    · rw [hs] at hbody
      obtain rfl := Option.some.inj hbody
      rw [ht, Option.getD_some]
      exact hl

/-- A jump and what stands behind its two links. -/
theorem Arrives.jump {id : NodeId} {pos : Position} {condition : Expr} {yes no : List Item}
    {front2 front3 : Front} {s1 s2 s3 : Story}
    (h1 : Arrives entered labels front (.jump condition.inverted none none) story id s1)
    (h2 : Branched script entered labels yes front.path.firstChild (nextEnd id) s1 front2 s2)
    (h3 : Branched script entered labels no front2.path ⟨id, .branch⟩ s2 front3 s3) :
    Linked script entered labels [.jump pos condition yes no] front story
      ⟨front.path.next, (Ends.mk [] front.ends.escs).append (front2.ends.append front3.ends)⟩ s3 := by
  have hrets : ((Ends.mk [] front.ends.escs).append (front2.ends.append front3.ends)).rets =
      front2.ends.rets ++ front3.ends.rets := rfl
  have hescs : ((Ends.mk [] front.ends.escs).append (front2.ends.append front3.ends)).escs =
      front.ends.escs := by
    simp only [Ends.append, h2.escs, h3.escs, List.append_nil]
  refine ⟨h1.later.trans (h2.later.trans h3.later), h3.neat, rfl, hescs, .inr fun l hl => ?_,
    fun final hd hg rest hr l hl => ?_⟩
  · rw [hrets] at hl
    rcases List.mem_append.mp hl with hl | hl
    · exact (h2.settled l hl).later h3.later.grows
    · exact h3.settled l hl
  · rw [hrets] at hr
    have hg2 := h3.later.grows.trans hg
    have hg1 := h2.later.grows.trans hg2
    have hyes := h2.does final hd hg2 rest fun l hl => hr l (List.mem_append_left _ hl)
    have hno := h3.does final hd hg rest fun l hl => hr l (List.mem_append_right _ hl)
    exact .of_brought (h1.brought l hl) hg1 (jump_does hd (h1.holds.later hg1) hyes hno)

/-- A switch and what stands behind its links. -/
theorem Arrives.switch {id : NodeId} {pos : Position} {selection : Selection} {found : List Case}
    {front2 : Front} {s1 s2 : Story}
    (h1 : Arrives entered labels front (selection.body front.path found) story id s1)
    (h2 : CasesLinked script entered labels found id 0 front.path.firstChild s1 front2 s2) :
    Linked script entered labels [.switch pos selection found] front story
      ⟨front.path.next, front2.ends.rets ++ selection.fallThrough id,
        front.ends.escs ++ front2.ends.escs⟩ s2 := by
  have hfall (l : LooseEnd) (hl : l ∈ selection.fallThrough id) : l = nextEnd id := by
    cases selection <;> simp_all [Selection.fallThrough, nextEnd]
  refine ⟨h1.later.trans h2.later, h2.neat, rfl, ?_, .inr fun l hl => ?_,
    fun final hd hg rest hr l hl => ?_⟩
  · rw [h2.escs, List.append_nil]
  · rcases List.mem_append.mp hl with hl | hl
    · exact h2.settled l hl
    · rw [hfall l hl]
      exact (h1.holds.later h2.later.grows).settled .next
  · have hg1 := h2.later.grows.trans hg
    have hcases := h2.does final hd hg rest fun l hl => hr l (List.mem_append_left _ hl)
    simp only [Nat.zero_add] at hcases
    have hrest : ∀ l ∈ selection.fallThrough id, final.Does script l rest :=
      fun l hl => hr l (List.mem_append_right _ hl)
    exact .of_brought (h1.brought l hl) hg1 (switch_does hd (h1.holds.later hg1) hcases hrest)

/-- A thread behind a link of a node that stays is linked like any other. -/
theorem branch_links {items : List Item} {path : Path} {loose : LooseEnd} (hs : story.Settled loose)
    (h : (∀ l ∈ (entering path loose).ends.rets, story.Waits path l) →
      Yields (fun _ => True) (Linked script entered labels items (entering path loose) story)
        (thread items (entering path loose)) story) :
    Yields (fun _ => True) (Branched script entered labels items path loose story)
      (thread items (entering path loose)) story := by
  have hw : ∀ l ∈ (entering path loose).ends.rets, story.Waits path l := by
    intro l hl
    rw [List.mem_singleton.mp hl]
    exact .inl hs
  exact (h hw).mono fun _ _ hlinked => hlinked.branched hs

mutual

theorem item_links (i : Item) (hb : ∀ name ∈ labels, (Script.behind name script).isSome)
    (hi : i.Flows labels) (front : Front) {story : Story} (n : Neat entered labels story)
    (hp : front.path.label ∈ entered) (hw : ∀ l ∈ front.ends.rets, story.Waits front.path l) :
    Yields (fun _ => True) (Linked script entered labels [i] front story) (item i front) story := by
  cases i with
  | content pos c => exact append_links n hp hw c pos
  | leave => exact divert_links n hw (fun _ h => by cases h) fun _ _ => .leave
  | goto label =>
    obtain ⟨items, hitems⟩ := Option.isSome_iff_exists.mp (hb label hi)
    refine divert_links n hw (fun name h => ?_) fun _ _ => .goto hitems
    cases h
    exact hi
  | jump pos condition yes no =>
    refine Yields.bind (arrive_links n hp hw (isOpen_jump _) rfl pos) fun id s1 h1 => ?_
    have hnext : s1.Settled (nextEnd id) := h1.holds.settled .next
    refine Yields.bind (branch_links hnext fun hw => thread_links yes hb hi.1 _ h1.neat hp hw)
      fun front2 s2 h2 => ?_
    have hbranch : s2.Settled ⟨id, .branch⟩ := (h1.holds.later h2.later.grows).settled .branch
    have hp2 : front2.path.label ∈ entered := h2.label.symm ▸ hp
    exact Yields.bind (branch_links hbranch fun hw => thread_links no hb hi.2 _ h2.neat hp2 hw)
      fun front3 s3 h3 => Yields.pure (h1.jump h2 h3)
  | switch pos selection found =>
    refine Yields.bind (arrive_links n hp hw (isOpen_switch _ _ _) rfl pos) fun id s1 h1 => ?_
    exact Yields.bind (cases_links found hb hi id 0 front.path.firstChild h1.neat hp
      (h1.holds.settled .next)) fun front2 s2 h2 => Yields.pure (h1.switch h2)
  | _ => exact hi.elim

theorem thread_links (items : List Item)
    (hb : ∀ name ∈ labels, (Script.behind name script).isSome) (hi : Script.Flows labels items)
    (front : Front) {story : Story} (n : Neat entered labels story)
    (hp : front.path.label ∈ entered) (hw : ∀ l ∈ front.ends.rets, story.Waits front.path l) :
    Yields (fun _ => True) (Linked script entered labels items front story) (thread items front)
      story := by
  cases items with
  | nil => exact Yields.pure (Linked.nil n)
  | cons i items =>
    refine Yields.bind (item_links i hb hi.1 front n hp hw) fun front1 s1 h1 => ?_
    have hp1 : front1.path.label ∈ entered := h1.label.symm ▸ hp
    exact (thread_links items hb hi.2 front1 h1.neat hp1 (h1.waits hw)).mono fun _ _ h => h1.cons h

theorem cases_links (found : List Case)
    (hb : ∀ name ∈ labels, (Script.behind name script).isSome)
    (hi : Script.CasesFlow labels found) (id : NodeId) (index : Nat) (path : Path) {story : Story}
    (n : Neat entered labels story) (hp : path.label ∈ entered) (hid : story.Settled (nextEnd id)) :
    Yields (fun _ => True) (CasesLinked script entered labels found id index path story)
      (cases id index found path) story := by
  cases found with
  | nil =>
    refine Yields.pure ⟨.refl story, n, rfl, fun l hl => ?_, fun _ _ _ _ _ i case h => ?_⟩
    · cases hl
    · cases h
  | cons first found =>
    obtain ⟨weight, body⟩ := first
    have hcase : story.Settled ⟨id, .case index⟩ := hid
    refine Yields.bind (branch_links hcase fun hw => thread_links body hb hi.1 _ n hp hw)
      fun front1 s1 h1 => ?_
    have hp1 : front1.path.label ∈ entered := h1.label.symm ▸ hp
    have hid1 := hid.later h1.later.grows
    exact Yields.bind (cases_links found hb hi.2 id (index + 1) front1.path h1.neat hp1 hid1)
      fun front2 s2 h2 => Yields.pure (h1.cons h2)

end

end Build

end Storyline
