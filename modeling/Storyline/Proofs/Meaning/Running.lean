import Mathlib.Logic.Relation
import Storyline.Script.Linking

namespace Storyline

/-- What happens in a run. How a decision fell out need not be told, since the oracle goes by what
happened before it. -/
inductive Event where
  | shown (content : Content)
  | tested
  | chosen

/-- What decides where a run goes; the latest event comes first. A condition and its opposite are
never both true nor both false. -/
structure Oracle where
  holds : List Event → Expr → Bool
  /-- The case of a switch with these weights, or none. -/
  picks : List Event → SwitchMode → List (Option Expr) → Option Nat
  opposite : ∀ past e, holds past e.inverted = !holds past e

namespace Oracle

variable (yes : List Event → Expr → Bool)

/-- Decides conditions by those that are no opposites of others. -/
def decided (past : List Event) : Expr → Bool
  | .unary .not e => !decided past e
  | .binary .ne left right => !yes past (.binary .eq left right)
  | .binary .ge left right => !yes past (.binary .lt left right)
  | .binary .le left right => !yes past (.binary .gt left right)
  | e => yes past e

theorem decided_inverted (past : List Event) (e : Expr) :
    decided yes past e.inverted = !decided yes past e := by
  cases e with
  | binary op left right => cases op <;> simp [Expr.inverted, BinaryOp.complement?, decided]
  | _ => simp [Expr.inverted, decided]

/-- Every way to decide conditions that are no opposites of others gives an oracle. -/
def deciding (picks : List Event → SwitchMode → List (Option Expr) → Option Nat) : Oracle :=
  ⟨decided yes, picks, decided_inverted yes⟩

end Oracle

def Case.body : Case → List Item
  | mk _ body => body

/-- The items behind a label. -/
def Script.behind (label : String) : List Item → Option (List Item)
  | [] => none
  | .label _ name _ :: rest => if name = label then some rest else Script.behind label rest
  | _ :: rest => Script.behind label rest

/-- The items that a switch goes on with, before those after it. -/
def Script.chosen (selection : Selection) (found : List Case) : Option Nat → Option (List Item)
  | some index => found[index]?.map Case.body
  | none => if selection.mode = .pick then some [] else none

/-- One step of a script, by the items that are left. -/
def Script.step (script : Script) (oracle : Oracle) :
    List Event × List Item → Option (List Event × List Item)
  | (past, .content _ c :: rest) => some (.shown c :: past, rest)
  | (past, .jump _ condition yes no :: rest) =>
    some (.tested :: past, (if oracle.holds past condition then yes else no) ++ rest)
  | (past, .switch _ selection found :: rest) =>
    let choice := oracle.picks past selection.mode (found.map Case.weight)
    (Script.chosen selection found choice).map fun body => (.chosen :: past, body ++ rest)
  | (past, .goto label :: _) => (Script.behind label script).map fun rest => (past, rest)
  | (past, .label .. :: rest) => some (past, rest)
  | _ => none

/-- The link that a switch goes on by. -/
def Story.chosen (mode : SwitchMode) (branches : List Link) (next : Link) : Option Nat → Link
  | some index => branches[index]?.join
  | none => if mode = .pick then next else none

/-- One step of a story, by the target that is gone to. -/
def Story.step (story : Story) (oracle : Oracle) :
    List Event × Target → Option (List Event × Target)
  | (past, .node name) =>
    match (story.get? name).map Node.body with
    | some (.content c (some target)) => some (.shown c :: past, target)
    | some (.goto (some target)) => some (past, target)
    | some (.jump condition (some branch) (some next)) =>
      some (.tested :: past, if oracle.holds past condition then branch else next)
    | some (.switch mode _ _ branches weights next) =>
      let choice := oracle.picks past mode weights
      (Story.chosen mode branches next choice).map fun target => (.chosen :: past, target)
    | _ => none
  | _ => none

section Machines

variable {σ : Type}

/-- A run can come from one state to the other. -/
def Runs (step : List Event × σ → Option (List Event × σ)) : List Event × σ → List Event × σ → Prop :=
  Relation.ReflTransGen fun s s' => step s = some s'

/-- At some point of the run this has happened. -/
def Happens (step : List Event × σ → Option (List Event × σ)) (start : σ) (past : List Event) : Prop :=
  ∃ s, Runs step ([], start) (past, s)

end Machines

/-- The script comes to its end after this has happened. -/
def Script.Halts (script : Script) (oracle : Oracle) (past : List Event) : Prop :=
  ∃ items, Runs (script.step oracle) ([], script) (past, items) ∧
    ∀ i ∈ items.head?, i = .leave

/-- The story comes to its end after this has happened. -/
def Story.Halts (story : Story) (oracle : Oracle) (past : List Event) : Prop :=
  Runs (story.step oracle) ([], .node story.start) (past, .ret)

end Storyline
