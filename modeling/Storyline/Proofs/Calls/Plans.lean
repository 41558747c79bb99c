import Storyline.Proofs.Calls.Rules

namespace Storyline.Script

@[simp] theorem length_selectorTiers : selectorTiers.length = 6 := rfl

attribute [simp] length_expressionTiers

/-- An expression with all operators. -/
abbrev Rule.expression : Rule := .climb expressionTiers (Nat.le_of_eq length_expressionTiers)

/-- An expression that leaves `~` alone. -/
abbrev Rule.selector : Rule := .climb selectorTiers (Nat.le_of_eq length_selectorTiers)

namespace Plan

def expect (delimiter : String) : Plan (Got Unit) :=
  ahead none fun t =>
    if t.is delimiter then take (stay ()) else miss ⟨t.pos, .unclosed delimiter t⟩ ()

section Expressions

def number (text : String) (otherwise : Float) : Plan (Got Float) :=
  match Decimal.number? text with
  | some x => stay x
  | none => here fun pos => miss ⟨pos, .invalidNumber text⟩ otherwise

def climb (tiers : List (List BinaryOp)) (few : tiers.length ≤ 6) : Plan (Got Expr) :=
  match tiers with
  | [] => call .operand done
  | ops :: tighter =>
    call (.climb tighter (Nat.le_of_succ_le few)) (got fun left =>
      call (.climbOn ops tighter few left) done)

def climbOn (ops : List BinaryOp) (tighter : List (List BinaryOp)) (few : tighter.length < 6)
    (left : Expr) : Plan (Got Expr) :=
  ahead none fun t =>
    match infixOp? ops t with
    | none => stay left
    | some op =>
      take (call (.climb tighter (Nat.le_of_lt few)) (got fun right =>
        call (.climbOn ops tighter few (.binary op left right)) done))

def operand : Plan (Got Expr) :=
  ahead none fun t =>
    match prefixOp? t with
    | some op => take (call .operand (got fun e => stay (.unary op e)))
    | none => call .primary done

def primary : Plan (Got Expr) :=
  ahead none fun t =>
    if t.kind = .number then take ((number t.text 0).map (Option.map (Prod.map .number id)))
    else if t.is "(" then
      take (call .expression (got fun e => call (.expect ")") (got fun _ => stay e)))
    else if startsReference t then take (call (.reference t) done)
    else miss ⟨t.pos, .missing .expression t⟩ (.number 0)

def reference (t : Token) : Plan (Got Expr) :=
  call (.firstPiece t) (got fun p =>
    if p.splices ≠ [] then stay p.spliced
    else
      ahead none fun u =>
        if opensArguments u then take (call .arguments (got fun args => stay (.call p.head args)))
        else stay (.var p.head))

def firstPiece (t : Token) : Plan (Got Pieces) :=
  if t.is "\x7b" then
    call .expression (got fun e =>
      call (.expect "\x7d") (got fun _ => call .pieces (got fun p => stay (p.afterSplice e))))
  else call .pieces (got fun p => stay (p.afterText t.text))

def pieces : Plan (Got Pieces) :=
  ahead none fun t =>
    if joins t || (t.adjoins && t.is "\x7b") then take (call (.firstPiece t) done) else stay .none

def arguments : Plan (Got (List Expr)) :=
  ahead none fun t => if t.is ")" then take (stay []) else call .argumentsOn done

def argumentsOn : Plan (Got (List Expr)) :=
  call .expression (got fun e =>
    ahead none fun u =>
      if u.is "," then take (call .argumentsOn (got fun args => stay (e :: args)))
      else call (.expect ")") (got fun _ => stay [e]))

end Expressions

section Names

def nameTail : Plan (Got String) :=
  ahead none fun t =>
    if joins t then take (call .nameTail (got fun tail => stay (t.text ++ tail))) else stay ""

def name : Plan (Got (Option String)) :=
  ahead none fun t =>
    if t.kind = .word then take (call .nameTail (got fun tail => stay (some (t.text ++ tail))))
    else stay none

def wantedName (wanted : Wanted) : Plan (Got (Option String)) :=
  ahead none fun t =>
    if t.kind = .word then call .name done else miss ⟨t.pos, .missing wanted t⟩ none

def params : Plan (Got (List String)) :=
  call (.wantedName .parameterName) (got fun first =>
    match first with
    | none => stay []
    | some param =>
      ahead none fun u =>
        if u.is "," then take (call .params (got fun rest => stay (param :: rest)))
        else stay [param])

def paramList : Plan (Got (List String)) :=
  ahead none fun t =>
    if t.is ")" then take (stay [])
    else call .params (got fun ps => call (.expect ")") (got fun _ => stay ps))

def words (delimiter before : String) : Plan (Got String) :=
  ahead none fun t =>
    if t.is delimiter then take (stay before)
    else if t.kind = .stop ∨ t.kind = .start ∨ t.kind = .blank then
      miss ⟨t.pos, .unclosed delimiter t⟩ before
    else
      let space := if before = "" then "" else t.space
      take (call (.words delimiter (before ++ space ++ t.text)) done)

def skipBrace : Plan (Got Unit) :=
  ahead none fun t =>
    if t.is "\x7d" then take (stay ())
    else if t.kind = .stop ∨ t.kind = .start then stay ()
    else take (call .skipBrace done)

end Names

section Programs

def assignedTo (t : Token) : Plan (Got (Option Expr)) :=
  call (.reference t) (got fun target =>
    if target.isVariable then stay (some target)
    else here fun pos => miss ⟨pos, .notAssignable target⟩ none)

def assignable : Plan (Got (Option Expr)) :=
  ahead none fun t =>
    if startsReference t then take (call (.assignedTo t) done)
    else miss ⟨t.pos, .missing .variableName t⟩ none

def amount : Plan (Got Float) :=
  ahead none fun t => if t.kind = .number then take (number t.text 1) else stay 1

def mutation : Plan (Got (Option (Expr × Float))) :=
  call .amount (got fun n => call .assignable (got fun target => stay (target.map (·, n))))

/-- The rest of an assignment to what starts with `t`. -/
def assignment (t : Token) (target : Option Expr) : Plan (List Item) :=
  ahead [.cut] fun v =>
    match target with
    | none => take (count fun left => call .program fun found => done ([.passed left] ++ found))
    | some target =>
      match assignmentOp? v with
      | none =>
        call .program fun found => done ([.report ⟨v.pos, .missing .assignment v⟩] ++ found)
      | some op =>
        take (call .expression (items fun value =>
          call .program fun found => done ([.content t.pos (assign target op value)] ++ found)))

def program : Plan (List Item) :=
  ahead [.cut] fun t =>
    if t.kind = .stop ∨ t.kind = .start then done []
    else if t.is "," ∨ t.kind = .blank then take (call .program done)
    else if startsReference t then take (call (.assignedTo t) (items (assignment t)))
    else
      take (call .program fun found =>
        done ([.report ⟨t.pos, .missing .variableName t⟩] ++ found))

end Programs

section Terms

def closeTerm (found : Option Terms) : Plan (Got Terms) :=
  match found with
  | some terms => call (.expect "\x7d") (got fun _ => stay terms)
  | none => call .skipBrace (got fun _ => stay .none)

def guardTerm : Plan (Got Terms) :=
  call .expression (got fun guard =>
    ahead none fun u =>
      if u.isOp "?" then take (call (.closeTerm (some ⟨[guard], [], []⟩)) done)
      else call (.closeTerm (some ⟨[guard], [], []⟩)) done)

def braceTerm : Plan (Got Terms) :=
  ahead none fun t =>
    match braceForm t with
    | .change op =>
      take (call .mutation (got fun found =>
        call (.closeTerm (found.map fun (target, n) => changeTerms op target n)) done))
    | .put value =>
      take (call .assignable (got fun found =>
        call (.closeTerm (found.map fun target => putTerms target value)) done))
    | .other => call .guardTerm done

def keywordTerm : Plan (Got Terms) :=
  call (.words ">" "") (got fun keyword =>
    if keyword = "" then here fun pos => miss ⟨pos, .emptyKeyword⟩ .none
    else stay ⟨[], [], [keyword]⟩)

def terms : Plan (Got Terms) :=
  ahead none fun t =>
    if t.is "<" then
      take (call .keywordTerm (got fun first => call .terms (got fun rest => stay (first ++ rest))))
    else if t.is "\x7b" then
      take (call .braceTerm (got fun first => call .terms (got fun rest => stay (first ++ rest))))
    else stay .none

end Terms

section Flat

def textTail : Plan (Got (String × String)) :=
  ahead none fun t =>
    if t.isText then
      take (call .textTail (got fun run => stay (t.space ++ t.printed ++ run.1, run.2)))
    else stay ("", t.space)

def textRun (t : Token) : Plan (List Item) :=
  call .textTail (items fun (tail, drop) =>
    done [.content t.pos (.text (t.printed ++ tail) t.space drop)])

def cue (pos : Position) : Plan (List Item) :=
  call (.words ">" "") (items fun name =>
    if name = "" then here fun at' => done [.report ⟨at', .emptyCue⟩]
    else done [.content pos (.cue name)])

def destination (pos : Position) : Plan (List Item) :=
  call (.wantedName .labelName) (items fun found =>
    match found with
    | none => done []
    | some label =>
      ahead [.cut] fun u =>
        if opensArguments u then
          take (call .arguments (items fun args => done [.call pos label args]))
        else done [.goto label])

def braced (pos : Position) (content : Content) : Plan (List Item) :=
  call (.expect "\x7d") (items fun _ => done [.content pos content])

def malformed : Plan (List Item) := call .skipBrace (items fun _ => done [])

def change (pos : Position) (op : BinaryOp) : Plan (List Item) :=
  call .mutation (items fun found =>
    match found with
    | none => call .malformed done
    | some (target, n) => call (.braced pos (.move target (.binary op target (.number n)))) done)

def put (pos : Position) (value : Float) : Plan (List Item) :=
  call .assignable (items fun found =>
    match found with
    | none => call .malformed done
    | some target => call (.braced pos (.move target (.number value))) done)

def echo (pos : Position) : Plan (List Item) :=
  call .expression (items fun e => call (.braced pos (.echo e)) done)

def skipBlock (depth : Nat) : Plan (List Item) :=
  ahead [.cut] fun t =>
    match t.kind, depth with
    | .stop, 0 => take (done [])
    | .stop, depth + 1 => take (call (.skipBlock depth) done)
    | .start, depth => take (call (.skipBlock (depth + 1)) done)
    | _, depth => take (call (.skipBlock depth) done)

def endBlock : Plan (List Item) :=
  ahead [.cut] fun t =>
    if t.kind = .stop then take (done [])
    else
      call (.skipBlock 0) fun found => done ([.report ⟨t.pos, .missing .endOfBlock t⟩] ++ found)

def weight (weighted : Bool) : Plan (Option Expr × List Item) :=
  ahead (none, []) fun t =>
    if weighted && t.is "(" then
      take ((call .expression (got fun e => call (.expect ")") (got fun _ => stay (some e)))).map
        (lead none))
    else done (none, [])

def closeBrace : Plan (List Item) := call (.expect "\x7d") (items fun _ => done [])

end Flat

section Threads

def thread : Plan (List Item) :=
  ahead [.cut] fun t =>
    match t.sign with
    | .close => done []
    | .blank => take (call .thread done)
    | .error => take (call .thread fun found => done ([.report ⟨t.pos, .scanner t.text⟩] ++ found))
    | .content c => take (call .thread fun found => done ([.content t.pos c] ++ found))
    | .leave => take (call .thread fun found => done ([.leave] ++ found))
    | .text => take (call (.textRun t) (follow (call .thread done)))
    | .cue => take (call (.cue t.pos) (follow (call .thread done)))
    | .goto => take (call (.destination t.pos) (follow (call .thread done)))
    | .start => take (call (.block t) (follow (call .thread done)))
    | .brace => take (call (.brace t.pos) (follow (call .thread done)))
    | .label => take (call (.label t.pos) (follow (call .thread done)))

def block (t : Token) : Plan (List Item) :=
  match t.text with
  | "+" => call (.option t.pos .repeated) (follow (call .endBlock done))
  | "*" => call (.option t.pos .once) (follow (call .endBlock done))
  | "-" => call .thread (follow (call .endBlock done))
  | ">" => call .thread fun found => follow (call .endBlock done) ([.ask t.pos] ++ found)
  | "!" => call .program (follow (call .endBlock done))
  | bullet =>
    here fun pos =>
      call .thread fun found =>
        follow (call .endBlock done) ([.report ⟨pos, .unknownBlock bullet⟩] ++ found)

def brace (pos : Position) : Plan (List Item) :=
  ahead [.cut] fun t =>
    match braceForm t with
    | .change op => take (call (.change pos op) done)
    | .put value => take (call (.put pos value) done)
    | .other =>
      if t.isOp "$" then take (call (.echo pos) done)
      else
        match sigil? t with
        | some selection => take (call (.switch pos selection) done)
        | none =>
          call .selector (items fun e =>
            ahead [.cut] fun v =>
              if v.is "\x7d" then take (done [.content pos (.echo e)])
              else if v.isOp "?" then take (call (.jump pos e) done)
              else if v.is "|" then take (call (.switch pos (.index e)) done)
              else if v.isOp "~" then take (call (.switch pos (.pick e)) done)
              else done [.report ⟨v.pos, .unclosed "\x7d" v⟩, .content pos (.echo e)])

def jump (pos : Position) (condition : Expr) : Plan (List Item) :=
  call .thread fun yes =>
    ahead [.jump pos condition yes []] fun u =>
      if u.is "|" then
        take (call .thread fun no =>
          call .closeBrace fun found => done ([.jump pos condition yes no] ++ found))
      else call .closeBrace fun found => done ([.jump pos condition yes []] ++ found)

def switch (pos : Position) (selection : Selection) : Plan (List Item) :=
  call (.cases selection.isWeighted) fun cases =>
    call .closeBrace fun found =>
      done ([.switch pos selection (Selection.padded selection cases)] ++ found)

def cases (weighted : Bool) : Plan (List Case) :=
  call (.weight weighted) fun (w, lead) =>
    call .thread fun body =>
      ahead [.mk w (lead ++ body)] fun v =>
        if v.is "|" then take (call (.cases weighted) fun rest => done (.mk w (lead ++ body) :: rest))
        else done [.mk w (lead ++ body)]

/-- What follows the name of a label. -/
def named (pos : Position) (found : Option String) : Plan (List Item) :=
  match found with
  | none => done []
  | some name =>
    ahead [.cut] fun v =>
      if opensArguments v then
        take (call .paramList (items fun params =>
          here fun seen => call .thread fun body => done [.define pos name params seen body]))
      else done [.label pos name v.pos]

def label (pos : Position) : Plan (List Item) :=
  ahead [.cut] fun t =>
    if t.is "..." then take (call .thread fun body => done [.loop pos body])
    else call (.wantedName .labelName) (items (named pos))

def option (pos : Position) (leader : Leader) : Plan (List Item) :=
  call .terms (items fun found =>
    call .segments fun parts => done [.option pos leader found parts])

def segments : Plan (List Segment) :=
  here fun pos =>
    call .thread fun body =>
      ahead [.mk pos .both body] fun u =>
        if u.is "[" then
          take (call (.inside forward false true []) fun parts =>
            done (.mk pos forward.outer body :: parts))
        else if u.is "]" then
          take (call (.inside reversed false true []) fun parts =>
            done (.mk pos reversed.outer body :: parts))
        else done [.mk pos .both body]

/-- The part of an option after its last bracket, behind the other parts. -/
def last (form : Form) (part : Segment) (lead : List Item) : Plan (List Segment) :=
  here fun pos => call .trailing fun body => done [part, .mk pos form.outer (lead ++ body)]

def inside (form : Form) (nested first : Bool) (lead : List Item) : Plan (List Segment) :=
  here fun pos =>
    call .thread fun body =>
      ahead [.mk pos .both (lead ++ body)] fun u =>
        let part := .mk pos (form.role nested first u) (lead ++ body)
        if u.is form.closing then
          if nested then
            take (call (.inside form false false []) fun parts => done (part :: parts))
          else take (last form part [])
        else if u.is form.opening then
          take (here fun seen =>
            let deeper := if nested then [.report ⟨seen, .tooDeep form.opening⟩] else []
            call (.inside form true false deeper) fun parts => done (part :: parts))
        else last form part [.report ⟨u.pos, .unclosed form.closing u⟩]

def trailing : Plan (List Item) :=
  call .thread (follow (ahead [] fun u =>
    if u.is "[" || u.is "]" then
      take (call .trailing fun found => done ([.report ⟨u.pos, .afterBracket u⟩] ++ found))
    else done []))

def script : Plan (List Item) :=
  call .thread (follow (ahead [] fun u =>
    if u.kind = .stop then take (done [])
    else take (call .script fun found => done ([.report ⟨u.pos, .unexpected u⟩] ++ found))))

end Threads

end Plan

/-- The plan of each rule. -/
def Rule.plan : (rule : Rule) → Plan rule.Result
  | .expect delimiter => .expect delimiter
  | .climb tiers few => .climb tiers few
  | .climbOn ops tighter few left => .climbOn ops tighter few left
  | .operand => .operand
  | .primary => .primary
  | .reference t => .reference t
  | .firstPiece t => .firstPiece t
  | .pieces => .pieces
  | .arguments => .arguments
  | .argumentsOn => .argumentsOn
  | .nameTail => .nameTail
  | .name => .name
  | .wantedName wanted => .wantedName wanted
  | .params => .params
  | .paramList => .paramList
  | .words delimiter before => .words delimiter before
  | .skipBrace => .skipBrace
  | .assignedTo t => .assignedTo t
  | .assignable => .assignable
  | .amount => .amount
  | .mutation => .mutation
  | .program => .program
  | .closeTerm found => .closeTerm found
  | .guardTerm => .guardTerm
  | .braceTerm => .braceTerm
  | .keywordTerm => .keywordTerm
  | .terms => .terms
  | .textTail => .textTail
  | .textRun t => .textRun t
  | .cue pos => .cue pos
  | .destination pos => .destination pos
  | .braced pos content => .braced pos content
  | .malformed => .malformed
  | .change pos op => .change pos op
  | .put pos value => .put pos value
  | .echo pos => .echo pos
  | .skipBlock depth => .skipBlock depth
  | .endBlock => .endBlock
  | .weight weighted => .weight weighted
  | .closeBrace => .closeBrace
  | .thread => .thread
  | .block t => .block t
  | .brace pos => .brace pos
  | .jump pos condition => .jump pos condition
  | .switch pos selection => .switch pos selection
  | .cases weighted => .cases weighted
  | .label pos => .label pos
  | .option pos leader => .option pos leader
  | .segments => .segments
  | .inside form nested first lead => .inside form nested first lead
  | .trailing => .trailing
  | .script => .script

/-- What a call does, in order. -/
def Call.steps (c : Call) : List Step := c.rule.plan.steps c.tokens

end Storyline.Script
