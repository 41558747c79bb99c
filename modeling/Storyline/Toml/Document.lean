import Storyline.Toml.Value

namespace Storyline.Toml

inductive Statement where
  /-- `key = value`, in the table opened last. -/
  | entry (key : Key) (value : Value)
  /-- `[key]` opens a table. -/
  | heading (key : Key)
  /-- `[[key]]` opens one more table of an array. -/
  | element (key : Key)
deriving Repr, Inhabited

/-- A step on the way to a definition. -/
inductive Step where
  | name (part : String)
  | index (n : Nat)
deriving DecidableEq, Repr, Inhabited

/-- What a place in the document holds. -/
inductive Definition where
  | value (v : Value)
  /-- A table named on the way to another one. -/
  | implied
  | headed
  | dotted
  /-- So many tables in an array. -/
  | tables (count : Nat)
deriving Repr, Inhabited

/-- Places and what they hold, the latest first. -/
abbrev Document := List (List Step × Definition)

namespace Document

def find? (doc : Document) (place : List Step) : Option Definition :=
  (List.find? (fun entry => entry.1 == place) doc).map Prod.snd

/-- The last table of the array where the definition is one. -/
def inside (place : List Step) : Definition → List Step
  | .tables count => place ++ [.index (count - 1)]
  | _ => place

/-- The place below `place` that a heading's key leads to, with the tables on the way implied. -/
def descend (doc : Document) (place : List Step) : Key → Option (Document × List Step)
  | [] => some (doc, place)
  | part :: key =>
    let next := place ++ [.name part]
    match doc.find? next with
    | none => descend ((next, .implied) :: doc) next key
    | some (.value _) => none
    | some d => descend doc (inside next d) key

/-- The place below `place` that a dotted key leads to. It leads into the last table of an array,
but not into another table with a heading of its own. -/
def descendDotted (doc : Document) (place : List Step) : Key → Option (Document × List Step)
  | [] => some (doc, place)
  | part :: key =>
    let next := place ++ [.name part]
    match doc.find? next with
    | none => descendDotted ((next, .dotted) :: doc) next key
    | some .dotted => descendDotted doc next key
    | some .implied => descendDotted doc next key
    | some (.tables count) => descendDotted doc (inside next (.tables count)) key
    | _ => none

/-- Whether a place holds a table that dotted keys opened. -/
def isDotted (doc : Document) (place : List Step) : Bool :=
  match doc.find? place with
  | some .dotted => true
  | _ => false

/-- Defines a value in the table at `place`, or with a dotted key in a table that such keys
opened. -/
def define (doc : Document) (place : List Step) (key : Key) (v : Value) : Option Document := do
  let (doc, table) ← doc.descendDotted place key.dropLast
  let last := table ++ (key.getLast?.map Step.name).toList
  match doc.find? last with
  | none => if key.dropLast = [] ∨ doc.isDotted table then some ((last, .value v) :: doc) else none
  | some _ => none

/-- Opens a table. -/
def openTable (doc : Document) (key : Key) : Option (Document × List Step) := do
  let (doc, table) ← doc.descend [] key.dropLast
  let last := table ++ (key.getLast?.map Step.name).toList
  match doc.find? last with
  | none => some ((last, .headed) :: doc, last)
  | some .implied => some ((last, .headed) :: doc, last)
  | some _ => none

/-- Opens one more table of an array. -/
def openElement (doc : Document) (key : Key) : Option (Document × List Step) := do
  let (doc, table) ← doc.descend [] key.dropLast
  let last := table ++ (key.getLast?.map Step.name).toList
  match doc.find? last with
  | none => some ((last, .tables 1) :: doc, last ++ [.index 0])
  | some (.tables count) => some ((last, .tables (count + 1)) :: doc, last ++ [.index count])
  | some _ => none

/-- Obeys statements, the first in the table at `place`. -/
def obey (doc : Document) (place : List Step) : List Statement → Option Document
  | [] => some doc
  | .entry key v :: rest => do obey (← doc.define place key v) place rest
  | .heading key :: rest => do
    let (doc, place) ← doc.openTable key
    obey doc place rest
  | .element key :: rest => do
    let (doc, place) ← doc.openElement key
    obey doc place rest

/-- Nothing may be defined twice: a value belongs to one key, a table is opened by one heading or by
dotted keys, and an array of tables only grows at its end. -/
def ofStatements (statements : List Statement) : Option Document := obey [] [] statements

/-- The keys at the top of the document. -/
def keys (doc : Document) : List String :=
  doc.filterMap fun (place, _) =>
    match place with
    | [.name part] => some part
    | _ => none

/-- What a key at the top of the document holds; tables have no value of their own. -/
def top? (doc : Document) (part : String) : Option Value :=
  (doc.find? [.name part]).map fun d =>
    match d with
    | .value v => v
    | _ => .table []

end Document

/-- Defines all entries of a table, if none of them clash. -/
def defineAll (entries : List (Key × Value)) : Option Document :=
  entries.foldlM (fun doc (key, v) => Document.define doc [] key v) []

end Storyline.Toml
