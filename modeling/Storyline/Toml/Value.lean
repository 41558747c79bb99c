namespace Storyline.Toml

/-- A dotted key in its parts. -/
abbrev Key := List String

inductive Value where
  | string (s : String)
  | integer (n : Int)
  | float (x : Float)
  | bool (b : Bool)
  /-- A date, a time or both, in their usual form. -/
  | datetime (text : String)
  | array (items : List Value)
  | table (entries : List (Key × Value))
deriving Repr, Inhabited

end Storyline.Toml
