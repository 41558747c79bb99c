namespace Storyline.Decimal

/-- The value of a run of digits after those already read. -/
def digitsValue (cs : List Char) : Nat :=
  cs.foldl (fun n c => 10 * n + (c.toNat - '0'.toNat)) 0

/-- `m · 10 ^ e`, rounded to nearest. Exponents beyond the range of numbers are settled before
any power is computed. -/
def rounded (m : Nat) (e : Int) : Float :=
  let size : Int := (toString m).length + e
  if m = 0 then 0.0
  else if 309 < size then Float.ofBits 0x7ff0000000000000
  else if size < -330 then 0.0
  else Float.ofScientific m (e < 0) e.natAbs

/-- The exponent after its `e`: an optional sign and at least one digit. -/
def exponent? (cs : List Char) : Option Int :=
  let (sign, digits) : Int × List Char :=
    match cs with
    | '-' :: r => (-1, r)
    | '+' :: r => (1, r)
    | r => (1, r)
  if digits ≠ [] ∧ digits.all Char.isDigit then some (sign * digitsValue digits) else none

/-- A number without sign. -/
def magnitude? (cs : List Char) : Option Float :=
  let whole := cs.takeWhile Char.isDigit
  let (fraction, rest) :=
    match cs.dropWhile Char.isDigit with
    | '.' :: r => (r.takeWhile Char.isDigit, r.dropWhile Char.isDigit)
    | r => ([], r)
  let mantissa := digitsValue (whole ++ fraction)
  if whole ++ fraction = [] then none
  else
    match rest with
    | [] => some (rounded mantissa (-fraction.length))
    | c :: r =>
      if c = 'e' ∨ c = 'E' then
        (exponent? r).map fun e => rounded mantissa (e - fraction.length)
      else none

def unsigned? (cs : List Char) : Option Float :=
  let word := String.ofList (cs.map Char.toLower)
  if word = "inf" ∨ word = "infinity" then some (Float.ofBits 0x7ff0000000000000)
  else if word = "nan" then some (Float.ofBits 0x7ff8000000000000)
  else magnitude? cs

/-- An optional sign, then digits with an optional point and an optional exponent, or one of the
words `inf`, `infinity` and `nan` in any case. A number too large is infinite and one too small is
zero. -/
def number? (s : String) : Option Float :=
  match s.toList with
  | '-' :: cs => (unsigned? cs).map fun x => -x
  | '+' :: cs => unsigned? cs
  | cs => unsigned? cs

end Storyline.Decimal
