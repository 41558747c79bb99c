import Storyline.Decimal.Reading
import Storyline.Toml.Value

namespace Storyline.Toml

/-- Digits without the underscores between them. -/
def digits? (isDigit : Char → Bool) : List Char → Option (List Char)
  | [] => none
  | [c] => if isDigit c then some [c] else none
  | c :: '_' :: rest => if isDigit c then (digits? isDigit rest).map (c :: ·) else none
  | c :: rest => if isDigit c then (digits? isDigit rest).map (c :: ·) else none

def isHex (c : Char) : Bool := c.isDigit || ('a' ≤ c && c ≤ 'f') || ('A' ≤ c && c ≤ 'F')

def isOctal (c : Char) : Bool := '0' ≤ c && c ≤ '7'

def isBinary (c : Char) : Bool := c = '0' || c = '1'

def digitValue (c : Char) : Nat :=
  if c.isDigit then c.toNat - '0'.toNat else c.toLower.toNat - 'a'.toNat + 10

def valueIn (base : Nat) (cs : List Char) : Nat :=
  cs.foldl (fun n c => base * n + digitValue c) 0

/-- Decimal digits that do not start with a zero, unless that is all. -/
def whole? (cs : List Char) : Option (List Char) :=
  match digits? Char.isDigit cs with
  | some ('0' :: _ :: _) => none
  | ds => ds

/-- The sign of a number and what follows it. -/
def signed (cs : List Char) : Bool × List Char :=
  match cs with
  | '-' :: rest => (true, rest)
  | '+' :: rest => (false, rest)
  | rest => (false, rest)

/-- A whole number of at most 64 bits. -/
def integer? (cs : List Char) : Option Int := do
  let n : Int ← match cs with
    | '0' :: 'x' :: rest => (digits? isHex rest).map fun ds => (valueIn 16 ds : Int)
    | '0' :: 'o' :: rest => (digits? isOctal rest).map fun ds => (valueIn 8 ds : Int)
    | '0' :: 'b' :: rest => (digits? isBinary rest).map fun ds => (valueIn 2 ds : Int)
    | cs =>
      let (negative, ds) := signed cs
      (whole? ds).map fun ds => if negative then -(valueIn 10 ds : Int) else valueIn 10 ds
  if -9223372036854775808 ≤ n ∧ n < 9223372036854775808 then some n else none

/-- The exponent of a number, with its sign and after its `e`. -/
def exponentText? (cs : List Char) : Option (List Char) :=
  match cs with
  | '-' :: rest => (digits? Char.isDigit rest).map ('-' :: ·)
  | '+' :: rest => digits? Char.isDigit rest
  | rest => digits? Char.isDigit rest

def isExponentMark (c : Char) : Bool := c = 'e' || c = 'E'

/-- A number with a fraction, an exponent or both, as plain text without underscores. -/
def decimalText? (cs : List Char) : Option (List Char) := do
  let mantissa := cs.takeWhile fun c => !isExponentMark c
  let whole ← whole? (mantissa.takeWhile fun c => c ≠ '.')
  let fraction ← match mantissa.dropWhile fun c => c ≠ '.' with
    | [] => some []
    | _ :: rest => (digits? Char.isDigit rest).map ('.' :: ·)
  let exponent ← match cs.dropWhile fun c => !isExponentMark c with
    | [] => some []
    | _ :: rest => (exponentText? rest).map ('e' :: ·)
  if fraction = [] ∧ exponent = [] then none else some (whole ++ fraction ++ exponent)

/-- A finite number, or one of the words for those that are not. -/
def float? (cs : List Char) : Option Float := do
  let (negative, rest) := signed cs
  let isName := rest = "inf".toList ∨ rest = "nan".toList
  let text ← if isName then some rest else decimalText? rest
  let x ← Decimal.number? (String.ofList text)
  if x.isInf ∧ ¬isName then none
  else some (if negative then -x else x)

/-- Two digits as a number. -/
def twoDigits? (a b : Char) : Option Nat :=
  if a.isDigit && b.isDigit then some (valueIn 10 [a, b]) else none

def isLeap (year : Nat) : Bool := year % 4 = 0 && (year % 100 ≠ 0 || year % 400 = 0)

def daysIn (year month : Nat) : Nat :=
  if month = 2 then if isLeap year then 29 else 28
  else if month = 4 ∨ month = 6 ∨ month = 9 ∨ month = 11 then 30
  else 31

/-- A date and what follows it. -/
def date? (cs : List Char) : Option (String × List Char) := do
  match cs with
  | y₁ :: y₂ :: y₃ :: y₄ :: '-' :: m₁ :: m₂ :: '-' :: d₁ :: d₂ :: rest =>
    let year := 100 * (← twoDigits? y₁ y₂) + (← twoDigits? y₃ y₄)
    let month ← twoDigits? m₁ m₂
    let day ← twoDigits? d₁ d₂
    if 1 ≤ month ∧ month ≤ 12 ∧ 1 ≤ day ∧ day ≤ daysIn year month then
      some (String.ofList [y₁, y₂, y₃, y₄, '-', m₁, m₂, '-', d₁, d₂], rest)
    else none
  | _ => none

/-- Nine places of a second at most, without zeros at the end but for a lone one. -/
def fractionText (digits : List Char) : List Char :=
  match (digits.take 9).reverse.dropWhile (· = '0') with
  | [] => ['0']
  | shown => shown.reverse

/-- A fraction of a second, which may be missing, and what follows it. -/
def fraction? (cs : List Char) : Option (List Char × List Char) :=
  match cs with
  | '.' :: rest =>
    match rest.takeWhile Char.isDigit with
    | [] => none
    | digits => some ('.' :: fractionText digits, rest.dropWhile Char.isDigit)
  | _ => some ([], cs)

/-- The seconds of a time, which may be missing, and what follows them. -/
def seconds? (cs : List Char) : Option (List Char × List Char) := do
  match cs with
  | ':' :: s₁ :: s₂ :: rest =>
    let second ← twoDigits? s₁ s₂
    let (fraction, rest) ← fraction? rest
    if 60 < second then none else some (':' :: s₁ :: s₂ :: fraction, rest)
  | ':' :: _ => none
  | _ => some ([], cs)

/-- A time of day and what follows it. -/
def time? (cs : List Char) : Option (String × List Char) := do
  match cs with
  | h₁ :: h₂ :: ':' :: m₁ :: m₂ :: rest =>
    let hour ← twoDigits? h₁ h₂
    let minute ← twoDigits? m₁ m₂
    let (seconds, rest) ← seconds? rest
    if 23 < hour ∨ 59 < minute then none
    else some (String.ofList ([h₁, h₂, ':', m₁, m₂] ++ seconds), rest)
  | _ => none

/-- The offset of a time from the common one. -/
def offset? (cs : List Char) : Option String := do
  match cs with
  | [] => some ""
  | [c] => if c = 'Z' ∨ c = 'z' then some "Z" else none
  | [sign, h₁, h₂, ':', m₁, m₂] =>
    let hour ← twoDigits? h₁ h₂
    let minute ← twoDigits? m₁ m₂
    if (sign ≠ '+' ∧ sign ≠ '-') ∨ 23 < hour ∨ 59 < minute then none
    else
      let sign := if hour = 0 ∧ minute = 0 then '+' else sign
      some (String.ofList [sign, h₁, h₂, ':', m₁, m₂])
  | _ => none

/-- A date, a date with a time, or a time. -/
def datetime? (cs : List Char) : Option String := do
  match date? cs with
  | none =>
    match ← time? cs with
    | (text, []) => some text
    | _ => none
  | some (date, []) => some date
  | some (date, c :: rest) =>
    if c = 'T' ∨ c = 't' ∨ c = ' ' then
      let (time, rest) ← time? rest
      let offset ← offset? rest
      some (date ++ "T" ++ time ++ offset)
    else none

/-- The value of a word. -/
def word? (cs : List Char) : Option Value :=
  if cs = "true".toList then some (.bool true)
  else if cs = "false".toList then some (.bool false)
  else
    ((integer? cs).map .integer).or <| ((float? cs).map .float).or <|
      (datetime? cs).map .datetime

end Storyline.Toml
