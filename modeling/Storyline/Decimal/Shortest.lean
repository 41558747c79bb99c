namespace Storyline.Decimal

/-- The number `m · 2 ^ q`. -/
structure Binary where
  m : Nat
  q : Int
  /-- The next smaller number is only half as far away as the next larger one. -/
  narrowBelow : Bool
deriving DecidableEq, Repr

/-- The digits of `digits`, the last of them worth `10 ^ exponent`. -/
structure Digits where
  digits : Nat
  exponent : Int
deriving DecidableEq, Repr

/-- Which of two equally near neighbours is taken. -/
inductive Tie where
  | up
  | even
deriving DecidableEq, Repr

/-- What the bit pattern of a positive finite number stands for. -/
def Binary.ofBits (bits : UInt64) : Binary :=
  let unit := Nat.pow 2 52
  let fraction := bits.toNat % unit
  let field : Nat := bits.toNat / unit % 2048
  if field = 0 then ⟨fraction, -1074, false⟩
  else ⟨unit + fraction, (field : Int) - 1075, fraction = 0 ∧ 1 < field⟩

/-- A positive rational number. -/
structure Ratio where
  num : Nat
  den : Nat
deriving DecidableEq, Repr

namespace Ratio

/-- `n · 2 ^ q`. -/
def scale (n : Nat) (q : Int) : Ratio :=
  if 0 ≤ q then ⟨n * Nat.pow 2 q.toNat, 1⟩ else ⟨n, Nat.pow 2 (-q).toNat⟩

/-- `n · 10 ^ k`. -/
def decimal (n : Nat) (k : Int) : Ratio :=
  if 0 ≤ k then ⟨n * Nat.pow 10 k.toNat, 1⟩ else ⟨n, Nat.pow 10 (-k).toNat⟩

def lt (a b : Ratio) : Bool := a.num * b.den < b.num * a.den

def le (a b : Ratio) : Bool := a.num * b.den ≤ b.num * a.den

/-- How many whole times `10 ^ k` goes into the number. -/
def floor (a : Ratio) (k : Int) : Nat :=
  if 0 ≤ k then a.num / (a.den * Nat.pow 10 k.toNat)
  else a.num * Nat.pow 10 (-k).toNat / a.den

/-- The exponent of the leading decimal digit. -/
def magnitude (a : Ratio) : Int :=
  if a.den ≤ a.num then ((Nat.toDigits 10 (a.num / a.den)).length : Int) - 1
  else
    match (List.range 400).find? fun k => a.den ≤ a.num * Nat.pow 10 k with
    | some k => -k
    | none => -400

end Ratio

namespace Binary

def value (b : Binary) : Ratio := .scale b.m b.q

/-- Whether a decimal rounds to `b`. -/
def rounds (b : Binary) (d : Ratio) : Bool :=
  let below := Ratio.scale (4 * b.m - if b.narrowBelow then 1 else 2) (b.q - 2)
  let above := Ratio.scale (4 * b.m + 2) (b.q - 2)
  if b.m % 2 = 0 then below.le d && d.le above else below.lt d && d.lt above

/-- The neighbour of `b` on the grid of `10 ^ k` that rounds to `b`, if there is one. -/
def neighbour? (b : Binary) (tie : Tie) (k : Int) : Option Nat :=
  let low := b.value.floor k
  match b.rounds (.decimal low k), b.rounds (.decimal (low + 1) k) with
  | false, false => none
  | true, false => some low
  | false, true => some (low + 1)
  | true, true =>
    let half := Ratio.decimal (10 * low + 5) (k - 1)
    if b.value.lt half then some low
    else if half.lt b.value then some (low + 1)
    else if tie = .even ∧ low % 2 = 0 then some low
    else some (low + 1)

end Binary

/-- The same number without zeros at the end of its digits; `fuel` bounds how many are dropped. -/
def Digits.trim : Nat → Digits → Digits
  | 0, d => d
  | fuel + 1, d =>
    if d.digits % 10 = 0 ∧ d.digits ≠ 0 then trim fuel ⟨d.digits / 10, d.exponent + 1⟩ else d

/-- Seventeen digits are always enough, so the search ends there. -/
def Binary.shortest (b : Binary) (tie : Tie) : Digits :=
  let top := b.value.magnitude
  let grids := (List.range 17).map fun n : Nat => top - n
  match grids.findSome? fun k => (b.neighbour? tie k).map (Digits.mk · k) with
  | some d => d.trim 20
  | none => ⟨b.value.floor (top - 16), top - 16⟩

end Storyline.Decimal
