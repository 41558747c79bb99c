import Storyline.Decimal.Shortest

namespace Storyline.Decimal

/-- What one written form of numbers decides: which of them stand in positional notation, whether a
whole number keeps a fraction, and the names of the values that are no numbers. -/
structure Layout where
  tie : Tie
  /-- Whether a number whose leading digit is worth `10 ^ e` is written without an exponent. -/
  positional : Int → Bool
  /-- A whole number in positional notation ends in `.0`. -/
  wholeFraction : Bool
  infinity : String
  negativeInfinity : String
  notNumber : String

/-- Messages and listings: never an exponent, no fraction on a whole number. -/
def Layout.display : Layout where
  tie := .up
  positional := fun _ => true
  wholeFraction := false
  infinity := "inf"
  negativeInfinity := "-inf"
  notNumber := "NaN"

/-- JSON text: positional from `10 ^ -5` up to `10 ^ 16`, and a value that is no number is null. -/
def Layout.json : Layout where
  tie := .even
  positional := fun e => -5 ≤ e && e < 16
  wholeFraction := true
  infinity := "null"
  negativeInfinity := "null"
  notNumber := "null"

def zeros (n : Nat) : String := "".pushn '0' n

namespace Digits

def text (d : Digits) : String := toString d.digits

/-- The exponent of the leading digit. -/
def magnitude (d : Digits) : Int := d.text.length - 1 + d.exponent

def positional (d : Digits) (wholeFraction : Bool) : String :=
  if 0 ≤ d.exponent then
    d.text ++ zeros d.exponent.toNat ++ if wholeFraction then ".0" else ""
  else if 0 ≤ d.magnitude then
    let whole := d.magnitude.toNat + 1
    (d.text.take whole).toString ++ "." ++ (d.text.drop whole).toString
  else
    "0." ++ zeros (-d.magnitude - 1).toNat ++ d.text

def exponential (d : Digits) : String :=
  let tail := (d.text.drop 1).toString
  let mantissa := (d.text.take 1).toString ++ if tail == "" then "" else "." ++ tail
  mantissa ++ (if 0 ≤ d.magnitude then "e+" else "e-") ++ toString d.magnitude.natAbs

def write (d : Digits) (layout : Layout) : String :=
  if layout.positional d.magnitude then d.positional layout.wholeFraction else d.exponential

end Digits

/-- The magnitude bits of a number, without its sign. -/
def magnitudeBits (x : Float) : UInt64 := x.toBits &&& 0x7fffffffffffffff

def isNegative (x : Float) : Bool := x.toBits >>> 63 == 1

def Layout.write (layout : Layout) (x : Float) : String :=
  let bits := magnitudeBits x
  if 0x7ff0000000000000 < bits then layout.notNumber
  else if bits == 0x7ff0000000000000 then
    if isNegative x then layout.negativeInfinity else layout.infinity
  else
    let sign := if isNegative x then "-" else ""
    let digits := if bits == 0 then ⟨0, 0⟩ else (Binary.ofBits bits).shortest layout.tie
    sign ++ digits.write layout

end Storyline.Decimal
