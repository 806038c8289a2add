import LoopNest.Text.Digits

/-!
# Decimal numbers

A decimal number is a whole number of some power of ten. `Decimal.read?` reads an unsigned
number with an optional fraction and exponent; a point needs a digit on one side.
-/

namespace LoopNest

/-- The number `coefficient * 10 ^ exponent`. -/
structure Decimal where
  coefficient : Nat
  exponent : Int
deriving DecidableEq, Repr

namespace Decimal

/-- The exponent that `cs` writes. -/
def readExponent? (cs : List Char) : Option Int :=
  let (sign, rest) := Text.splitSign cs
  let (digits, rest) := Text.splitDigits rest
  if digits.isEmpty || !rest.isEmpty then none
  else if sign = ['-'] then some (-(Text.digitsValue digits : Int))
  else some (Text.digitsValue digits)

/-- The fraction at the front of a text, without its point, and the rest. -/
def splitPoint : List Char → List Char × List Char
  | '.' :: cs => Text.splitDigits cs
  | cs => ([], cs)

/-- The number that `cs` writes, if all of it is one number. -/
def read? (cs : List Char) : Option Decimal :=
  let (whole, rest) := Text.splitDigits cs
  let (fraction, rest) := splitPoint rest
  if whole.isEmpty && fraction.isEmpty then none
  else
    let shifted (exponent : Int) : Decimal :=
      ⟨Text.digitsValue (whole ++ fraction), exponent - fraction.length⟩
    match rest with
    | [] => some (shifted 0)
    | 'e' :: rest => (readExponent? rest).map shifted
    | 'E' :: rest => (readExponent? rest).map shifted
    | _ => none

/-- The same number without zeros at the end of the coefficient, as far as `fuel` goes. -/
def trimmed : Nat → Decimal → Decimal
  | 0, d => d
  | fuel + 1, d =>
    if d.coefficient ≠ 0 ∧ d.coefficient % 10 = 0 then
      trimmed fuel ⟨d.coefficient / 10, d.exponent + 1⟩
    else d

end Decimal

end LoopNest
