import LoopNest.Decimal

/-!
# Floating-point numbers

Numbers in the binary64 format: a sign and a magnitude. The magnitude is the number that the
remaining 63 bits of the format hold, so that greater magnitudes are greater numbers; the
magnitudes up to `infinite` are the finite numbers, and those above it are no numbers.

* `units`: the exact value of a finite magnitude, in units of `2 ^ (-1074)`.
* `nearest`: the magnitude nearest to a quotient, the even one of two at the same distance.
* `ofDecimal`: the number that a decimal number is read as.
-/

namespace LoopNest

structure Binary64 where
  negative : Bool
  magnitude : Nat
deriving DecidableEq, Repr, Inhabited

namespace Binary64

/-! ## Magnitudes -/

/-- The number of magnitudes from one power of two to the next. -/
def binade : Nat := Nat.pow 2 52

/-- The number of units in one. -/
def unitsPerOne : Nat := Nat.pow 2 1074

/-- The magnitude of infinity. -/
def infinite : Nat := 2047 * binade

/-- The magnitude of what is no number. -/
def invalid : Nat := infinite + binade / 2

/-- The value of a finite magnitude, in units of `2 ^ (-1074)`. -/
def units (k : Nat) : Nat :=
  if k < binade then k else (binade + k % binade) * Nat.pow 2 (k / binade - 1)

def isFinite (x : Binary64) : Bool := x.magnitude < infinite

def isNaN (x : Binary64) : Bool := infinite < x.magnitude

/-- Equality of numbers: the zeros are equal, and what is no number equals nothing. -/
def same (x y : Binary64) : Bool :=
  !x.isNaN && !y.isNaN && x.magnitude == y.magnitude &&
    (x.negative == y.negative || x.magnitude == 0)

/-! ## Rounding -/

/-- The whole number nearest to `n / d`, the even one of two at the same distance. -/
def roundToEven (n d : Nat) : Nat :=
  let q := n / d
  let r := n % d
  if 2 * r < d then q else if d < 2 * r then q + 1 else q + q % 2

/-- The magnitude nearest to `n / d`. Quotients of more than 53 bits are rounded to a multiple
of the distance between the magnitudes of their size. -/
def nearest (n d : Nat) : Nat :=
  let shift := Nat.log2 (n * unitsPerOne / d) - 52
  min infinite (shift * binade + roundToEven (n * unitsPerOne) (d * Nat.pow 2 shift))

/-- The magnitude nearest to a decimal number. Those far out of range are not computed. -/
def nearestDecimal (d : Decimal) : Nat :=
  let size := Text.digitCount d.coefficient + d.exponent
  if d.coefficient = 0 ∨ size < -330 then 0
  else if 310 < size then infinite
  else if 0 ≤ d.exponent then nearest (d.coefficient * Nat.pow 10 d.exponent.toNat) 1
  else nearest d.coefficient (Nat.pow 10 (-d.exponent).toNat)

def ofDecimal (negative : Bool) (d : Decimal) : Binary64 := ⟨negative, nearestDecimal d⟩

/-! ## Reading -/

/-- The magnitude with that name. -/
def named? (name : String) : Option Nat :=
  if name = "inf" ∨ name = "infinity" then some infinite
  else if name = "nan" then some invalid
  else none

/-- The number that a text writes: a sign, then a decimal number, `inf`, `infinity` or `nan`,
in either case. -/
def read? (text : String) : Option Binary64 :=
  let (sign, rest) := Text.splitSign text.toList
  let negative := sign == ['-']
  match named? (String.ofList (rest.map Char.toLower)) with
  | some magnitude => some ⟨negative, magnitude⟩
  | none => (Decimal.read? rest).map (ofDecimal negative)

end Binary64

end LoopNest
