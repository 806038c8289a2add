import LoopNest.Binary64

/-!
# The text of a floating-point number

A finite number is written with the fewest digits that read back as the number, and of the
decimal numbers with that many digits the nearest one.

* `shortest`: that decimal number.
* `text`: its text, positional for numbers of a moderate size.
-/

namespace LoopNest.Binary64

/-! ## The shortest decimal number -/

/-- The exponent of the leading digit of a magnitude that is not zero. -/
def leadingExponent (k : Nat) : Int :=
  (Text.digitCount (units k * Nat.pow 10 400 / unitsPerOne) : Int) - 401

/-- The quotient that the value of a magnitude is of `10 ^ grid`. -/
def overGrid (k : Nat) (grid : Int) : Nat × Nat :=
  if 0 ≤ grid then (units k, unitsPerOne * Nat.pow 10 grid.toNat)
  else (units k * Nat.pow 10 (-grid).toNat, unitsPerOne)

/-- The multiple of `10 ^ grid` next to the magnitude that reads back as it, the nearer one if
both do and the greater one at the same distance. -/
def onGrid? (k : Nat) (grid : Int) : Option Decimal :=
  let (n, d) := overGrid k grid
  let below : Decimal := ⟨n / d, grid⟩
  let above : Decimal := ⟨n / d + 1, grid⟩
  let readsBack (c : Decimal) : Bool := nearestDecimal c == k
  match readsBack below, readsBack above with
  | true, true => some (if 2 * (n % d) < d then below else above)
  | true, false => some below
  | false, true => some above
  | false, false => none

/-- The powers of ten of whose multiples one is sought, with one digit more each time. -/
def grids (k : Nat) : List Int :=
  (List.range 17).map fun (n : Nat) => leadingExponent k - (n : Int)

/-- The exact value of a magnitude. -/
def exact (k : Nat) : Decimal := ⟨units k * Nat.pow 10 1074 / unitsPerOne, -1074⟩

/-- The decimal number with the fewest digits that reads back as the magnitude `k`, which is
finite and not zero. Seventeen digits always do. -/
def shortest (k : Nat) : Decimal :=
  (((grids k).findSome? (onGrid? k)).map (Decimal.trimmed 20)).getD (exact k)

/-! ## Notation -/

/-- How decimal numbers are written. -/
structure Format where
  /-- The exponents of leading digits for which the notation is positional. -/
  positionalFrom : Int
  positionalTo : Int
  /-- The sign between the digits and the exponent. -/
  exponentMark : String
  infinity : String
  notANumber : String

/-- Numbers from `0.0001` to below `10 ^ 16` are positional, with a digit behind the point. -/
def Format.standard : Format := ⟨-4, 15, "e", "inf", "NaN"⟩

def zeros (n : Nat) : List Char := List.replicate n '0'

/-- The digits with a point behind the one of exponent zero; `leading` is the exponent of the
first digit. -/
def positional (digits : List Char) (leading : Int) : List Char :=
  if 0 ≤ leading then
    let whole := leading.toNat + 1
    let fraction := digits.drop whole
    digits.take whole ++ zeros (whole - digits.length) ++ '.' ::
      (if fraction.isEmpty then ['0'] else fraction)
  else '0' :: '.' :: zeros ((-leading).toNat - 1) ++ digits

/-- The digits with a point behind the first of them, if there are more, and the exponent. -/
def scientific (mark : String) (digits : List Char) (leading : Int) : List Char :=
  let fraction := digits.drop 1
  digits.take 1 ++ (if fraction.isEmpty then [] else '.' :: fraction) ++
    mark.toList ++ (toString leading).toList

def Format.decimal (f : Format) (d : Decimal) : List Char :=
  let digits := Nat.toDigits 10 d.coefficient
  let leading := d.exponent + digits.length - 1
  if f.positionalFrom ≤ leading ∧ leading ≤ f.positionalTo then positional digits leading
  else scientific f.exponentMark digits leading

def Format.magnitude (f : Format) (k : Nat) : List Char :=
  if k = infinite then f.infinity.toList
  else f.decimal (if k = 0 then ⟨0, 0⟩ else shortest k)

/-- The text of a number. Only what is no number has no sign. -/
def text (x : Binary64) (f : Format := .standard) : String :=
  if x.isNaN then f.notANumber
  else String.ofList ((if x.negative then ['-'] else []) ++ f.magnitude x.magnitude)

end LoopNest.Binary64
