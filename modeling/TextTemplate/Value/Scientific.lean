import TextTemplate.Text.Decimal

namespace TextTemplate.Scientific

/-- What 64 bits encode. A finite number is `mantissa * 2 ^ exponent` with a sign. -/
inductive Decoded
  | nan
  | infinite (negative : Bool)
  | finite (negative : Bool) (mantissa : Nat) (exponent : Int)
deriving DecidableEq, Inhabited

def decode (bits : Nat) : Decoded :=
  let negative : Bool := bits / Nat.pow 2 63 % 2 = 1
  let exponent : Nat := bits / Nat.pow 2 52 % Nat.pow 2 11
  let fraction := bits % Nat.pow 2 52
  if exponent = 2047 then if fraction = 0 then .infinite negative else .nan
  else if exponent = 0 then .finite negative fraction (-1074)
  else .finite negative (Nat.pow 2 52 + fraction) ((exponent : Int) - 1075)

def digitCount (n : Nat) : Nat := if n < 10 then 1 else digitCount (n / 10) + 1

def roundDiv (n d : Nat) : Nat :=
  let q := n / d
  match compare (2 * (n % d)) d with
  | .lt => q
  | .eq => q + q % 2
  | .gt => q + 1

def scale (n d : Nat) (power : Int) : Nat × Nat :=
  (n * Nat.pow 10 power.toNat, d * Nat.pow 10 (-power).toNat)

/-- The power of ten of the leading digit of `n / d`. -/
def leadingPower (n d : Nat) : Int :=
  let guess : Int := (digitCount n : Int) - digitCount d
  let (a, b) := scale n d (-guess)
  if b ≤ a then guess else guess - 1

def digits (n d : Nat) : Nat × Int :=
  if n = 0 then (0, 0)
  else
    let power := leadingPower n d
    let (a, b) := scale n d (15 - power)
    let rounded := roundDiv a b
    if rounded = Nat.pow 10 16 then (Nat.pow 10 15, power + 1) else (rounded, power)

def pointed : List Char → List Char
  | first :: rest => first :: '.' :: rest
  | [] => []

/-- A fraction with fifteen digits behind the point and a plain exponent. -/
def exponential (negative : Bool) (n d : Nat) : List Char :=
  let (significand, power) := digits n d
  (if negative then ['-'] else []) ++ pointed (padded 16 significand)
    ++ 'e' :: ((if power < 0 then ['-'] else []) ++ Nat.toDigits 10 power.natAbs)

/-- Reads a whole number of 32 bits, one of which is for the sign. -/
def power? (text : List Char) : Option Int :=
  let down : Bool := text.head? = some '-'
  let digits := if down ∨ text.head? = some '+' then text.tail else text
  let bound := if down then UInt32.size / 2 + 1 else UInt32.size / 2
  if digits ≠ [] ∧ digits.all Char.isDigit ∧ decimalValue digits < bound then
    some (if down then -decimalValue digits else decimalValue digits)
  else none

def signed? (text : List Char) : Option (List Char) :=
  match text.dropWhile (· ≠ 'e') with
  | [] => some text
  | _ :: exponent =>
    (power? exponent).map fun power =>
      text.takeWhile (· ≠ 'e') ++ ['e', if power < 0 then '-' else '+'] ++ padded 2 power.natAbs

/-- No exponent of a double-precision number is too large to be given a sign. -/
def ofFraction (negative : Bool) (n d : Nat) : List Char := (signed? (exponential negative n d)).getD []

def ofDecoded : Decoded → List Char
  | .nan => ['n', 'a', 'n']
  | .infinite negative => (if negative then ['-'] else []) ++ ['i', 'n', 'f']
  | .finite negative mantissa exponent =>
    ofFraction negative (mantissa * Nat.pow 2 exponent.toNat) (Nat.pow 2 (-exponent).toNat)

def ofFloat (x : Float) : String := String.ofList (ofDecoded (decode x.toBits.toNat))

end TextTemplate.Scientific
