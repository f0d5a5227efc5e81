import TextTemplate.Text.Decimal

namespace TextTemplate.Json

inductive Number
  | nat (value : Nat)
  | int (value : Int)
  | float (value : Float)
deriving Inhabited

namespace Number

/-- Takes up digits while the number that they form stays below `2 ^ 64`. -/
def absorb (n : Nat) : List Char → Nat × List Char
  | d :: digits =>
    let m := 10 * n + digitValue d
    if m < UInt64.size then absorb m digits else (n, d :: digits)
  | [] => (n, [])

def scaled (x : Float) (power : Int) : Option Float :=
  if power.natAbs ≤ 308 then
    let factor := Float.ofScientific 1 false power.natAbs
    if 0 ≤ power then
      let y := x * factor
      if y.isInf then none else some y
    else some (x / factor)
  else if x == 0 then some x
  else if 0 ≤ power then none
  else scaled (x / 1e308) (power + 308)
termination_by (-power).toNat

/-- The number of the given sign and digits, times a power of ten. A number written as an integer
has no fraction and no power. -/
def ofDigits (negative : Bool) (whole fraction : List Char) (power : Option Int) : Option Number :=
  let (n, excess) := absorb 0 whole
  if fraction = [] ∧ power = none ∧ excess = [] ∧ (negative → 0 < n ∧ n ≤ UInt64.size / 2) then
    some (if negative then .int (-n) else .nat n)
  else
    let (m, left) := absorb n fraction
    let shift : Int := excess.length - ((fraction.length - left.length : Nat) : Int)
    (scaled (UInt64.ofNat m).toFloat (shift + power.getD 0)).map fun x =>
      .float (if negative then -x else x)

def digits? (text : List Char) : Option (List Char × List Char) :=
  let digits := text.takeWhile Char.isDigit
  if digits = [] then none else some (digits, text.dropWhile Char.isDigit)

/-- The digits in front of the point: no zero stands before another digit. -/
def whole? : List Char → Option (List Char × List Char)
  | '0' :: text => some (['0'], text)
  | text => digits? text

def fraction? : List Char → Option (List Char × List Char)
  | '.' :: text => digits? text
  | text => some ([], text)

def sign : List Char → Bool × List Char
  | '-' :: text => (true, text)
  | '+' :: text => (false, text)
  | text => (false, text)

def power? : List Char → Option (Option Int)
  | [] => some none
  | e :: text =>
    if e = 'e' ∨ e = 'E' then
      let (negative, text) := sign text
      match digits? text with
      | some (digits, []) =>
        let n : Int := decimalValue digits
        some (some (if negative then -n else n))
      | _ => none
    else none

def read? (text : List Char) : Option Number := do
  let negative := text.head? = some '-'
  let (whole, text) ← whole? (if negative then text.tail else text)
  let (fraction, text) ← fraction? text
  ofDigits negative whole fraction (← power? text)

end Number

end TextTemplate.Json
