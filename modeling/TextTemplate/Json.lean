import TextTemplate.Json.Number

namespace TextTemplate

inductive Json
  | null
  | bool (value : Bool)
  | number (value : Json.Number)
  | string (text : String)
  | array (elements : List Json)
  | object (fields : List (String × Json))
deriving Inhabited

namespace Json

def isObject : Json → Bool
  | object _ => true
  | _ => false

/-- An index into an array: decimal digits, with or without a plus sign, below `2 ^ 64`. -/
def index? (text : List Char) : Option Nat :=
  let digits := if text.head? = some '+' then text.tail else text
  if digits ≠ [] ∧ digits.all Char.isDigit ∧ decimalValue digits < UInt64.size then
    some (decimalValue digits)
  else none

def child? : Json → List Char → Option Json
  | object fields, segment => fields.reverse.lookup (String.ofList segment)
  | array elements, segment => (index? segment).bind (elements[·]?)
  | _, _ => none

/-- The parts of a text between its dots. There is always one. -/
def segments : List Char → List (List Char)
  | [] => [[]]
  | c :: text =>
    if c = '.' then [] :: segments text
    else match segments text with
      | segment :: further => (c :: segment) :: further
      | [] => [[c]]

def path? (j : Json) (path : List Char) : Option Json := (segments path).foldlM child? j

end Json

end TextTemplate
