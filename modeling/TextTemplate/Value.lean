import TextTemplate.Value.Scientific

namespace TextTemplate

/-- Signed and unsigned integers stay apart, and so do texts and the tags of an enumeration. An
unsupported value has no text: only the name of its type is known. -/
inductive Value
  | string (text : String)
  | int (value : Int)
  | uint (value : Nat)
  | bool (value : Bool)
  | float (value : Float)
  | tag (name : String)
  | sequence (elements : List Value)
  | unsupported (type : String)
deriving Inhabited

namespace Value

mutual

def text : Value → String
  | string text => text
  | int value => value.repr
  | uint value => value.repr
  | bool value => if value then "true" else "false"
  | float value => Scientific.ofFloat value
  | tag name => name
  | sequence elements => "[" ++ joined elements ++ "]"
  | unsupported type => "<" ++ type ++ ">"

def joined : List Value → String
  | [] => ""
  | [v] => v.text
  | v :: vs => v.text ++ ", " ++ joined vs

end

/-- The text that may stand in for the value: a sequence has none of its own. -/
def text? : Value → Option String
  | sequence _ | unsupported _ => none
  | v => some v.text

def typeName : Value → String
  | string _ => "string"
  | int _ | uint _ => "integer"
  | bool _ => "bool"
  | float _ => "float"
  | tag _ => "enum"
  | sequence _ => "sequence"
  | unsupported type => type

def elements? : Value → Option (List Value)
  | sequence elements => some elements
  | _ => none

mutual

/-- Values are equal when they are of the same kind and hold the same. As numbers, the zeros of
either sign are equal and a value that is not a number equals nothing. -/
def beq : Value → Value → Bool
  | string a, string b => a = b
  | int a, int b => a = b
  | uint a, uint b => a = b
  | bool a, bool b => a = b
  | float a, float b => a == b
  | tag a, tag b => a = b
  | sequence a, sequence b => beqAll a b
  | unsupported a, unsupported b => a = b
  | _, _ => false

def beqAll : List Value → List Value → Bool
  | [], [] => true
  | a :: as, b :: bs => beq a b && beqAll as bs
  | _, _ => false

end

instance : BEq Value := ⟨beq⟩

end Value

end TextTemplate
