import TextTemplate.Json
import TextTemplate.Value

namespace TextTemplate

structure Context where
  get : String → Option Value

namespace Value

def ofNumber : Json.Number → Value
  | .nat n => .uint n
  | .int n => .int n
  | .float x => .float x

mutual

/-- The value of a JSON value. Null is none, except inside an array, where it is a value without a
text, as objects are everywhere. -/
def ofJson? : Json → Option Value
  | .null => none
  | .bool value => some (.bool value)
  | .number n => some (ofNumber n)
  | .string text => some (.string text)
  | .array elements => some (.sequence (ofElements elements))
  | .object _ => some (.unsupported "object")

def ofElements : List Json → List Value
  | [] => []
  | j :: js => (ofJson? j).getD (.unsupported "null") :: ofElements js

end

end Value

namespace Context

instance : EmptyCollection Context := ⟨⟨fun _ => none⟩⟩

instance : Inhabited Context := ⟨∅⟩

/-- Of two values for one name the later counts. -/
def ofPairs (pairs : List (String × Value)) : Context := ⟨(pairs.reverse.lookup ·)⟩

def ofJson (j : Json) : Context := ⟨fun name => (j.path? name.toList).bind Value.ofJson?⟩

def orElse (a b : Context) : Context := ⟨fun name => (a.get name).or (b.get name)⟩

end Context

end TextTemplate
