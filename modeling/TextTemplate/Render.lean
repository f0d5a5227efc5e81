import TextTemplate.Command
import TextTemplate.Context
import TextTemplate.Fault
import TextTemplate.Traced

namespace TextTemplate

/-- What one round of a loop binds: its number, and an element if the loop runs over a list. -/
structure Frame where
  index : Option String := none
  number : Nat
  item : Option (String × Value) := none

namespace Frame

def range (index : Option String) (number : Nat) : Frame := { index, number }

def each (item : String) (v : Value) (index : Option String) (number : Nat) : Frame :=
  { index, number, item := some (item, v) }

def bindings (f : Frame) : List (String × Value) :=
  f.index.toList.map (·, .uint f.number) ++ f.item.toList

end Frame

abbrev Bindings := List Frame

namespace Bindings

/-- Asks one round after the other, and each for its number before its element. -/
def resolve? : Bindings → String → Option Value
  | [], _ => none
  | f :: outer, name =>
    if f.index = some name then some (.uint f.number)
    else match f.item with
      | some (item, v) => if item = name then some v else resolve? outer name
      | none => resolve? outer name

theorem lookup_cons (e : String × Value) (name : String) (further : List (String × Value)) :
    (e :: further).lookup name = if e.1 = name then some e.2 else further.lookup name := by
  obtain ⟨x, v⟩ := e
  by_cases h : x = name
  · rw [List.lookup_cons, beq_iff_eq.2 h.symm, if_pos h]
  · rw [List.lookup_cons, beq_false_of_ne (Ne.symm h), if_neg h]

theorem resolve?_eq_lookup (bound : Bindings) (name : String) :
    resolve? bound name = (bound.flatMap Frame.bindings).lookup name := by
  induction bound with
  | nil => rfl
  | cons f outer ih =>
    obtain ⟨index, number, item⟩ := f
    cases index <;> cases item <;>
      simp [resolve?, Frame.bindings, lookup_cons, ih]

def find? (bound : Bindings) (context : Context) (name : String) : Option Value :=
  (resolve? bound name).or (context.get name)

end Bindings

structure Printout where
  text : String := ""
  log : Array Event := #[]
deriving Inhabited

/-- Rendering steps extend a printout until a fault stops them. -/
abbrev Rendering := EStateM Fault Printout

namespace Rendering

def print (text : String) : Rendering Unit := modify fun p => { p with text := p.text ++ text }

def report (event : Event) : Rendering Unit := modify fun p => { p with log := p.log.push event }

def rounds (round : Nat → Rendering Unit) : Nat → Nat → Rendering Unit
  | 0, _ => pure ()
  | count + 1, k => do
    round k
    rounds round count (k + 1)

def roundsOver (round : Nat → Value → Rendering Unit) : List Value → Nat → Rendering Unit
  | [], _ => pure ()
  | v :: vs, k => do
    round k v
    roundsOver round vs (k + 1)

def substitute (name : String) (range : Range) : Option Value → Rendering Unit
  | none => throw ⟨range, .undefined name⟩
  | some v =>
    match v.text? with
    | some text => print text
    | none => throw ⟨range, .noText name v.typeName⟩

/-- The elements that a loop runs over. Strictness rejects what is no sequence; otherwise it counts
as an empty one. -/
def elements (strict : Bool) (name : String) (range : Range) : Option Value → Rendering (List Value)
  | none =>
    if strict then throw ⟨range, .undefined name⟩
    else do
      report (.listUndefined name)
      return []
  | some v =>
    match v.elements? with
    | some vs => return vs
    | none =>
      if strict then throw ⟨range, .notSequence name v.typeName⟩
      else do
        report (.listRejected name v.typeName)
        return []

end Rendering

open Rendering

mutual

def Command.render (strict : Bool) (context : Context) (bound : Bindings) :
    Command → Rendering Unit
  | .literal text => print text
  | .substitution name range => substitute name range (Bindings.find? bound context name)
  | .forRange count index body =>
    rounds (fun k => renderAll strict context (.range index k :: bound) body) count 0
  | .forEach list item index body range => do
    let vs ← elements strict list range (Bindings.find? bound context list)
    roundsOver (fun k v => do
      report (.iteration k list)
      renderAll strict context (.each item v index k :: bound) body) vs 0

def renderAll (strict : Bool) (context : Context) (bound : Bindings) :
    List Command → Rendering Unit
  | [] => pure ()
  | c :: cs => do
    c.render strict context bound
    renderAll strict context bound cs

end

def render (strict : Bool) (context : Context) (commands : List Command) : Traced Fault String :=
  match renderAll strict context [] commands |>.run {} with
  | .ok () p => ⟨p.log.toList, .ok p.text⟩
  | .error fault p => ⟨p.log.toList, .error fault⟩

end TextTemplate
