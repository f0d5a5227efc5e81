import TextTemplate.Command
import TextTemplate.Template.Pieces
import TextTemplate.Traced

namespace TextTemplate

inductive LoopHeader
  | forRange (count : Nat) (index : Option String) (range : Range)
  | forEach (list item : String) (index : Option String) (range : Range)
deriving DecidableEq, Inhabited

namespace LoopHeader

def range : LoopHeader → Range
  | forRange _ _ range | forEach _ _ _ range => range

def command (body : List Command) : LoopHeader → Command
  | forRange count index _ => .forRange count index body
  | forEach list item index range => .forEach list item index body range

end LoopHeader

/-- The commands of the innermost open loop, and for each open loop, the innermost first, its header
and the commands in front of it. All lists of commands have the last one first. -/
structure Nesting where
  current : List Command := []
  outer : List (LoopHeader × List Command) := []
deriving Inhabited

namespace Nesting

def push (n : Nesting) (c : Command) : Nesting := { n with current := c :: n.current }

def enter (n : Nesting) (header : LoopHeader) : Nesting := ⟨[], (header, n.current) :: n.outer⟩

def close? (n : Nesting) : Option Nesting :=
  match n.outer with
  | [] => none
  | (header, before) :: outer => some ⟨header.command n.current.reverse :: before, outer⟩

def finish (n : Nesting) : List Command :=
  (n.outer.foldl (fun body (header, before) => header.command body.reverse :: before)
    n.current).reverse

def add (strict : Bool) (n : Nesting) (d : Directive) : Traced Fault Nesting :=
  match d.kind with
  | .field name => return n.push (.substitution name d.range)
  | .forRange first stop names => return n.enter (.forRange (stop - first) names.head? d.range)
  | .forList list item further => return n.enter (.forEach list item further.head? d.range)
  | .endLoop =>
    match n.close? with
    | some n => return n
    | none =>
      if strict then .fail ⟨d.range, .strayEnd⟩
      else do
        .report (.endIgnored d.range.start)
        return n

def addAll (strict : Bool) : Pieces → Nesting → Traced Fault Nesting
  | .done, n => return n
  | .broken fault, _ => .fail fault
  | .literal text rest, n => addAll strict rest (n.push (.literal text))
  | .directive d rest, n => do
    .report (.directive d.range.start d.kind)
    let n ← n.add strict d
    addAll strict rest n

/-- The commands of a template that ends here. Strictness rejects loops that are still open. -/
def complete (strict : Bool) (n : Nesting) : Traced Fault (List Command) :=
  match n.outer with
  | [] => return n.finish
  | (header, _) :: _ =>
    if strict then .fail ⟨header.range, .unclosedLoop⟩
    else do
      .report (.loopsClosed n.outer.length)
      return n.finish

end Nesting

def compile (strict : Bool) (template : String) : Traced Fault (List Command) := do
  let n ← Nesting.addAll strict (.ofText template) {}
  n.complete strict

end TextTemplate
