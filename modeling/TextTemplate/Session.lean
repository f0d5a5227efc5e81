import TextTemplate.Template

namespace TextTemplate

def version : String := "0.1.0"

inductive SlotError
  | empty
  | template (diagnostic : Diagnostic)
deriving DecidableEq

structure Session where
  strict : Bool := false
  slots : List (String × Template) := []

namespace Session

def setStrict (s : Session) (strict : Bool) : Session := { s with strict }

def find? (s : Session) (slot : String) : Option Template := s.slots.lookup slot

def find (s : Session) (slot : String) : Traced SlotError Template :=
  match s.find? slot with
  | some t => return t
  | none => .fail .empty

def store (s : Session) (slot : String) (t : Template) : Session :=
  { s with slots := (slot, t) :: s.slots }

/-- Compiles into a slot, which keeps what it held if that fails. -/
def compile (s : Session) (slot source : String) : Session × Traced SlotError Template :=
  let outcome := (Template.compile s.strict source).mapError .template
  match outcome.outcome with
  | .ok t => (s.store slot t, outcome)
  | .error _ => (s, outcome)

def render (s : Session) (slot : String) (context : Context) : Traced SlotError String := do
  let t ← s.find slot
  (t.render context).mapError .template

end Session

end TextTemplate
