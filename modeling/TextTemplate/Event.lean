import TextTemplate.Token
import TextTemplate.Text.Quoted

namespace TextTemplate

inductive Event
  | directive (place : Position) (kind : Directive.Kind)
  | endIgnored (place : Position)
  | loopsClosed (count : Nat)
  | compiled (bytes commands : Nat)
  | iteration (index : Nat) (list : String)
  | listUndefined (name : String)
  | listRejected (name type : String)
  | rendered (bytes : Nat)
  | arguments (count : Nat) (json : Bool)
deriving DecidableEq, Inhabited

inductive Level
  | off
  | error
  | warn
  | info
  | debug
  | trace
deriving DecidableEq, Inhabited

def Level.name : Level → String
  | off => "OFF"
  | error => "ERROR"
  | warn => "WARN"
  | info => "INFO"
  | debug => "DEBUG"
  | trace => "TRACE"

def Level.rank : Level → Nat
  | off => 0
  | error => 1
  | warn => 2
  | info => 3
  | debug => 4
  | trace => 5

def Position.shown (p : Position) : String :=
  s!"Position \x7b line: {p.line}, column: {p.column} \x7d"

def shownNames (names : List String) : String :=
  "[" ++ ", ".intercalate (names.map Quoted.encode) ++ "]"

def Directive.Kind.shown : Directive.Kind → String
  | field name => s!"FieldQualifier({Quoted.encode name})"
  | forRange first stop names =>
    let captures := shownNames names
    s!"ForLoop \x7b inner: Range \x7b start: {first}, end: {stop} \x7d, captures: {captures} \x7d"
  | forList list item further =>
    let captures := shownNames (item :: further)
    s!"ForLoop \x7b inner: Field({Quoted.encode list}), captures: {captures} \x7d"
  | endLoop => "End"

namespace Event

def level : Event → Level
  | directive _ _ | iteration _ _ => .trace
  | _ => .debug

def message : Event → String
  | directive place kind => s!"directive at {place.shown}: {kind.shown}"
  | endIgnored place => s!"ignoring `end` without an open loop at {place.shown}"
  | loopsClosed count => s!"closing {count} unterminated loop(s) at end of template"
  | compiled bytes commands =>
    s!"compiled template of {bytes} bytes into {commands} top-level command(s)"
  | iteration index list => s!"iteration {index} of Some({Quoted.encode list})"
  | listUndefined name => s!"`{name}` is not defined, skipping loop"
  | listRejected name type => s!"`{name}` is a {type}, not a sequence, skipping loop"
  | rendered bytes => s!"rendered {bytes} bytes"
  | arguments count json =>
    let context := if json then "supplied" else "missing"
    s!"rendering with {count} argument(s) and a {context} JSON context"

end Event

end TextTemplate
