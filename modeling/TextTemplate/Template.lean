import TextTemplate.Render
import TextTemplate.Template.Nesting
import TextTemplate.Text.Offset

namespace TextTemplate

structure Diagnostic where
  fault : Fault
  source : String
  span : Span
deriving DecidableEq, Inhabited

namespace Diagnostic

/-- Places a fault on a text, which need not be the one that it arose in. -/
def place (source : String) (fault : Fault) : Diagnostic :=
  ⟨fault, source, fault.range.spanIn source.toList⟩

def message (d : Diagnostic) : String := d.fault.cause.message

def labels (d : Diagnostic) : List (String × Span) := [(d.message, d.span)]

end Diagnostic

structure Template where
  source : String
  commands : List Command
  strict : Bool
deriving DecidableEq

namespace Template

def compile (strict : Bool) (source : String) : Traced Diagnostic Template := do
  let commands ← (TextTemplate.compile strict source).mapError (.place source)
  .report (.compiled source.utf8ByteSize commands.length)
  return ⟨source, commands, strict⟩

def render (t : Template) (context : Context) : Traced Diagnostic String := do
  let output ← (TextTemplate.render t.strict context t.commands).mapError (.place t.source)
  .report (.rendered output.utf8ByteSize)
  return output

end Template

end TextTemplate
