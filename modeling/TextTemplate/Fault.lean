import TextTemplate.Token

namespace TextTemplate

inductive Expectation
  | leftParen
  | dots
  | number
  | subject
  | rightParen
  | binder
  | separator
deriving DecidableEq, Inhabited

def Expectation.text : Expectation → String
  | leftParen => "`(`"
  | dots => "`..`"
  | number => "a number"
  | subject => "a field name or a range"
  | rightParen => "`)`"
  | binder => "a variable name"
  | separator => "`,` or `|`"

inductive Stage
  | lexing
  | parsing
  | compiling
  | rendering
deriving DecidableEq, Inhabited

/-- A missing token, where one is reported as found, stands for the end of the text. -/
inductive Cause
  | unknownToken (text : String)
  | loneBrace
  | badStart (found : Token.Kind)
  | unexpected (expected : Expectation) (found : Option Token.Kind)
  | missingItem (list : String)
  | notClosed (found : Option Token.Kind)
  | strayClose
  | strayEnd
  | unclosedLoop
  | undefined (name : String)
  | noText (name type : String)
  | notSequence (name type : String)
deriving DecidableEq, Inhabited

structure Fault where
  range : Range
  cause : Cause
deriving DecidableEq, Inhabited

namespace Cause

def shown : Option Token.Kind → String
  | some kind => kind.text
  | none => "EOF"

def message : Cause → String
  | unknownToken text => s!"Invalid token `{text}`"
  | loneBrace => "Mismatched template delimiter, expected `\x7d\x7d`"
  | badStart found => s!"Invalid token `{found.text}` at the start of a directive"
  | unexpected expected found => s!"Expected {expected.text} but got `{shown found}`"
  | missingItem list => s!"Missing item variable capture for `for ({list})`"
  | notClosed found =>
    s!"Mismatched template delimiter, expected `\x7d\x7d` but got `{shown found}`"
  | strayClose =>
    "Mismatched template delimiter, `\x7d\x7d` without an opening `\x7b\x7b`"
  | strayEnd => "Unexpected `end` without an open loop"
  | unclosedLoop => "Loop is never closed with `end`"
  | undefined name => s!"Variable \"{name}\" not found"
  | noText name type => s!"Cannot substitute \"{name}\", a {type} has no text form"
  | notSequence name type =>
    s!"Cannot iterate over \"{name}\", expected a sequence but got a {type}"

def stage : Cause → Stage
  | unknownToken _ | loneBrace => .lexing
  | badStart _ | unexpected _ _ | missingItem _ | notClosed _ => .parsing
  | strayClose | strayEnd | unclosedLoop => .compiling
  | undefined _ | noText _ _ | notSequence _ _ => .rendering

/-- The class of a cause, by which faults of different stages may agree. -/
def label : Cause → String
  | unknownToken _ | badStart _ => "InvalidToken"
  | loneBrace | notClosed _ | strayClose => "MismatchedTemplateDelimiter"
  | unexpected _ _ => "ParseError"
  | missingItem _ => "NoItemVariableCapture"
  | strayEnd => "UnexpectedEnd"
  | unclosedLoop => "UnclosedLoop"
  | undefined _ => "VariableNameNotFound"
  | noText _ _ => "InvalidSubstitution"
  | notSequence _ _ => "NotIterable"

def help : Cause → String
  | unknownToken _ =>
    "Directives may only contain names, numbers, `for`, `end`, `(`, `)`, `..`, `|` and `,`."
  | badStart _ => "A directive starts with a name, `for` or `end`."
  | unexpected _ _ =>
    "Check the directive syntax, e.g. `\x7b\x7b for (list) |item, i| \x7d\x7d`."
  | missingItem list => s!"Name the current element, e.g. `for ({list}) |item|`."
  | loneBrace | notClosed _ | strayClose =>
    "Every `\x7b\x7b` must be closed by `\x7d\x7d`. Check for a missing or extra brace."
  | strayEnd => "Remove the `end` or add the `for` it belongs to."
  | unclosedLoop => "Close the loop with `\x7b\x7b end \x7d\x7d`."
  | undefined name =>
    s!"'{name}' is neither a loop variable in scope nor a field of the context."
  | noText name type =>
    if type = "sequence" then
      s!"Iterate over '{name}' with `\x7b\x7b for ({name}) |item| \x7d\x7d` instead."
    else s!"'{name}' is a {type}; substitute one of its fields instead."
  | notSequence name _ => s!"'{name}' must be a sequence to be used in `for`."

end Cause

def Stage.name : Stage → String
  | lexing => "LexerError"
  | parsing => "ParseError"
  | compiling => "CompileError"
  | rendering => "RenderError"

def Cause.code (c : Cause) : String := s!"{c.stage.name}::{c.label}"

end TextTemplate
