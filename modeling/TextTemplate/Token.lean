import TextTemplate.Text.Position

namespace TextTemplate

inductive Token.Kind
  | comma
  | endWord
  | close
  | forWord
  | name (text : String)
  | leftParen
  | number (value : Nat)
  | pipe
  | rightParen
  | dots
deriving DecidableEq, Inhabited

structure Token where
  kind : Token.Kind
  range : Range
deriving DecidableEq, Inhabited

/-- A number shows its value, so leading zeros are gone. -/
def Token.Kind.text : Token.Kind → String
  | comma => ","
  | endWord => "end"
  | close => "\x7d\x7d"
  | forWord => "for"
  | name text => text
  | leftParen => "("
  | number value => value.repr
  | pipe => "|"
  | rightParen => ")"
  | dots => ".."

/-- A loop runs over the numbers from `first` up to but not including `stop`, or over the elements
of a named list. It binds names in the order in which they are written, and a loop over a list binds
at least one. -/
inductive Directive.Kind
  | field (name : String)
  | forRange (first stop : Nat) (names : List String)
  | forList (list item : String) (further : List String)
  | endLoop
deriving DecidableEq, Inhabited

/-- A directive with the range from its first token to its last one before the closing braces. -/
structure Directive where
  kind : Directive.Kind
  range : Range
deriving DecidableEq, Inhabited

end TextTemplate
