import TextTemplate.Event

namespace TextTemplate.CommandLine

inductive UsageError
  | unknownArgument
  | argumentConflict
  | invalidValue
  | wrongNumberOfValues
  | tooManyValues
  | displayHelp
  | displayVersion
deriving DecidableEq, Inhabited

def UsageError.name : UsageError → String
  | unknownArgument => "UnknownArgument"
  | argumentConflict => "ArgumentConflict"
  | invalidValue => "InvalidValue"
  | wrongNumberOfValues => "WrongNumberOfValues"
  | tooManyValues => "TooManyValues"
  | displayHelp => "DisplayHelp"
  | displayVersion => "DisplayVersion"

inductive Switch
  | context
  | argument
  | strict
  | dump
  | unbuffered
  | output
  | verbose
  | quiet
  | help
  | version
deriving DecidableEq, Inhabited

namespace Switch

def arity : Switch → Nat
  | context | output => 1
  | argument => 2
  | _ => 0

def ofLong? (name : String) : Option Switch :=
  [("context", context), ("arg", argument), ("strict", strict), ("dump", dump),
    ("unbuffered", unbuffered), ("output", output), ("verbose", verbose), ("quiet", quiet),
    ("help", help), ("version", version)].lookup name

def ofShort? (letter : Char) : Option Switch :=
  [('c', context), ('o', output), ('v', verbose), ('q', quiet), ('h', help),
    ('V', version)].lookup letter

end Switch

/-- What a command line asks for. The names and values of fields are one flat list. -/
structure Settings where
  template : Option String := none
  context : Option String := none
  arguments : Option (List String) := none
  strict : Bool := false
  dump : Bool := false
  unbuffered : Bool := false
  output : Option String := none
  verbose : Nat := 0
  quiet : Nat := 0
deriving DecidableEq, Inhabited

namespace Settings

def level (s : Settings) : Level :=
  match 1 + s.verbose - s.quiet with
  | 0 => .off
  | 1 => .error
  | 2 => .warn
  | 3 => .info
  | 4 => .debug
  | _ => .trace

def once (present : Bool) (s : Settings) : Except UsageError Settings :=
  if present then .error .argumentConflict else .ok s

def apply (s : Settings) (switch : Switch) (values : List String) : Except UsageError Settings :=
  match switch, values with
  | .context, [json] => once s.context.isSome { s with context := some json }
  | .argument, [name, value] => .ok { s with arguments := some (s.arguments.getD [] ++ [name, value]) }
  | .strict, [] => once s.strict { s with strict := true }
  | .dump, [] => once s.dump { s with dump := true }
  | .unbuffered, [] => once s.unbuffered { s with unbuffered := true }
  | .output, [file] => do
    let s ← once s.output.isSome { s with output := some file }
    if file = "" then .error .invalidValue else .ok s
  | .verbose, [] => .ok { s with verbose := s.verbose + 1 }
  | .quiet, [] => .ok { s with quiet := s.quiet + 1 }
  | .help, [] => .error .displayHelp
  | .version, [] => .error .displayVersion
  | _, [] => .error .invalidValue
  | _, _ => .error .wrongNumberOfValues

end Settings

/-- A command line that is read in part: the settled options, the option whose values are being
collected, and whether the two dashes were met. -/
structure Progress where
  settings : Settings := {}
  pending : Option (Switch × List String) := none
  verbatim : Bool := false
deriving DecidableEq, Inhabited

def long? (token : String) : Option (String × Option String) :=
  match token.toList with
  | '-' :: '-' :: name =>
    let value := name.dropWhile (· ≠ '=')
    some (String.ofList (name.takeWhile (· ≠ '=')),
      if value = [] then none else some (String.ofList value.tail))
  | _ => none

def letters? (token : String) : Option (List Char) :=
  match token.toList with
  | '-' :: c :: letters => if c = '-' then none else some (c :: letters)
  | _ => none

namespace Progress

def settled (p : Progress) : Except UsageError Settings :=
  match p.pending with
  | none => .ok p.settings
  | some (switch, values) => p.settings.apply switch values

def take (p : Progress) (switch : Switch) (values : List String) : Except UsageError Progress := do
  let s ← p.settled
  return { p with settings := ← s.apply switch values, pending := none }

def await (p : Progress) (switch : Switch) : Except UsageError Progress := do
  return { p with settings := ← p.settled, pending := some (switch, []) }

def alone (p : Progress) (token : String) : Except UsageError Progress :=
  if p.settings.template.isSome then .error .unknownArgument
  else do
    let s ← p.settled
    return { p with settings := { s with template := some token }, pending := none }

def value (p : Progress) (token : String) : Except UsageError Progress :=
  match p.pending with
  | some (switch, values) =>
    if values.length < switch.arity then
      .ok { p with pending := some (switch, values ++ [token]) }
    else p.alone token
  | none => p.alone token

def long (p : Progress) (name : String) (attached : Option String) : Except UsageError Progress :=
  match Switch.ofLong? name, attached with
  | none, _ => .error .unknownArgument
  | some switch, none => if switch.arity = 0 then p.take switch [] else p.await switch
  | some switch, some value =>
    if switch.arity = 0 then .error .tooManyValues else p.take switch [value]

/-- The letters of a cluster are options of their own, up to the first one with a value, to which
the rest belongs. -/
def cluster (p : Progress) : List Char → Except UsageError Progress
  | [] => .ok p
  | letter :: letters =>
    match Switch.ofShort? letter with
    | none => .error .unknownArgument
    | some switch =>
      if switch.arity = 0 then do (← p.take switch []).cluster letters
      else match letters with
        | [] => p.await switch
        | '=' :: value => p.take switch [String.ofList value]
        | value => p.take switch [String.ofList value]

def token (p : Progress) (token : String) : Except UsageError Progress :=
  if p.verbatim then p.alone token
  else if token = "--" then .ok { p with verbatim := true }
  else match long? token, letters? token with
    | some (name, attached), _ => p.long name attached
    | none, some letters => p.cluster letters
    | none, none => p.value token

end Progress

/-- Reads a whole command line. More and less verbosity exclude each other. -/
def Settings.ofTokens (tokens : List String) : Except UsageError Settings := do
  let s ← (← tokens.foldlM Progress.token {}).settled
  if 0 < s.verbose ∧ 0 < s.quiet then .error .argumentConflict else .ok s

end TextTemplate.CommandLine
