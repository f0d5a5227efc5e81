import TextTemplate.CommandLine.Settings
import TextTemplate.Template
import TextTemplate.Text.Quoted

namespace TextTemplate

def shownIndex (index : Option String) : String := index.getD "-"

def indent (depth : Nat) : String := String.ofList (List.replicate (2 * depth) ' ')

mutual

def Command.dump (depth : Nat) : Command → String
  | .literal text => indent depth ++ s!"Literal({Quoted.encode text})\n"
  | .substitution name _ => indent depth ++ s!"Substitution({name})\n"
  | .forRange count index body =>
    indent depth ++ s!"ForRange(count: {count}, index: {shownIndex index})\n"
      ++ dumpAll (depth + 1) body
  | .forEach list item index body _ =>
    indent depth ++ s!"ForEach(list: {list}, item: {item}, index: {shownIndex index})\n"
      ++ dumpAll (depth + 1) body

def dumpAll (depth : Nat) : List Command → String
  | [] => ""
  | c :: cs => c.dump depth ++ dumpAll depth cs

end

namespace CommandLine

inductive Failure
  | inputNotText
  | template (diagnostic : Diagnostic)
  | contextNotJson
  | contextNotObject
  | outputNotCreatable
  | outputNotWritable
deriving DecidableEq, Inhabited

/-- The template of the command line, or else the input, which has to be text in UTF-8. There is no input
where reading it fails. -/
def Settings.source (s : Settings) (input : Option ByteArray) : Except Failure String :=
  match s.template with
  | some template => .ok template
  | none =>
    match input.bind String.fromUTF8? with
    | some text => .ok text
    | none => .error .inputNotText

/-- Tokens by twos. The last of an odd number of them stays alone. -/
def byTwos : List String → List (List String)
  | a :: b :: further => [a, b] :: byTwos further
  | [a] => [[a]]
  | [] => []

def pair? : List String → Option (String × String)
  | [name, value] => some (name, value)
  | _ => none

def Settings.pairs (s : Settings) : List (String × String) :=
  (byTwos (s.arguments.getD [])).filterMap pair?

namespace Settings

variable (readJson : String → Option Json)

def fields (s : Settings) : Except Failure Context := do
  let own := Context.ofPairs (s.pairs.map fun (name, value) => (name, .string value))
  match s.context with
  | none => return own
  | some text =>
    match readJson text with
    | none => .error .contextNotJson
    | some j => if j.isObject then .ok (own.orElse (.ofJson j)) else .error .contextNotObject

def render (s : Settings) (t : Template) : Traced Failure String := do
  let context ← .ofExcept (s.fields readJson)
  let names := (s.pairs.map Prod.fst).eraseDups
  .report (.arguments names.length s.context.isSome)
  (t.render context).mapError .template

def text (s : Settings) (input : Option ByteArray) : Traced Failure String := do
  let source ← .ofExcept (s.source input)
  let t ← (Template.compile s.strict source).mapError .template
  if s.dump then return dumpAll 0 t.commands else s.render readJson t

end Settings

/-- What a run asks of the system around it. A handle is something to write to; it tells whether it has
taken all the bytes that it was given. -/
structure Host (m : Type → Type) (Handle : Type) where
  input : m (Option ByteArray)
  output : m Handle
  create? : String → m (Option Handle)
  write : Handle → ByteArray → m Bool

/-- A writer with a buffer may hold bytes back until it is flushed. -/
structure Writer (Handle : Type) where
  handle : Handle
  buffered : Bool
  held : ByteArray := .empty

def bufferSize : Nat := 8192

namespace Host

variable {m : Type → Type} [Monad m] {Handle : Type} (host : Host m Handle)

def send (handle : Handle) (bytes : ByteArray) : ExceptT Failure m Unit := do
  if ← host.write handle bytes then return () else throw .outputNotWritable

def put (writer : Writer Handle) (bytes : ByteArray) : ExceptT Failure m (Writer Handle) := do
  let held := writer.held ++ bytes
  if writer.buffered && held.size < bufferSize then return { writer with held }
  else
    host.send writer.handle held
    return { writer with held := .empty }

def flush (writer : Writer Handle) : ExceptT Failure m Unit := host.send writer.handle writer.held

/-- Creates the output file, or empties it. Only the output is ever written to without a buffer. -/
def writer (s : Settings) : ExceptT Failure m (Writer Handle) := do
  match s.output with
  | none => return { handle := ← host.output, buffered := !s.unbuffered }
  | some file =>
    match ← host.create? file with
    | none => throw .outputNotCreatable
    | some handle => return { handle, buffered := true }

def emit (s : Settings) (text : String) : ExceptT Failure m Unit := do
  let writer ← host.put (← host.writer s) text.toUTF8
  host.flush writer

/-- Runs the program. The output file is only opened when there is a text to write. -/
def run (readJson : String → Option Json) (s : Settings) : m (Traced Failure Unit) := do
  let input ← if s.template.isSome then pure none else host.input
  let text := s.text readJson input
  match text.outcome with
  | .error failure => return ⟨text.log, .error failure⟩
  | .ok output => return ⟨text.log, ← host.emit s output⟩

end Host

/-- The world as a run finds and leaves it. A place to write to is a file, or the output if none is
named; it may be full once it holds a number of bytes. -/
structure World where
  input : Option ByteArray := some .empty
  output : ByteArray := .empty
  files : String → Option ByteArray
  creatable : String → Bool := fun _ => true
  limit : Option String → Option Nat := fun _ => none

namespace World

def held (w : World) : Option String → ByteArray
  | none => w.output
  | some file => (w.files file).getD .empty

def fill (w : World) (place : Option String) (bytes : ByteArray) : World :=
  match place with
  | none => { w with output := bytes }
  | some file => { w with files := fun name => if name = file then some bytes else w.files name }

def fitting (w : World) (place : Option String) (bytes : ByteArray) : Nat :=
  match w.limit place with
  | none => bytes.size
  | some n => min bytes.size (n - (w.held place).size)

def host : Host (StateM World) (Option String) where
  input := return (← get).input
  output := return none
  create? file := do
    if (← get).creatable file then
      modify (·.fill (some file) .empty)
      return some (some file)
    else return none
  write place bytes := do
    let w ← get
    let n := w.fitting place bytes
    set (w.fill place (w.held place ++ bytes.extract 0 n))
    return n = bytes.size

def run (w : World) (readJson : String → Option Json) (s : Settings) : Traced Failure Unit × World :=
  (host.run readJson s).run w

end World

end CommandLine

end TextTemplate
