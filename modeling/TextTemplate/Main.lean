import TextTemplate.CommandLine.Run
import TextTemplate.Json.Reader
import TextTemplate.Session

open TextTemplate TextTemplate.CommandLine

namespace TextTemplate.CommandLine

def usage : String :=
  "\n".intercalate
    ["Usage: texttemplate [OPTIONS] [TEMPLATE]",
      "",
      "Options:",
      "  -c, --context <JSON>      JSON object used as the render context",
      "      --arg <NAME> <VALUE>  Sets a string field of the context",
      "      --strict              Reject unbalanced loops and loops over no sequence",
      "      --dump                Print the compiled command tree instead of rendering",
      "      --unbuffered          Unbuffered output",
      "  -o, --output <FILE>       Output to the specified file",
      "  -v, --verbose             Show more records",
      "  -q, --quiet               Show fewer records",
      "  -h, --help                Print help",
      "  -V, --version             Print version",
      ""]

def Failure.message : Failure → String
  | inputNotText => "The standard input cannot be read as UTF-8"
  | template d =>
    let place := d.fault.range.start
    s!"{d.fault.cause.code} at line {place.line}, column {place.column}: {d.message}"
      ++ "\nhelp: " ++ d.fault.cause.help
  | contextNotJson => "The context is not valid JSON"
  | contextNotObject => "The context must be a JSON object"
  | outputNotCreatable => "The output file cannot be created"
  | outputNotWritable => "The output cannot be written"

def machine : Host IO IO.FS.Stream where
  input := do
    try return some (← (← IO.getStdin).readBinToEnd)
    catch _ => return none
  output := IO.getStdout
  create? file := do
    try return some (.ofHandle (← IO.FS.Handle.mk file .write))
    catch _ => return none
  write stream bytes := do
    try
      stream.write bytes
      stream.flush
      return true
    catch _ => return false

def execute (s : Settings) : IO UInt32 := do
  let result ← machine.run Json.read? s
  for event in result.log do
    if event.level.rank ≤ s.level.rank then
      IO.eprintln s!"[{event.level.name}] {event.message}"
  match result.outcome with
  | .ok () => return 0
  | .error failure =>
    IO.eprintln s!"error: {failure.message}"
    return 1

end TextTemplate.CommandLine

def main (tokens : List String) : IO UInt32 := do
  match Settings.ofTokens tokens with
  | .ok s => execute s
  | .error .displayHelp =>
    IO.print usage
    return 0
  | .error .displayVersion =>
    IO.println s!"texttemplate {version}"
    return 0
  | .error e =>
    IO.eprintln s!"error: {e.name}\n\n{usage}"
    return 2
