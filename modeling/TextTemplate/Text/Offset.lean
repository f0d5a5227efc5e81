import TextTemplate.Text.Position

namespace TextTemplate

def byteLength (text : List Char) : Nat := text.foldr (fun c n => c.utf8Size + n) 0

/-- Splits `text` after its first `n` bytes, and after the character there if `n` falls inside it. -/
def splitBytes : Nat → List Char → List Char × List Char
  | 0, text => ([], text)
  | _, [] => ([], [])
  | n + 1, c :: text =>
    let (a, b) := splitBytes (n + 1 - c.utf8Size) text
    (c :: a, b)

def frontBytes? (n : Nat) (text : List Char) : Option (List Char) :=
  if String.Pos.Raw.IsValid (String.ofList text) ⟨n⟩ then some (splitBytes n text).1 else none

def Range.ofBytes (text : List Char) (offset length : Nat) : Range :=
  let (before, rest) := splitBytes offset text
  .ofPiece (Position.advance {} before) (splitBytes length rest).1

/-- The bytes passed from a line and a column to the first character where those of the target are
both reached, or to the end of the text. -/
def Position.bytesFrom (target : Position) (line column : Nat) : List Char → Nat
  | [] => 0
  | c :: text =>
    if target.line.toNat ≤ line ∧ target.column ≤ column then 0
    else c.utf8Size + if c = '\n' then target.bytesFrom (line + 1) 1 text
      else target.bytesFrom line (column + 1) text

def Position.offsetIn (p : Position) (text : List Char) : Nat := p.bytesFrom 1 1 text

structure Span where
  offset : Nat
  length : Nat
deriving DecidableEq, Inhabited

/-- The last character of a text with all its bytes, or nothing in an empty text. -/
def Span.ofLast (text : List Char) : Span :=
  match text.getLast? with
  | some c => ⟨byteLength text - c.utf8Size, c.utf8Size⟩
  | none => ⟨0, 0⟩

/-- The bytes of `text` that a range marks. A range past the end marks the last character, and a
range that is empty or reversed marks one byte. -/
def Range.spanIn (r : Range) (text : List Char) : Span :=
  let start := r.start.offsetIn text
  if byteLength text ≤ start then Span.ofLast text
  else ⟨start, max (r.stop.offsetIn text - start) 1⟩

end TextTemplate
