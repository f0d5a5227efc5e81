namespace TextTemplate

/-- Lines are counted in 32 bits. -/
structure Position where
  line : UInt32 := 1
  column : Nat := 1
deriving DecidableEq, Inhabited

structure Range where
  start : Position := {}
  stop : Position := {}
deriving DecidableEq, Inhabited

namespace Position

def next (p : Position) (c : Char) : Position :=
  if c = '\n' then ⟨p.line + 1, 1⟩ else ⟨p.line, p.column + 1⟩

def advance (p : Position) (text : List Char) : Position := text.foldl next p

/-- The characters of `text` after its last line break, or all of them. -/
def lastLine (text : List Char) : List Char := (text.reverse.takeWhile (· ≠ '\n')).reverse

/-- The position after a piece of text, found by counting its line breaks and measuring what
follows the last of them. -/
def across (p : Position) (text : List Char) : Position :=
  match text.count '\n' with
  | 0 => ⟨p.line, p.column + text.length⟩
  | breaks => ⟨p.line + breaks.toUInt32, (lastLine text).length + 1⟩

theorem advance_nil (p : Position) : p.advance [] = p := rfl

theorem advance_cons (p : Position) (c : Char) (text : List Char) :
    p.advance (c :: text) = (p.next c).advance text := rfl

theorem advance_append (p : Position) (a b : List Char) :
    p.advance (a ++ b) = (p.advance a).advance b := List.foldl_append

end Position

namespace Range

def ofPiece (p : Position) (piece : List Char) : Range := ⟨p, p.across piece⟩

def upTo (a b : Range) : Range := ⟨a.start, b.stop⟩

end Range

end TextTemplate
