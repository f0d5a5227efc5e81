import TextTemplate.Fault
import TextTemplate.Text.Cursor
import TextTemplate.Text.Decimal

namespace TextTemplate

def numberBound : Nat := UInt64.size

def isNameStart (c : Char) : Bool := c.isAlpha || c = '_'

def isNameChar (c : Char) : Bool := c.isAlphanum || c = '_'

/-- The length of what continues a name: its characters, and dots that a further character of a
name follows. -/
def nameLength : List Char → Nat
  | '.' :: c :: text => if isNameChar c then nameLength text + 2 else 0
  | c :: text => if isNameChar c then nameLength text + 1 else 0
  | [] => 0

namespace Token

def Kind.ofName (text : List Char) : Kind :=
  if text = ['f', 'o', 'r'] then .forWord
  else if text = ['e', 'n', 'd'] then .endWord
  else .name (String.ofList text)

def number? (text : List Char) : Option (Kind × Nat) :=
  let digits := text.takeWhile Char.isDigit
  if digits ≠ [] ∧ decimalValue digits < numberBound then
    some (.number (decimalValue digits), digits.length)
  else none

def name? : List Char → Option (Kind × Nat)
  | c :: text =>
    if isNameStart c then
      let n := nameLength text
      some (.ofName (c :: text.take n), n + 1)
    else none
  | [] => none

def read? : List Char → Option (Kind × Nat)
  | '(' :: _ => some (.leftParen, 1)
  | ')' :: _ => some (.rightParen, 1)
  | '|' :: _ => some (.pipe, 1)
  | ',' :: _ => some (.comma, 1)
  | '.' :: '.' :: _ => some (.dots, 2)
  | '}' :: '}' :: _ => some (.close, 2)
  | text => (number? text).or (name? text)

theorem number?_pos {text : List Char} {k : Kind} {n : Nat} (h : number? text = some (k, n)) :
    0 < n := by
  simp only [number?] at h
  split at h
  · next hd =>
    cases h
    exact List.length_pos_iff.2 hd.1
  · cases h

theorem name?_pos {text : List Char} {k : Kind} {n : Nat} (h : name? text = some (k, n)) :
    0 < n := by
  cases text with
  | nil => cases h
  | cons c text =>
    simp only [name?] at h
    split at h <;> cases h
    exact Nat.succ_pos _

theorem read?_pos {text : List Char} {k : Kind} {n : Nat} (h : read? text = some (k, n)) :
    0 < n := by
  unfold read? at h
  split at h
  case h_7 =>
    rcases Option.or_eq_some_iff.1 h with h | ⟨_, h⟩
    · exact number?_pos h
    · exact name?_pos h
  all_goals
    cases h
    decide

end Token

namespace Cursor

/-- The length of the text that is to blame where no token can be read: all digits of a number that
is too large, else one character. -/
def blameLength (c : Cursor) : Nat := max (c.rest.takeWhile Char.isDigit).length 1

def fault (c : Cursor) : Fault :=
  ⟨c.ahead c.blameLength,
    if c.rest.head? = some '}' then .loneBrace
    else .unknownToken (String.ofList (c.rest.take c.blameLength))⟩

def next (c : Cursor) : Except Fault (Option Token) × Cursor :=
  let c := c.skipBlanks
  if c.rest = [] then (.ok none, c)
  else match Token.read? c.rest with
    | some (kind, n) => (.ok (some ⟨kind, c.ahead n⟩), c.skip n)
    | none => (.error c.fault, c)

/-- What the last of `n + 1` readings would give, or the first one that gives no token. -/
def peek : Nat → Cursor → Except Fault (Option Token)
  | 0, c => c.next.1
  | n + 1, c =>
    match c.next with
    | (.ok (some _), c) => peek n c
    | (outcome, _) => outcome

theorem length_next_lt {c d : Cursor} {t : Token} (h : c.next = (.ok (some t), d)) :
    d.rest.length < c.rest.length := by
  simp only [next] at h
  split at h
  · cases h
  · next hc =>
    split at h
    · next kind n hr =>
      cases h
      exact Nat.lt_of_lt_of_le (length_skip_lt hc (Token.read?_pos hr)) c.length_skipBlanks_le
    · cases h

end Cursor

end TextTemplate
