import TextTemplate.Json

namespace TextTemplate.Json

inductive Lexeme
  | openArray
  | closeArray
  | openObject
  | closeObject
  | comma
  | colon
  | scalar (value : Json)
  | string (text : String)
deriving Inhabited

namespace Lexeme

def isSpace (c : Char) : Bool := c = ' ' || c = '\t' || c = '\n' || c = '\r'

def mark? (c : Char) : Option Lexeme :=
  if c = '[' then some openArray
  else if c = ']' then some closeArray
  else if c = '{' then some openObject
  else if c = '}' then some closeObject
  else if c = ',' then some comma
  else if c = ':' then some colon
  else none

def hexDigit? (c : Char) : Option Nat :=
  if c.isDigit then some (digitValue c)
  else if 'a' ≤ c ∧ c ≤ 'f' then some (c.toNat - 'a'.toNat + 10)
  else if 'A' ≤ c ∧ c ≤ 'F' then some (c.toNat - 'A'.toNat + 10)
  else none

def unit? (a b c d : Char) : Option Nat := do
  return 4096 * (← hexDigit? a) + 256 * (← hexDigit? b) + 16 * (← hexDigit? c) + (← hexDigit? d)

def unescape? (c : Char) : Option Char :=
  if c = '"' ∨ c = '\\' ∨ c = '/' then some c
  else if c = 'b' then some '\x08'
  else if c = 'f' then some '\x0c'
  else if c = 'n' then some '\n'
  else if c = 'r' then some '\r'
  else if c = 't' then some '\t'
  else none

def isLeading (unit : Nat) : Bool := 0xd800 ≤ unit && unit < 0xdc00

def isTrailing (unit : Nat) : Bool := 0xdc00 ≤ unit && unit < 0xe000

/-- Splits a text before and after the first quote that no backslash escapes. -/
def body? : List Char → Option (List Char × List Char)
  | '"' :: text => some ([], text)
  | '\\' :: c :: text => (body? text).map fun (body, rest) => ('\\' :: c :: body, rest)
  | c :: text => (body? text).map fun (body, rest) => (c :: body, rest)
  | [] => none

/-- Decodes what stands between quotes. The two units of a pair come together, and control characters
do not stand for themselves. -/
def decode? : List Char → Option (List Char)
  | '\\' :: 'u' :: a :: b :: c :: d :: text => do
    let unit ← unit? a b c d
    if isLeading unit then
      match text with
      | '\\' :: 'u' :: a :: b :: c :: d :: text =>
        let low ← unit? a b c d
        if isTrailing low then
          let rest ← decode? text
          return Char.ofNat (0x10000 + 1024 * (unit - 0xd800) + (low - 0xdc00)) :: rest
        else none
      | _ => none
    else if isTrailing unit then none
    else
      let rest ← decode? text
      return Char.ofNat unit :: rest
  | '\\' :: c :: text => do
    let c ← unescape? c
    let rest ← decode? text
    return c :: rest
  | c :: text => do
    if c = '\\' ∨ c.toNat < 0x20 then none
    let rest ← decode? text
    return c :: rest
  | [] => some []

def isWordChar (c : Char) : Bool := c.isAlphanum || c = '+' || c = '-' || c = '.'

def scalar? (word : List Char) : Option Json :=
  if word = ['n', 'u', 'l', 'l'] then some .null
  else if word = ['t', 'r', 'u', 'e'] then some (.bool true)
  else if word = ['f', 'a', 'l', 's', 'e'] then some (.bool false)
  else (Number.read? word).map .number

theorem length_body?_lt {text body rest : List Char} (h : body? text = some (body, rest)) :
    rest.length < text.length := by
  fun_induction body? text generalizing body with
  | case1 => simp_all
  | case2 c text ih =>
    obtain ⟨⟨b, r⟩, hb, he⟩ := Option.map_eq_some_iff.1 h
    cases he
    exact Nat.lt_trans (ih hb) (by simp only [List.length_cons]; omega)
  | case3 c text _ _ ih =>
    obtain ⟨⟨b, r⟩, hb, he⟩ := Option.map_eq_some_iff.1 h
    cases he
    exact Nat.lt_trans (ih hb) (by simp)
  | case4 => cases h

def lexemes : List Char → Option (List Lexeme)
  | [] => some []
  | c :: text =>
    if isSpace c then lexemes text
    else if c = '"' then
      match _h : body? text with
      | some (body, rest) => do
        let value ← decode? body
        let further ← lexemes rest
        return .string (String.ofList value) :: further
      | none => none
    else if isWordChar c then do
      let value ← scalar? (c :: text.takeWhile isWordChar)
      let rest ← lexemes (text.dropWhile isWordChar)
      return .scalar value :: rest
    else do
      let mark ← mark? c
      let rest ← lexemes text
      return mark :: rest
termination_by text => text.length
decreasing_by
  · simp
  · have := length_body?_lt _h
    simp only [List.length_cons]
    omega
  · have := (List.dropWhile_sublist (l := text) isWordChar).length_le
    simp only [List.length_cons]
    omega
  · simp

end Lexeme

/-- A container around a place, with what stands in it before, the last first. -/
inductive Frame
  | array (before : List Json)
  | object (before : List (String × Json)) (key : String)
deriving Inhabited

/-- What may come next, inside the containers of a stack with the innermost first. -/
inductive State
  | value (stack : List Frame)
  | elements (stack : List Frame)
  | members (stack : List Frame)
  | key (before : List (String × Json)) (stack : List Frame)
  | colon (before : List (String × Json)) (key : String) (stack : List Frame)
  | after (value : Json) (stack : List Frame)
deriving Inhabited

namespace State

def maxDepth : Nat := 127

def start (stack : List Frame) : Lexeme → Option State
  | .scalar v => some (.after v stack)
  | .string text => some (.after (.string text) stack)
  | .openArray => if stack.length < maxDepth then some (.elements stack) else none
  | .openObject => if stack.length < maxDepth then some (.members stack) else none
  | _ => none

def step : State → Lexeme → Option State
  | value stack, l => start stack l
  | elements stack, .closeArray => some (.after (.array []) stack)
  | elements stack, l => start (.array [] :: stack) l
  | members stack, .closeObject => some (.after (.object []) stack)
  | members stack, .string name => some (.colon [] name stack)
  | key before stack, .string name => some (.colon before name stack)
  | colon before name stack, .colon => some (.value (.object before name :: stack))
  | after v (.array before :: stack), .comma => some (.value (.array (v :: before) :: stack))
  | after v (.array before :: stack), .closeArray =>
    some (.after (.array (v :: before).reverse) stack)
  | after v (.object before name :: stack), .comma => some (.key ((name, v) :: before) stack)
  | after v (.object before name :: stack), .closeObject =>
    some (.after (.object ((name, v) :: before).reverse) stack)
  | _, _ => none

def result? : State → Option Json
  | after v [] => some v
  | _ => none

end State

def read? (text : String) : Option Json := do
  let state ← (← Lexeme.lexemes text.toList).foldlM State.step (.value [])
  state.result?

end TextTemplate.Json
