import TextTemplate.Directive.Parser

namespace TextTemplate

inductive Braces
  | opening
  | closing
deriving DecidableEq, Inhabited

/-- The text before the first double brace, and which of the two it is. -/
def literalBefore : List Char → List Char × Option Braces
  | '{' :: '{' :: _ => ([], some .opening)
  | '}' :: '}' :: _ => ([], some .closing)
  | c :: text =>
    let (literal, braces) := literalBefore text
    (c :: literal, braces)
  | [] => ([], none)

theorem length_literalBefore_lt {text literal : List Char} {braces : Braces}
    (h : literalBefore text = (literal, some braces)) : literal.length + 2 ≤ text.length := by
  fun_induction literalBefore text generalizing literal with
  | case1 => cases h; simp
  | case2 => cases h; simp
  | case3 c text _ _ l b he ih =>
    obtain ⟨rfl, rfl⟩ := Prod.mk.inj h
    have := ih he
    simp only [List.length_cons]
    omega
  | case4 => cases h

/-- The number of bytes in front of the first double braces, or of all bytes where there are none. -/
def literalEnd (text : List Char) : Nat × Option Braces :=
  let (literal, braces) := literalBefore text
  (byteLength literal, braces)

/-- Empty literals and empty directives are no pieces. -/
inductive Pieces
  | done
  | broken (fault : Fault)
  | literal (text : String) (rest : Pieces)
  | directive (directive : Directive) (rest : Pieces)
deriving Inhabited

namespace Pieces

def withLiteral : List Char → Pieces → Pieces
  | [], ps => ps
  | text, ps => .literal (String.ofList text) ps

def withDirective : Option Directive → Pieces → Pieces
  | none, ps => ps
  | some d, ps => .directive d ps

def ofCursor (c : Cursor) : Pieces :=
  match _h : literalBefore c.rest with
  | (text, none) => withLiteral text .done
  | (text, some .closing) => withLiteral text (.broken ⟨(c.skip text.length).ahead 2, .strayClose⟩)
  | (text, some .opening) =>
    let step := (c.skip (text.length + 2)).directive
    match step.1 with
    | .error fault => withLiteral text (.broken fault)
    | .ok d => withLiteral text (withDirective d (ofCursor step.2))
termination_by c.rest.length
decreasing_by
  have h₁ := length_literalBefore_lt _h
  have h₂ := (c.skip (text.length + 2)).length_directive_le
  simp only [Cursor.rest_skip, List.length_drop] at h₂
  omega

def ofText (text : String) : Pieces := ofCursor (.ofText text)

/-- The pieces of a template, cut out by bytes. There are none if a cut cannot be made. -/
def sliced? (c : Cursor) : Option Pieces :=
  match _he : literalEnd c.rest with
  | (n, none) => do
    let literal ← frontBytes? n c.rest
    return withLiteral literal .done
  | (n, some .closing) => do
    let literal ← frontBytes? n c.rest
    let d ← c.skipBytes? n
    let braces ← frontBytes? 2 d.rest
    return withLiteral literal (.broken ⟨.ofPiece d.position braces, .strayClose⟩)
  | (n, some .opening) => do
    let literal ← frontBytes? n c.rest
    match _h : c.skipBytes? (n + 2) with
    | none => none
    | some d =>
      match d.directive.1 with
      | .error fault => return withLiteral literal (.broken fault)
      | .ok o => return withLiteral literal (withDirective o (← sliced? d.directive.2))
termination_by c.rest.length
decreasing_by
  have hc : c.rest ≠ [] := by
    intro h0
    rw [h0] at _he
    cases _he
  have h₁ := Cursor.length_skipBytes?_lt _h hc (Nat.succ_pos _)
  have h₂ := d.length_directive_le
  omega

end Pieces

end TextTemplate
