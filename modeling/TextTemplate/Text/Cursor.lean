import TextTemplate.Text.Offset

namespace TextTemplate

structure Cursor where
  rest : List Char
  offset : Nat := 0
  position : Position := {}
deriving DecidableEq, Inhabited

def isBlank (c : Char) : Bool := c = ' ' || c = '\t' || c = '\n' || c = '\x0c' || c = '\r'

namespace Cursor

def ofText (text : String) : Cursor := { rest := text.toList }

def skip (c : Cursor) (n : Nat) : Cursor :=
  let piece := c.rest.take n
  ⟨c.rest.drop n, c.offset + byteLength piece, c.position.advance piece⟩

/-- Past the next `n` bytes, if these end between two characters. -/
def skipBytes? (c : Cursor) (n : Nat) : Option Cursor :=
  (frontBytes? n c.rest).map fun front => c.skip front.length

def skipBlanks (c : Cursor) : Cursor := c.skip (c.rest.takeWhile isBlank).length

def ahead (c : Cursor) (n : Nat) : Range := .ofPiece c.position (c.rest.take n)

theorem rest_skip (c : Cursor) (n : Nat) : (c.skip n).rest = c.rest.drop n := rfl

theorem length_skip_le (c : Cursor) (n : Nat) : (c.skip n).rest.length ≤ c.rest.length := by
  simp [rest_skip]

theorem length_skip_lt {c : Cursor} {n : Nat} (hc : c.rest ≠ []) (hn : 0 < n) :
    (c.skip n).rest.length < c.rest.length := by
  have := List.length_pos_iff.2 hc
  simp only [rest_skip, List.length_drop]
  omega

theorem length_skipBytes?_lt {c d : Cursor} {n : Nat} (h : c.skipBytes? n = some d) (hc : c.rest ≠ [])
    (hn : 0 < n) : d.rest.length < c.rest.length := by
  obtain ⟨front, hf, rfl⟩ := Option.map_eq_some_iff.1 h
  obtain ⟨k, rfl⟩ := Nat.exists_eq_add_one.2 hn
  obtain ⟨x, text, hx⟩ := List.exists_cons_of_ne_nil hc
  unfold frontBytes? at hf
  split at hf
  · obtain rfl := Option.some.inj hf
    refine length_skip_lt hc ?_
    rw [hx]
    exact Nat.succ_pos _
  · cases hf

theorem length_skipBlanks_le (c : Cursor) : c.skipBlanks.rest.length ≤ c.rest.length :=
  c.length_skip_le _

end Cursor

end TextTemplate
