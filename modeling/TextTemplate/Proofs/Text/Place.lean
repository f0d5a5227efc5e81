import TextTemplate.Text.Cursor
import Mathlib.Data.List.Infix

namespace TextTemplate

@[simp]
theorem byteLength_nil : byteLength [] = 0 := rfl

@[simp]
theorem byteLength_cons (c : Char) (text : List Char) :
    byteLength (c :: text) = c.utf8Size + byteLength text := rfl

@[simp]
theorem byteLength_append (a b : List Char) : byteLength (a ++ b) = byteLength a + byteLength b := by
  induction a with
  | nil => simp
  | cons c a ih => simp [ih, Nat.add_assoc]

theorem byteLength_pos {text : List Char} (h : text ≠ []) : 0 < byteLength text := by
  obtain ⟨c, text, rfl⟩ := List.exists_cons_of_ne_nil h
  have := c.utf8Size_pos
  rw [byteLength_cons]
  omega

namespace Position

/-- Where the position `p` of a text is when that text begins at `origin`. Only on its first line are
columns moved. -/
def after (p origin : Position) : Position :=
  if p.line = 1 then ⟨origin.line, origin.column + (p.column - 1)⟩
  else ⟨origin.line + (p.line - 1), p.column⟩

/-- That a position of a text is at `p'` when that text begins at `origin`. What tells its first line
from later ones is a line break in front of it, for the number of a later line may have wrapped round to
one. -/
def Moves (p : Position) (text : List Char) (origin p' : Position) : Prop :=
  ∃ front, front <+: text ∧ p = advance {} front ∧
    p' = if '\n' ∈ front then ⟨origin.line + (p.line - 1), p.column⟩
      else ⟨origin.line, origin.column + (p.column - 1)⟩

def Before (p q : Position) : Prop := p.line < q.line ∨ p.line = q.line ∧ p.column < q.column

instance (p q : Position) : Decidable (p.Before q) :=
  inferInstanceAs (Decidable (p.line < q.line ∨ p.line = q.line ∧ p.column < q.column))

/-- That no number of a line wraps round in `text` when it begins at `p`. -/
def Fits (p : Position) (text : List Char) : Prop := p.line.toNat + text.count '\n' < UInt32.size

instance (p : Position) (text : List Char) : Decidable (p.Fits text) :=
  inferInstanceAs (Decidable (p.line.toNat + text.count '\n' < UInt32.size))

theorem Before.trans {p q r : Position} (h : p.Before q) (h' : q.Before r) : p.Before r := by
  simp only [Before, UInt32.lt_iff_toNat_lt, ← UInt32.toNat_inj] at *
  omega

theorem lastLine_append_newline (text : List Char) : lastLine (text ++ ['\n']) = [] := by
  simp [lastLine]

theorem lastLine_append {c : Char} (h : c ≠ '\n') (text : List Char) :
    lastLine (text ++ [c]) = lastLine text ++ [c] := by
  simp [lastLine, h]

theorem across_def (p : Position) (text : List Char) : p.across text =
    ⟨p.line + (text.count '\n').toUInt32,
      if '\n' ∈ text then (lastLine text).length + 1 else p.column + text.length⟩ := by
  unfold across
  split
  · next h =>
    have hn : '\n' ∉ text := List.count_eq_zero.1 h
    simp [h, hn]
  · next h =>
    have hn : '\n' ∈ text := List.count_pos_iff.1 (Nat.pos_of_ne_zero h)
    simp [hn]

/-- Counting line breaks leads where reading character by character does. -/
theorem across_eq (p : Position) (text : List Char) : p.across text = p.advance text := by
  induction text using List.reverseRecOn with
  | nil => simp [across_def, advance_nil]
  | append_singleton text c ih =>
    rw [advance_append, ← ih, advance_cons, advance_nil, across_def, across_def]
    by_cases hc : c = '\n'
    · subst hc
      simp [next, lastLine_append_newline, UInt32.add_assoc]
    · have hc' : '\n' ≠ c := fun h => hc h.symm
      by_cases hn : '\n' ∈ text
      · simp [next, hc, hc', hn, lastLine_append hc]
      · simp [next, hc, hc', hn, Nat.add_assoc]

theorem line_advance (p : Position) (text : List Char) :
    (p.advance text).line = p.line + (text.count '\n').toUInt32 := by
  rw [← across_eq, across_def]

theorem column_advance (p : Position) (text : List Char) : (p.advance text).column =
    if '\n' ∈ text then (lastLine text).length + 1 else p.column + text.length := by
  rw [← across_eq, across_def]

section Fits

variable {p : Position} {text a b : List Char}

theorem toNat_line_advance (h : p.Fits text) :
    (p.advance text).line.toNat = p.line.toNat + text.count '\n' := by
  have hs : p.line.toNat + text.count '\n' < 2 ^ 32 := h
  have hc : text.count '\n' < 2 ^ 32 := Nat.lt_of_le_of_lt (Nat.le_add_left _ _) hs
  rw [line_advance, UInt32.toNat_add, Nat.toUInt32_eq, UInt32.toNat_ofNat', Nat.mod_eq_of_lt hc,
    Nat.mod_eq_of_lt hs]

theorem Fits.of_front (h : p.Fits b) (ha : a <+: b) : p.Fits a :=
  Nat.lt_of_le_of_lt (Nat.add_le_add_left (ha.sublist.count_le _) _) h

theorem Fits.advance (h : p.Fits (a ++ b)) : (p.advance a).Fits b := by
  have ha := toNat_line_advance (h.of_front (List.prefix_append a b))
  rw [Fits, ha, Nat.add_assoc, ← List.count_append]
  exact h

theorem before_advance (h : text ≠ []) (hf : p.Fits text) : p.Before (p.advance text) := by
  have hl := toNat_line_advance hf
  by_cases hn : '\n' ∈ text
  · have hc : 0 < text.count '\n' := List.count_pos_iff.2 hn
    exact .inl (UInt32.lt_iff_toNat_lt.2 (by omega))
  · rw [List.count_eq_zero.2 hn, Nat.add_zero] at hl
    have hlen : 0 < text.length := List.length_pos_iff.2 h
    refine .inr ⟨(UInt32.toNat_inj.1 hl).symm, ?_⟩
    rw [column_advance, if_neg hn]
    exact Nat.lt_add_of_pos_right hlen

theorem before_advance_append (h : b ≠ []) (hf : p.Fits (a ++ b)) :
    (p.advance a).Before (p.advance (a ++ b)) := by
  rw [advance_append]
  exact before_advance h hf.advance

theorem bytesFrom_advance (rest : List Char) (h : p.Fits text) :
    (p.advance text).bytesFrom p.line.toNat p.column (text ++ rest) = byteLength text := by
  induction text generalizing p with
  | nil =>
    rw [advance_nil, List.nil_append]
    cases rest with
    | nil => rfl
    | cons c rest => exact if_pos ⟨Nat.le_refl _, Nat.le_refl _⟩
  | cons c text ih =>
    have hb := before_advance (List.cons_ne_nil c text) h
    have hn : ¬ ((p.advance (c :: text)).line.toNat ≤ p.line.toNat ∧
        (p.advance (c :: text)).column ≤ p.column) := by
      simp only [Before, UInt32.lt_iff_toNat_lt, ← UInt32.toNat_inj] at hb
      omega
    have hi := ih (Fits.advance (a := [c]) h)
    have hline : (p.advance [c]).line.toNat = p.line.toNat + [c].count '\n' :=
      toNat_line_advance (h.of_front ⟨text, rfl⟩)
    rw [List.cons_append, bytesFrom, if_neg hn, advance_cons, byteLength_cons]
    rw [hline] at hi
    by_cases hc : c = '\n'
    · subst hc
      rw [if_pos rfl]
      exact congrArg (_ + ·) hi
    · rw [if_neg hc]
      simp only [advance_cons, advance_nil, next, hc, if_false, List.count_cons, List.count_nil,
        beq_iff_eq, Nat.add_zero] at hi ⊢
      rw [hi]

end Fits

/-- The position that reading a part of a text leads to is found again behind that part. -/
theorem offsetIn_advance {front : List Char} (rest : List Char) (h : Fits {} front) :
    (advance {} front).offsetIn (front ++ rest) = byteLength front :=
  bytesFrom_advance rest h

theorem moves_advance {front text : List Char} (h : front <+: text) (origin : Position) :
    (advance {} front).Moves text origin (origin.advance front) := by
  refine ⟨front, h, rfl, ?_⟩
  rw [← across_eq, ← across_eq, across_def, across_def]
  by_cases hn : '\n' ∈ front
  · have hl : (1 : UInt32) + (front.count '\n').toUInt32 - 1 = (front.count '\n').toUInt32 := by
      rw [UInt32.add_comm, UInt32.add_sub_cancel]
    simp only [hn, if_true, hl]
  · simp [hn, List.count_eq_zero.2 hn]

theorem Moves.eq_after {text : List Char} {origin p p' : Position} (h : p.Moves text origin p')
    (hf : Fits {} text) : p' = p.after origin := by
  obtain ⟨front, hfront, rfl, rfl⟩ := h
  have hl : (advance {} front).line.toNat = 1 + front.count '\n' :=
    toNat_line_advance (hf.of_front hfront)
  rw [after]
  by_cases hn : '\n' ∈ front
  · have hc : 0 < front.count '\n' := List.count_pos_iff.2 hn
    have h1 : (advance {} front).line ≠ 1 := by
      intro he
      rw [he] at hl
      simp at hl
      omega
    rw [if_pos hn, if_neg h1]
  · have h1 : (advance {} front).line = 1 := by
      rw [line_advance, List.count_eq_zero.2 hn]
      rfl
    rw [if_neg hn, if_pos h1]

end Position

namespace Range

def after (r : Range) (origin : Position) : Range := ⟨r.start.after origin, r.stop.after origin⟩

def Moves (r : Range) (text : List Char) (origin : Position) (r' : Range) : Prop :=
  r.start.Moves text origin r'.start ∧ r.stop.Moves text origin r'.stop

theorem Moves.eq_after {text : List Char} {origin : Position} {r r' : Range} (h : r.Moves text origin r')
    (hf : Position.Fits {} text) : r' = r.after origin := by
  rw [after, ← h.1.eq_after hf, ← h.2.eq_after hf]

/-- The range between two places of a text that begins at `origin`. The columns of `r` tell how many
characters are in front of each of them. -/
def told (origin : Position) (text : List Char) (r : Range) : Range :=
  ⟨origin.advance (text.take r.start.column), origin.advance (text.take r.stop.column)⟩

theorem moves_told (origin : Position) (text : List Char) (r : Range) :
    (told {} text r).Moves text origin (told origin text r) :=
  ⟨Position.moves_advance (List.take_prefix r.start.column text) origin,
    Position.moves_advance (List.take_prefix r.stop.column text) origin⟩

/-- The range of the piece `piece` behind the text `front`. -/
def behind (front piece : List Char) : Range :=
  ⟨Position.advance {} front, Position.advance {} (front ++ piece)⟩

theorem ofPiece_eq (p : Position) (piece : List Char) : ofPiece p piece = ⟨p, p.advance piece⟩ := by
  rw [ofPiece, Position.across_eq]

theorem behind_eq (front piece : List Char) :
    behind front piece = ofPiece (Position.advance {} front) piece := by
  rw [ofPiece_eq, behind, Position.advance_append]

theorem spanIn_behind {front piece rest : List Char} (h : piece ≠ [])
    (hf : Position.Fits {} (front ++ piece ++ rest)) :
    (behind front piece).spanIn (front ++ piece ++ rest) =
      ⟨byteLength front, byteLength piece⟩ := by
  have hp := byteLength_pos h
  have hpiece := hf.of_front (List.prefix_append _ _)
  have hs : (behind front piece).start.offsetIn (front ++ piece ++ rest) = byteLength front := by
    rw [List.append_assoc]
    exact Position.offsetIn_advance _ (hpiece.of_front (List.prefix_append _ _))
  have he : (behind front piece).stop.offsetIn (front ++ piece ++ rest) =
      byteLength (front ++ piece) := Position.offsetIn_advance rest hpiece
  have hn : ¬ byteLength (front ++ piece ++ rest) ≤ byteLength front := by
    simp only [byteLength_append]
    omega
  rw [spanIn, hs, he, if_neg hn, byteLength_append]
  congr 1
  omega

theorem spanIn_end {text : List Char} {c : Char} (hf : Position.Fits {} (text ++ [c])) :
    (behind (text ++ [c]) []).spanIn (text ++ [c]) = ⟨byteLength text, byteLength [c]⟩ := by
  have hs : (behind (text ++ [c]) []).start.offsetIn (text ++ [c]) = byteLength (text ++ [c]) := by
    have := Position.offsetIn_advance [] hf
    rwa [List.append_nil] at this
  rw [spanIn, hs, if_pos (Nat.le_refl _), Span.ofLast]
  simp

end Range

namespace Cursor

theorem skip_skip (c : Cursor) (n m : Nat) : (c.skip n).skip m = c.skip (n + m) := by
  simp only [skip, List.drop_drop, List.take_add, byteLength_append, Position.advance_append,
    Nat.add_assoc]

variable {c : Cursor} {front rest : List Char}

theorem rest_skip_length (h : c.rest = front ++ rest) : (c.skip front.length).rest = rest := by
  rw [rest_skip, h, List.drop_left]

theorem position_skip_length (h : c.rest = front ++ rest) :
    (c.skip front.length).position = c.position.advance front := by
  rw [skip, h, List.take_left]

end Cursor

end TextTemplate
