import TextTemplate.Proofs.Text.Bytes
import Mathlib.Data.List.Infix

namespace TextTemplate

namespace Position

/-- Where some lines lead to: onto the last of them, and behind all its characters. -/
def ofLines (lines : List (List Char)) : Position :=
  ⟨lines.length.toUInt32, (lines.getLastD []).length + 1⟩

/-- The line and the column of a place, by the lines that the text in front of it makes. -/
def ofPlace {source : String} (p : source.Pos) : Position := ofLines ((textBefore p).splitOn '\n')

end Position

theorem length_splitOn (text : List Char) (mark : Char) :
    (text.splitOn mark).length = text.count mark + 1 := by
  induction text with
  | nil => rfl
  | cons c text ih =>
    rw [List.splitOn_cons_eq_if_modifyHead]
    by_cases hc : c = mark
    · subst hc
      simp [ih]
    · simp [hc, ih]

theorem exists_splitOn_append_singleton {c mark : Char} (hc : c ≠ mark) (text : List Char) :
    ∃ pieces last, text.splitOn mark = pieces ++ [last] ∧
      (text ++ [c]).splitOn mark = pieces ++ [last ++ [c]] := by
  induction text with
  | nil =>
    refine ⟨[], [], rfl, ?_⟩
    rw [List.nil_append, List.splitOn_eq_singleton (by simpa using hc.symm)]
    rfl
  | cons d text ih =>
    obtain ⟨pieces, last, ht, htc⟩ := ih
    rw [List.cons_append, List.splitOn_cons_eq_if_modifyHead, List.splitOn_cons_eq_if_modifyHead, ht, htc]
    by_cases hd : d = mark
    · exact ⟨[] :: pieces, last, by simp [hd], by simp [hd]⟩
    · cases pieces with
      | nil => exact ⟨[], d :: last, by simp [hd], by simp [hd]⟩
      | cons piece pieces => exact ⟨(d :: piece) :: pieces, last, by simp [hd], by simp [hd]⟩

theorem Position.advance_eq_ofLines (text : List Char) :
    Position.advance {} text = ofLines (text.splitOn '\n') := by
  induction text using List.reverseRecOn with
  | nil => rfl
  | append_singleton text c ih =>
    rw [advance_append, ih, advance_cons, advance_nil]
    by_cases hc : c = '\n'
    · subst hc
      rw [List.splitOn_append_cons_self]
      simp [ofLines, next]
    · obtain ⟨pieces, last, ht, htc⟩ := exists_splitOn_append_singleton hc text
      rw [ht, htc]
      simp [ofLines, next, hc]

/-- A part of a text, from one place to another that is not in front of it. -/
structure Slice (source : String) where
  start : source.Pos
  stop : source.Pos
  start_le_stop : start ≤ stop

namespace Slice

variable {source : String}

def range (a : Slice source) : Range :=
  .ofBytes source.toList a.start.offset.byteIdx (a.stop.offset.byteIdx - a.start.offset.byteIdx)

theorem range_eq (a : Slice source) :
    a.range = ⟨.advance {} (textBefore a.start), .advance {} (textBefore a.stop)⟩ := by
  obtain ⟨piece, hp⟩ := exists_textBefore_append a.start_le_stop
  obtain ⟨rest, hr⟩ := textBefore_front a.stop
  rw [hp, List.append_assoc] at hr
  have he : a.stop.offset.byteIdx - a.start.offset.byteIdx = byteLength piece := by
    rw [← byteLength_textBefore, ← byteLength_textBefore, hp, byteLength_append, Nat.add_sub_cancel_left]
  rw [range, Range.ofBytes, he, ← byteLength_textBefore, ← hr]
  simp only [splitBytes_append]
  rw [← Range.behind_eq, Range.behind, hp]

end Slice

namespace Position

variable {source : String}

theorem ofPlace_eq (p : source.Pos) : ofPlace p = .advance {} (textBefore p) :=
  (advance_eq_ofLines _).symm

theorem fits_iff (text : List Char) : Fits {} text ↔ (text.splitOn '\n').length < UInt32.size := by
  rw [length_splitOn, Fits, Nat.add_comm]
  rfl

theorem fits_textBefore (h : Fits {} source.toList) (p : source.Pos) : Fits {} (textBefore p) :=
  h.of_front (textBefore_front p)

theorem offsetIn_ofPlace (h : Fits {} source.toList) (p : source.Pos) :
    (ofPlace p).offsetIn source.toList = p.offset.byteIdx := by
  have hp := fits_textBefore h p
  obtain ⟨rest, hr⟩ := textBefore_front p
  rw [ofPlace_eq, ← hr, offsetIn_advance rest hp, byteLength_textBefore]

theorem line_ofPlace (h : Fits {} source.toList) (p : source.Pos) :
    (ofPlace p).line.toNat = ((textBefore p).splitOn '\n').length := by
  have hp := fits_textBefore h p
  rw [ofPlace_eq, toNat_line_advance hp, length_splitOn, Nat.add_comm]
  rfl

end Position

namespace Slice

variable {source : String}

theorem upTo_range (a b : Slice source) (h : a.start ≤ b.stop) :
    a.range.upTo b.range = (⟨a.start, b.stop, h⟩ : Slice source).range := by
  rw [Range.upTo, range_eq, range_eq, range_eq]

/-- Slices that follow one another make up one slice, and their ranges that one's range. -/
theorem foldl_upTo_range (a : Slice source) (more : List (Slice source))
    (h : (a :: more).IsChain fun b c => b.stop = c.start) :
    ∃ hle, (more.map range).foldl Range.upTo a.range =
      (⟨a.start, (more.getLastD a).stop, hle⟩ : Slice source).range := by
  induction more generalizing a with
  | nil => exact ⟨a.start_le_stop, rfl⟩
  | cons b more ih =>
    obtain ⟨hab, hb⟩ := List.isChain_cons_cons.1 h
    -- the first two slices as one, which the others follow as they follow the second
    have hle : a.start ≤ b.stop := String.Pos.le_trans a.start_le_stop (hab ▸ b.start_le_stop)
    let joined : Slice source := ⟨a.start, b.stop, hle⟩
    have hj : (joined :: more).IsChain fun b c => b.stop = c.start := by
      cases more with
      | nil => exact .singleton _
      | cons c more => exact List.isChain_cons_cons.2 (List.isChain_cons_cons.1 hb)
    obtain ⟨hle', hf⟩ := ih joined hj
    have hlast : ((b :: more).getLastD a).stop = (more.getLastD joined).stop := by
      cases more <;> rfl
    simp only [hlast]
    refine ⟨hle', ?_⟩
    rw [List.map_cons, List.foldl_cons, upTo_range a b hle, hf]

end Slice

theorem Cursor.exists_slice (source : String) (k n : Nat) :
    ∃ a : Slice source, a.start.offset.byteIdx = ((Cursor.ofText source).skip k).offset ∧
      a.stop.offset.byteIdx = (((Cursor.ofText source).skip k).skip n).offset ∧
      ((Cursor.ofText source).skip k).ahead n = a.range := by
  have hk : source.toList.take k <+: source.toList := List.take_prefix k _
  have hn : source.toList.take (k + n) <+: source.toList := List.take_prefix _ _
  obtain ⟨p, hp, hpt⟩ := exists_textBefore hk
  obtain ⟨q, hq, hqt⟩ := exists_textBefore hn
  have hpq : p ≤ q := by
    rw [String.Pos.le_iff, String.Pos.Raw.le_iff, hp, hq]
    exact byteLength_le_of_front (List.take_prefix_take_left (Nat.le_add_right k n))
  refine ⟨⟨p, q, hpq⟩, ?_, ?_, ?_⟩
  · simp [hp, Cursor.skip, Cursor.ofText]
  · rw [Cursor.skip_skip]
    simp [hq, Cursor.skip, Cursor.ofText]
  · rw [Slice.range_eq, hpt, hqt, Cursor.ahead, Range.ofPiece_eq, List.take_add, Position.advance_append]
    rfl

/-- The range of a slice tells where it stands. Its ends are the lines and the columns of the two places.
In a text with fewer than 2 ^ 32 lines, all of which 32 bits can tell apart, they are found again by
them. Ranges join as the slices do, from the start of one to the end of another, and over slices that
follow one another. All ranges that reading gives are of this kind. -/
theorem Slice.range_faithful (source : String) :
    (∀ a : Slice source, a.range = ⟨.ofPlace a.start, .ofPlace a.stop⟩) ∧
    ((source.toList.splitOn '\n').length < UInt32.size → ∀ a : Slice source,
      a.range.start.line.toNat = ((textBefore a.start).splitOn '\n').length ∧
      a.range.stop.line.toNat = ((textBefore a.stop).splitOn '\n').length ∧
      a.range.start.offsetIn source.toList = a.start.offset.byteIdx ∧
      a.range.stop.offsetIn source.toList = a.stop.offset.byteIdx) ∧
    (∀ (a b : Slice source) (h : a.start ≤ b.stop),
      a.range.upTo b.range = (⟨a.start, b.stop, h⟩ : Slice source).range) ∧
    (∀ (a : Slice source) (more : List (Slice source)),
      (a :: more).IsChain (fun b c => b.stop = c.start) →
      ∃ h, (more.map range).foldl Range.upTo a.range =
        (⟨a.start, (more.getLastD a).stop, h⟩ : Slice source).range) ∧
    ∀ k n, ∃ a : Slice source, a.start.offset.byteIdx = ((Cursor.ofText source).skip k).offset ∧
      a.stop.offset.byteIdx = (((Cursor.ofText source).skip k).skip n).offset ∧
      ((Cursor.ofText source).skip k).ahead n = a.range := by
  have places (a : Slice source) : a.range = ⟨.ofPlace a.start, .ofPlace a.stop⟩ := by
    rw [range_eq, Position.ofPlace_eq, Position.ofPlace_eq]
  refine ⟨places, fun h a => ?_, upTo_range, foldl_upTo_range, Cursor.exists_slice source⟩
  have hf := (Position.fits_iff _).2 h
  rw [places]
  exact ⟨Position.line_ofPlace hf _, Position.line_ofPlace hf _, Position.offsetIn_ofPlace hf _,
    Position.offsetIn_ofPlace hf _⟩

theorem Slice.range_faithful_lines :
    let source := "é\nab\nc"
    ∃ a b : Slice source, a.start ≤ b.stop ∧ [a, b].IsChain (fun b c => b.stop = c.start) ∧
      a.range = ⟨⟨1, 2⟩, ⟨2, 2⟩⟩ ∧ a.range.stop.offsetIn source.toList = 4 ∧
      a.range.upTo b.range = ⟨⟨1, 2⟩, ⟨3, 1⟩⟩ ∧
      [b.range].foldl Range.upTo a.range = ⟨⟨1, 2⟩, ⟨3, 1⟩⟩ := by
  intro source
  let p : source.Pos := ⟨⟨2⟩, by decide⟩
  let q : source.Pos := ⟨⟨4⟩, by decide⟩
  let r : source.Pos := ⟨⟨6⟩, by decide⟩
  let a : Slice source := ⟨p, q, by decide⟩
  let b : Slice source := ⟨q, r, by decide⟩
  let both : Slice source := ⟨p, r, by decide⟩
  have hboth : both.range = ⟨⟨1, 2⟩, ⟨3, 1⟩⟩ := by decide
  have hchain : [a, b].IsChain (fun b c => b.stop = c.start) := by simp [a, b]
  obtain ⟨-, hplaces, hjoin, hfold, -⟩ := Slice.range_faithful source
  obtain ⟨-, -, -, hstop⟩ := hplaces (by decide) a
  obtain ⟨_, hf⟩ := hfold a [b] hchain
  exact ⟨a, b, both.start_le_stop, hchain, by decide, hstop, (hjoin a b both.start_le_stop).trans hboth,
    hf.trans hboth⟩

end TextTemplate
