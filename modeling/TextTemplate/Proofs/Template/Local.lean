import TextTemplate.Proofs.Directive.Local
import TextTemplate.Proofs.Template.Append
import TextTemplate.Proofs.Template.WellFormed

namespace TextTemplate

theorem Position.not_before_self (p : Position) : ¬ p.Before p := by
  simp [Before]

theorem Position.not_before_advance {p : Position} {text : List Char} (h : p.Fits text) :
    ¬ (p.advance text).Before p := by
  intro hb
  by_cases ht : text = []
  · rw [ht, advance_nil] at hb
    exact p.not_before_self hb
  · exact p.not_before_self ((before_advance ht h).trans hb)

theorem exists_unclosed {text : List Char} (h : ['}', '}'] <:+: text) :
    ∃ front more, text = front ++ '}' :: '}' :: more ∧ Unclosed front := by
  induction text with
  | nil => cases List.eq_nil_of_infix_nil h
  | cons c text ih =>
    by_cases hc : c = '}' ∧ text.head? = some '}'
    · obtain ⟨rfl, ht⟩ := hc
      obtain ⟨more, rfl⟩ := List.head?_eq_some_iff.1 ht
      exact ⟨[], more, rfl, by decide⟩
    · obtain hp | hi := List.infix_cons_iff.1 h
      · obtain ⟨more, he⟩ := hp
        obtain ⟨rfl, rfl⟩ := List.cons.inj he
        exact absurd ⟨rfl, rfl⟩ hc
      obtain ⟨front, more, rfl, hf⟩ := ih hi
      refine ⟨c :: front, more, rfl, fun hu => ?_⟩
      obtain hp | hi := List.infix_cons_iff.1 hu
      · obtain ⟨rest, he⟩ := hp
        obtain ⟨hbrace, htail⟩ := List.cons.inj he
        refine hc ⟨hbrace.symm, ?_⟩
        cases front with
        | nil => rfl
        | cons d front => exact congrArg some (List.cons.inj htail).1.symm
      · exact hf hi

namespace Layout

/-- That a piece of text behind a layout ends with the closing braces that decide it. They close nothing,
or they are the first ones behind opening braces. -/
def IsClosed (l : Layout) (piece : List Char) : Prop :=
  l.trailing.getLast? ≠ some '}' ∧ piece = ['}', '}'] ∨
    l.trailing.getLast? ≠ some '{' ∧ ∃ body, Unclosed body ∧ piece = '{' :: '{' :: (body ++ ['}', '}'])

/-- That a piece of text behind a layout has opening braces and no closing ones behind them. -/
def IsOpen (l : Layout) (piece : List Char) : Prop :=
  l.trailing.getLast? ≠ some '{' ∧ ∃ body, ¬ ['}', '}'] <:+: body ∧ piece = '{' :: '{' :: body

variable {lit body source : List Char}

theorem exists_of_opening (h : (last lit).text ++ '{' :: '{' :: (body ++ ['}', '}']) <+: source) :
    ∃ more, source = lit ++ '{' :: '{' :: (body ++ '}' :: '}' :: more) := by
  obtain ⟨more, rfl⟩ := h
  exact ⟨more, by simp [text]⟩

theorem exists_of_closing (h : (last lit).text ++ ['}', '}'] <+: source) :
    ∃ more, source = lit ++ '}' :: '}' :: more := by
  obtain ⟨more, rfl⟩ := h
  exact ⟨more, by simp [text]⟩

end Layout

namespace Cursor

variable {c c' d : Cursor} {lit body gap more more' : List Char}

theorem begins_of_directive {fault : Fault} (h : c.directive = (.error fault, d)) :
    ∃ gap, gap <+: c.rest ∧ fault.range.start = c.position.advance gap := by
  obtain ⟨front, e, hg, -, hstop⟩ := rejects_of_directive h
  obtain ⟨text, hc, hp⟩ := hg.passes
  have behind : ∀ {range found}, Blame front range found fault →
      (∃ gap, gap <+: e.rest ∧ range.start = e.position.advance gap) →
        ∃ gap, gap <+: c.rest ∧ fault.range.start = c.position.advance gap := by
    rintro range found hb ⟨gap, ⟨left, hleft⟩, hs⟩
    have hs : range.start = c.position.advance (text ++ gap) := by rw [hs, hp, Position.advance_append]
    have hgap : text ++ gap <+: c.rest := ⟨left, by rw [hc, ← hleft, List.append_assoc]⟩
    cases hb with
    | missingItem hf hr =>
      obtain ⟨gap, text, hc, -, -, -, hreach, -⟩ := hg.written (by rintro rfl; cases hr)
      exact ⟨gap, ⟨_, hc.symm⟩, congrArg Range.start (Option.some.inj (hr.symm.trans hreach))⟩
    | _ => exact ⟨_, hgap, hs⟩
  split at hstop
  · next lexical last hn =>
    obtain ⟨gap, he', -, hd, -, -, he⟩ := eq_of_next_error hn
    refine ⟨text ++ gap, ⟨last.rest, ?_⟩, ?_⟩
    · rw [hc, he', List.append_assoc]
    · rw [hstop, he, Position.advance_append, ← hp, ← hd]
      rfl
  · next last hn =>
    obtain ⟨-, -, hl⟩ := eq_of_next_none hn
    exact behind ((hstop fault).2 rfl) ⟨e.rest, List.prefix_rfl, hl⟩
  · next t last hn =>
    obtain ⟨gap, word, he, -, -, -, hr, -⟩ := eq_of_next hn
    exact behind ((hstop.2 fault).2 rfl) ⟨gap, ⟨_, he.symm⟩, congrArg Range.start hr⟩

theorem body_of_directive {o : Option Directive} (h : c.directive = (.ok o, d)) :
    ∃ body, c.rest = body ++ '}' :: '}' :: d.rest ∧ '}' ∉ body ∧ Makes body (o.map Directive.kind) := by
  obtain ⟨body, ks, hc, hb, -⟩ := directive_eq_ok_iff.1 ⟨o, d, h, rfl, rfl⟩
  have htwins : c.Twins body c := ⟨⟨_, hc⟩, ⟨_, hc⟩, rfl, unclosed_of_not_mem hb⟩
  obtain ⟨outcome, n, hd, -, hn⟩ := htwins.directive
  obtain ⟨rfl, rfl⟩ := Prod.mk.inj (h.symm.trans hd)
  exact ⟨body, hc, hb, (makes_iff hc hb).2 ⟨o, _, h, rfl, rfl⟩⟩

/-- What stands between opening braces and the first closing ones behind them is parsed in one way,
whatever follows. -/
theorem directive_again (hl : literalBefore c.rest = (lit, some .opening))
    (hc : c.rest = lit ++ '{' :: '{' :: (body ++ '}' :: '}' :: more)) (hu : Unclosed body)
    (hp : c'.position = c.position) (hc' : c'.rest = lit ++ '{' :: '{' :: (body ++ '}' :: '}' :: more')) :
    literalBefore c'.rest = (lit, some .opening) ∧
      ((∃ fault d d', (c.skip (lit.length + 2)).directive = (.error fault, d) ∧
          (c'.skip (lit.length + 2)).directive = (.error fault, d') ∧
          ∃ front behind, body ++ ['}', '}'] = front ++ behind ∧ behind ≠ [] ∧
            fault.range.start = c.position.advance (lit ++ '{' :: '{' :: front)) ∨
        ∃ o d d', (c.skip (lit.length + 2)).directive = (.ok o, d) ∧
          (c'.skip (lit.length + 2)).directive = (.ok o, d') ∧ d.rest = more ∧ d'.rest = more' ∧
          d.position = c.position.advance (lit ++ '{' :: '{' :: (body ++ ['}', '}'])) ∧
          d'.position = d.position) := by
  obtain ⟨hplain, hopen, -⟩ := literalBefore_eq_some_iff.1 hl
  have hl' : literalBefore c'.rest = (lit, some .opening) := by
    rw [hc']
    exact literalBefore_append (b := .opening) hplain hopen _
  refine ⟨hl', ?_⟩
  obtain ⟨-, hpos⟩ := Pieces.skip_opening hl
  obtain ⟨-, hpos'⟩ := Pieces.skip_opening hl'
  have hr := Pieces.rest_skip_braces hc
  have hr' := Pieces.rest_skip_braces hc'
  have htwins : (c.skip (lit.length + 2)).Twins body (c'.skip (lit.length + 2)) :=
    ⟨⟨more, hr⟩, ⟨more', hr'⟩, by rw [hpos, hpos', hp], hu⟩
  have hadvance (text : List Char) : (c.skip (lit.length + 2)).position.advance text =
      c.position.advance (lit ++ '{' :: '{' :: text) := by
    rw [hpos, ← Position.advance_append, List.append_assoc]
    rfl
  have hlen : (body ++ ['}', '}']).length = body.length + 2 := List.length_append
  have hclosed : (c.skip (lit.length + 2)).rest = body ++ ['}', '}'] ++ more := by
    rw [hr, List.append_assoc]
    rfl
  have hclosed' : (c'.skip (lit.length + 2)).rest = body ++ ['}', '}'] ++ more' := by
    rw [hr', List.append_assoc]
    rfl
  obtain ⟨outcome, n, hd, hd', hn⟩ := htwins.directive
  cases outcome with
  | ok o =>
    obtain rfl : n = (body ++ ['}', '}']).length := hn.trans hlen.symm
    refine .inr ⟨o, _, _, hd, hd', rest_skip_length hclosed, rest_skip_length hclosed', ?_, ?_⟩
    · rw [position_skip_length hclosed, hadvance]
    · rw [position_skip_length hclosed', position_skip_length hclosed, htwins.position]
  | error fault =>
    obtain ⟨-, k, hk, hs⟩ := hn
    refine .inl ⟨fault, _, _, hd, hd', (body ++ ['}', '}']).take k, (body ++ ['}', '}']).drop k,
      (List.take_append_drop k _).symm, ?_, ?_⟩
    · rw [ne_eq, List.drop_eq_nil_iff, hlen]
      omega
    · rw [hs, ← hadvance, skip, hclosed, List.take_append_of_le_length (by omega)]

end Cursor

open Nesting

namespace Pieces

theorem foldlM_read_literalBrackets (strict : Bool) (n : Nesting) (lit : List Char) :
    ∃ m, (literalBrackets lit).foldlM (read strict) n = .ok m := by
  cases lit with
  | nil => exact ⟨n, rfl⟩
  | cons c lit => exact ⟨_, rfl⟩

end Pieces

/-- What compiling comes to from a cursor on, when `n` has been read in front of it. -/
def Cursor.compiled (strict : Bool) (n : Nesting) (c : Cursor) : Except Fault (List Command) :=
  (Pieces.ofCursor c).brackets.foldlM (read strict) n >>= settle strict (Pieces.ofCursor c).fault?

namespace Cursor

variable {strict : Bool} {n : Nesting} {c c' d : Cursor} {lit : List Char} {fault : Fault}

theorem compiled_last (hl : literalBefore c.rest = (lit, none)) (h : c.compiled strict n = .error fault) :
    fault.cause = .unclosedLoop := by
  obtain ⟨m, hm⟩ := Pieces.foldlM_read_literalBrackets strict n lit
  rw [compiled, Pieces.ofCursor_last hl, Pieces.brackets_withLiteral, Pieces.fault?_withLiteral,
    Pieces.brackets, List.append_nil, hm] at h
  have hsettle : m.settle strict none = .error fault := h
  obtain hf | ⟨header, -, rfl⟩ := settle_error hsettle
  · cases hf
  · rfl

theorem compiled_stray (hl : literalBefore c.rest = (lit, some .closing)) :
    c.compiled strict n = .error ⟨(c.skip lit.length).ahead 2, .strayClose⟩ := by
  obtain ⟨m, hm⟩ := Pieces.foldlM_read_literalBrackets strict n lit
  rw [compiled, Pieces.ofCursor_stray hl, Pieces.brackets_withLiteral, Pieces.fault?_withLiteral,
    Pieces.brackets, List.append_nil, hm]
  rfl

theorem compiled_failed (hl : literalBefore c.rest = (lit, some .opening))
    (hd : (c.skip (lit.length + 2)).directive = (.error fault, d)) :
    c.compiled strict n = .error fault := by
  obtain ⟨m, hm⟩ := Pieces.foldlM_read_literalBrackets strict n lit
  rw [compiled, Pieces.ofCursor_failed hl hd, Pieces.brackets_withLiteral, Pieces.fault?_withLiteral,
    Pieces.brackets, List.append_nil, hm]
  rfl

theorem compiled_braced {o : Option Directive} (hl : literalBefore c.rest = (lit, some .opening))
    (hd : (c.skip (lit.length + 2)).directive = (.ok o, d)) :
    c.compiled strict n =
      (Pieces.literalBrackets lit ++ (o.map Directive.bracket).toList).foldlM (read strict) n >>=
        fun m => d.compiled strict m := by
  rw [compiled, Pieces.ofCursor_braced hl hd, Pieces.brackets_withLiteral, Pieces.brackets_withDirective,
    Pieces.fault?_withLiteral, Pieces.fault?_withDirective, ← List.append_assoc, List.foldlM_append,
    bind_assoc]
  rfl

theorem compiled_closing {more more' : List Char} (hl : literalBefore c.rest = (lit, some .closing))
    (hc : c.rest = lit ++ '}' :: '}' :: more) (hp : c'.position = c.position)
    (hc' : c'.rest = lit ++ '}' :: '}' :: more') : c'.compiled strict n = c.compiled strict n := by
  obtain ⟨hplain, hclose, -⟩ := literalBefore_eq_some_iff.1 hl
  have hl' : literalBefore c'.rest = (lit, some .closing) := by
    rw [hc']
    exact literalBefore_append (b := .closing) hplain hclose _
  rw [compiled_stray hl, compiled_stray hl', ahead, ahead, rest_skip_length hc, rest_skip_length hc',
    position_skip_length hc, position_skip_length hc', hp]
  rfl

theorem exists_body_of_braced {m : Nesting} {o : Option Directive}
    (hl : literalBefore c.rest = (lit, some .opening))
    (hd : (c.skip (lit.length + 2)).directive = (.ok o, d))
    (hm : (Pieces.literalBrackets lit ++ (o.map Directive.bracket).toList).foldlM (read strict) n = .ok m) :
    ∃ body, '}' ∉ body ∧ Makes body (o.map Directive.kind) ∧
      c.rest = lit ++ '{' :: '{' :: (body ++ '}' :: '}' :: d.rest) ∧
      d.position = c.position.advance (lit ++ '{' :: '{' :: (body ++ ['}', '}'])) ∧
      ∀ (c' : Cursor) more, c'.position = c.position →
        c'.rest = lit ++ '{' :: '{' :: (body ++ '}' :: '}' :: more) → ∃ d' : Cursor, d'.rest = more ∧
          d'.position = d.position ∧ c'.compiled strict n = d'.compiled strict m := by
  obtain ⟨body, hb, hbrace, hmakes⟩ := body_of_directive hd
  have hc : c.rest = lit ++ '{' :: '{' :: (body ++ '}' :: '}' :: d.rest) := by
    obtain ⟨hc, -⟩ := Pieces.skip_opening hl
    rw [hc, hb, List.append_assoc]
    rfl
  have again (c' : Cursor) (more : List Char) (hp : c'.position = c.position)
      (hc' : c'.rest = lit ++ '{' :: '{' :: (body ++ '}' :: '}' :: more)) :
      ∃ d' : Cursor, d'.rest = more ∧ d'.position = d.position ∧
        d.position = c.position.advance (lit ++ '{' :: '{' :: (body ++ ['}', '}'])) ∧
        c'.compiled strict n = d'.compiled strict m := by
    obtain ⟨hl', ⟨e, d₁, d', he, -⟩ | ⟨o', d₁, d', he, he', -, hr, hdp, hp'⟩⟩ :=
      directive_again hl hc (unclosed_of_not_mem hbrace) hp hc'
    · cases hd.symm.trans he
    · cases hd.symm.trans he
      refine ⟨d', hr, hp', hdp, ?_⟩
      rw [compiled_braced hl' he', hm]
      rfl
  obtain ⟨-, -, -, hdp, -⟩ := again c _ rfl hc
  refine ⟨body, hbrace, hmakes, hc, hdp, fun c' more hp hc' => ?_⟩
  obtain ⟨d', hr, hp', -, he⟩ := again c' more hp hc'
  exact ⟨d', hr, hp', he⟩

/-- That compiling from a cursor on fails for what stands in a piece of text behind a layout. The piece
has closing braces, and whatever follows them compiling fails in the same way; or it lacks them and is
all that is left. -/
def FailsIn (strict : Bool) (n : Nesting) (fault : Fault) (c : Cursor) (l : Layout)
    (front behind more : List Char) : Prop :=
  l.WellFormed ∧ c.rest = l.text ++ (front ++ behind ++ more) ∧
    fault.range.start = c.position.advance (l.text ++ front) ∧
    (l.IsClosed (front ++ behind) ∧ behind ≠ [] ∧
        (∀ c' : Cursor, c'.position = c.position → l.text ++ (front ++ behind) <+: c'.rest →
          c'.compiled strict n = .error fault) ∨
      l.IsOpen (front ++ behind) ∧ more = [])

theorem FailsIn.braced {m : Nesting} {o : Option Directive} {l : Layout} {front behind more : List Char}
    (hl : literalBefore c.rest = (lit, some .opening))
    (hd : (c.skip (lit.length + 2)).directive = (.ok o, d))
    (hm : (Pieces.literalBrackets lit ++ (o.map Directive.bracket).toList).foldlM (read strict) n = .ok m)
    (h : FailsIn strict m fault d l front behind more) :
    ∃ body, FailsIn strict n fault c (.braced lit body (o.map Directive.kind) l) front behind more := by
  obtain ⟨hplain, hopen, -⟩ := literalBefore_eq_some_iff.1 hl
  obtain ⟨body, hbrace, hmakes, hc, hdp, hagain⟩ := exists_body_of_braced hl hd hm
  obtain ⟨hw, hdr, hs, hdecided⟩ := h
  refine ⟨body, ⟨hplain, hopen, hbrace, hmakes, hw⟩, ?_, ?_, ?_⟩
  · rw [hc, hdr]
    simp [Layout.text]
  · rw [hs, hdp, ← Position.advance_append]
    simp [Layout.text]
  · refine hdecided.imp_left fun hlocal => ⟨hlocal.1, hlocal.2.1, ?_⟩
    rintro c' hp ⟨more', hc'⟩
    obtain ⟨d', hr, hp', he⟩ := hagain c' (l.text ++ (front ++ behind) ++ more') hp (by
      rw [← hc']
      simp [Layout.text])
    rw [he]
    exact hlocal.2.2 d' hp' ⟨more', hr.symm⟩

theorem failsIn_of_failed (hl : literalBefore c.rest = (lit, some .opening))
    (hd : (c.skip (lit.length + 2)).directive = (.error fault, d)) :
    ∃ front behind more, FailsIn strict n fault c (.last lit) front behind more := by
  obtain ⟨hplain, hopen, -⟩ := literalBefore_eq_some_iff.1 hl
  obtain ⟨hc, hp⟩ := Pieces.skip_opening hl
  by_cases hi : ['}', '}'] <:+: (c.skip (lit.length + 2)).rest
  · obtain ⟨body, more, hr, hu⟩ := exists_unclosed hi
    rw [hr, List.append_assoc] at hc
    obtain ⟨-, ⟨e, d₁, d₂, he, -, front, behind, hbody, hne, hs⟩ | ⟨o, d₁, d₂, he, -⟩⟩ :=
      directive_again hl hc hu rfl hc
    · cases hd.symm.trans he
      have hpiece : '{' :: '{' :: front ++ behind = '{' :: '{' :: (body ++ ['}', '}']) := by
        rw [hbody]
        rfl
      refine ⟨'{' :: '{' :: front, behind, more, hplain, ?_, hs, .inl ⟨?_, hne, ?_⟩⟩
      · rw [hc, hpiece]
        simp [Layout.text]
      · rw [hpiece]
        exact .inr ⟨hopen, body, hu, rfl⟩
      · intro c' hp' hfront
        rw [hpiece] at hfront
        obtain ⟨more', hc'⟩ := Layout.exists_of_opening hfront
        obtain ⟨hl', ⟨e, d₁, d₂, he, he', -⟩ | ⟨o, d₁, d₂, he, -⟩⟩ := directive_again hl hc hu hp' hc'
        · cases hd.symm.trans he
          exact compiled_failed hl' he'
        · cases hd.symm.trans he
    · cases hd.symm.trans he
  · obtain ⟨gap, ⟨left, hleft⟩, hs⟩ := begins_of_directive hd
    refine ⟨'{' :: '{' :: gap, left, [], hplain, ?_, ?_, .inr ⟨⟨hopen, gap ++ left, ?_, rfl⟩, rfl⟩⟩
    · rw [hc, ← hleft]
      simp [Layout.text]
    · rw [hs, hp, ← Position.advance_append, List.append_assoc]
      rfl
    · rwa [hleft]

theorem failsIn_of_bracket {o : Option Directive} (hl : literalBefore c.rest = (lit, some .opening))
    (hd : (c.skip (lit.length + 2)).directive = (.ok o, d))
    (hm : (Pieces.literalBrackets lit ++ (o.map Directive.bracket).toList).foldlM (read strict) n =
      .error fault) :
    ∃ front behind more, FailsIn strict n fault c (.last lit) front behind more := by
  obtain ⟨hplain, hopen, -⟩ := literalBefore_eq_some_iff.1 hl
  obtain ⟨hc, hp⟩ := Pieces.skip_opening hl
  obtain ⟨body, hb, hbrace, -⟩ := body_of_directive hd
  obtain ⟨text, -, htext, -, hranges⟩ := exists_text_of_directive hd
  obtain ⟨range, hr, rfl⟩ := foldlM_read_error hm
  -- Literal text is never at fault, so the fault is at the directive.
  obtain ⟨a, rfl, rfl⟩ : ∃ a, o = some a ∧ range = a.range := by
    obtain hr | hr := List.mem_append.1 hr
    · cases Pieces.range?_literalBrackets hr
    · obtain ⟨a, rfl, ha⟩ := Option.map_eq_some_iff.1 (Option.mem_toList.1 hr)
      have hrange := Bracket.range?_bracket a
      rw [ha] at hrange
      exact ⟨a, rfl, Option.some.inj hrange⟩
  obtain ⟨gap, word, behind, rfl, hword, -, hrange⟩ := hranges a rfl
  have hbody : gap ++ (word ++ behind) = body ++ ['}', '}'] := by
    have hrest : gap ++ (word ++ behind) ++ d.rest = body ++ ['}', '}'] ++ d.rest := by
      rw [← List.append_assoc gap, ← htext, hb, List.append_assoc]
      rfl
    exact List.append_cancel_right hrest
  have hpiece : '{' :: '{' :: gap ++ (word ++ behind) = '{' :: '{' :: (body ++ ['}', '}']) := by
    rw [← hbody]
    rfl
  rw [hb, List.append_assoc] at hc
  have hu := unclosed_of_not_mem hbrace
  refine ⟨'{' :: '{' :: gap, word ++ behind, d.rest, hplain, ?_, ?_, .inl ⟨?_, ?_, ?_⟩⟩
  · rw [hc, hpiece]
    simp [Layout.text]
  · rw [hrange, hp, ← Position.advance_append, List.append_assoc]
    rfl
  · rw [hpiece]
    exact .inr ⟨hopen, body, hu, rfl⟩
  · exact List.append_ne_nil_of_left_ne_nil hword behind
  · intro c' hp' hfront
    rw [hpiece] at hfront
    obtain ⟨more', hc'⟩ := Layout.exists_of_opening hfront
    obtain ⟨hl', ⟨e, d₁, d₂, he, -⟩ | ⟨o', d₁, d₂, he, he', -⟩⟩ := directive_again hl hc hu hp' hc'
    · cases hd.symm.trans he
    · cases hd.symm.trans he
      rw [compiled_braced hl' he', hm]
      rfl

/-- What is wrong with a template, other than a loop that is left open, is so for a piece of it. -/
theorem exists_failsIn (hc : fault.cause ≠ .unclosedLoop) (c : Cursor) :
    ∀ n, c.compiled strict n = .error fault → ∃ l front behind more, FailsIn strict n fault c l front behind more := by
  induction c using Pieces.ofCursor.induct with
  | case1 c lit hl =>
    intro n h
    exact absurd (compiled_last hl h) hc
  | case2 c lit hl =>
    intro n h
    obtain ⟨hplain, hclose, more, hr⟩ := literalBefore_eq_some_iff.1 hl
    have hf := (compiled_stray hl).symm.trans h
    refine ⟨.last lit, [], ['}', '}'], more, hplain, hr, ?_, .inl ⟨.inl ⟨hclose, rfl⟩, ?_, ?_⟩⟩
    · cases hf
      rw [ahead, Range.ofPiece, position_skip_length hr, List.append_nil]
      rfl
    · exact List.cons_ne_nil _ _
    · intro c' hp hfront
      obtain ⟨more', hr'⟩ := Layout.exists_of_closing hfront
      rw [compiled_closing hl hr hp hr', h]
  | case3 c lit hl step e he =>
    intro n h
    have hd : (c.skip (lit.length + 2)).directive = (.error e, step.2) := Prod.ext he rfl
    cases (compiled_failed hl hd).symm.trans h
    exact ⟨_, failsIn_of_failed hl hd⟩
  | case4 c lit hl step o he ih =>
    intro n h
    have hd : (c.skip (lit.length + 2)).directive = (.ok o, step.2) := Prod.ext he rfl
    rw [compiled_braced hl hd] at h
    -- The loops that are open reject the directive, or reading goes on behind it.
    cases hm : (Pieces.literalBrackets lit ++ (o.map Directive.bracket).toList).foldlM (read strict) n with
    | error e =>
      rw [hm] at h
      cases h
      exact ⟨_, failsIn_of_bracket hl hd hm⟩
    | ok m =>
      rw [hm] at h
      obtain ⟨l, front, behind, more, hf⟩ := ih m h
      obtain ⟨body, hf⟩ := hf.braced hl hd hm
      exact ⟨_, front, behind, more, hf⟩

theorem compiled_opening (hplain : Plain lit) (hopen : lit.getLast? ≠ some '{') {body : List Char}
    (hu : Unclosed body) (strict : Bool) (n : Nesting) (p : Position) :
    (∃ fault, ∀ (c : Cursor) more, c.position = p →
      c.rest = lit ++ '{' :: '{' :: (body ++ '}' :: '}' :: more) → c.compiled strict n = .error fault) ∨
    ∃ m, ∀ (c : Cursor) more, c.position = p →
      c.rest = lit ++ '{' :: '{' :: (body ++ '}' :: '}' :: more) → ∃ d : Cursor, d.rest = more ∧
        d.position = p.advance (lit ++ '{' :: '{' :: (body ++ ['}', '}'])) ∧
        c.compiled strict n = d.compiled strict m := by
  let c₀ : Cursor := ⟨lit ++ '{' :: '{' :: (body ++ '}' :: '}' :: []), 0, p⟩
  have hl₀ : literalBefore c₀.rest = (lit, some .opening) :=
    literalBefore_append (b := .opening) hplain hopen _
  have hc₀ : c₀.rest = lit ++ '{' :: '{' :: (body ++ '}' :: '}' :: []) := rfl
  obtain ⟨-, ⟨fault, d₀, -, he₀, -⟩ | ⟨o, d₀, -, ho₀, -, -, -, hp₀, -⟩⟩ := directive_again hl₀ hc₀ hu rfl hc₀
  · refine .inl ⟨fault, fun c more hp hc => ?_⟩
    obtain ⟨hl, ⟨fault', d, d', he, he', -⟩ | ⟨o, d, d', ho, -⟩⟩ := directive_again hl₀ hc₀ hu hp hc
    · cases he₀.symm.trans he
      exact compiled_failed hl he'
    · cases he₀.symm.trans ho
  have again (c : Cursor) (more : List Char) (hp : c.position = p)
      (hc : c.rest = lit ++ '{' :: '{' :: (body ++ '}' :: '}' :: more)) : ∃ d : Cursor, d.rest = more ∧
        d.position = p.advance (lit ++ '{' :: '{' :: (body ++ ['}', '}'])) ∧ c.compiled strict n =
          (Pieces.literalBrackets lit ++ (o.map Directive.bracket).toList).foldlM (read strict) n >>=
            fun m => d.compiled strict m := by
    obtain ⟨hl, ⟨fault, d, d', he, -⟩ | ⟨o', d, d', ho, ho', -, hr, -, hp'⟩⟩ :=
      directive_again hl₀ hc₀ hu hp hc
    · cases ho₀.symm.trans he
    · cases ho₀.symm.trans ho
      exact ⟨d', hr, hp'.trans hp₀, compiled_braced hl ho'⟩
  cases hm : (Pieces.literalBrackets lit ++ (o.map Directive.bracket).toList).foldlM (read strict) n with
  | error fault =>
    refine .inl ⟨fault, fun c more hp hc => ?_⟩
    obtain ⟨d, -, -, he⟩ := again c more hp hc
    rw [he, hm]
    rfl
  | ok m =>
    refine .inr ⟨m, fun c more hp hc => ?_⟩
    obtain ⟨d, hr, hd, he⟩ := again c more hp hc
    rw [hm] at he
    exact ⟨d, hr, hd, he⟩

/-- What closing braces in a template decide: compiling fails whatever follows them, or it goes on behind
them. -/
theorem compiled_closed {l : Layout} {piece more : List Char} (hw : l.WellFormed) (hp : l.IsClosed piece)
    (hc : c.rest = l.text ++ (piece ++ more)) (h : c.compiled strict n = .error fault) :
    (∀ c' : Cursor, c'.position = c.position → l.text ++ piece <+: c'.rest →
      c'.compiled strict n = .error fault) ∨
    ∃ (d : Cursor) (m : Nesting), d.rest = more ∧ d.position = c.position.advance (l.text ++ piece) ∧
      d.compiled strict m = .error fault := by
  induction l generalizing c n with
  | last lit =>
    obtain ⟨hclose, rfl⟩ | ⟨hopen, body, hu, rfl⟩ := hp
    · have hl : literalBefore c.rest = (lit, some .closing) := by
        rw [hc]
        exact literalBefore_append (b := .closing) hw hclose _
      refine .inl fun c' hp' hfront => ?_
      obtain ⟨more', hr'⟩ := Layout.exists_of_closing hfront
      rw [compiled_closing hl hc hp' hr', h]
    · have hr : c.rest = lit ++ '{' :: '{' :: (body ++ '}' :: '}' :: more) := by
        rw [hc]
        simp [Layout.text]
      obtain ⟨fault', hfails⟩ | ⟨m, hgoes⟩ := compiled_opening hw hopen hu strict n c.position
      · cases (hfails c more rfl hr).symm.trans h
        refine .inl fun c' hp' hfront => ?_
        obtain ⟨more', hr'⟩ := Layout.exists_of_opening hfront
        exact hfails c' more' hp' hr'
      · obtain ⟨d, hdr, hdp, he⟩ := hgoes c more rfl hr
        exact .inr ⟨d, m, hdr, hdp, he.symm.trans h⟩
  | braced lit body kind rest ih =>
    obtain ⟨hplain, hopen, hbrace, -, hw⟩ := hw
    have hr : c.rest = lit ++ '{' :: '{' :: (body ++ '}' :: '}' :: (rest.text ++ (piece ++ more))) := by
      rw [hc]
      simp [Layout.text]
    -- The first directive of the layout decides, or else something behind it does.
    obtain ⟨fault', hfails⟩ | ⟨m, hgoes⟩ :=
      compiled_opening hplain hopen (unclosed_of_not_mem hbrace) strict n c.position
    · cases (hfails c _ rfl hr).symm.trans h
      left
      rintro c' hp' ⟨more', hr'⟩
      refine hfails c' (rest.text ++ piece ++ more') hp' ?_
      rw [← hr']
      simp [Layout.text]
    · obtain ⟨d, hdr, hdp, he⟩ := hgoes c _ rfl hr
      obtain hfails | ⟨e, k, her, hep, hke⟩ := ih hw hp hdr (he.symm.trans h)
      · left
        rintro c' hp' ⟨more', hr'⟩
        obtain ⟨d', hdr', hdp', he'⟩ := hgoes c' (rest.text ++ piece ++ more') hp' (by
          rw [← hr']
          simp [Layout.text])
        rw [he']
        exact hfails d' (hdp'.trans hdp.symm) ⟨more', hdr'.symm⟩
      · refine .inr ⟨e, k, her, ?_, hke⟩
        rw [hep, hdp, ← Position.advance_append]
        simp [Layout.text]

end Cursor

theorem decided_or_behind {strict : Bool} {source : String} {fault : Fault} {l : Layout} {piece : List Char}
    (h : (compile strict source).outcome = .error fault) (hc : fault.cause ≠ .unclosedLoop)
    (hw : l.WellFormed) (hp : l.IsClosed piece) (hs : l.text ++ piece <+: source.toList) :
    (∀ source' : String, l.text ++ piece <+: source'.toList →
      (compile strict source').outcome = .error fault) ∨
    ∃ later, l.text ++ piece ++ later <+: source.toList ∧
      fault.range.start = .advance {} (l.text ++ piece ++ later) := by
  rw [outcome_compile] at h
  obtain ⟨more, hr⟩ := hs
  have hrest : (Cursor.ofText source).rest = l.text ++ (piece ++ more) := by
    rw [← List.append_assoc]
    exact hr.symm
  obtain hfails | ⟨d, m, hdr, hdp, hd⟩ := Cursor.compiled_closed hw hp hrest h
  · refine .inl fun source' hs' => ?_
    rw [outcome_compile]
    exact hfails (.ofText source') rfl hs'
  · obtain ⟨l', front, behind, more', -, hdr', hstart, -⟩ := Cursor.exists_failsIn hc d m hd
    refine .inr ⟨l'.text ++ front, ⟨behind ++ more', ?_⟩, ?_⟩
    · rw [← hr, ← hdr, hdr']
      simp
    · rw [hstart, hdp, ← Position.advance_append]
      rfl

/-- What follows the first closing braces of a directive has no part in it: the directive is the same, or
the same fault is found, and reading goes no further, and just as far if there is no fault. What is wrong
with a template, unless it is a loop that is left open at the end, is so for braces that close nothing or
for a directive, and every template that begins like this one up to their end has the same fault, except
where a directive has no closing braces. Closing braces decide every fault that does not stand behind them,
which is to be seen from its position where lines are not too many to be counted. -/
theorem compile_local :
    (∀ {front : List Char} (offset : Nat) (position : Position), Unclosed front →
      ∃ outcome n, n ≤ front.length + 2 ∧ (∀ o, outcome = .ok o → n = front.length + 2) ∧ ∀ rest,
        let c : Cursor := ⟨front ++ '}' :: '}' :: rest, offset, position⟩
        c.directive = (outcome, c.skip n)) ∧
    (∀ {strict : Bool} {source : String} {fault : Fault},
      (compile strict source).outcome = .error fault → fault.cause ≠ .unclosedLoop →
      ∃ (l : Layout) (front behind more : List Char), l.WellFormed ∧
        source.toList = l.text ++ (front ++ behind ++ more) ∧
        fault.range.start = .advance {} (l.text ++ front) ∧
        (l.IsClosed (front ++ behind) ∧ behind ≠ [] ∧
            (∀ source' : String, l.text ++ (front ++ behind) <+: source'.toList →
              (compile strict source').outcome = .error fault) ∨
          l.IsOpen (front ++ behind) ∧ more = [])) ∧
    (∀ {strict : Bool} {source : String} {fault : Fault} {l : Layout} {piece : List Char},
      (compile strict source).outcome = .error fault → fault.cause ≠ .unclosedLoop →
      l.WellFormed → l.IsClosed piece → l.text ++ piece <+: source.toList →
      (∀ source' : String, l.text ++ piece <+: source'.toList →
        (compile strict source').outcome = .error fault) ∨
      ∃ later, l.text ++ piece ++ later <+: source.toList ∧
        fault.range.start = .advance {} (l.text ++ piece ++ later)) ∧
    (∀ {strict : Bool} {source : String} {fault : Fault} {l : Layout} {piece : List Char},
      source.toList.count '\n' + 1 < UInt32.size →
      (compile strict source).outcome = .error fault → fault.cause ≠ .unclosedLoop →
      l.WellFormed → l.IsClosed piece → l.text ++ piece <+: source.toList →
      fault.range.start.Before (Position.advance {} (l.text ++ piece)) →
      ∀ source' : String, l.text ++ piece <+: source'.toList →
        (compile strict source').outcome = .error fault) := by
  refine ⟨fun offset position hu => Cursor.directive_local hu offset position, ?_, decided_or_behind, ?_⟩
  · intro strict source fault h hc
    rw [outcome_compile] at h
    obtain ⟨l, front, behind, more, hw, hr, hs, hdecided⟩ := Cursor.exists_failsIn hc (.ofText source) {} h
    refine ⟨l, front, behind, more, hw, hr, hs, hdecided.imp_left fun hfails => ?_⟩
    refine ⟨hfails.1, hfails.2.1, fun source' hs' => ?_⟩
    rw [outcome_compile]
    exact hfails.2.2 (.ofText source') rfl hs'
  · intro strict source fault l piece hlines h hc hw hp hs hb source' hs'
    obtain hfails | ⟨later, hlater, hstart⟩ := decided_or_behind h hc hw hp hs
    · exact hfails source' hs'
    -- Where no line number wraps round, what stands behind has a later position.
    · rw [hstart, Position.advance_append] at hb
      have hfits : Position.Fits {} source.toList := by rwa [Nat.add_comm] at hlines
      exact absurd hb (Position.not_before_advance (hfits.of_front hlater).advance)

theorem compile_local_field :
    let fault : Fault := ⟨⟨⟨1, 6⟩, ⟨1, 7⟩⟩, .notClosed (some (.name "c"))⟩
    (∀ rest, (Cursor.mk (['b', ' ', 'c'] ++ '}' :: '}' :: rest) 3 ⟨1, 4⟩).directive.1 = .error fault) ∧
      (compile false "a{{b c}}").outcome = .error fault ∧
      (∃ (l : Layout) (front behind : List Char), fault.range.start = .advance {} (l.text ++ front) ∧
        (l.IsClosed (front ++ behind) ∨ l.IsOpen (front ++ behind))) ∧
      (compile false "a{{b c}}{{d}}").outcome = .error fault := by
  intro fault
  have h : (compile false "a{{b c}}").outcome = .error fault := by
    unfold fault
    cbv
  have hl : (Layout.last ['a']).WellFormed := by
    change Plain ['a']
    decide
  have hp : (Layout.last ['a']).IsClosed "{{b c}}".toList :=
    .inr ⟨by decide, ['b', ' ', 'c'], by decide, by decide⟩
  have hu : Unclosed ['b', ' ', 'c'] := by decide
  obtain ⟨l, front, behind, more, -, -, hs, hdecided⟩ := compile_local.2.1 h (by decide)
  refine ⟨fun rest => ?_, h, ⟨l, front, behind, hs, hdecided.imp And.left And.left⟩,
    compile_local.2.2.2 (by decide) h (by decide) hl hp (by decide) (by decide) _ (by decide)⟩
  obtain ⟨outcome, n, -, -, hd⟩ := compile_local.1 3 ⟨1, 4⟩ hu
  have hshort : (Cursor.mk (['b', ' ', 'c'] ++ '}' :: '}' :: []) 3 ⟨1, 4⟩).directive.1 =
      .error fault := by
    unfold fault
    cbv
  obtain rfl : outcome = .error fault := (congrArg Prod.fst (hd [])).symm.trans hshort
  exact congrArg Prod.fst (hd rest)

end TextTemplate
