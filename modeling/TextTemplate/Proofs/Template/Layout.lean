import TextTemplate.Proofs.Directive.Grammar
import TextTemplate.Proofs.Template.Brackets
import TextTemplate.Proofs.Text.Braces
import TextTemplate.Proofs.Text.Place

namespace TextTemplate

/-- The literal text in front of each pair of double braces, what stands between them and makes a
directive or an empty one, and the literal text at the end. -/
inductive Layout
  | last (literal : List Char)
  | braced (literal body : List Char) (kind : Option Directive.Kind) (rest : Layout)

def Directive.Kind.mark : Directive.Kind → Mark
  | field name => .leaf (.field name {})
  | forRange first stop names => .opening (.forRange (stop - first) names.head? [])
  | forList list item further => .opening (.forEach list item further.head? [] {})
  | endLoop => .closing

def literalMarks : List Char → List Mark
  | [] => []
  | text => [.leaf (.literal (String.ofList text))]

namespace Layout

def text : Layout → List Char
  | last literal => literal
  | braced literal body _ rest => literal ++ '{' :: '{' :: (body ++ '}' :: '}' :: rest.text)

/-- Literal text has no double braces, and in front of a directive it does not end with a single one
that opens. -/
def WellFormed : Layout → Prop
  | last literal => Plain literal
  | braced literal body kind rest => Plain literal ∧ literal.getLast? ≠ some '{' ∧ '}' ∉ body ∧
    Makes body kind ∧ rest.WellFormed

def marks : Layout → List Mark
  | last literal => literalMarks literal
  | braced literal _ kind rest =>
    literalMarks literal ++ (kind.map Directive.Kind.mark).toList ++ rest.marks

def commands (l : Layout) : List Command := l.marks.filterMap Mark.command?

end Layout

theorem Layout.literalBefore_text {lit body : List Char} {kind : Option Directive.Kind}
    {rest : Layout} (h : (braced lit body kind rest).WellFormed) :
    literalBefore (braced lit body kind rest).text = (lit, some .opening) :=
  literalBefore_append (b := .opening) h.1 h.2.1 _

namespace Pieces

theorem ofCursor_last {c : Cursor} {lit : List Char} (h : literalBefore c.rest = (lit, none)) :
    ofCursor c = withLiteral lit .done := by
  rw [ofCursor]
  split <;> simp_all

theorem ofCursor_stray {c : Cursor} {lit : List Char}
    (h : literalBefore c.rest = (lit, some .closing)) :
    ofCursor c = withLiteral lit (.broken ⟨(c.skip lit.length).ahead 2, .strayClose⟩) := by
  rw [ofCursor]
  split <;> simp_all

theorem ofCursor_failed {c d : Cursor} {lit : List Char} {fault : Fault}
    (h : literalBefore c.rest = (lit, some .opening))
    (hd : (c.skip (lit.length + 2)).directive = (.error fault, d)) :
    ofCursor c = withLiteral lit (.broken fault) := by
  rw [ofCursor]
  split <;> simp_all

theorem ofCursor_braced {c d : Cursor} {lit : List Char} {o : Option Directive}
    (h : literalBefore c.rest = (lit, some .opening))
    (hd : (c.skip (lit.length + 2)).directive = (.ok o, d)) :
    ofCursor c = withLiteral lit (withDirective o (ofCursor d)) := by
  rw [ofCursor]
  split <;> simp_all

theorem fault?_withLiteral (lit : List Char) (ps : Pieces) :
    (withLiteral lit ps).fault? = ps.fault? := by
  cases lit <;> rfl

theorem fault?_withDirective (o : Option Directive) (ps : Pieces) :
    (withDirective o ps).fault? = ps.fault? := by
  cases o <;> rfl

def literalBrackets : List Char → List Bracket
  | [] => []
  | text => [.leaf (.literal (String.ofList text))]

theorem brackets_withLiteral (lit : List Char) (ps : Pieces) :
    (withLiteral lit ps).brackets = literalBrackets lit ++ ps.brackets := by
  cases lit <;> rfl

theorem brackets_withDirective (o : Option Directive) (ps : Pieces) :
    (withDirective o ps).brackets = (o.map Directive.bracket).toList ++ ps.brackets := by
  cases o <;> rfl

/-- What is true of brackets that are literal text alone, and remains true with literal text and a
directive in front, is true of all brackets that are read. -/
theorem induction_brackets {motive : Cursor → List Bracket → Prop}
    (last : ∀ c lit, Plain lit → motive c (literalBrackets lit))
    (braced : ∀ c lit o d, literalBefore c.rest = (lit, some .opening) →
      (c.skip (lit.length + 2)).directive = (.ok o, d) → motive d (ofCursor d).brackets →
      motive c (literalBrackets lit ++ ((o.map Directive.bracket).toList ++ (ofCursor d).brackets)))
    (c : Cursor) : motive c (ofCursor c).brackets := by
  induction c using ofCursor.induct with
  | case1 c lit hl =>
    rw [ofCursor_last hl, brackets_withLiteral, brackets, List.append_nil]
    exact last c lit (literalBefore_eq_none_iff.1 hl).1
  | case2 c lit hl =>
    rw [ofCursor_stray hl, brackets_withLiteral, brackets, List.append_nil]
    exact last c lit (literalBefore_eq_some_iff.1 hl).1
  | case3 c lit hl step fault he =>
    have hd : (c.skip (lit.length + 2)).directive = (.error fault, step.2) := Prod.ext he rfl
    rw [ofCursor_failed hl hd, brackets_withLiteral, brackets, List.append_nil]
    exact last c lit (literalBefore_eq_some_iff.1 hl).1
  | case4 c lit hl step o he ih =>
    have hd : (c.skip (lit.length + 2)).directive = (.ok o, step.2) := Prod.ext he rfl
    rw [ofCursor_braced hl hd, brackets_withLiteral, brackets_withDirective]
    exact braced c lit o step.2 hl hd ih

def marks (ps : Pieces) : List Mark := (ps.brackets.map Bracket.mark).map Mark.erase

theorem marks_withLiteral (lit : List Char) (ps : Pieces) :
    (withLiteral lit ps).marks = literalMarks lit ++ ps.marks := by
  cases lit <;> rfl

theorem marks_withDirective (o : Option Directive) (ps : Pieces) :
    (withDirective o ps).marks = ((o.map Directive.kind).map Directive.Kind.mark).toList ++ ps.marks := by
  cases o with
  | none => rfl
  | some d =>
    obtain ⟨kind, range⟩ := d
    cases kind <;> rfl

theorem rest_skip_braces {c : Cursor} {lit rest : List Char} (h : c.rest = lit ++ '{' :: '{' :: rest) :
    (c.skip (lit.length + 2)).rest = rest := by
  calc (c.skip (lit.length + 2)).rest
      = ((lit ++ '{' :: '{' :: rest).drop lit.length).drop 2 := by
        rw [Cursor.rest_skip, h, List.drop_drop]
    _ = rest := by
        rw [List.drop_left]
        rfl

theorem skip_opening {c : Cursor} {lit : List Char} (h : literalBefore c.rest = (lit, some .opening)) :
    c.rest = lit ++ ['{', '{'] ++ (c.skip (lit.length + 2)).rest ∧
      (c.skip (lit.length + 2)).position = c.position.advance (lit ++ ['{', '{']) := by
  obtain ⟨-, -, rest, hc⟩ := literalBefore_eq_some_iff.1 h
  have hc' : c.rest = lit ++ ['{', '{'] ++ rest := by
    rw [hc, List.append_assoc]
    rfl
  have hlen : (lit ++ ['{', '{']).length = lit.length + 2 := List.length_append
  rw [← hlen, Cursor.rest_skip_length hc', Cursor.position_skip_length hc']
  exact ⟨hc', rfl⟩

theorem exists_layout {c : Cursor} (h : (ofCursor c).fault? = none) :
    ∃ l : Layout, l.WellFormed ∧ l.text = c.rest := by
  induction c using ofCursor.induct with
  | case1 c lit hl =>
    obtain ⟨hp, ht⟩ := literalBefore_eq_none_iff.1 hl
    exact ⟨.last lit, hp, ht.symm⟩
  | case2 c lit hl =>
    rw [ofCursor_stray hl, fault?_withLiteral] at h
    cases h
  | case3 c lit hl step fault he =>
    have hd : (c.skip (lit.length + 2)).directive = (.error fault, step.2) := Prod.ext he rfl
    rw [ofCursor_failed hl hd, fault?_withLiteral] at h
    cases h
  | case4 c lit hl step o he ih =>
    have hd : (c.skip (lit.length + 2)).directive = (.ok o, step.2) := Prod.ext he rfl
    rw [ofCursor_braced hl hd, fault?_withLiteral, fault?_withDirective] at h
    obtain ⟨l, hw, ht⟩ := ih h
    obtain ⟨hp, hb, rest, hc⟩ := literalBefore_eq_some_iff.1 hl
    obtain ⟨u, ks, hu, hbu, -⟩ := Cursor.directive_eq_ok_iff.1 ⟨o, step.2, hd, rfl, rfl⟩
    have hm := (makes_iff hu hbu).2 ⟨o, step.2, hd, rfl, rfl⟩
    refine ⟨.braced lit u (o.map Directive.kind) l, ⟨hp, hb, hbu, hm, hw⟩, ?_⟩
    rw [rest_skip_braces hc] at hu
    rw [hc, hu, Layout.text, ht]
    rfl

theorem marks_of_layout {l : Layout} (hl : l.WellFormed) {c : Cursor} (hc : c.rest = l.text) :
    (ofCursor c).fault? = none ∧ (ofCursor c).marks = l.marks := by
  induction l generalizing c with
  | last lit =>
    rw [ofCursor_last (literalBefore_eq_none_iff.2 ⟨hl, hc⟩), fault?_withLiteral,
      marks_withLiteral]
    exact ⟨rfl, List.append_nil _⟩
  | braced lit body kind rest ih =>
    have hlit : literalBefore c.rest = (lit, some .opening) := by
      rw [hc, Layout.literalBefore_text hl]
    obtain ⟨-, -, hbb, hm, hw⟩ := hl
    obtain ⟨o, d, hd, rfl, hdr⟩ := (makes_iff (rest_skip_braces hc) hbb).1 hm
    obtain ⟨hf, hcs⟩ := ih hw hdr
    rw [ofCursor_braced hlit hd, fault?_withLiteral, fault?_withDirective, marks_withLiteral,
      marks_withDirective, hcs, ← List.append_assoc]
    exact ⟨hf, rfl⟩

end Pieces

/-- A layout can be read off its text. -/
theorem Layout.eq_of_text_eq {l l' : Layout} (h : l.WellFormed) (h' : l'.WellFormed)
    (ht : l.text = l'.text) : l = l' := by
  induction l generalizing l' with
  | last lit =>
    have hl := literalBefore_of_plain h
    cases l' with
    | last lit' => exact congrArg last ht
    | braced lit' body' kind' rest' =>
      have hb := literalBefore_text h'
      rw [← ht] at hb
      cases hl.symm.trans hb
  | braced lit body kind rest ih =>
    have hb := literalBefore_text h
    cases l' with
    | last lit' =>
      rw [ht] at hb
      cases (literalBefore_of_plain h').symm.trans hb
    | braced lit' body' kind' rest' =>
      have hb' := literalBefore_text h'
      rw [ht] at hb
      cases hb.symm.trans hb'
      obtain ⟨-, -, hbb, hm, hw⟩ := h
      obtain ⟨-, -, hbb', hm', hw'⟩ := h'
      have ht' := List.append_cancel_left ht
      obtain ⟨rfl, he⟩ := append_cons_inj hbb hbb' (List.cons.inj (List.cons.inj ht').2).2
      obtain rfl := hm.unique hm'
      rw [ih hw hw' (List.cons.inj he).2]

theorem filterMap_kept (depth : Nat) (w : List Bracket) :
    ((kept depth w).map Bracket.mark).filterMap Mark.command? =
      (w.map Bracket.mark).filterMap Mark.command? := by
  fun_induction kept depth w with
  | case1 => rfl
  | case2 depth l w ih => simp only [List.map_cons, List.filterMap_cons, ih]
  | case3 depth header w ih => simp only [List.map_cons, List.filterMap_cons, ih]
  | case4 range w ih =>
    rw [ih]
    rfl
  | case5 depth range w ih => simp only [List.map_cons, List.filterMap_cons, ih]

theorem preorderAll_of_compile {strict : Bool} {template : String} {tree : List Command}
    (h : (compile strict template).outcome = .ok tree) :
    preorderAll tree = ((Pieces.ofText template).brackets.map Bracket.mark).filterMap Mark.command? := by
  have hr : ∀ n, (List.replicate n Mark.closing).filterMap Mark.command? = [] := by
    intro n
    rw [List.filterMap_replicate]
    rfl
  rw [preorderAll_eq, marksAll_compile (compile_false_of_ok h), List.filterMap_append, hr,
    List.append_nil, filterMap_kept]

theorem preorderAll_compile {template : String} {tree : List Command}
    (h : (compile false template).outcome = .ok tree) :
    (preorderAll tree).map Command.erase =
      (Pieces.ofText template).marks.filterMap Mark.command? := by
  rw [preorderAll_of_compile h, map_erase_filterMap]
  rfl

/-- The templates that compile leniently are those with a layout. There is one layout for each, and
the tree has the commands that it says, in their order. -/
theorem compile_reads_layout (template : String) :
    ((∃ tree, (compile false template).outcome = .ok tree) ↔
      ∃ l : Layout, l.WellFormed ∧ l.text = template.toList) ∧
    (∀ l l' : Layout, l.WellFormed → l'.WellFormed → l.text = template.toList →
      l'.text = template.toList → l = l') ∧
    (∀ (tree : List Command) (l : Layout), (compile false template).outcome = .ok tree →
      l.WellFormed → l.text = template.toList → (preorderAll tree).map Command.erase = l.commands) := by
  have hc : (Cursor.ofText template).rest = template.toList := rfl
  refine ⟨⟨?_, ?_⟩, ?_, ?_⟩
  · rintro ⟨tree, h⟩
    rw [← hc]
    exact Pieces.exists_layout (compile_eq_ok h)
  · rintro ⟨l, hw, ht⟩
    obtain ⟨hf, -⟩ := Pieces.marks_of_layout hw (hc.trans ht.symm)
    obtain ⟨m, hm, -⟩ := Nesting.foldlM_read_false {} (Pieces.ofText template).brackets
    exact ⟨m.finish, compile_false_eq_ok_iff.2 ⟨hf, m, hm, rfl⟩⟩
  · intro l l' hw hw' ht ht'
    exact Layout.eq_of_text_eq hw hw' (ht.trans ht'.symm)
  · intro tree l h hw ht
    rw [preorderAll_compile h]
    exact congrArg _ (Pieces.marks_of_layout hw (hc.trans ht.symm)).2

theorem compile_reads_layout_braces :
    let template := "{a}{{ x }}\x7d{{}}b{{for(3..1)|i,j|}}\x7b"
    let commands : List Command := [.literal "{a}", .substitution "x" {}, .literal "\x7d", .literal "b",
      .forRange 0 (some "i") [], .literal "\x7b"]
    (∃ tree, (compile false template).outcome = .ok tree ∧
      (preorderAll tree).map Command.erase = commands) ∧
      ∃ l : Layout, l.WellFormed ∧ l.text = template.toList ∧ l.commands = commands := by
  intro template commands
  have h : (compile false template).outcome = .ok [.literal "{a}", .substitution "x" ⟨⟨1, 7⟩, ⟨1, 8⟩⟩,
      .literal "\x7d", .literal "b", .forRange 0 (some "i") [.literal "\x7b"]] := by
    unfold template
    cbv
  obtain ⟨l, hw, hl⟩ := (compile_reads_layout template).1.1 ⟨_, h⟩
  exact ⟨⟨_, h, rfl⟩, l, hw, hl, ((compile_reads_layout template).2.2 _ l h hw hl).symm⟩

end TextTemplate
