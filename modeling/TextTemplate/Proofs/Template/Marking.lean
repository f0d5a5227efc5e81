import TextTemplate.Proofs.Directive.Marking
import TextTemplate.Proofs.Rendering.Faults
import TextTemplate.Proofs.Template.Layout
import TextTemplate.Proofs.Template.Outcome

namespace TextTemplate

/-- That a bracket is literal text, or a directive whose range marks what it is spelled by. -/
def Bracket.MarkedIn (source : List Char) (b : Bracket) : Prop :=
  (∃ text, b = .leaf (.literal text)) ∨
    ∃ d : Directive, b = d.bracket ∧ d.range.Marks source fun _ piece _ => d.kind.WrittenAs piece

namespace Pieces

theorem mem_brackets_withLiteral {lit : List Char} {ps : Pieces} {b : Bracket}
    (h : b ∈ (withLiteral lit ps).brackets) : (∃ text, b = .leaf (.literal text)) ∨ b ∈ ps.brackets := by
  rw [brackets_withLiteral] at h
  obtain h | h := List.mem_append.1 h
  · cases lit with
    | nil => cases h
    | cons c lit => exact .inl ⟨_, List.mem_singleton.1 h⟩
  · exact .inr h

theorem mem_brackets_withDirective {o : Option Directive} {ps : Pieces} {b : Bracket}
    (h : b ∈ (withDirective o ps).brackets) : (∃ d, o = some d ∧ b = d.bracket) ∨ b ∈ ps.brackets := by
  rw [brackets_withDirective] at h
  obtain h | h := List.mem_append.1 h
  · cases o with
    | none => cases h
    | some d => exact .inl ⟨d, rfl, List.mem_singleton.1 h⟩
  · exact .inr h

end Pieces

namespace Cursor

variable {source front : List Char} {c : Cursor}

theorem StandsIn.skip_braces (h : c.StandsIn source front) {lit rest : List Char}
    (hc : c.rest = lit ++ '{' :: '{' :: rest) :
    (c.skip (lit.length + 2)).StandsIn source (front ++ (lit ++ ['{', '{'])) := by
  have ht : c.rest.take (lit.length + 2) = lit ++ ['{', '{'] := by
    rw [hc, List.take_length_add_append]
    rfl
  refine ⟨?_, ?_, ?_⟩
  · rw [Pieces.rest_skip_braces hc, h.text, hc]
    simp
  · rw [Position.advance_append, ← h.position, ← ht]
    rfl
  · intro a ha hd
    rw [← List.append_assoc, List.append_cons, List.getLast?_concat] at ha
    obtain rfl := Option.some.inj ha
    cases hd

theorem StandsIn.marks_stray (h : c.StandsIn source front) {lit rest : List Char}
    (hc : c.rest = lit ++ '}' :: '}' :: rest) :
    ((c.skip lit.length).ahead 2).Marks source fun _ piece _ => piece = ['}', '}'] := by
  refine ⟨front ++ lit, ['}', '}'], rest, ?_, nofun, ?_, rfl⟩
  · rw [h.text, hc]
    simp
  · rw [Cursor.ahead, rest_skip_length hc, position_skip_length hc, h.position,
      ← Position.advance_append, Range.behind_eq]
    rfl

end Cursor

namespace Pieces

theorem marked_ofCursor {source : List Char} {c : Cursor} (h : ∃ front, c.StandsIn source front) :
    (∀ fault, (ofCursor c).fault? = some fault → Position.Fits {} source →
      (fault.range.spanIn source).Covers source fault.cause.Fits) ∧
    ∀ b ∈ (ofCursor c).brackets, b.MarkedIn source := by
  induction c using ofCursor.induct with
  | case1 c lit hl =>
    rw [ofCursor_last hl, fault?_withLiteral]
    refine ⟨fun fault hf _ => ?_, fun b hb => ?_⟩
    · cases hf
    · obtain hb | hb := mem_brackets_withLiteral hb
      · exact .inl hb
      · cases hb
  | case2 c lit hl =>
    obtain ⟨front, h⟩ := h
    obtain ⟨-, -, rest, hc⟩ := literalBefore_eq_some_iff.1 hl
    rw [ofCursor_stray hl, fault?_withLiteral]
    refine ⟨?_, fun b hb => ?_⟩
    · rintro fault ⟨rfl⟩ hfits
      exact (h.marks_stray hc).covers hfits
    · obtain hb | hb := mem_brackets_withLiteral hb
      · exact .inl hb
      · cases hb
  | case3 c lit hl step fault he =>
    obtain ⟨front, h⟩ := h
    obtain ⟨-, -, rest, hc⟩ := literalBefore_eq_some_iff.1 hl
    have hd : (c.skip (lit.length + 2)).directive = (.error fault, step.2) := Prod.ext he rfl
    have hne : source ≠ [] := by
      rw [h.text, hc]
      simp
    rw [ofCursor_failed hl hd, fault?_withLiteral]
    refine ⟨?_, fun b hb => ?_⟩
    · rintro fault' ⟨rfl⟩ hfits
      exact (h.skip_braces hc).rejects hne hfits (Cursor.rejects_of_directive hd)
    · obtain hb | hb := mem_brackets_withLiteral hb
      · exact .inl hb
      · cases hb
  | case4 c lit hl step o he ih =>
    obtain ⟨front, h⟩ := h
    obtain ⟨-, -, rest, hc⟩ := literalBefore_eq_some_iff.1 hl
    have hd : (c.skip (lit.length + 2)).directive = (.ok o, step.2) := Prod.ext he rfl
    obtain ⟨hs, ho⟩ := (h.skip_braces hc).directive hd
    obtain ⟨hf, hbs⟩ := ih hs
    rw [ofCursor_braced hl hd, fault?_withLiteral, fault?_withDirective]
    refine ⟨hf, fun b hb => ?_⟩
    obtain hb | hb := mem_brackets_withLiteral hb
    · exact .inl hb
    · obtain ⟨d, rfl, rfl⟩ | hb := mem_brackets_withDirective hb
      · exact .inr ⟨d, rfl, ho d rfl⟩
      · exact hbs b hb

theorem marked_ofText (source : String) : (∀ fault, (ofText source).fault? = some fault →
      Position.Fits {} source.toList → (fault.range.spanIn source.toList).Covers source.toList fault.cause.Fits) ∧
    ∀ b ∈ (ofText source).brackets, b.MarkedIn source.toList :=
  marked_ofCursor ⟨[], Cursor.standsIn_ofText source⟩

end Pieces

namespace Bracket

variable {source : List Char} {range : Range}

theorem MarkedIn.closing (h : (closing range).MarkedIn source) :
    range.Marks source fun _ piece _ => piece = ['e', 'n', 'd'] := by
  obtain ⟨text, ht⟩ | ⟨⟨kind, r⟩, hb, hm⟩ := h
  · cases ht
  · cases kind with
    | endLoop =>
      cases hb
      exact hm.imp fun _ _ _ hw => hw.eq_endLoop
    | _ => cases hb

theorem MarkedIn.opening {header : LoopHeader} (h : (opening header).MarkedIn source) :
    header.range.Marks source fun _ piece _ =>
      ∃ kind : Directive.Kind, kind.IsLoop ∧ kind.WrittenAs piece := by
  obtain ⟨text, ht⟩ | ⟨⟨kind, r⟩, hb, hm⟩ := h
  · cases ht
  · cases kind with
    | forRange first stop names =>
      cases hb
      exact hm.imp fun _ _ _ hw => ⟨.forRange first stop names, trivial, hw⟩
    | forList list item further =>
      cases hb
      exact hm.imp fun _ _ _ hw => ⟨.forList list item further, trivial, hw⟩
    | _ => cases hb

end Bracket

/-- What stands in the source where a command has a range. -/
def Command.Shows : Command → List Char → Prop
  | substitution name _, piece => piece = name.toList
  | forEach list item index _ _, piece =>
    ∃ further : List String, index = further.head? ∧ (Directive.Kind.forList list item further).WrittenAs piece
  | _, _ => False

theorem Bracket.MarkedIn.raises {source : List Char} {b : Bracket} (h : b.MarkedIn source)
    {c : Command} (hc : b.mark.command? = some c) {fault : Fault} (hr : c.Raises fault) :
    fault.range.Marks source fun _ piece _ => c.Shows piece := by
  obtain ⟨text, rfl⟩ | ⟨⟨kind, range⟩, rfl, hm⟩ := h
  · cases hc
    exact hr.elim
  · cases kind with
    | field name =>
      cases hc
      rw [hr.1]
      exact hm.imp fun _ _ _ hw => hw.eq_field
    | forRange first stop names =>
      cases hc
      exact hr.elim
    | forList list item further =>
      cases hc
      rw [hr.1]
      exact hm.imp fun _ _ _ hw => ⟨further, rfl, hw⟩
    | endLoop => cases hc

theorem exists_bracket {strict : Bool} {source : String} {tree : List Command}
    (h : (compile strict source).outcome = .ok tree) {c : Command} (hc : c ∈ preorderAll tree) :
    ∃ b ∈ (Pieces.ofText source).brackets, b.mark.command? = some c := by
  rw [preorderAll_of_compile h, List.filterMap_map] at hc
  exact List.mem_filterMap.1 hc

/-- A fault that is met while tokens are read for a directive tells what is no token. -/
theorem blocks_of_tokens {source front : List Char} {c : Cursor} (h : c.StandsIn source front)
    {fault : Fault} (hf : (Tokens.ofCursor c).directive = .error fault) :
    fault.range.Marks source fault.cause.Blocks := by
  induction c using Tokens.ofCursor.induct generalizing front with
  | case1 c d hn =>
    rw [Tokens.ofCursor_done hn] at hf
    cases hf
  | case2 c lexical d hn =>
    rw [Tokens.ofCursor_broken hn] at hf
    cases hf
    exact h.next_error hn
  | case3 c t d hn ih =>
    obtain ⟨gap, word, hd, -⟩ := h.next hn
    rw [Tokens.ofCursor_more hn, Tokens.directive] at hf
    split at hf
    · cases hf
    · refine ih hd ?_
      cases hr : (Tokens.ofCursor d).directive with
      | ok toks =>
        rw [hr] at hf
        cases hf
      | error e =>
        rw [hr] at hf
        cases hf
        rfl

theorem covers_of_compile {strict : Bool} {source : String} {fault : Fault}
    (h : (compile strict source).outcome = .error fault) (hfits : Position.Fits {} source.toList) :
    (fault.range.spanIn source.toList).Covers source.toList fault.cause.Fits := by
  obtain ⟨hfault, hbrackets⟩ := Pieces.marked_ofText source
  obtain hf | ⟨range, hb, rfl⟩ | ⟨header, hb, rfl⟩ := compile_error h
  · exact hfault fault hf hfits
  · exact (hbrackets _ hb).closing.covers hfits
  · exact (hbrackets _ hb).opening.covers hfits

/-- The bytes that a diagnostic marks are those of what it tells of: for a fault of reading the text
that is no token or does not fit, or the last character where the source ends too early; for a loop that
is never closed its header; for an `end` too many that word; and for a fault of rendering the name or the
header of the command that it comes from. The source has fewer than 2 ^ 32 lines. -/
theorem diagnostic_covers {source : String} (hlines : source.toList.count '\n' + 1 < UInt32.size) :
    (∀ fault, tokenize source = .error fault →
      (Diagnostic.place source fault).span.Covers source.toList fault.cause.Blocks) ∧
    (∀ strict d, (Template.compile strict source).outcome = .error d →
      d.source = source ∧ d.span.Covers source.toList d.fault.cause.Fits) ∧
    (∀ strict t context d, (Template.compile strict source).outcome = .ok t →
      (t.render context).outcome = .error d → d.source = source ∧
        ∃ c ∈ preorderAll t.commands, c.Raises d.fault ∧
          d.span.Covers source.toList fun _ piece _ => c.Shows piece) := by
  have hfits : Position.Fits {} source.toList := by rwa [Nat.add_comm] at hlines
  refine ⟨?_, ?_, ?_⟩
  · intro fault h
    exact (blocks_of_tokens (Cursor.standsIn_ofText source) h).covers hfits
  · intro strict d h
    obtain ⟨fault, hc, rfl⟩ := Template.compile_eq_error h
    exact ⟨rfl, covers_of_compile hc hfits⟩
  · intro strict t context d h hr
    obtain ⟨hc, rfl, -⟩ := Template.compile_eq_ok h
    obtain ⟨fault, hm, rfl⟩ := Template.render_eq_error hr
    obtain ⟨c, hmem, hraises⟩ := raises_of_meaningAll hm
    obtain ⟨b, hb, hbc⟩ := exists_bracket hc hmem
    have hmarks := ((Pieces.marked_ofText t.source).2 b hb).raises hbc hraises
    exact ⟨rfl, c, hmem, hraises, hmarks.covers hfits⟩

theorem diagnostic_covers_header :
    let source := "ä\n\x7b\x7bfor\n(xs) |x| \x7d\x7d{{end}}"
    ∃ t d, (Template.compile true source).outcome = .ok t ∧ (t.render ∅).outcome = .error d ∧
      d.span = ⟨5, 12⟩ ∧ d.source = source ∧ ∃ c ∈ preorderAll t.commands, c.Raises d.fault ∧
        d.span.Covers source.toList fun _ piece _ => c.Shows piece := by
  intro source
  let t : Template :=
    ⟨source, [.literal "ä\n", .forEach "xs" "x" none [] ⟨⟨2, 3⟩, ⟨3, 9⟩⟩], true⟩
  have hc : (Template.compile true source).outcome = .ok t := by
    unfold t source
    cbv
  have hr : (t.render ∅).outcome =
      .error ⟨⟨⟨⟨2, 3⟩, ⟨3, 9⟩⟩, .undefined "xs"⟩, source, ⟨5, 12⟩⟩ := by
    unfold t source
    cbv
  have hlines : source.toList.count '\n' + 1 < UInt32.size := by decide
  exact ⟨t, _, hc, hr, rfl, (diagnostic_covers hlines).2.2 _ _ _ _ hc hr⟩

end TextTemplate
