import TextTemplate.Proofs.Template.Layout
import TextTemplate.Proofs.Text.Bytes

namespace TextTemplate

def Braces.text (b : Braces) : String := String.ofList [b.brace, b.brace]

theorem Braces.text_ne_empty (b : Braces) : b.text ≠ "" := by
  cases b <;> decide

theorem byteLength_braces (b : Braces) : byteLength [b.brace, b.brace] = 2 := by
  cases b <;> rfl

theorem Braces.utf8ByteSize_text (b : Braces) : b.text.utf8ByteSize = 2 := by
  rw [text, ← byteLength_eq_utf8ByteSize, byteLength_braces]

theorem literalEnd_eq {text lit : List Char} {o : Option Braces} (h : literalBefore text = (lit, o)) :
    literalEnd text = (byteLength lit, o) := by
  rw [literalEnd, h]

section Search

variable {text : String} {i : Nat} {b : Braces}

theorem Braces.occursAt_text_iff : OccursAt b.text text i ↔
    ∃ front rest, text.toList = front ++ b.brace :: b.brace :: rest ∧ byteLength front = i := by
  rw [occursAt_iff b.text_ne_empty, Braces.text, String.toList_ofList]
  simp only [List.append_assoc, List.cons_append, List.nil_append]

theorem Braces.eq_of_occursAt {b' : Braces} (h : OccursAt b.text text i) (h' : OccursAt b'.text text i) :
    b = b' := by
  cases b with
  | opening =>
    cases b' with
    | opening => rfl
    | closing => exact absurd (h.symm.trans h') (by decide)
  | closing =>
    cases b' with
    | opening => exact absurd (h.symm.trans h') (by decide)
    | closing => rfl

theorem Plain.not_occursAt (h : Plain text.toList) : ¬ OccursAt b.text text i := by
  intro ho
  obtain ⟨front, rest, ht, -⟩ := Braces.occursAt_text_iff.1 ho
  exact h b ⟨front, rest, by rw [ht]; simp⟩

/-- Double braces that began within literal text would end it. -/
theorem not_occursAt_of_lt {lit rest : List Char} {b₀ : Braces} (hplain : Plain lit)
    (hlast : lit.getLast? ≠ some b₀.brace) (ht : text.toList = lit ++ b₀.brace :: b₀.brace :: rest)
    (hi : i < byteLength lit) : ¬ OccursAt b.text text i := by
  intro ho
  obtain ⟨front, rest', ht', rfl⟩ := Braces.occursAt_text_iff.1 ho
  have hfront : front <+: lit :=
    front_of_byteLength_le (ht' ▸ List.prefix_append _ _) (ht ▸ List.prefix_append _ _) (Nat.le_of_lt hi)
  obtain ⟨more, rfl⟩ := hfront
  rw [ht, List.append_assoc] at ht'
  have hmore := List.append_cancel_left ht'
  cases more with
  | nil => simp at hi
  | cons x more =>
    simp only [List.cons_append, List.cons.injEq] at hmore
    obtain ⟨rfl, hmore⟩ := hmore
    cases more with
    | nil =>
      simp only [List.nil_append, List.cons.injEq] at hmore
      rw [List.getLast?_concat, hmore.1] at hlast
      exact hlast rfl
    | cons y more =>
      simp only [List.cons_append, List.cons.injEq] at hmore
      obtain ⟨rfl, -⟩ := hmore
      exact hplain b ⟨front, more, by simp⟩

theorem first_of_literalBefore {lit : List Char} (h : literalBefore text.toList = (lit, some b)) :
    OccursAt b.text text (byteLength lit) ∧
      ∀ j < byteLength lit, ∀ b' : Braces, ¬ OccursAt b'.text text j := by
  obtain ⟨hplain, hlast, rest, ht⟩ := literalBefore_eq_some_iff.1 h
  exact ⟨Braces.occursAt_text_iff.2 ⟨lit, rest, ht, rfl⟩, fun j hj b' => not_occursAt_of_lt hplain hlast ht hj⟩

theorem literalEnd_eq_some_iff : literalEnd text.toList = (i, some b) ↔
    OccursAt b.text text i ∧ ∀ j < i, ∀ b' : Braces, ¬ OccursAt b'.text text j := by
  cases hl : literalBefore text.toList with
  | mk lit o =>
    rw [literalEnd_eq hl]
    constructor
    · rintro ⟨⟩
      exact first_of_literalBefore hl
    · rintro ⟨ho, hfirst⟩
      cases o with
      | none =>
        obtain ⟨hplain, rfl⟩ := literalBefore_eq_none_iff.1 hl
        exact absurd ho hplain.not_occursAt
      | some b₀ =>
        obtain ⟨ho₀, hfirst₀⟩ := first_of_literalBefore hl
        -- neither of the two places stands in front of the other
        have hi : byteLength lit = i := by
          obtain hlt | heq | hgt := Nat.lt_trichotomy (byteLength lit) i
          · exact absurd ho₀ (hfirst _ hlt b₀)
          · exact heq
          · exact absurd ho (hfirst₀ i hgt b)
        subst hi
        rw [Braces.eq_of_occursAt ho ho₀]

theorem literalEnd_eq_none_iff : literalEnd text.toList = (i, none) ↔
    i = text.utf8ByteSize ∧ ∀ j, ∀ b : Braces, ¬ OccursAt b.text text j := by
  cases hl : literalBefore text.toList with
  | mk lit o =>
    rw [literalEnd_eq hl]
    constructor
    · rintro ⟨⟩
      obtain ⟨hplain, ht⟩ := literalBefore_eq_none_iff.1 hl
      rw [← ht] at hplain ⊢
      exact ⟨byteLength_toList text, fun j b => hplain.not_occursAt⟩
    · rintro ⟨rfl, hnone⟩
      cases o with
      | none =>
        obtain ⟨-, ht⟩ := literalBefore_eq_none_iff.1 hl
        rw [← ht, byteLength_toList]
      | some b => exact absurd (first_of_literalBefore hl).1 (hnone _ b)

end Search

namespace Cursor

theorem skipBytes?_append {c : Cursor} {front rest : List Char} (h : c.rest = front ++ rest) :
    c.skipBytes? (byteLength front) = some (c.skip front.length) := by
  rw [skipBytes?, h, frontBytes?_append, Option.map_some]

end Cursor

namespace Pieces

section Cuts

variable {c : Cursor} {lit : List Char} {b : Braces}

theorem exists_append_of_literalBefore {text : List Char} {o : Option Braces}
    (h : literalBefore text = (lit, o)) : ∃ rest, text = lit ++ rest := by
  cases o with
  | none =>
    obtain ⟨-, rfl⟩ := literalBefore_eq_none_iff.1 h
    exact ⟨[], (List.append_nil _).symm⟩
  | some b =>
    obtain ⟨-, -, rest, rfl⟩ := literalBefore_eq_some_iff.1 h
    exact ⟨_, rfl⟩

theorem frontBytes?_literal {text : List Char} {o : Option Braces} (h : literalBefore text = (lit, o)) :
    frontBytes? (byteLength lit) text = some lit := by
  obtain ⟨rest, rfl⟩ := exists_append_of_literalBefore h
  exact frontBytes?_append lit rest

theorem skipBytes?_literal {o : Option Braces} (h : literalBefore c.rest = (lit, o)) :
    c.skipBytes? (byteLength lit) = some (c.skip lit.length) := by
  obtain ⟨rest, hc⟩ := exists_append_of_literalBefore h
  exact Cursor.skipBytes?_append hc

theorem skipBytes?_braces (h : literalBefore c.rest = (lit, some b)) :
    c.skipBytes? (byteLength lit + 2) = some (c.skip (lit.length + 2)) := by
  obtain ⟨-, -, rest, hc⟩ := literalBefore_eq_some_iff.1 h
  have hc' : c.rest = (lit ++ [b.brace, b.brace]) ++ rest := by
    rw [hc, List.append_assoc]
    rfl
  have hs := Cursor.skipBytes?_append hc'
  rwa [byteLength_append, byteLength_braces, List.length_append] at hs

theorem frontBytes?_braces (h : literalBefore c.rest = (lit, some b)) :
    frontBytes? 2 (c.skip lit.length).rest = some ((c.skip lit.length).rest.take 2) := by
  obtain ⟨-, -, rest, hc⟩ := literalBefore_eq_some_iff.1 h
  rw [Cursor.rest_skip_length hc]
  have hf := frontBytes?_append [b.brace, b.brace] rest
  rwa [byteLength_braces] at hf

end Cuts

theorem sliced?_opening {c : Cursor} {lit : List Char} (h : literalBefore c.rest = (lit, some .opening)) :
    sliced? c = match (c.skip (lit.length + 2)).directive with
      | (.error fault, _) => some (withLiteral lit (.broken fault))
      | (.ok o, d) => (sliced? d).map fun ps => withLiteral lit (withDirective o ps) := by
  rw [sliced?, literalEnd_eq h]
  simp only [frontBytes?_literal h, Option.bind_eq_bind, Option.bind_some, Option.pure_def]
  split
  · next hn =>
    rw [skipBytes?_braces h] at hn
    cases hn
  · next d hs =>
    rw [skipBytes?_braces h] at hs
    obtain rfl := Option.some.inj hs
    obtain ⟨outcome, e⟩ := (c.skip (lit.length + 2)).directive
    cases outcome with
    | error fault => rfl
    | ok o => exact (Option.map_eq_bind ..).symm

/-- All cuts can be made, and they give the pieces. -/
theorem sliced?_eq (c : Cursor) : sliced? c = some (ofCursor c) := by
  induction c using ofCursor.induct with
  | case1 c lit hl =>
    rw [sliced?, literalEnd_eq hl, ofCursor_last hl]
    simp only [frontBytes?_literal hl, Option.bind_eq_bind, Option.bind_some, Option.pure_def]
  | case2 c lit hl =>
    rw [sliced?, literalEnd_eq hl, ofCursor_stray hl]
    simp only [frontBytes?_literal hl, skipBytes?_literal hl, frontBytes?_braces hl, Option.bind_eq_bind,
      Option.bind_some, Option.pure_def]
    rfl
  | case3 c lit hl step fault he =>
    have hd : (c.skip (lit.length + 2)).directive = (.error fault, step.2) := Prod.ext he rfl
    rw [sliced?_opening hl, hd, ofCursor_failed hl hd]
  | case4 c lit hl step o he ih =>
    have hd : (c.skip (lit.length + 2)).directive = (.ok o, step.2) := Prod.ext he rfl
    rw [sliced?_opening hl, hd, ofCursor_braced hl hd]
    dsimp only
    rw [ih, Option.map_some]

end Pieces

/-- Literal text ends at the first byte where double braces stand, of whichever kind, or with the text if
there are none. That place and the one behind the braces are between characters, and so are all places at
which a template is cut while it is compiled: cut by bytes it comes apart into the pieces that its
commands are made from. -/
theorem literalEnd_leftmost (text : String) :
    (∀ i b, literalEnd text.toList = (i, some b) ↔
      OccursAt b.text text i ∧ ∀ j < i, ∀ b' : Braces, ¬ OccursAt b'.text text j) ∧
    (∀ i, literalEnd text.toList = (i, none) ↔
      i = text.utf8ByteSize ∧ ∀ j, ∀ b : Braces, ¬ OccursAt b.text text j) ∧
    String.Pos.Raw.IsValid text ⟨(literalEnd text.toList).1⟩ ∧
    (∀ i b, literalEnd text.toList = (i, some b) →
      i + 2 ≤ text.utf8ByteSize ∧ String.Pos.Raw.IsValid text ⟨i + 2⟩) ∧
    ∃ ps, Pieces.sliced? (.ofText text) = some ps ∧
      ∀ strict, compile strict text = Nesting.addAll strict ps {} >>= Nesting.complete strict := by
  refine ⟨fun i b => literalEnd_eq_some_iff, fun i => literalEnd_eq_none_iff, ?_, ?_,
    .ofText text, Pieces.sliced?_eq _, fun strict => rfl⟩
  · obtain ⟨rest, hr⟩ := Pieces.exists_append_of_literalBefore (rfl : literalBefore text.toList = _)
    exact isValid_front ⟨rest, hr.symm⟩
  · intro i b h
    have hv : String.Pos.Raw.IsValid text ⟨i + 2⟩ := by
      have := ((literalEnd_eq_some_iff.1 h).1.isValid b.text_ne_empty).2
      rwa [Braces.utf8ByteSize_text] at this
    exact ⟨hv.le_utf8ByteSize, hv⟩

theorem literalEnd_leftmost_closing :
    let text := "ä\x7b\x7d\x7d\x7b\x7b"
    literalEnd text.toList = (3, some .closing) ∧ OccursAt Braces.closing.text text 3 ∧
      OccursAt Braces.opening.text text 5 ∧ ¬ OccursAt Braces.opening.text text 2 ∧
      String.Pos.Raw.IsValid text ⟨5⟩ := by
  intro text
  obtain ⟨hsome, -, -, hend, -⟩ := literalEnd_leftmost text
  have h : literalEnd text.toList = (3, some .closing) := by decide
  obtain ⟨hocc, hfirst⟩ := (hsome 3 .closing).1 h
  exact ⟨h, hocc, by decide, hfirst 2 (by decide) .opening, (hend 3 .closing h).2⟩

end TextTemplate
