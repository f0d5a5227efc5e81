import TextTemplate.Proofs.Directive.Blame
import TextTemplate.Proofs.Token.Marking

namespace TextTemplate

namespace Directive.Kind

/-- That a piece of text spells a directive, from its first token to its last. -/
def WrittenAs (kind : Directive.Kind) (text : List Char) : Prop :=
  ∃ ks, Spells ks (some kind) ∧ Written ks text

def IsLoop : Directive.Kind → Prop
  | forRange _ _ _ | forList _ _ _ => True
  | field _ | endLoop => False

end Directive.Kind

theorem Written.of_singleton {k : Token.Kind} {text : List Char} (h : Written [k] text) :
    k.WrittenAs text := by
  cases h with
  | last hw => exact hw
  | cons hw hg h => nomatch h

theorem Written.exists_word {ks : List Token.Kind} {text : List Char} (h : Written ks text)
    {k : Token.Kind} (hk : k ∈ ks) : ∃ word, k.WrittenAs word ∧ word <:+: text := by
  induction h with
  | last hw =>
    obtain rfl := List.mem_singleton.1 hk
    exact ⟨_, hw, List.infix_rfl⟩
  | @cons k' ks word gap text hw hg h ih =>
    obtain rfl | hk := List.mem_cons.1 hk
    · exact ⟨word, hw, (List.prefix_append word _).isInfix⟩
    · obtain ⟨word', hw', hi⟩ := ih hk
      have hs : text <:+ word ++ (gap ++ text) :=
        (List.suffix_append gap text).trans (List.suffix_append word _)
      exact ⟨word', hw', hi.trans hs.isInfix⟩

theorem Written.exists_first {k : Token.Kind} {ks : List Token.Kind} {text : List Char}
    (h : Written (k :: ks) text) : ∃ word, k.WrittenAs word ∧ word <+: text := by
  cases h with
  | last hw => exact ⟨text, hw, List.prefix_rfl⟩
  | cons hw hg h => exact ⟨_, hw, List.prefix_append _ _⟩

theorem Written.exists_last {ks : List Token.Kind} {k : Token.Kind} {text : List Char}
    (h : Written (ks ++ [k]) text) : ∃ word, k.WrittenAs word ∧ word <:+ text := by
  induction ks generalizing text with
  | nil => exact ⟨text, h.of_singleton, List.suffix_rfl⟩
  | cons k' ks ih =>
    generalize he : k' :: ks ++ [k] = row at h
    cases h with
    | last hw => simp at he
    | @cons _ _ word gap text hw hg h =>
      obtain ⟨rfl, rfl⟩ := List.cons.inj he
      obtain ⟨word', hw', hs⟩ := ih h
      exact ⟨word', hw', (hs.trans (List.suffix_append gap text)).trans (List.suffix_append word _)⟩

theorem Token.Kind.WrittenAs.eq_text {k : Token.Kind} {word : List Char} (h : k.WrittenAs word)
    (hk : ∀ n, k ≠ .number n) : word = k.text.toList := by
  obtain ⟨zeros, -, rfl, hz⟩ := h
  have h0 : zeros = [] := by
    by_contra hn
    obtain ⟨n, rfl⟩ := hz hn
    exact hk n rfl
  rw [h0, List.nil_append]

namespace Directive.Kind.WrittenAs

theorem eq_field {name : String} {text : List Char} (h : (field name).WrittenAs text) :
    text = name.toList := by
  obtain ⟨ks, hs, hw⟩ := h
  cases hs with
  | field name => exact hw.of_singleton.eq_text nofun
  | @loop s names kind hd hs => cases s <;> cases names <;> cases hs

theorem eq_endLoop {text : List Char} (h : endLoop.WrittenAs text) : text = ['e', 'n', 'd'] := by
  obtain ⟨ks, hs, hw⟩ := h
  cases hs with
  | endLoop => exact hw.of_singleton.eq_text nofun
  | @loop s names kind hd hs => cases s <;> cases names <;> cases hs

theorem eq_forList {list item : String} {further : List String} {text : List Char}
    (h : (forList list item further).WrittenAs text) : ['f', 'o', 'r'] <+: text ∧ ['|'] <:+ text ∧
      list.toList <:+: text ∧ item.toList <:+: text := by
  obtain ⟨ks, hs, hw⟩ := h
  cases hs with
  | @loop s names kind hd hs =>
    cases s with
    | numbers first stop => cases hs
    | list name =>
      cases names with
      | nil => cases hs
      | cons x xs =>
        cases hs
        obtain ⟨a, ha, hfor⟩ := hw.exists_first
        obtain ⟨b, hb, hlist⟩ := hw.exists_word (k := .name list) (by simp [Subject.kinds])
        obtain ⟨c, hc, hitem⟩ := hw.exists_word (k := .name item) (by simp [binderKinds])
        have hrow : .forWord :: .leftParen :: (Subject.list list).kinds ++ .rightParen ::
            binderKinds (item :: further) = (.forWord :: .leftParen :: .name list :: .rightParen ::
              .pipe :: .name item :: further.flatMap fun y => [.comma, .name y]) ++ [.pipe] := rfl
        rw [hrow] at hw
        obtain ⟨d, hd, hpipe⟩ := hw.exists_last
        rw [ha.eq_text (by simp)] at hfor
        rw [hb.eq_text (by simp)] at hlist
        rw [hc.eq_text (by simp)] at hitem
        rw [hd.eq_text (by simp)] at hpipe
        exact ⟨hfor, hpipe, hlist, hitem⟩

end Directive.Kind.WrittenAs

/-- That a run of bytes is that of a piece of a text, of which `P` holds together with what stands in
front of it and what stands behind. -/
def Span.Covers (s : Span) (text : List Char) (P : List Char → List Char → List Char → Prop) : Prop :=
  ∃ front piece rest, text = front ++ piece ++ rest ∧ s = ⟨byteLength front, byteLength piece⟩ ∧
    P front piece rest

theorem Range.Marks.covers {r : Range} {source : List Char}
    {P : List Char → List Char → List Char → Prop} (h : r.Marks source P) (hfits : Position.Fits {} source) :
    (r.spanIn source).Covers source P := by
  obtain ⟨front, text, rest, rfl, hne, rfl, hP⟩ := h
  exact ⟨front, text, rest, rfl, Range.spanIn_behind hne hfits, hP⟩

def IsLast (piece rest : List Char) : Prop := (∃ c, piece = [c]) ∧ rest = []

theorem covers_end {source : List Char} (h : source ≠ []) (hfits : Position.Fits {} source) :
    ((Range.behind source []).spanIn source).Covers source fun _ piece rest => IsLast piece rest := by
  obtain ⟨front, c, rfl⟩ := (List.eq_nil_or_concat source).resolve_left h
  rw [List.concat_eq_append] at hfits ⊢
  exact ⟨front, [c], [], (List.append_nil _).symm, Range.spanIn_end hfits, ⟨c, rfl⟩, rfl⟩

/-- What a fault of reading or compiling marks. A token that is found is all of what is read there. -/
def Cause.Fits (cause : Cause) (front piece rest : List Char) : Prop :=
  match cause with
  | unknownToken _ | loneBrace => cause.Blocks front piece rest
  | badStart k | unexpected _ (some k) | notClosed (some k) =>
    k.WrittenAs piece ∧ Token.read? (piece ++ rest) = some (k, piece.length)
  | unexpected _ none | notClosed none => IsLast piece rest
  | missingItem list => Written [.forWord, .leftParen, .name list, .rightParen] piece
  | strayClose => piece = ['}', '}']
  | strayEnd => piece = ['e', 'n', 'd']
  | unclosedLoop => ∃ kind : Directive.Kind, kind.IsLoop ∧ kind.WrittenAs piece
  | undefined _ | noText _ _ | notSequence _ _ => False

theorem Cause.fits_of_blocks {cause : Cause} {front piece rest : List Char}
    (h : cause.Blocks front piece rest) : cause.Fits front piece rest := by
  cases cause with
  | unknownToken shown => exact h
  | loneBrace => exact h
  | _ => exact h.elim

theorem Blame.covers {front : List Token} {range : Range} {found : Option Token.Kind} {fault : Fault}
    {source : List Char} (h : Blame front range found fault) (hfits : Position.Fits {} source)
    (hfound : ∀ k, found = some k → range.Marks source fun _ piece rest =>
      k.WrittenAs piece ∧ Token.read? (piece ++ rest) = some (k, piece.length))
    (hend : found = none → (range.spanIn source).Covers source fun _ piece rest => IsLast piece rest)
    (hreach : ∀ r, Tokens.reach front = some r →
      r.Marks source fun _ piece _ => Written (front.map Token.kind) piece) :
    (fault.range.spanIn source).Covers source fault.cause.Fits := by
  cases h with
  | badStart hf hk => exact (hfound _ hk).covers hfits
  | noStart hf hk => exact hend hk
  | missingItem hf hr =>
    have hm := (hreach _ hr).covers hfits
    rw [hf] at hm
    exact hm
  | notClosed hf | unexpected he =>
    cases found with
    | some k => exact (hfound k rfl).covers hfits
    | none => exact hend rfl

namespace Cursor

variable {source front : List Char} {c d : Cursor}

/-- A directive that is rejected is so for something in the source. -/
theorem StandsIn.rejects (h : c.StandsIn source front) (hne : source ≠ [])
    (hfits : Position.Fits {} source) {fault : Fault} (hr : c.Rejects fault) :
    (fault.range.spanIn source).Covers source fault.cause.Fits := by
  obtain ⟨toks, e, hg, -, hstop⟩ := hr
  obtain ⟨front', he⟩ := h.gives hg
  have hreach := fun r => h.reach (r := r) hg
  cases hn : e.next with
  | mk outcome last =>
    rw [hn] at hstop
    match outcome with
    | .error lexical =>
      obtain rfl : fault = lexical := hstop
      exact ((he.next_error hn).imp fun _ _ _ => Cause.fits_of_blocks).covers hfits
    | .ok none =>
      have hb : Blame toks (last.ahead 0) none fault := (hstop fault).2 rfl
      refine hb.covers hfits (by nofun) (fun _ => ?_) hreach
      rw [he.next_none hn]
      exact covers_end hne hfits
    | .ok (some t) =>
      have hb : Blame toks t.range (some t.kind) fault := (hstop.2 fault).2 rfl
      refine hb.covers hfits ?_ (by nofun) hreach
      rintro k ⟨rfl⟩
      obtain ⟨gap, word, hd, hrange, hw, hread⟩ := he.next hn
      have hne' : word ≠ [] := by
        have := Token.read?_pos hread
        rwa [← List.length_pos_iff]
      exact ⟨front' ++ gap, word, last.rest, hd.text, hne', hrange, hw, hread⟩

/-- The range of a directive marks the text that it is spelled by, and reading goes on behind it. -/
theorem StandsIn.directive (h : c.StandsIn source front) {o : Option Directive}
    (hd : c.directive = (.ok o, d)) : (∃ front, d.StandsIn source front) ∧
      ∀ a, o = some a → a.range.Marks source fun _ piece _ => a.kind.WrittenAs piece := by
  obtain ⟨row, t, hg, -, hs, hr⟩ := directive_eq_ok.1 hd
  refine ⟨h.gives hg, ?_⟩
  rintro a rfl
  obtain ⟨e, hrow, -⟩ := gives_append_iff.1 hg
  exact (h.reach hrow hr.symm).imp fun _ _ _ hw => ⟨_, hs, hw⟩

end Cursor

end TextTemplate
