import TextTemplate.Proofs.Directive.Blame

namespace TextTemplate

def Token.mapRange (f : Range → Range) (t : Token) : Token := ⟨t.kind, f t.range⟩

def Directive.mapRange (f : Range → Range) (d : Directive) : Directive := ⟨d.kind, f d.range⟩

/-- Ranges that are told from one text at one place join as they do where they are not told. -/
theorem reach_told (toks : List Token) (origin : Position) (text : List Char) :
    Tokens.reach (toks.map (Token.mapRange (.told origin text))) =
      (Tokens.reach toks).map (.told origin text) := by
  rw [Tokens.reach, Tokens.reach, List.head?_map, List.getLast?_map]
  cases toks.head? <;> cases toks.getLast? <;> rfl

theorem Token.read?_append {word rest : List Char} {k : Token.Kind}
    (h : Token.read? (word ++ rest) = some (k, word.length)) (hb : k = .close ∨ '}' ∈ rest)
    (more : List Char) : Token.read? (word ++ (rest ++ more)) = some (k, word.length) := by
  obtain ⟨rfl, hn, rest', hr⟩ | ⟨hk, -, hw⟩ := Token.read?_eq_some h
  · obtain ⟨a, b, rfl⟩ := List.length_eq_two.1 hn
    simp only [List.cons_append, List.nil_append, List.cons.injEq] at hr
    obtain ⟨rfl, rfl, -⟩ := hr
    rfl
  · rw [List.take_left] at hw
    obtain ⟨v, x, rfl, hv⟩ := List.eq_append_cons_of_mem (hb.resolve_left hk)
    have hne : word ++ v ≠ [] := by
      have := Token.read?_pos h
      rw [ne_eq, ← List.length_eq_zero_iff, List.length_append]
      omega
    have hbrace : '}' ∉ word ++ v := List.not_mem_append hw hv
    rw [List.append_assoc, List.cons_append, ← List.append_assoc,
      Token.read?_append_brace hne hbrace]
    rwa [← List.append_assoc, Token.read?_append_brace hne hbrace] at h

namespace Cursor

/-- That what is left of `source` at a cursor `c` comes next at `c'` too, and then `more`, and that
`source` begins at `origin` in the text of `c'`. -/
structure Echoes (source : List Char) (origin : Position) (more : List Char) (c c' : Cursor) : Prop where
  rest : c'.rest = c.rest ++ more
  passed : ∃ front, source = front ++ c.rest ∧ c.position = .advance {} front ∧
    c'.position = origin.advance front

theorem Gives.brace_mem {c d : Cursor} {toks : List Token} {t : Token} (h : c.Gives (toks ++ [t]) d)
    (ht : t.kind = .close) : '}' ∈ c.rest := by
  induction toks generalizing c with
  | nil =>
    cases h with
    | cons hn hr =>
      obtain ⟨gap, word, hc, -, -, hread, -, -⟩ := eq_of_next hn
      rw [ht] at hread
      obtain ⟨-, -, rest, hw⟩ | ⟨hk, -⟩ := Token.read?_eq_some hread
      · simp [hc, hw]
      · exact absurd rfl hk
  | cons t' toks ih =>
    cases h with
    | cons hn hr =>
      obtain ⟨gap, word, hc, -⟩ := eq_of_next hn
      simp [hc, ih hr]

variable {source more : List Char} {origin : Position} {c c' d : Cursor}

theorem Echoes.skip (h : c.Echoes source origin more c') {n : Nat} (hn : n ≤ c.rest.length) :
    (c.skip n).Echoes source origin more (c'.skip n) := by
  obtain ⟨front, hs, hp, hp'⟩ := h.passed
  have ht : c'.rest.take n = c.rest.take n := by
    rw [h.rest, List.take_append_of_le_length hn]
  refine ⟨?_, front ++ c.rest.take n, ?_, ?_, ?_⟩
  · rw [rest_skip, rest_skip, h.rest, List.drop_append_of_le_length hn]
  · rw [rest_skip, List.append_assoc, List.take_append_drop]
    exact hs
  · rw [Position.advance_append, ← hp]
    rfl
  · rw [Position.advance_append, ← hp', ← ht]
    rfl

theorem Echoes.next (h : c.Echoes source origin more c') {t : Token} (hn : c.next = (.ok (some t), d))
    (hb : t.kind = .close ∨ '}' ∈ d.rest) :
    ∃ (u : Token) (d' : Cursor), t = u.mapRange (.told {} source) ∧
      c'.next = (.ok (some (u.mapRange (.told origin source))), d') ∧ d.Echoes source origin more d' := by
  obtain ⟨gap, word, hc, hg, -, hread, hrange, hd⟩ := eq_of_next hn
  obtain ⟨front, hs, hp, hp'⟩ := h.passed
  have hc' : c'.rest = gap ++ (word ++ (d.rest ++ more)) := by
    rw [h.rest, hc]
    simp
  obtain ⟨d', hn', hr', hd'⟩ := exists_next hc' hg (Token.read?_append hread hb more)
  have hfront : source.take (front ++ gap).length = front ++ gap := by
    rw [hs, hc, ← List.append_assoc, List.take_left]
  have hall : source = front ++ (gap ++ word) ++ d.rest := by
    rw [hs, hc]
    simp
  have hword : source.take (front ++ (gap ++ word)).length = front ++ (gap ++ word) := by
    rw [hall, List.take_left]
  let u : Token := ⟨t.kind, ⟨⟨0, (front ++ gap).length⟩, ⟨0, (front ++ (gap ++ word)).length⟩⟩⟩
  have told (p : Position) : Range.told p source u.range =
      ⟨(p.advance front).advance gap, (p.advance front).advance (gap ++ word)⟩ := by
    rw [Range.told, hfront, hword, Position.advance_append, Position.advance_append p front]
  refine ⟨u, d', ?_, ?_, hr', front ++ (gap ++ word), hall, ?_, ?_⟩
  · rw [Token.mapRange, told, ← hp, ← hrange]
  · rw [hn', Token.mapRange, told, hp']
  · rw [hd, hp, ← Position.advance_append]
  · rw [hd', hp', ← Position.advance_append]

theorem Echoes.gives (h : c.Echoes source origin more c') {toks : List Token} {t : Token}
    (hg : c.Gives (toks ++ [t]) d) (ht : t.kind = .close) :
    ∃ (us : List Token) (d' : Cursor), toks ++ [t] = us.map (Token.mapRange (.told {} source)) ∧
      c'.Gives (us.map (Token.mapRange (.told origin source))) d' ∧ d.Echoes source origin more d' := by
  induction toks generalizing c c' with
  | nil =>
    cases hg with
    | cons hn hr =>
      cases hr
      obtain ⟨u, d', hu, hn', hd⟩ := h.next hn (.inl ht)
      exact ⟨[u], d', congrArg (· :: []) hu, .cons hn' (.nil d'), hd⟩
  | cons t' toks ih =>
    cases hg with
    | cons hn hr =>
      obtain ⟨u, e', hu, hn', he⟩ := h.next hn (.inr (hr.brace_mem ht))
      obtain ⟨us, d', hus, hr', hd⟩ := ih he hr
      refine ⟨u :: us, d', ?_, .cons hn' hr', hd⟩
      rw [List.map_cons, ← hu, ← hus, List.cons_append]

/-- A directive is parsed again where its text stands again. -/
theorem Echoes.directive (h : c.Echoes source origin more c') {o : Option Directive}
    (hd : c.directive = (.ok o, d)) :
    ∃ (a : Option Directive) (d' : Cursor), o = a.map (Directive.mapRange (.told {} source)) ∧
      c'.directive = (.ok (a.map (Directive.mapRange (.told origin source))), d') ∧
      d.Echoes source origin more d' := by
  obtain ⟨row, t, hg, ht, hs, hr⟩ := directive_eq_ok.1 hd
  obtain ⟨us, d', hus, hg', he⟩ := h.gives hg ht
  obtain ⟨us, last, rfl, rfl, hlast⟩ := List.map_eq_append_iff.1 hus.symm
  obtain ⟨u, rfl, rfl⟩ := List.map_eq_singleton_iff.1 hlast
  rw [List.map_append, List.map_singleton] at hg'
  rw [reach_told] at hr
  have hs' : Spells ((us.map (Token.mapRange (.told origin source))).map Token.kind)
      (o.map Directive.kind) := by
    rw [List.map_map] at hs ⊢
    exact hs
  cases o with
  | none =>
    refine ⟨none, d', rfl, directive_eq_ok.2 ⟨_, _, hg', ht, hs', ?_⟩, he⟩
    rw [reach_told, Option.map_eq_none_iff.1 hr.symm]
    rfl
  | some a =>
    obtain ⟨kind, range⟩ := a
    obtain ⟨r, hreach, rfl⟩ := Option.map_eq_some_iff.1 hr.symm
    refine ⟨some ⟨kind, r⟩, d', rfl, directive_eq_ok.2 ⟨_, _, hg', ht, hs', ?_⟩, he⟩
    rw [reach_told, hreach]
    rfl

end Cursor

end TextTemplate
