import TextTemplate.Proofs.Token.Marking

namespace TextTemplate

def Tokens.whole : Tokens → Except Fault (List Token)
  | done _ => .ok []
  | broken _ fault => .error fault
  | more _ t rest => rest.whole.map (t :: ·)

def lex (text : String) : Except Fault (List Token) := (Tokens.ofCursor (.ofText text)).whole

/-- Tokens as text: the blanks in front of the first one, and each token with the blanks behind it. -/
def rowText (front : List Char) (row : List (Token.Kind × List Char)) : List Char :=
  front ++ row.flatMap fun (k, gap) => k.text.toList ++ gap

/-- That the tokens of a row are parted by blanks. There may be none in front of the first token and
behind the last one. -/
structure Parted (front : List Char) (row : List (Token.Kind × List Char)) : Prop where
  front : Blank front
  blank : ∀ p ∈ row, Blank p.2
  apart : ∀ p ∈ row.dropLast, p.2 ≠ []

theorem rowText_cons (front gap : List Char) (k : Token.Kind) (row : List (Token.Kind × List Char)) :
    rowText front ((k, gap) :: row) = front ++ (k.text.toList ++ rowText gap row) := by
  simp only [rowText, List.flatMap_cons, List.append_assoc]

namespace Parted

variable {front gap : List Char} {k : Token.Kind} {row : List (Token.Kind × List Char)}

theorem tail (h : Parted front ((k, gap) :: row)) : Parted gap row where
  front := h.blank (k, gap) List.mem_cons_self
  blank p hp := h.blank p (List.mem_cons_of_mem _ hp)
  apart p hp := by
    cases row with
    | nil => cases hp
    | cons q row => exact h.apart p (List.mem_cons_of_mem _ hp)

theorem nameLength_eq_zero (h : Parted front ((k, gap) :: row)) : nameLength (rowText gap row) = 0 := by
  cases gap with
  | cons c gap => exact nameLength_of_blank (h.tail.front c List.mem_cons_self) _
  | nil =>
    cases row with
    | nil => rfl
    | cons q row => exact absurd rfl (h.apart (k, []) List.mem_cons_self)

theorem lexes (h : Parted front row) (hv : ∀ p ∈ row, p.1.Valid) :
    Lexes (row.map Prod.fst) (rowText front row) := by
  induction row generalizing front with
  | nil =>
    have hf : rowText front [] = front := List.append_nil front
    rw [hf]
    exact .nil h.front
  | cons p row ih =>
    obtain ⟨k, gap⟩ := p
    obtain ⟨hk, hrow⟩ := List.forall_mem_cons.1 hv
    rw [rowText_cons]
    exact .cons h.front (Token.read?_text hk fun _ => h.nameLength_eq_zero) (ih h.tail hrow)

end Parted

namespace Cursor

variable {source front : List Char} {c d : Cursor} {toks : List Token}

theorem next_of_blank (h : Blank c.rest) : c.next.1 = .ok none := by
  have hr : c.skipBlanks.rest = [] := by
    have hd : (c.rest ++ []).dropWhile isBlank = [] := dropWhile_blank_append h nofun
    rwa [List.append_nil, ← rest_skipBlanks] at hd
  simp only [next, if_pos hr]

theorem exists_gives_of_lexes {ks : List Token.Kind} (h : Lexes ks c.rest) :
    ∃ toks d, c.Gives toks d ∧ toks.map Token.kind = ks ∧ d.next.1 = .ok none := by
  generalize hc : c.rest = text at h
  induction h generalizing c with
  | nil hg => exact ⟨[], c, .nil c, rfl, next_of_blank (hc ▸ hg)⟩
  | @cons gap word text k ks hg hr h ih =>
    obtain ⟨d, hn, hd, -⟩ := exists_next hc hg hr
    obtain ⟨toks, e, hgives, hk, he⟩ := ih hd
    exact ⟨_, e, .cons hn hgives, congrArg (k :: ·) hk, he⟩

theorem whole_eq_ok_iff :
    (Tokens.ofCursor c).whole = .ok toks ↔ ∃ d, c.Gives toks d ∧ d.next.1 = .ok none := by
  constructor
  · intro h
    induction c using Tokens.ofCursor.induct generalizing toks with
    | case1 c d hn =>
      rw [Tokens.ofCursor_done hn] at h
      cases h
      exact ⟨c, .nil c, congrArg Prod.fst hn⟩
    | case2 c fault d hn =>
      rw [Tokens.ofCursor_broken hn] at h
      cases h
    | case3 c t d hn ih =>
      rw [Tokens.ofCursor_more hn, Tokens.whole] at h
      cases ha : (Tokens.ofCursor d).whole with
      | error fault =>
        rw [ha] at h
        cases h
      | ok rest =>
        rw [ha] at h
        cases h
        obtain ⟨e, hg, he⟩ := ih ha
        exact ⟨e, .cons hn hg, he⟩
  · rintro ⟨d, hg, hd⟩
    induction hg with
    | nil c =>
      rw [Tokens.ofCursor_done (Prod.ext hd rfl)]
      rfl
    | cons hn hr ih =>
      rw [Tokens.ofCursor_more hn, Tokens.whole, ih hd]
      rfl

theorem StandsIn.marks (h : c.StandsIn source front) (hg : c.Gives toks d) :
    ∀ t ∈ toks, t.range.Marks source fun _ word _ => t.kind.WrittenAs word := by
  induction hg generalizing front with
  | nil c => exact List.forall_mem_nil _
  | @cons c d e t toks hn hr ih =>
    obtain ⟨gap, word, hd, hrange, hw, hread⟩ := h.next hn
    have hne : word ≠ [] := List.length_pos_iff.1 (Token.read?_pos hread)
    exact List.forall_mem_cons.2 ⟨⟨front ++ gap, word, d.rest, hd.text, hne, hrange, hw⟩, ih hd⟩

end Cursor

theorem Parted.exists_lex {front : List Char} {row : List (Token.Kind × List Char)}
    (h : Parted front row) (hv : ∀ p ∈ row, p.1.Valid) :
    ∃ toks, lex (String.ofList (rowText front row)) = .ok toks ∧
      toks.map Token.kind = row.map Prod.fst := by
  have hl : Lexes (row.map Prod.fst) (Cursor.ofText (String.ofList (rowText front row))).rest := by
    rw [Cursor.ofText, String.toList_ofList]
    exact h.lexes hv
  obtain ⟨toks, d, hg, hk, hd⟩ := Cursor.exists_gives_of_lexes hl
  exact ⟨toks, Cursor.whole_eq_ok_iff.2 ⟨d, hg, hd⟩, hk⟩

/-- Reading undoes printing, whatever blanks part the tokens. Where a text can be read to its end, each
token is the word that it has been read from, less the zeros in front of a number, and all of them are
read again when they have been printed. -/
theorem lex_undoes_printing :
    (∀ front row, Parted front row → (∀ p ∈ row, p.1.Valid) →
      ∃ toks, lex (String.ofList (rowText front row)) = .ok toks ∧
        toks.map Token.kind = row.map Prod.fst) ∧
    ∀ text toks, lex text = .ok toks →
      (∀ t ∈ toks, t.range.Marks text.toList fun _ word _ => t.kind.WrittenAs word) ∧
      ∀ front row, Parted front row → row.map Prod.fst = toks.map Token.kind →
        ∃ toks', lex (String.ofList (rowText front row)) = .ok toks' ∧
          toks'.map Token.kind = toks.map Token.kind := by
  refine ⟨fun front row h hv => h.exists_lex hv, fun text toks h => ?_⟩
  obtain ⟨d, hg, -⟩ := Cursor.whole_eq_ok_iff.1 h
  refine ⟨(Cursor.standsIn_ofText text).marks hg, fun front row hp hk => ?_⟩
  have hv : ∀ p ∈ row, p.1.Valid := by
    intro p hm
    have hm : p.1 ∈ toks.map Token.kind := hk ▸ List.mem_map_of_mem hm
    obtain ⟨t, ht, he⟩ := List.mem_map.1 hm
    exact he ▸ hg.valid t ht
  rw [← hk]
  exact hp.exists_lex hv

theorem lex_undoes_printing_adjacent :
    let text := "007a..b.0\x7d\x7dend"
    let toks : List Token := [⟨.number 7, ⟨⟨1, 1⟩, ⟨1, 4⟩⟩⟩, ⟨.name "a", ⟨⟨1, 4⟩, ⟨1, 5⟩⟩⟩,
      ⟨.dots, ⟨⟨1, 5⟩, ⟨1, 7⟩⟩⟩, ⟨.name "b.0", ⟨⟨1, 7⟩, ⟨1, 10⟩⟩⟩, ⟨.close, ⟨⟨1, 10⟩, ⟨1, 12⟩⟩⟩,
      ⟨.endWord, ⟨⟨1, 12⟩, ⟨1, 15⟩⟩⟩]
    lex text = .ok toks ∧
      (∀ t ∈ toks, t.range.Marks text.toList fun _ word _ => t.kind.WrittenAs word) ∧
      ∃ toks', lex "\n7 a .. b.0\t\r\x7d\x7d end" = .ok toks' ∧
        toks'.map Token.kind = toks.map Token.kind := by
  intro text toks
  have h : lex text = .ok toks := by
    unfold text toks
    cbv
  let row : List (Token.Kind × List Char) := [(.number 7, [' ']), (.name "a", [' ']), (.dots, [' ']),
    (.name "b.0", ['\t', '\r']), (.close, [' ']), (.endWord, [])]
  have hp : Parted ['\n'] row := by
    refine ⟨?_, ?_, ?_⟩ <;> simp [Blank, isBlank, row]
  obtain ⟨hm, hagain⟩ := lex_undoes_printing.2 text toks h
  exact ⟨h, hm, hagain ['\n'] row hp rfl⟩

end TextTemplate
