import TextTemplate.Proofs.Text.Cut
import TextTemplate.Proofs.Token.Name
import TextTemplate.Token.Stream

namespace TextTemplate

def Blank (text : List Char) : Prop := ∀ c ∈ text, isBlank c

theorem brace_not_mem_blank {text : List Char} (h : Blank text) : '}' ∉ text :=
  fun hb => absurd (h _ hb) (by decide)

theorem takeWhile_append_cons {p : Char → Bool} {c : Char} (hc : p c = false) (u x : List Char) :
    (u ++ c :: x).takeWhile p = u.takeWhile p := by
  rw [List.takeWhile_append]
  split
  · next h =>
    rw [List.takeWhile_cons_of_neg (by simp [hc]), List.append_nil]
    exact ((List.takeWhile_prefix p).eq_of_length h).symm
  · rfl

theorem dropWhile_blank_append {gap text : List Char} (hg : Blank gap)
    (ht : ∀ c ∈ text.head?, isBlank c = false) : (gap ++ text).dropWhile isBlank = text := by
  rw [List.dropWhile_append_of_pos hg]
  cases text with
  | nil => rfl
  | cons c text => exact List.dropWhile_cons_of_neg (by simp [ht c rfl])

theorem blank_takeWhile (text : List Char) : Blank (text.takeWhile isBlank) :=
  fun _ hc => List.mem_takeWhile_imp hc

namespace Token

theorem read?_blank {c : Char} (h : isBlank c) (text : List Char) : read? (c :: text) = none := by
  simp only [isBlank, Bool.or_eq_true, decide_eq_true_eq] at h
  obtain (((rfl | rfl) | rfl) | rfl) | rfl := h <;> rfl

theorem not_blank_of_read? {text : List Char} {k : Kind} {n : Nat} (h : read? text = some (k, n)) :
    ∀ c ∈ text.head?, isBlank c = false := by
  intro c hc
  by_contra hb
  obtain ⟨rest, rfl⟩ := List.head?_eq_some_iff.1 hc
  rw [read?_blank (by simpa using hb)] at h
  cases h

theorem number?_append_brace (u x : List Char) : number? (u ++ '}' :: x) = number? u := by
  rw [number?, number?, takeWhile_append_cons rfl]

theorem name?_append_brace {u : List Char} (hu : u ≠ []) (x : List Char) :
    name? (u ++ '}' :: x) = name? u := by
  obtain ⟨c, u, rfl⟩ := List.exists_cons_of_ne_nil hu
  have ht : (u ++ '}' :: x).take (nameLength u) = u.take (nameLength u) :=
    List.take_append_of_le_length (nameLength_le u)
  simp only [List.cons_append, name?, nameLength_append_brace, ht]

theorem read?_append_brace {u : List Char} (hu : u ≠ []) (hb : '}' ∉ u) (x : List Char) :
    read? (u ++ '}' :: x) = read? u := by
  conv => rhs; unfold read?
  split
  case h_7 h₁ h₂ h₃ h₄ h₅ h₆ =>
    rw [read?, number?_append_brace, name?_append_brace hu]
    all_goals
      intro rest he
      obtain ⟨c, u, rfl⟩ := List.exists_cons_of_ne_nil hu
      simp at he
    · exact h₁ u (by rw [he.1])
    · exact h₂ u (by rw [he.1])
    · exact h₃ u (by rw [he.1])
    · exact h₄ u (by rw [he.1])
    · cases u with
      | nil => simp at he
      | cons d u =>
        simp only [List.cons_append, List.cons.injEq] at he
        exact h₅ u (by rw [he.1, he.2.1])
    · simp [he.1] at hb
  all_goals simp_all [read?]

theorem number?_eq_some {text : List Char} {k : Kind} {n : Nat} (h : number? text = some (k, n)) :
    (∃ v, k = .number v) ∧ n ≤ text.length ∧ ∀ c ∈ text.take n, c.isDigit := by
  have hp : text.takeWhile Char.isDigit <+: text := List.takeWhile_prefix _
  simp only [number?] at h
  split at h
  · cases h
    refine ⟨⟨_, rfl⟩, hp.length_le, ?_⟩
    rw [← List.prefix_iff_eq_take.1 hp]
    exact fun c hc => List.mem_takeWhile_imp hc
  · cases h

theorem ofName_ne_close (text : List Char) : Kind.ofName text ≠ .close := by
  unfold Kind.ofName
  split
  · nofun
  · split <;> nofun

theorem name?_eq_some {text : List Char} {k : Kind} {n : Nat} (h : name? text = some (k, n)) :
    k ≠ .close ∧ n ≤ text.length ∧ ∀ c ∈ text.take n, isNameChar c ∨ c = '.' := by
  cases text with
  | nil => cases h
  | cons c text =>
    simp only [name?] at h
    split at h
    · next hc =>
      cases h
      refine ⟨ofName_ne_close _, Nat.succ_le_succ (nameLength_le text), ?_⟩
      intro d hd
      rw [List.take_succ_cons, List.mem_cons] at hd
      obtain rfl | hd := hd
      · exact .inl (isNameChar_of_isNameStart hc)
      · exact mem_take_nameLength hd
    · cases h

theorem read?_eq_some {text : List Char} {k : Kind} {n : Nat} (h : read? text = some (k, n)) :
    (k = .close ∧ n = 2 ∧ ∃ rest, text = '}' :: '}' :: rest) ∨
      k ≠ .close ∧ n ≤ text.length ∧ '}' ∉ text.take n := by
  unfold read? at h
  split at h
  case h_7 =>
    right
    obtain h | ⟨-, h⟩ := Option.or_eq_some_iff.1 h
    · obtain ⟨⟨v, rfl⟩, hn, hd⟩ := number?_eq_some h
      exact ⟨nofun, hn, fun hb => absurd (hd _ hb) (by decide)⟩
    · obtain ⟨hk, hn, hd⟩ := name?_eq_some h
      exact ⟨hk, hn, fun hb => absurd (hd _ hb) (by decide)⟩
  case h_6 rest =>
    cases h
    exact .inl ⟨rfl, rfl, rest, rfl⟩
  all_goals
    cases h
    exact .inr ⟨nofun, by simp, by simp⟩

end Token

/-- That a text is read as a row of tokens, each of them as long as it can be. -/
inductive Lexes : List Token.Kind → List Char → Prop
  | nil {gap} (hg : Blank gap) : Lexes [] gap
  | cons {gap word text k ks} (hg : Blank gap) (hr : Token.read? (word ++ text) = some (k, word.length))
    (h : Lexes ks text) : Lexes (k :: ks) (gap ++ (word ++ text))

theorem Lexes.brace_not_mem {ks : List Token.Kind} {text : List Char} (h : Lexes ks text)
    (hk : .close ∉ ks) : '}' ∉ text := by
  induction h with
  | nil hg => exact brace_not_mem_blank hg
  | @cons gap word text k ks hg hr h ih =>
    obtain ⟨hne, hks⟩ := List.ne_and_not_mem_of_not_mem_cons hk
    obtain ⟨rfl, -⟩ | ⟨-, -, hw⟩ := Token.read?_eq_some hr
    · exact absurd rfl hne
    · rw [List.take_left] at hw
      exact List.not_mem_append (brace_not_mem_blank hg) (List.not_mem_append hw (ih hks))

namespace Tokens

/-- That a stream begins with some tokens and goes on with another stream. -/
inductive Reads : List Token → Tokens → Tokens → Prop
  | nil (ts) : Reads [] ts ts
  | cons (c t) {toks ts ts'} (h : Reads toks ts ts') : Reads (t :: toks) (.more c t ts) ts'

def reach (toks : List Token) : Option Range :=
  toks.head?.bind fun t => toks.getLast?.map fun u => t.range.upTo u.range

theorem here_ofCursor (c : Cursor) : (ofCursor c).here = c := by
  rw [ofCursor]
  split <;> rfl

theorem Reads.append {toks toks' : List Token} {ts ts' ts'' : Tokens} (h : Reads toks ts ts')
    (h' : Reads toks' ts' ts'') : Reads (toks ++ toks') ts ts'' := by
  induction h with
  | nil ts => exact h'
  | cons c t h ih => exact .cons c t (ih h')

end Tokens

namespace Cursor

theorem rest_skipBlanks (c : Cursor) : c.skipBlanks.rest = c.rest.dropWhile isBlank := by
  calc c.skipBlanks.rest
      = (c.rest.takeWhile isBlank ++ c.rest.dropWhile isBlank).drop
          (c.rest.takeWhile isBlank).length := by
        rw [List.takeWhile_append_dropWhile]
        rfl
    _ = c.rest.dropWhile isBlank := List.drop_left

theorem next_of_read? {c : Cursor} {k : Token.Kind} {n : Nat}
    (h : Token.read? (c.rest.dropWhile isBlank) = some (k, n)) :
    c.next = (.ok (some ⟨k, c.skipBlanks.ahead n⟩), c.skipBlanks.skip n) := by
  rw [← rest_skipBlanks] at h
  have hn : c.skipBlanks.rest ≠ [] := by
    intro he
    rw [he] at h
    cases h
  simp only [next, if_neg hn, h]

theorem read?_of_next {c d : Cursor} {t : Token} (h : c.next = (.ok (some t), d)) :
    ∃ n, Token.read? (c.rest.dropWhile isBlank) = some (t.kind, n) ∧
      d.rest = (c.rest.dropWhile isBlank).drop n := by
  rw [← rest_skipBlanks]
  simp only [next] at h
  split at h
  · cases h
  · split at h
    · next k n hr =>
      cases h
      exact ⟨n, hr, rfl⟩
    · cases h

end Cursor

namespace Tokens

/-- Text that is read as tokens in front of a closing brace gives these tokens, wherever it stands. -/
theorem reads_of_lexes {ks : List Token.Kind} {u : List Char} (h : Lexes ks u) (hb : '}' ∉ u)
    {c : Cursor} {r : List Char} (hc : c.rest = u ++ '}' :: '}' :: r) :
    ∃ toks t d, toks.map Token.kind = ks ∧ t.kind = .close ∧
      Reads (toks ++ [t]) (ofCursor c) (ofCursor d) ∧ d.rest = r := by
  -- No token of the text has a brace, so each of them ends in front of the closing braces.
  induction h generalizing c with
  | nil hg =>
    have hd : c.rest.dropWhile isBlank = '}' :: '}' :: r := by
      rw [hc]
      exact dropWhile_blank_append hg (by simp [isBlank])
    have hn := Cursor.next_of_read? (c := c) (k := .close) (n := 2) (by rw [hd]; rfl)
    refine ⟨[], ⟨.close, c.skipBlanks.ahead 2⟩, c.skipBlanks.skip 2, rfl, rfl, ?_, ?_⟩
    · rw [ofCursor_more hn]
      exact .cons _ _ (.nil _)
    · rw [Cursor.rest_skip, Cursor.rest_skipBlanks, hd]
      rfl
  | @cons gap word text k ks hg hr h ih =>
    have hb' : '}' ∉ word ++ text := fun hm => hb (List.mem_append_right gap hm)
    have hd : c.rest.dropWhile isBlank = word ++ text ++ '}' :: '}' :: r := by
      rw [hc, List.append_assoc]
      refine dropWhile_blank_append hg fun d hd => ?_
      by_contra hdb
      cases hw : word ++ text with
      | nil =>
        rw [hw] at hr
        cases hr
      | cons e rest =>
        rw [hw] at hd hr
        obtain rfl := Option.some.inj hd
        rw [Token.read?_blank (by simpa using hdb)] at hr
        cases hr
    have hne : word ++ text ≠ [] := by
      intro he
      rw [he] at hr
      cases hr
    have hn := Cursor.next_of_read? (c := c) (k := k) (n := word.length)
      (by rw [hd, Token.read?_append_brace hne hb', hr])
    obtain ⟨toks, t, d, hks, ht, hreads, hrest⟩ := ih (fun hm => hb' (List.mem_append_right word hm))
      (c := c.skipBlanks.skip word.length) (by
        rw [Cursor.rest_skip, Cursor.rest_skipBlanks, hd, List.append_assoc, List.drop_left])
    refine ⟨⟨k, c.skipBlanks.ahead word.length⟩ :: toks, t, d, ?_, ht, ?_, hrest⟩
    · rw [List.map_cons, hks]
    · rw [ofCursor_more hn]
      exact .cons _ _ hreads

theorem reads_ofCursor_cons {toks : List Token} {t : Token} {c : Cursor} {ts : Tokens}
    (h : Reads (t :: toks) (ofCursor c) ts) :
    ∃ gap text n, c.rest = gap ++ text ∧ Blank gap ∧ Token.read? text = some (t.kind, n) ∧
      ∃ d : Cursor, d.rest = text.drop n ∧ Reads toks (ofCursor d) ts := by
  cases hn : c.next with
  | mk outcome d =>
    match outcome with
    | .error fault =>
      rw [ofCursor_broken hn] at h
      cases h
    | .ok none =>
      rw [ofCursor_done hn] at h
      cases h
    | .ok (some t') =>
      rw [ofCursor_more hn] at h
      cases h with
      | cons c t h =>
        obtain ⟨n, hr, hd⟩ := Cursor.read?_of_next hn
        exact ⟨_, _, n, List.takeWhile_append_dropWhile.symm, blank_takeWhile c.rest, hr, d, hd, h⟩

/-- The tokens of a directive stand in front of the first closing brace. -/
theorem lexes_of_reads {toks : List Token} {t : Token} {c : Cursor} {ts : Tokens}
    (h : Reads (toks ++ [t]) (ofCursor c) ts) (hk : ∀ t ∈ toks, t.kind ≠ .close)
    (ht : t.kind = .close) :
    ∃ u r d, c.rest = u ++ '}' :: '}' :: r ∧ '}' ∉ u ∧ Lexes (toks.map Token.kind) u ∧
      ts = ofCursor d ∧ d.rest = r := by
  induction toks generalizing c with
  | nil =>
    obtain ⟨gap, text, n, hc, hg, hr, d, hd, h⟩ := reads_ofCursor_cons h
    rw [ht] at hr
    obtain ⟨-, rfl, rest, rfl⟩ | ⟨hn, -⟩ := Token.read?_eq_some hr
    · cases h
      exact ⟨gap, rest, d, hc, brace_not_mem_blank hg, .nil hg, rfl, hd⟩
    · exact absurd rfl hn
  | cons t' toks ih =>
    obtain ⟨gap, text, n, hc, hg, hr, d, hd, h⟩ := reads_ofCursor_cons h
    obtain ⟨u, r, e, hu, hb, hl, hts, he⟩ := ih h fun t hm => hk t (by simp [hm])
    obtain ⟨hclose, -⟩ | ⟨-, hn, hnw⟩ := Token.read?_eq_some hr
    · exact absurd hclose (hk t' (by simp))
    -- The word of the first token, followed by the text of the others.
    have hw : text = text.take n ++ u ++ '}' :: '}' :: r := by
      rw [List.append_assoc, ← hu, hd, List.take_append_drop]
    have hnu : '}' ∉ text.take n ++ u := List.not_mem_append hnw hb
    have hne : text.take n ++ u ≠ [] := by
      intro hnil
      rw [hw, hnil] at hr
      exact hk t' (by simp) (Prod.mk.inj (Option.some.inj hr)).1.symm
    have hr' : Token.read? (text.take n ++ u) = some (t'.kind, (text.take n).length) := by
      rw [← Token.read?_append_brace hne hnu ('}' :: r), ← hw, List.length_take_of_le hn, hr]
    refine ⟨gap ++ (text.take n ++ u), r, e, ?_, ?_, .cons hg hr' hl, hts, he⟩
    · rw [List.append_assoc, ← hw, hc]
    · exact List.not_mem_append (brace_not_mem_blank hg) hnu

end Tokens

end TextTemplate
