import TextTemplate.Proofs.Token.Source

namespace TextTemplate

/-- That a range stands for a piece of a text, of which `P` holds together with what stands in front of
it and what stands behind. -/
def Range.Marks (r : Range) (source : List Char) (P : List Char → List Char → List Char → Prop) : Prop :=
  ∃ front text rest, source = front ++ text ++ rest ∧ text ≠ [] ∧ r = .behind front text ∧
    P front text rest

theorem Range.Marks.imp {r : Range} {source : List Char}
    {P Q : List Char → List Char → List Char → Prop} (h : r.Marks source P)
    (hPQ : ∀ front text rest, P front text rest → Q front text rest) : r.Marks source Q := by
  obtain ⟨front, text, rest, ht, hne, hr, hP⟩ := h
  exact ⟨front, text, rest, ht, hne, hr, hPQ _ _ _ hP⟩

theorem nameLength_stop (text : List Char) :
    ∀ c ∈ (text.drop (nameLength text)).head?, isNameChar c = false := by
  fun_induction nameLength text with
  | case1 c text hc ih => exact ih
  | case2 c text hc =>
    intro d hd
    obtain rfl := Option.some.inj hd
    rfl
  | case3 c text hd hc ih => exact ih
  | case4 c text hd hc =>
    intro d hd
    obtain rfl := Option.some.inj hd
    simpa using hc
  | case5 =>
    intro c hc
    cases hc

theorem isNameChar_of_isDigit {c : Char} (h : c.isDigit) : isNameChar c := by
  simp [isNameChar, Char.isAlphanum, h]

theorem head?_dropWhile_isDigit (text : List Char) :
    ∀ c ∈ (text.dropWhile Char.isDigit).head?, c.isDigit = false := by
  intro c hc
  have := List.head?_dropWhile_not Char.isDigit text
  rw [Option.mem_def.1 hc] at this
  simpa using this

namespace Token

theorem drop_length_takeWhile (p : Char → Bool) (text : List Char) :
    text.drop (text.takeWhile p).length = text.dropWhile p := by
  calc text.drop (text.takeWhile p).length
      = (text.takeWhile p ++ text.dropWhile p).drop (text.takeWhile p).length := by
        rw [List.takeWhile_append_dropWhile]
    _ = text.dropWhile p := List.drop_left

theorem read?_stop {text : List Char} {k : Kind} {n : Nat} (h : read? text = some (k, n)) :
    ∀ a ∈ (text.take n).getLast?, a.isDigit → ∀ b ∈ (text.drop n).head?, b.isDigit = false := by
  intro a ha hd b hb
  unfold read? at h
  split at h
  case h_7 =>
    obtain h | ⟨-, h⟩ := Option.or_eq_some_iff.1 h
    · simp only [number?] at h
      split at h
      · cases h
        rw [drop_length_takeWhile] at hb
        exact head?_dropWhile_isDigit text b hb
      · cases h
    · cases text with
      | nil => cases h
      | cons c text =>
        simp only [name?] at h
        split at h
        · cases h
          have hn := nameLength_stop text b hb
          by_contra hbd
          rw [isNameChar_of_isDigit (by simpa using hbd)] at hn
          cases hn
        · cases h
  all_goals
    cases h
    obtain rfl := Option.some.inj ha
    cases hd

theorem bound_le_of_read? {text : List Char} (h : read? text = none)
    (hd : text.takeWhile Char.isDigit ≠ []) :
    numberBound ≤ decimalValue (text.takeWhile Char.isDigit) := by
  by_contra hb
  have hn : number? text = some (.number (decimalValue (text.takeWhile Char.isDigit)),
      (text.takeWhile Char.isDigit).length) := by
    simp only [number?]
    exact if_pos ⟨hd, Nat.lt_of_not_le hb⟩
  unfold read? at h
  split at h
  case h_7 =>
    rw [hn] at h
    cases h
  all_goals cases h

end Token

/-- That a piece of text is no token for the reason that a cause tells. -/
def Cause.Blocks : Cause → List Char → List Char → List Char → Prop
  | loneBrace, _, text, _ => text = ['}']
  | unknownToken shown, front, text, rest => text = shown.toList ∧
    ((∃ c, text = [c] ∧ c.isDigit = false) ∨
      text = (text ++ rest).takeWhile Char.isDigit ∧ numberBound ≤ decimalValue text ∧
        ∀ c ∈ front.getLast?, c.isDigit = false)
  | _, _, _, _ => False

/-- That a cursor stands in a source text behind `front`, and not within a run of digits. -/
structure Cursor.StandsIn (source front : List Char) (c : Cursor) : Prop where
  text : source = front ++ c.rest
  position : c.position = .advance {} front
  apart : ∀ a ∈ front.getLast?, a.isDigit → ∀ b ∈ c.rest.head?, b.isDigit = false

namespace Cursor

variable {source front : List Char} {c d : Cursor}

theorem StandsIn.ahead (h : c.StandsIn source front) (n : Nat) :
    c.ahead n = .behind front (c.rest.take n) := by
  rw [Cursor.ahead, h.position, Range.behind_eq]

theorem standsIn_ofText (text : String) : (Cursor.ofText text).StandsIn text.toList [] :=
  ⟨rfl, rfl, nofun⟩

theorem StandsIn.next (h : c.StandsIn source front) {t : Token} (hn : c.next = (.ok (some t), d)) :
    ∃ gap word, d.StandsIn source (front ++ gap ++ word) ∧ t.range = .behind (front ++ gap) word ∧
      t.kind.WrittenAs word ∧ Token.read? (word ++ d.rest) = some (t.kind, word.length) := by
  obtain ⟨gap, word, hc, hg, hw, hread, hrange, hd⟩ := eq_of_next hn
  refine ⟨gap, word, ⟨?_, ?_, ?_⟩, ?_, ?_, hread⟩
  · rw [h.text, hc]
    simp
  · rw [hd, h.position, ← Position.advance_append, List.append_assoc]
  · have hs := Token.read?_stop hread
    rw [List.take_left, List.drop_left] at hs
    intro a ha
    rw [List.getLast?_append_of_ne_nil _ hw] at ha
    exact hs a ha
  · rw [hrange, h.position, ← Position.advance_append, ← Position.advance_append, Range.behind,
      List.append_assoc]
  · have hw := Token.writtenAs_of_read? hread
    rwa [List.take_left] at hw

theorem StandsIn.next_none (h : c.StandsIn source front) (hn : c.next = (.ok none, d)) :
    d.ahead 0 = .behind source [] := by
  obtain ⟨hb, hr, hp⟩ := eq_of_next_none hn
  have hs : d.position = .advance {} source := by
    rw [hp, h.position, ← Position.advance_append, ← h.text]
  rw [Cursor.ahead, hr, hs, Range.behind_eq]
  rfl

theorem StandsIn.gives (h : c.StandsIn source front) {toks : List Token} (hg : c.Gives toks d) :
    ∃ front, d.StandsIn source front := by
  induction hg generalizing front with
  | nil c => exact ⟨front, h⟩
  | cons hn hr ih =>
    obtain ⟨gap, word, hd, -⟩ := h.next hn
    exact ih hd

theorem StandsIn.reach (h : c.StandsIn source front) {toks : List Token} {r : Range}
    (hg : c.Gives toks d) (hr : Tokens.reach toks = some r) :
    r.Marks source fun _ text _ => Written (toks.map Token.kind) text := by
  have hne : toks ≠ [] := by
    rintro rfl
    cases hr
  obtain ⟨gap, text, hc, -, htext, hw, hreach, -⟩ := hg.written hne
  rw [hr] at hreach
  refine ⟨front ++ gap, text, d.rest, ?_, htext, ?_, hw⟩
  · rw [h.text, hc]
    simp
  · rw [Option.some.inj hreach, h.position, ← Position.advance_append, ← Position.advance_append,
      Range.behind, List.append_assoc]

theorem StandsIn.apart_blanks (h : c.StandsIn source front) {gap rest : List Char}
    (hc : c.rest = gap ++ rest) (hg : Blank gap) :
    ∀ a ∈ (front ++ gap).getLast?, a.isDigit → ∀ b ∈ rest.head?, b.isDigit = false := by
  intro a ha hd
  by_cases hn : gap = []
  · subst hn
    rw [List.append_nil] at ha
    rw [List.nil_append] at hc
    rw [← hc]
    exact h.apart a ha hd
  · rw [List.getLast?_append_of_ne_nil _ hn] at ha
    have hb := hg a (List.mem_of_getLast? ha)
    simp only [isBlank, Bool.or_eq_true, decide_eq_true_eq] at hb
    obtain (((rfl | rfl) | rfl) | rfl) | rfl := hb <;> cases hd

/-- What is in the way where no token can be read: a brace, another character, or digits that make too
large a number. -/
theorem StandsIn.next_error (h : c.StandsIn source front) {fault : Fault}
    (hn : c.next = (.error fault, d)) : fault.range.Marks source fault.cause.Blocks := by
  obtain ⟨gap, hc, hg, hp, hne, hread, rfl⟩ := eq_of_next_error hn
  have hapart := h.apart_blanks hc hg
  have hd : d.StandsIn source (front ++ gap) := by
    refine ⟨?_, ?_, hapart⟩
    · rw [h.text, hc, List.append_assoc]
    · rw [hp, h.position, ← Position.advance_append]
  obtain ⟨a, rest, hrest⟩ := List.exists_cons_of_ne_nil hne
  refine ⟨front ++ gap, d.rest.take d.blameLength, d.rest.drop d.blameLength, ?_, ?_, hd.ahead _, ?_⟩
  · rw [List.append_assoc, List.take_append_drop]
    exact hd.text
  · rw [hrest, blameLength]
    simp
  -- A number that is too large is to blame with all its digits, anything else with one character.
  · by_cases ha : a.isDigit
    · have hdigits : d.rest.takeWhile Char.isDigit ≠ [] := by
        rw [hrest, List.takeWhile_cons_of_pos ha]
        nofun
      have hlength : d.blameLength = (d.rest.takeWhile Char.isDigit).length :=
        max_eq_left (List.length_pos_iff.2 hdigits)
      have htake : d.rest.take d.blameLength = d.rest.takeWhile Char.isDigit := by
        rw [hlength]
        exact (List.prefix_iff_eq_take.1 (List.takeWhile_prefix _)).symm
      have hbrace : d.rest.head? ≠ some '}' := by
        rw [hrest]
        rintro ⟨rfl⟩
        cases ha
      simp only [fault, if_neg hbrace]
      refine ⟨String.toList_ofList.symm, .inr ⟨?_, ?_, ?_⟩⟩
      · rw [List.take_append_drop, htake]
      · rw [htake]
        exact Token.bound_le_of_read? hread hdigits
      · intro b hb
        by_contra hbd
        have := hapart b hb (by simpa using hbd) a (by rw [hrest]; rfl)
        rw [this] at ha
        cases ha
    · have htake : d.rest.take d.blameLength = [a] := by
        rw [blameLength, hrest, List.takeWhile_cons_of_neg ha]
        rfl
      by_cases hbrace : d.rest.head? = some '}'
      · simp only [fault, if_pos hbrace]
        rw [hrest] at hbrace
        rw [htake]
        exact congrArg ([·]) (Option.some.inj hbrace)
      · simp only [fault, if_neg hbrace]
        refine ⟨String.toList_ofList.symm, .inl ⟨a, htake, by simpa using ha⟩⟩

end Cursor

end TextTemplate
